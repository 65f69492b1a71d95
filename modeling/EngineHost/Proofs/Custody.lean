import EngineHost.Proofs.Interruption
import EngineHost.Proofs.Replies
import EngineHost.Proofs.Destroyed

/-!
What becomes of the handles that somebody is to release, while the engine takes back what it is given: they
stay with him or have been given back. So a call of a host function that has returned has given back the
callbacks that it was made with, whatever the function did with them.
-/
namespace EngineHost

open Host

variable {S : Embedding} {E : Engine S.State} {w w' w'' : World S.watched} {α β : Type}

/-- What somebody was to release he still is, unless the engine has been given it back. -/
def Honours (w w' : World S.watched) : Prop :=
  ∃ new, w'.engine.notes.calls = w.engine.notes.calls ++ new ∧
    ∀ t a, OwnedBy 0 w.nodes t a → OwnedBy 0 w'.nodes t a ∨ EngineCall.drop t ∈ new

/-- Objects come and are adopted, and change in nothing else. -/
def Adds (x : Host S.watched α) : Prop :=
  ∀ w, w.engine.notes.Later (exec x w).2.engine.notes ∧
    ∀ (id : Nat) (n : Node), w.nodes[id]? = some n →
      ∃ owned, (exec x w).2.nodes[id]? = some { n with owned }

namespace Adds

theorem spares {x : Host S.watched α} (hx : Spares x) : Adds x := by
  intro w
  obtain ⟨hnodes, hlater⟩ := hx w
  refine ⟨hlater, fun id n hn => ⟨n.owned, ?_⟩⟩
  rw [hnodes]
  exact hn

theorem looks {x : Host S.watched α} (hx : Looks x) : Adds x :=
  spares (.looks hx)

theorem bind {x : Host S.watched α} {k : α → Host S.watched β} (hx : Adds x) (hk : ∀ a, Adds (k a)) :
    Adds (x >>= k) := by
  intro w
  obtain ⟨hlater, hnodes⟩ := hx w
  rw [exec_bind]
  cases hp : exec x w with
  | mk r w' =>
    rw [hp] at hlater hnodes
    cases r with
    | error f => exact ⟨hlater, hnodes⟩
    | ok a =>
      obtain ⟨hlater', hnodes'⟩ := hk a w'
      refine ⟨hlater.trans hlater', fun id n hn => ?_⟩
      obtain ⟨owned, hn'⟩ := hnodes id n hn
      exact hnodes' id { n with owned } hn'

theorem addNode (role : Role) (handle : Option Value) :
    Adds (Host.addNode role handle : Host S.watched Nat) := by
  intro w
  refine ⟨.refl _, fun id n hn => ⟨n.owned, ?_⟩⟩
  rw [exec_addNode]
  exact (List.getElem?_append_left (List.getElem?_eq_some_iff.mp hn).1).trans hn

theorem adopt (owner : Nat) (v : Value) : Adds (Host.adopt owner v : Host S.watched Unit) := by
  refine bind (looks (.checkLive owner)) fun _ w => ⟨.refl _, fun id n hn => ?_⟩
  rw [exec_modifyNode, List.getElem?_modify, hn]
  by_cases hid : owner = id
  · exact ⟨n.owned ++ [v], by simp [hid]⟩
  · exact ⟨n.owned, by simp [hid]⟩

theorem newScope : Adds (Scope.create E.watched) :=
  bind (spares (.noted _ _)) fun _ => bind (addNode _ _) fun _ =>
    bind (spares (.write _)) fun _ => looks (.pure _)

theorem newEvaluator : Adds (Evaluator.create E.watched) :=
  bind (spares (.noted _ _)) fun _ => bind (addNode _ _) fun _ =>
    bind (spares (.write _)) fun _ => looks (.pure _)

theorem compile (id : Nat) (source : Value) : Adds (Scope.compile E.watched id source) :=
  bind (looks (.liveHandle id)) fun _ => bind (spares (.noted _ _)) fun _ =>
    bind (addNode _ _) fun _ => bind (adopt _ _) fun _ =>
      bind (spares (.write _)) fun _ => looks (.pure _)

theorem receive (id : Nat) (value block : Value) :
    Adds (Host.receive id value block : Host S.watched Value) := by
  unfold Host.receive
  split
  · exact looks (.check _)
  · refine bind (looks (.checkLive id)) fun _ => bind (addNode _ _) fun _ => ?_
    exact bind (adopt _ _) fun _ => looks (.pure _)

end Adds

/-- A computation under which the notes are continued. -/
def Advances (x : Host S.watched α) : Prop :=
  ∀ w : World S.watched, w.engine.notes.Later (exec x w).2.engine.notes

namespace Advances

theorem still {x : Host S.watched α} (hx : ∀ w, (exec x w).2.engine = w.engine) : Advances x := by
  intro w
  rw [hx w]
  exact .refl _

theorem adds {x : Host S.watched α} (hx : Adds x) : Advances x :=
  fun w => (hx w).1

theorem looks {x : Host S.watched α} (hx : Looks x) : Advances x :=
  still fun w => by rw [hx w]

theorem bind {x : Host S.watched α} {k : α → Host S.watched β} (hx : Advances x) (hk : ∀ a, Advances (k a)) :
    Advances (x >>= k) := by
  intro w
  have hlater := hx w
  rw [exec_bind]
  cases hp : exec x w with
  | mk r w' =>
    rw [hp] at hlater
    cases r with
    | ok a => exact hlater.trans (hk a w')
    | error f => exact hlater

theorem dropHandle (kind : ResourceKind) (h : Value) :
    Advances (Host.dropHandle E.watched kind h : Host S.watched Unit) := by
  intro w
  rw [exec_dropHandle_any]
  by_cases hkind : kind = .args
  · subst hkind
    exact .refl _
  · rw [Engine.drop_watched hkind]
    exact Notes.later_add ..

theorem releaseEach {destroy : Nat → Host S.watched Unit} (hdestroy : ∀ id, Advances (destroy id))
    (owned : List Value) : Advances (Host.releaseEach destroy owned) := by
  induction owned with
  | nil => exact looks (.pure ())
  | cons v rest ih =>
    refine bind (looks (.resource v)) fun r => ?_
    dsimp only
    split
    · exact bind (hdestroy r.1) fun _ => ih
    · exact ih

theorem releaseOwnedWith {destroy : Nat → Host S.watched Unit} (hdestroy : ∀ id, Advances (destroy id))
    (id : Nat) : Advances (Host.releaseOwnedWith destroy id) :=
  bind (bind (looks (.node id)) fun _ => bind (still fun _ => rfl) fun _ => looks (.pure _))
    fun owned => releaseEach hdestroy owned.reverse

theorem destroyWithin (fuel id : Nat) : Advances (Host.destroyWithin E.watched fuel id) := by
  induction fuel generalizing id with
  | zero => exact looks (.fail _)
  | succ fuel ih =>
    refine bind (looks (.liveHandle id)) fun handle => bind (releaseOwnedWith ih id) fun _ => ?_
    refine bind (still fun _ => rfl) fun _ => bind (looks (.node id)) fun n => ?_
    refine bind (still fun _ => rfl) fun _ => bind (dropHandle _ _) fun _ => ?_
    split
    · exact still fun _ => rfl
    · exact looks (.pure _)

theorem destroy (id : Nat) : Advances (Host.destroy E.watched id) :=
  bind (looks fun _ => rfl) fun _ => destroyWithin _ id

theorem recompile (id : Nat) (source : Value) : Advances (Script.recompile E.watched id source) := by
  refine bind (looks (.liveHandle id)) fun handle => bind (releaseOwnedWith destroy id) fun _ => ?_
  refine bind (fun _ => Notes.later_add ..) fun _ => bind (looks (.scriptOf id)) fun home => ?_
  refine bind (still fun _ => rfl) fun _ => ?_
  exact bind (looks (.node id)) fun _ => still fun _ => rfl

theorem release (id : Nat) : Advances (Args.release E.watched id) := by
  refine bind (looks (.liveCall id)) fun call => bind (still fun _ => rfl) fun _ => ?_
  refine bind (releaseOwnedWith destroy id) fun _ => bind (looks (.callOf id)) fun call w => ?_
  exact (Tends.dropAll _ w).2

theorem valueAt (id position : Nat) : Advances (Args.valueAt id position : Host S.watched Value) := by
  refine bind (looks (.callOf id)) fun call => ?_
  split
  · exact looks (.pure _)
  · exact looks (.fail _)
  · refine bind (adds (.receive id _ _)) fun v => bind (looks (.callOf id)) fun call => ?_
    exact bind (still fun _ => rfl) fun _ => looks (.pure _)

end Advances

theorem Turn.later (h : Turn E w w') : w.engine.notes.Later w'.engine.notes := by
  cases h with
  | aside hnodes hlater => exact hlater
  | newScope => exact Advances.adds .newScope w
  | newEvaluator => exact Advances.adds .newEvaluator w
  | compile source hn hkind => exact Advances.adds (.compile _ source) w
  | newArgs signature entries => exact Advances.adds (.addNode _ _) w
  | receive value block hn hkind => exact Advances.adds (.receive _ value block) w
  | read position hn hkind => exact Advances.valueAt _ position w
  | setScope types' symbols' hn hrole => exact .refl _
  | destroy id => exact Advances.destroy id w
  | recompile source hn hkind => exact Advances.recompile _ source w
  | release hn hkind => exact Advances.release _ w

theorem Progress.later (h : Progress E w w') : w.engine.notes.Later w'.engine.notes := by
  induction h with
  | refl => exact .refl _
  | tail _ hturn ih => exact ih.trans hturn.later

/-- What is given back in full without a refusal has been noted handle by handle. -/
theorem giveBack_unrefused {ts : List Token} {s s' : Watched S.State} {r : Except Failure Unit}
    (hkinds : ∀ t ∈ ts, t.1 ≠ .args) (h : (E.watched.giveBack ts).run.run s = (r, s'))
    (hr : s'.notes.refused = []) :
    r = .ok () ∧ s'.notes.calls = s.notes.calls ++ ts.map .drop := by
  cases r with
  | ok u =>
    have hnotes := Engine.giveBack_watched_ok hkinds h
    exact ⟨rfl, by rw [hnotes]⟩
  | error f =>
    obtain ⟨given, t, missing, -, hnotes⟩ := Engine.giveBack_watched_error hkinds h
    rw [hnotes] at hr
    simp at hr

/-- Objects that go on holding what they held. -/
theorem Host.OwnedBy.mono {nodes nodes' : List Node} {t : Token} {a : Nat}
    (hnodes : ∀ (id : Nat) (n : Node), nodes[id]? = some n → ∃ n', nodes'[id]? = some n' ∧
      n'.role.parent? = n.role.parent? ∧ ∀ t q, Holds n t q → Holds n' t q)
    (h : OwnedBy 0 nodes t a) : OwnedBy 0 nodes' t a := by
  obtain ⟨id, q, n, hb, hn, hholds, hkeeper⟩ := h
  obtain ⟨n', hn', hparent, hkeeps⟩ := hnodes id n hn
  refine ⟨id, q, n', hb, hn', hkeeps t q hholds, ?_⟩
  cases q with
  | none => exact hparent.trans hkeeper
  | some i => exact hkeeper

/-- Once an argument has been read, its call holds the others. -/
theorem Host.OwnedBy.read {nodes : List Node} {id i a : Nat} {n : Node} {call : Call} {t : Token} (v : Value)
    (hn : nodes[id]? = some n) (hrole : n.role = .args call) (h : OwnedBy 0 nodes t a) :
    OwnedBy 0 (nodes.modify id fun n => { n with role := readRole call i v }) t a ∨
      a = id ∧ Holds n t (some i) := by
  obtain ⟨j, q, m, hb, hm, hholds, hkeeper⟩ := h
  by_cases hj : id = j
  · subst hj
    obtain rfl := Option.some.inj (hn.symm.trans hm)
    by_cases hq : q = some i
    · subst hq
      exact .inr ⟨(Option.some.inj hkeeper).symm, hholds⟩
    · have hparent : n.role.parent? = (readRole call i v).parent? := by rw [hrole]; rfl
      refine .inl ⟨id, q, { n with role := readRole call i v }, hb, by simp [hn],
        (holds_read hrole t q).mpr ⟨hholds, hq⟩, ?_⟩
      cases q with
      | none => exact hparent.symm.trans hkeeper
      | some k => exact hkeeper
  · exact .inl ⟨j, q, m, hb, by simp [hj, hm], hholds, hkeeper⟩

/-- A release that no refusal breaks off gives back all the handles of the call, and changes nothing else. -/
theorem release_unrefused (hw : Tended w) {id : Nat} {n : Node} {call : Call} (hn : w.nodes[id]? = some n)
    (hrole : n.role = .args call) (hopen : call.released = false)
    (hr : (exec (Args.release E.watched id) w).2.engine.notes.refused = []) :
    ∃ order w', exec (Args.release E.watched id) w = (.ok (), w') ∧
      w'.engine.notes.calls = w.engine.notes.calls ++ (handlesOf w.nodes order call).map .drop ∧
      w'.nodes = fell order (bare [id] (markReleased id call w).nodes) := by
  rw [exec_release_open hn hrole hopen] at hr ⊢
  obtain ⟨k, hk, hunwound⟩ := unwound_release (E := E) call hw.kin hn
  have hout : id ∉ below (pruned w.nodes) (w.nodes.length + 1) k :=
    not_mem_below hw.kin.thicket.forest (Nat.zero_le id) hk
  have htokens := hw.kin.tokens (below (pruned w.nodes) (w.nodes.length + 1) k)
  generalize below (pruned w.nodes) (w.nodes.length + 1) k = order at hunwound hout htokens
  rw [exec_bind] at hr ⊢
  generalize exec (Host.releaseOwned E.watched id) (markReleased id call w) = q at hunwound hr ⊢
  cases hunwound with
  | stuck split given token refused line after aside =>
    rw [Engine.drop_watched_error (htokens _ (by simp [split, tokensOf, token])) refused] at hr
    simp at hr
  | @done w₂ given after aside =>
    have hn₂ : w₂.nodes[id]? = some { n with role := releasedRole call, owned := [] } := by
      rw [after, fell_getElem?, bare_getElem?, markReleased_self call hn]
      simp [hout]
    have hcalls₁ := Engine.giveBack_watched_ok htokens given
    simp only [exec_bind, exec_callOf hn₂ rfl, exec_dropAll_any] at hr ⊢
    obtain ⟨hok, hcalls₂⟩ := giveBack_unrefused (by simp) (Prod.eta _).symm hr
    refine ⟨order, _, Prod.ext hok rfl, ?_, ?_⟩
    · dsimp only at hcalls₂ ⊢
      rw [handlesOf, List.map_append, ← List.append_assoc]
      refine hcalls₂.trans ?_
      rw [hcalls₁]
      rfl
    · exact after

namespace Honours

theorem refl (w : World S.watched) : Honours w w :=
  ⟨[], (List.append_nil _).symm, fun _ _ ht => .inl ht⟩

theorem trans (h : Honours w w') (h' : Honours w' w'') : Honours w w'' := by
  obtain ⟨new, hcalls, howned⟩ := h
  obtain ⟨new', hcalls', howned'⟩ := h'
  refine ⟨new ++ new', by rw [hcalls', hcalls, List.append_assoc], fun t a ht => ?_⟩
  rcases howned t a ht with hstill | hgiven
  · exact (howned' t a hstill).imp_right (List.mem_append_right _)
  · exact .inr (List.mem_append_left _ hgiven)

theorem holding (hlater : w.engine.notes.Later w'.engine.notes)
    (hnodes : ∀ (id : Nat) (n : Node), w.nodes[id]? = some n → ∃ n', w'.nodes[id]? = some n' ∧
      n'.role.parent? = n.role.parent? ∧ ∀ t q, Holds n t q → Holds n' t q) : Honours w w' := by
  obtain ⟨new, hnew⟩ := hlater.calls
  exact ⟨new, hnew.symm, fun t a howned => .inl (howned.mono hnodes)⟩

theorem aside (hnodes : w'.nodes = w.nodes) (hlater : w.engine.notes.Later w'.engine.notes) :
    Honours w w' :=
  holding hlater fun _ n hn => ⟨n, hnodes ▸ hn, rfl, fun _ _ hholds => hholds⟩

theorem looks {x : Host S.watched α} (hx : Looks x) (w : World S.watched) : Honours w (exec x w).2 := by
  rw [hx w]
  exact refl w

theorem adds {x : Host S.watched α} (hx : Adds x) (w : World S.watched) : Honours w (exec x w).2 := by
  obtain ⟨hlater, hnodes⟩ := hx w
  refine holding hlater fun id n hn => ?_
  obtain ⟨owned, hn'⟩ := hnodes id n hn
  exact ⟨_, hn', rfl, fun t q hholds => (holds_owned n owned t q).mpr hholds⟩

theorem setScope {id : Nat} {n : Node} {issued : Value} {types types' : Registry}
    {symbols symbols' : SymbolTable} (hn : w.nodes[id]? = some n)
    (hrole : n.role = .scope issued types symbols) :
    Honours w (exec (setRole id (.scope issued types' symbols')) w).2 := by
  refine holding (.refl _) fun j m hm => ?_
  rw [exec_setRole, List.getElem?_modify, hm]
  by_cases hj : id = j
  · subst hj
    obtain rfl := Option.some.inj (hn.symm.trans hm)
    refine ⟨{ n with role := .scope issued types' symbols' }, by simp, by rw [hrole]; rfl, fun t q hholds => ?_⟩
    cases q with
    | none =>
      have hkind : n.role.kind = .scope := by rw [hrole]; rfl
      exact ⟨hkind.symm.trans hholds.1, hholds.2⟩
    | some i =>
      obtain ⟨call, entry, hargs, -⟩ := hholds
      cases hrole.symm.trans hargs
  · exact ⟨m, by simp [hj], rfl, fun _ _ hholds => hholds⟩

/-- Resources go and their handles are given back; other objects keep theirs. -/
theorem felled {order : List Nat}
    (hcalls : w'.engine.notes.calls = w.engine.notes.calls ++ (tokensOf w.nodes order).map .drop)
    (hnodes : ∀ (id : Nat) (n : Node), w.nodes[id]? = some n → ∃ n', w'.nodes[id]? = some n' ∧
      n'.role = n.role ∧ (id ∉ order → n'.handle = n.handle)) : Honours w w' := by
  refine ⟨_, hcalls, fun t a howned => ?_⟩
  obtain ⟨id, q, n, hb, hn, hholds, hkeeper⟩ := howned
  obtain ⟨n', hn', hrole, hhandle⟩ := hnodes id n hn
  cases q with
  | some i =>
    obtain ⟨call, entry, hargs, hrest⟩ := hholds
    exact .inl ⟨id, some i, n', hb, hn', ⟨call, entry, hrole.trans hargs, hrest⟩, hkeeper⟩
  | none =>
    by_cases hgone : id ∈ order
    · exact .inr (List.mem_map_of_mem (mem_tokensOf.mpr ⟨id, hgone, n, hn, hholds⟩))
    · refine .inl ⟨id, none, n', hb, hn', ⟨hrole ▸ hholds.1, (hhandle hgone).trans hholds.2⟩, ?_⟩
      exact (congrArg Role.parent? hrole).trans hkeeper

theorem destroy (hw : Tended w) (id : Nat)
    (hr : (exec (Host.destroy E.watched id) w).2.engine.notes.refused = []) :
    Honours w (exec (Host.destroy E.watched id) w).2 := by
  by_cases hlive : ∃ n, w.nodes[id]? = some n ∧ n.handle.isSome
  · obtain ⟨n, hn, hlive⟩ := hlive
    have hunwound := Tends.unwound_destroy (E := E) hw.kin hn hlive
    obtain ⟨w', hq, hnodes, hnotes⟩ := hunwound.unrefused (hw.kin.tokens _) hr
    rw [hq]
    refine felled (by rw [hnotes]) fun j m hm => ?_
    have hfelled := congrArg (·[j]?) hnodes
    simp only [forgotten_getElem?, fell_getElem?, hm, Option.map_some] at hfelled
    refine ⟨_, hfelled, ?_, fun hout => ?_⟩
    · simp only [spared]
      split <;> rfl
    · simp [spared, hout]
  · obtain ⟨f, hf⟩ := exec_destroy_dead (E := E.watched) hlive
    rw [hf]
    exact refl w

theorem releaseOwned (hw : Tended w) {id : Nat} {n : Node} (hn : w.nodes[id]? = some n)
    (hr : (exec (Host.releaseOwned E.watched id) w).2.engine.notes.refused = []) :
    Honours w (exec (Host.releaseOwned E.watched id) w).2 := by
  obtain ⟨k, hk, hunwound⟩ := Tends.unwound_releaseOwned (E := E) hw.kin hn
  obtain ⟨w', hq, hnodes, hnotes⟩ := hunwound.unrefused (hw.kin.tokens _) hr
  rw [hq]
  refine felled (by rw [hnotes]) fun j m hm => ?_
  have hfelled := congrArg (·[j]?) hnodes
  simp only [fell_getElem?, bare_getElem?, hm, Option.map_some] at hfelled
  refine ⟨_, hfelled, ?_, fun hout => ?_⟩
  · split <;> split <;> rfl
  · simp only [hout, if_false]
    split <;> rfl

/-- What a script knows itself by is no handle. -/
theorem recompiled {id : Nat} {source : Value} {result : Except Failure Unit}
    (hlater : w.engine.notes.Later w'.engine.notes)
    (hnodes : w'.nodes = w.nodes.modify id fun n => { n with role := recompiledRole n.role source result }) :
    Honours w w' := by
  have hsame : ∀ (n : Node) (t : Token) (q : Option Nat), Holds n t q →
      Holds { n with role := recompiledRole n.role source result } t q := by
    intro n t q hholds
    obtain ⟨role, handle, owned⟩ := n
    cases role <;> cases result <;> cases q <;> first | exact hholds | simp [Holds] at hholds
  refine holding hlater fun j m hm => ?_
  rw [hnodes, List.getElem?_modify, hm]
  by_cases hj : id = j
  · refine ⟨{ m with role := recompiledRole m.role source result }, by simp [hj], ?_, hsame m⟩
    obtain ⟨role, handle, owned⟩ := m
    cases role <;> cases result <;> rfl
  · exact ⟨m, by simp [hj], rfl, fun _ _ hholds => hholds⟩

theorem recompile (hw : Tended w) {id : Nat} {n : Node} (source : Value) (hn : w.nodes[id]? = some n)
    (hkind : n.role.kind = .script)
    (hr : (exec (Script.recompile E.watched id source) w).2.engine.notes.refused = []) :
    Honours w (exec (Script.recompile E.watched id source) w).2 := by
  obtain ⟨home, old, hrole⟩ := script_of_kind hkind
  cases hh : n.handle with
  | none =>
    have hgone : Destroyed .script id w := ⟨n, hn, hkind, hh⟩
    have hexec : exec (Script.recompile E.watched id source) w =
        (.error (.host (.useAfterDestroy .script)), w) := hgone.liveHandle_bind _
    rw [hexec]
    exact refl w
  | some h =>
    have hreleased := releaseOwned (E := E) hw hn
    have hroles := KeepsRoles.releaseOwned (E := E.watched) id w id
    cases hp : exec (Host.releaseOwned E.watched id) w with
    | mk r w₁ =>
      rw [hp] at hreleased hroles
      cases r with
      | error f =>
        rw [exec_recompile_error source hn hh hp] at hr ⊢
        exact hreleased hr
      | ok u =>
        rw [hn] at hroles
        obtain ⟨n₁, hn₁, hrole₁⟩ := Option.map_eq_some_iff.mp hroles
        obtain ⟨w₂, hexec, hengine, hnodes⟩ := exec_recompile_ok source hn hh hp hn₁
          (hrole₁.trans hrole) (Engine.noted_run ..)
        rw [hexec] at hr ⊢
        have hlater : w₁.engine.notes.Later w₂.engine.notes := by
          rw [hengine]
          exact Notes.later_add ..
        exact (hreleased (hlater.refused_nil hr)).trans (recompiled hlater hnodes)

/-- A callback that is read passes from its position to an object, which the same call is to release. -/
theorem read {id : Nat} {n : Node} (position : Nat) (hn : w.nodes[id]? = some n)
    (hkind : n.role.kind = .args) : Honours w (exec (Args.valueAt id position) w).2 := by
  obtain ⟨call, hrole⟩ := args_of_kind hkind
  rw [Args.valueAt, exec_bind, exec_callOf hn hrole]
  dsimp only
  split
  · exact refl w
  · exact looks (.fail _) w
  · rename_i entry hunread hentry
    have hheld : ∀ t, Holds n t (some position) → entry.block ≠ .null ∧ t = (.block, entry.block) := by
      intro t hholds
      obtain ⟨call', entry', hrole', -, -, hentry', hne, rfl⟩ := hholds
      obtain rfl := Role.args.inj (hrole.symm.trans hrole')
      obtain rfl := Option.some.inj (hentry.symm.trans hentry')
      exact ⟨hne, rfl⟩
    rw [exec_bind]
    by_cases hnull : entry.block = .null
    · have hreceive : (receive id entry.value entry.block : Host S.watched Value) = check (Wire.decode entry.value) := by
        rw [hnull]
        rfl
      rw [hreceive]
      rcases exec_check (S := S.watched) (Wire.decode entry.value) w with ⟨v, -, hexec⟩ | ⟨f, g, -, hexec, -⟩
      · rw [hexec]
        dsimp only
        rw [exec_bind, exec_callOf hn hrole]
        refine ⟨[], (List.append_nil _).symm, fun t a howned => ?_⟩
        rcases howned.read v hn hrole with hstill | ⟨-, hholds⟩
        · exact .inl hstill
        · exact absurd hnull (hheld t hholds).1
      · rw [hexec]
        exact refl w
    · rw [receive_block hnull]
      by_cases hlive : n.isLive = true
      · rw [exec_wrapBlock hn hlive hnull]
        dsimp only
        have hlt : id < w.nodes.length := (List.getElem?_eq_some_iff.mp hn).1
        have hne : some id ≠ some w.nodes.length := fun h => Nat.ne_of_lt hlt (Option.some.inj h)
        generalize hv : refOf w.nodes.length .block = v
        have hn₁ : (adopted (some id) v (w.nodes ++ [⟨.block id, some entry.block, []⟩]))[id]? =
            some (given (some id) v id n) := added_old hn
        rw [exec_bind, exec_callOf (n := given (some id) v id n) hn₁ hrole]
        refine ⟨[], (List.append_nil _).symm, fun t a howned => .inl ?_⟩
        have hadded : OwnedBy 0 (adopted (some id) v (w.nodes ++ [⟨.block id, some entry.block, []⟩])) t a :=
          howned.mono fun j m hm => ⟨_, added_old hm, rfl, fun t q => (holds_owned ..).mpr⟩
        rcases hadded.read v hn₁ hrole with hstill | ⟨rfl, hholds⟩
        · exact hstill
        · obtain ⟨-, rfl⟩ := hheld t ((holds_owned ..).mp hholds)
          refine ⟨w.nodes.length, none, ⟨.block a, some entry.block, []⟩, Nat.zero_le _, ?_, ⟨rfl, rfl⟩, rfl⟩
          exact (List.getElem?_modify_ne _ _ (Nat.ne_of_lt hlt)).trans (added_new hne)
      · have hdead : exec (wrapBlock id entry.block) w = (.error (.host (.useAfterDestroy .args)), w) := by
          rw [wrapBlock, exec_bind, exec_checkLive_dead hn (by simpa using hlive), hkind]
        rw [hdead]
        exact refl w

/-- Arguments that are released give back what they still hold, and their callbacks. -/
theorem release (hw : Tended w) {id : Nat} {n : Node} (hn : w.nodes[id]? = some n)
    (hkind : n.role.kind = .args) (hr : (exec (Args.release E.watched id) w).2.engine.notes.refused = []) :
    Honours w (exec (Args.release E.watched id) w).2 := by
  obtain ⟨call, hrole⟩ := args_of_kind hkind
  cases hreleased : call.released with
  | true =>
    rw [exec_release_released hn hrole hreleased]
    exact refl w
  | false =>
    obtain ⟨order, w', hexec, hcalls, hnodes⟩ := release_unrefused hw hn hrole hreleased hr
    rw [hexec]
    refine ⟨_, hcalls, fun t a howned => ?_⟩
    obtain ⟨j, q, m, hb, hm, hholds, hkeeper⟩ := howned
    have hafter : w'.nodes[j]? = (markReleased id call w).nodes[j]?.map fun n =>
        if j ∈ order then { n with handle := none, owned := [] }
          else if j ∈ [id] then { n with owned := [] } else n := by
      rw [hnodes, fell_getElem?, bare_getElem?, Option.map_map]
      congr 1
      funext n
      by_cases hgone : j ∈ order <;> by_cases hj : j ∈ [id] <;> simp [hgone, hj]
    cases q with
    | some i =>
      by_cases hj : id = j
      · subst hj
        obtain rfl := Option.some.inj (hn.symm.trans hm)
        have hunread := (holds_unreadAt hrole hreleased).mp hholds
        exact .inr (List.mem_map_of_mem (List.mem_append_right _ (mem_unreadBlocks.mpr ⟨i, hunread⟩)))
      · obtain ⟨call', entry, hrole', hrest⟩ := hholds
        rw [markReleased_other call w hj, hm, Option.map_some] at hafter
        refine .inl ⟨j, some i, _, hb, hafter, ⟨call', entry, ?_, hrest⟩, hkeeper⟩
        split
        · exact hrole'
        · split
          · exact hrole'
          · exact hrole'
    | none =>
      by_cases hgone : j ∈ order
      · exact .inr (List.mem_map_of_mem (List.mem_append_left _ (mem_tokensOf.mpr ⟨j, hgone, m, hm, hholds⟩)))
      · by_cases hj : id = j
        · -- The arguments of a call hold no handle themselves.
          subst hj
          obtain rfl := Option.some.inj (hn.symm.trans hm)
          have hparent : n.role.parent? = none := by rw [hrole]; rfl
          cases hparent.symm.trans hkeeper
        · rw [markReleased_other call w hj, hm, Option.map_some, if_neg hgone,
            if_neg (by simpa using Ne.symm hj)] at hafter
          exact .inl ⟨j, none, m, hb, hafter, hholds, hkeeper⟩

end Honours

/-- One turn, whatever it is. -/
theorem Turn.honours (h : Turn E w w') (hw : Tended w) (hr : w'.engine.notes.refused = []) : Honours w w' := by
  cases h with
  | aside hnodes hlater => exact .aside hnodes hlater
  | newScope => exact .adds .newScope w
  | newEvaluator => exact .adds .newEvaluator w
  | compile source hn hkind => exact .adds (.compile _ source) w
  | newArgs signature entries => exact .adds (.addNode _ _) w
  | receive value block hn hkind => exact .adds (.receive _ value block) w
  | read position hn hkind => exact .read position hn hkind
  | setScope types' symbols' hn hrole => exact .setScope hn hrole
  | destroy id => exact .destroy hw id hr
  | recompile source hn hkind => exact .recompile hw source hn hkind hr
  | release hn hkind => exact .release hw hn hkind hr

/-- By induction on the turns: without refusals, what somebody was to release is never lost. -/
theorem Progress.honours (h : Progress E w w') (hw : Tended w) (hr : w'.engine.notes.refused = []) :
    Honours w w' := by
  induction h with
  | refl => exact .refl w
  | @tail w₁ w₂ hbefore hturn ih =>
    exact (ih (hturn.later.refused_nil hr)).trans (hturn.honours (Progress.tends hbefore hw).1 hr)

/-- What has been released, or has gone, is to release nothing. -/
theorem not_ownedBy_of_dead (hl : Listed w.nodes) {a : Nat} {m : Node} (hm : w.nodes[a]? = some m)
    (hdead : m.isLive = false) (t : Token) : ¬ OwnedBy 0 w.nodes t a := by
  intro howned
  obtain ⟨id, q, n, -, hn, hholds, hkeeper⟩ := howned
  cases q with
  | none =>
    obtain ⟨m', hm', hlive, -⟩ := hl id a n hn (by rw [hholds.2]; rfl) hkeeper
    obtain rfl := Option.some.inj (hm.symm.trans hm')
    rw [hdead] at hlive
    cases hlive
  | some i =>
    obtain rfl := Option.some.inj hkeeper
    obtain rfl := Option.some.inj (hm.symm.trans hn)
    obtain ⟨call, entry, hrole, hopen, -⟩ := hholds
    simp [Node.isLive, hrole, hopen] at hdead

/-! ### Calls -/

/-- The arguments of a call come with the handles that were sent. -/
theorem unread_of_newArgs {S : Embedding} {E : Engine S.State} {w w₁ : World S} {scope args : Nat}
    {signature : Signature} {raw : List RawArg}
    (hargs : exec (newArgs E scope signature raw) w = (.ok args, w₁)) :
    ∃ entries, w₁.nodes[args]? = some ⟨unreadRole signature entries, none, []⟩ ∧
      entries.map Entry.block = raw.map RawArg.block := by
  have hentries : ∀ (raw : List RawArg) (w w' : World S) (entries : List Entry),
      exec (raw.mapM fun r => do pure (Entry.mk (← nameIn E scope r.symbol) r.value r.block)) w =
        (.ok entries, w') → entries.map Entry.block = raw.map RawArg.block := by
    intro raw
    induction raw with
    | nil =>
      intro w w' entries h
      obtain ⟨rfl, -⟩ : entries = [] ∧ w' = w := by
        rw [List.mapM_nil, exec_pure] at h
        obtain ⟨hnil, hsame⟩ := Prod.mk.inj h
        exact ⟨(Except.ok.inj hnil).symm, hsame.symm⟩
      rfl
    | cons r rest ih =>
      intro w w' entries h
      rw [List.mapM_cons, exec_bind, exec_bind] at h
      cases hname : exec (nameIn E scope r.symbol) w with
      | mk result w₁ =>
        rw [hname] at h
        cases result with
        | error f => cases h
        | ok name =>
          simp only [exec_pure, exec_bind] at h
          split at h
          · next others w₂ hrest =>
            obtain ⟨hsome, -⟩ := Prod.mk.inj h
            obtain rfl := Except.ok.inj hsome
            rw [List.map_cons, List.map_cons, ih w₁ w₂ others hrest]
          · cases h
  rw [newArgs, exec_bind] at hargs
  split at hargs
  · next entries w' hmap =>
    rw [exec_addNode] at hargs
    obtain ⟨hid, rfl⟩ := Prod.mk.inj hargs
    obtain rfl := Except.ok.inj hid
    exact ⟨entries, List.getElem?_concat_length, hentries raw w w' entries hmap⟩
  · cases hargs

/-- A call is to release what it was made with. -/
theorem ownedBy_of_newArgs {S : Embedding} {E : Engine S.State} {w w₁ : World S} {scope args : Nat}
    {signature : Signature} {raw : List RawArg}
    (hargs : exec (newArgs E scope signature raw) w = (.ok args, w₁)) {t : Token} (ht : t ∈ rawTokens raw) :
    OwnedBy 0 w₁.nodes t args := by
  obtain ⟨entries, hn, hblocks⟩ := unread_of_newArgs hargs
  rw [rawTokens_eq, ← hblocks] at ht
  obtain ⟨i, b, hb, hne, rfl⟩ := mem_blockTokens.mp ht
  exact ⟨args, some i, _, Nat.zero_le args, hn, (holds_unread _ _).mpr ⟨i, b, rfl, hb, hne, rfl⟩, rfl⟩

/-- Arguments that have been released still are. -/
theorem IsShut.outlasts {S : Embedding} {w w' : World S} {id : Nat} (h : IsShut id w)
    (ho : Outlasts w.nodes w'.nodes) : IsShut id w' := by
  obtain ⟨n, call, hn, hrole, hdead⟩ := h.node
  obtain ⟨n', hn', hages⟩ := ho id n hn
  obtain ⟨call', hrole'⟩ := args_of_kind ((kind_congr hages.role).trans (by rw [hrole]; rfl))
  refine ⟨call', by rw [hn', Option.map_some, hrole'], ?_⟩
  cases hreleased : call'.released with
  | true => rfl
  | false =>
    have hlive := hages.live (by simp [Node.isLive, hrole', hreleased])
    rw [hdead] at hlive
    cases hlive

section Conclusion

variable {run : RunBody S.watched} {f : FunctionId} {fn : HostFunction S.Body} {raw : List RawArg}
  {args : Nat} {w₁ w₂ : World S.watched} {r : Except Failure Value}

/-- Answering for an implementation that has ended touches no object. -/
theorem answer_aside {definition : Definition S.Body}
    (h : exec (runCallee run definition.implementation args) w₁ = (r, w₂)) :
    (exec (answer run definition args) w₁).2.nodes = w₂.nodes ∧
      w₂.engine.notes.Later (exec (answer run definition args) w₁).2.engine.notes := by
  have himplement : (exec (implement run definition args) w₁).2 = w₂ := by
    rw [implement, exec_bind, h]
    cases r with
    | ok v => exact Looks.check _ w₂
    | error g => rfl
  cases hp : exec (implement run definition args) w₁ with
  | mk result w₃ =>
    obtain rfl : w₃ = w₂ := by rw [← himplement, hp]
    rw [exec_answer_any hp]
    cases result with
    | ok wire => exact ⟨rfl, .refl _⟩
    | error g =>
      dsimp only
      split
      · exact Spares.bind (.write _) (fun _ => .looks (Turns.failureEnvelope g)) w₃
      · exact Spares.looks (Turns.failureEnvelope g) w₃

/-- From the end of its implementation, a call goes on by turns. -/
theorem progress_invoke (hfn : w.functions[f]? = some fn)
    (hargs : exec (newArgs E.watched fn.scope fn.definition.signature raw) w = (.ok args, w₁))
    (hcallee : exec (runCallee run fn.definition.implementation args) w₁ = (r, w₂)) {n : Node}
    (hn : w₂.nodes[args]? = some n) (hkind : n.role.kind = .args) (hw₂ : Tended w₂) :
    Progress E w₂ (exec (invoke E.watched run f raw) w).2 := by
  have hfind : exec (callee? (S := S.watched) f) w = (.ok fn, w) := by
    simp only [callee?, exec_bind, exec_get, hfn, exec_pure]
  obtain ⟨hnodes, hlater⟩ := answer_aside hcallee
  simp only [invoke, exec_bind, hfind, hargs, exec_attempt]
  cases hanswer : exec (answer run fn.definition args) w₁ with
  | mk result w₃ =>
    rw [hanswer] at hnodes hlater
    have haside : Turn E w₂ w₃ := .aside hnodes hlater
    cases result with
    | error g => exact .single haside
    | ok v =>
      have hw₃ := (haside.tends hw₂).1
      have hrelease : Progress E w₃ (exec (releaseArgs E.watched args) w₃).2 :=
        Turns.releaseArgs (hnodes ▸ hn) hkind hw₃
      have hw₄ := (Progress.tends hrelease hw₃).1
      cases hreleased : exec (releaseArgs E.watched args) w₃ with
      | mk outcome w₄ =>
        rw [hreleased] at hrelease hw₄
        refine .head haside (hrelease.trans ?_)
        simp only [hreleased]
        cases outcome with
        | ok u => exact .refl
        | error g =>
          dsimp only
          split
          · exact Turns.spares (.bind (.write _) fun _ => .looks (Turns.failureEnvelope g)) hw₄
          · exact Turns.looks (Turns.failureEnvelope g) hw₄

end Conclusion

/-- What a call was made with has been given back since, and there is nothing left for it to release. -/
structure Cleared (args : Nat) (raw : List RawArg) (w w' : World S.watched) : Prop where
  shut : IsShut args w'
  given : ∃ later, w'.engine.notes.calls = w.engine.notes.calls ++ later ∧
    ∀ t ∈ rawTokens raw, EngineCall.drop t ∈ later
  nothing : ∀ t, ¬ OwnedBy 0 w'.nodes t args

/-- Released arguments are to release nothing. -/
theorem IsShut.nothing {args : Nat} (h : IsShut args w) (hw : Tended w) (hr : w.engine.notes.refused = [])
    (t : Token) : ¬ OwnedBy 0 w.nodes t args := by
  obtain ⟨m, call, hm, -, hdead⟩ := h.node
  exact not_ownedBy_of_dead (hw.listed hr) hm hdead t

/-- It remains so. -/
theorem Cleared.lasts {args : Nat} {raw : List RawArg} (h : Cleared args raw w w') (hafter : Progress E w' w'')
    (hw' : Tended w') (hr : w''.engine.notes.refused = []) : Cleared args raw w w'' := by
  obtain ⟨hw'', ho⟩ := hafter.tends hw'
  obtain ⟨later, hcalls, hgiven⟩ := h.given
  obtain ⟨more, hmore⟩ := hafter.later.calls
  have hshut := h.shut.outlasts ho
  refine ⟨hshut, ⟨later ++ more, ?_, fun t ht => List.mem_append_left _ (hgiven t ht)⟩, hshut.nothing hw'' hr⟩
  rw [← hmore, hcalls, List.append_assoc]

/-- A call that has returned has given back what it was made with, whatever became of it meanwhile. -/
theorem cleared_of_invoke {run : RunBody S.watched} (hw : Tended w) (hrun : Programs E.watched run)
    {f : FunctionId} {fn : HostFunction S.Body} {raw : List RawArg} {args : Nat} {envelope : Value}
    {w₁ : World S.watched} (hfn : w.functions[f]? = some fn)
    (hargs : exec (newArgs E.watched fn.scope fn.definition.signature raw) w = (.ok args, w₁))
    (hcall : exec (invoke E.watched run f raw) w = (.ok envelope, w'))
    (hr : w'.engine.notes.refused = []) : Cleared args raw w w' := by
  have hbegun : Progress E w (exec (newArgs E.watched fn.scope fn.definition.signature raw) w).2 :=
    Turns.newArgs hw
  rw [hargs] at hbegun
  have hw₁ := (hbegun.tends hw).1
  obtain ⟨n₁, hn₁, hkind₁⟩ := node_of_newArgs hargs
  -- Between the making of the arguments and the end of the call nothing gets lost.
  have hrest : Progress E w₁ w' := by
    have hcallee : Progress E w₁ (exec (runCallee run fn.definition.implementation args) w₁).2 :=
      Turns.runCallee hrun.turns _ _ hw₁
    obtain ⟨hw₂, ho⟩ := hcallee.tends hw₁
    obtain ⟨n₂, hn₂, hkind₂⟩ := ho.kind hn₁
    have hconcluded := progress_invoke (E := E) hfn hargs rfl hn₂ (hkind₂.trans hkind₁) hw₂
    rw [hcall] at hconcluded
    exact hcallee.trans hconcluded
  have hshut := shut_of_invoke hw hrun hfn hargs hcall
  have hnothing := hshut.nothing (hrest.tends hw₁).1 hr
  obtain ⟨new, hcalls, hhonoured⟩ := hrest.honours hw₁ hr
  obtain ⟨asked, hasked⟩ := hbegun.later.calls
  refine ⟨hshut, ⟨asked ++ new, ?_, fun t ht => ?_⟩, hnothing⟩
  · rw [hcalls, ← hasked, List.append_assoc]
  · rcases hhonoured t args (ownedBy_of_newArgs hargs ht) with hstill | hgiven
    · exact absurd hstill (hnothing t)
    · exact List.mem_append_right _ hgiven

end EngineHost
