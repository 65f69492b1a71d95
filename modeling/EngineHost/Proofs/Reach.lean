import EngineHost.Proofs.Kinship
import EngineHost.Proofs.Handover
import Mathlib.Logic.Relation

/-!
The worlds that a program can come to under a watched engine, between any two of its operations and inside
host functions. In all of them objects know their owners, and while no handle has been refused, what lives
is listed by what owns it.
-/
namespace EngineHost

/-- The same programs, with the engine watched. -/
abbrev Embedding.watched (S : Embedding) : Embedding :=
  { S with State := Watched S.State }

open Host

variable {S : Embedding} {E : Engine S.State} {w w' w'' : World S.watched}

namespace Host

/-- A computation that leaves everything as it is. -/
def Looks {S : Embedding} {α : Type} (x : Host S α) : Prop := ∀ w, (exec x w).2 = w

namespace Looks

variable {S : Embedding} {α β : Type}

theorem pure (a : α) : Looks (Pure.pure a : Host S α) := fun _ => rfl

theorem fail (f : Failure) : Looks (Host.fail f : Host S α) := by
  intro w
  obtain ⟨g, hg, -⟩ := exec_fail (α := α) f w
  rw [hg]

theorem bind {x : Host S α} {k : α → Host S β} (hx : Looks x) (hk : ∀ a, Looks (k a)) :
    Looks (x >>= k) := by
  intro w
  rw [exec_bind]
  have hw := hx w
  cases hp : exec x w with
  | mk r w' =>
    rw [hp] at hw
    subst hw
    cases r with
    | ok a => exact hk a w'
    | error f => rfl

theorem check (c : Checked α) : Looks (Host.check c : Host S α) := by
  cases c with
  | ok a => exact pure a
  | error f => exact fail f

theorem node (id : Nat) : Looks (Host.node id : Host S Node) := by
  refine bind (fun _ => rfl) fun w => ?_
  cases w.nodes[id]? with
  | none => exact fail _
  | some n => exact pure n

theorem checkLive (id : Nat) : Looks (Host.checkLive id : Host S Unit) := by
  refine bind (node id) fun n => ?_
  split
  · exact pure ()
  · exact fail _

theorem liveHandle (id : Nat) : Looks (Host.liveHandle id : Host S Value) := by
  refine bind (node id) fun n => ?_
  split
  · exact pure _
  · exact fail _

theorem callOf (id : Nat) : Looks (Host.callOf id : Host S Call) := by
  refine bind (node id) fun n => ?_
  split
  · exact pure _
  · exact fail _

theorem liveCall (id : Nat) : Looks (Host.liveCall id : Host S Call) :=
  bind (checkLive id) fun _ => callOf id

theorem resource (v : Value) : Looks (Host.resource v : Host S (Nat × Node)) := by
  unfold Host.resource
  split
  · refine bind (fun _ => rfl) fun w => ?_
    split
    · split
      · exact pure _
      · exact fail _
    · exact fail _
  · exact fail _

theorem scriptOf (id : Nat) : Looks (Script.scriptOf id : Host S (Nat × Value)) := by
  refine bind (node id) fun n => ?_
  split
  · exact pure _
  · exact fail _

end Looks

end Host

theorem Host.exec_liveHandle_dead {S : Embedding} {w : World S} {id : Nat}
    (hdead : ¬ ∃ n, w.nodes[id]? = some n ∧ n.handle.isSome) :
    ∃ f, exec (liveHandle id) w = (.error f, w) := by
  cases hn : w.nodes[id]? with
  | none => exact ⟨_, by rw [liveHandle, exec_bind, exec_node_none hn]⟩
  | some n =>
    have hh : n.handle = none := Option.not_isSome_iff_eq_none.mp fun h => hdead ⟨n, hn, h⟩
    exact ⟨_, exec_liveHandle_gone hn hh⟩

/-- What has been destroyed cannot be destroyed again. -/
theorem Host.exec_destroy_dead {S : Embedding} {E : Engine S.State} {w : World S} {id : Nat}
    (hdead : ¬ ∃ n, w.nodes[id]? = some n ∧ n.handle.isSome) :
    ∃ f, exec (Host.destroy E id) w = (.error f, w) := by
  obtain ⟨f, hf⟩ := exec_liveHandle_dead hdead
  exact ⟨f, by simp only [Host.destroy, destroyWithin, exec_bind, exec_get, hf]⟩

/-- What happens to the objects of a program, one thing at a time. -/
inductive Step (E : Engine S.State) : World S.watched → World S.watched → Prop where
  /-- The engine goes on, or the program does what concerns no object. -/
  | aside {w w' : World S.watched} (hnodes : w'.nodes = w.nodes)
    (hlater : w.engine.notes.Later w'.engine.notes) : Step E w w'
  | newScope (w : World S.watched) : Step E w (exec (Scope.create E.watched) w).2
  | newEvaluator (w : World S.watched) : Step E w (exec (Evaluator.create E.watched) w).2
  | compile {w : World S.watched} {id : Nat} {n : Node} (source : Value) (hn : w.nodes[id]? = some n)
    (hkind : n.role.kind = .scope) : Step E w (exec (Scope.compile E.watched id source) w).2
  /-- A host function is called. -/
  | newArgs (w : World S.watched) (signature : Signature) (entries : List Entry) :
    Step E w (exec (addNode (.args ⟨signature, entries, [], false⟩) none) w).2
  /-- The engine answers an evaluation, or an argument is read. -/
  | receive {w : World S.watched} {id : Nat} {n : Node} (value block : Value)
    (hn : w.nodes[id]? = some n)
    (hkind : n.role.kind = .script ∨ n.role.kind = .evaluator ∨ n.role.kind = .args) :
    Step E w (exec (receive id value block) w).2
  /-- An object remembers something. -/
  | renew {w : World S.watched} {id : Nat} {n : Node} {role : Role} (hn : w.nodes[id]? = some n)
    (hfixed : fixedRole role = fixedRole n.role) (hlive : Node.isLive { n with role } = n.isLive) :
    Step E w (exec (setRole id role) w).2
  | destroy (w : World S.watched) (id : Nat) : Step E w (exec (Host.destroy E.watched id) w).2
  | recompile {w : World S.watched} {id : Nat} {n : Node} (source : Value)
    (hn : w.nodes[id]? = some n) (hkind : n.role.kind = .script) :
    Step E w (exec (Script.recompile E.watched id source) w).2
  | release {w : World S.watched} {id : Nat} {n : Node} (hn : w.nodes[id]? = some n)
    (hkind : n.role.kind = .args) : Step E w (exec (Args.release E.watched id) w).2

/-- The worlds that come about by such steps from one without objects. -/
def Reachable (E : Engine S.State) (w : World S.watched) : Prop :=
  ∃ w₀ : World S.watched, w₀.nodes = [] ∧ Relation.ReflTransGen (Step E) w₀ w

/-- What holds of every such world. -/
structure Tended (w : World S.watched) : Prop where
  kin : Kinship w.nodes
  listed : w.engine.notes.refused = [] → Listed w.nodes

/-- A change after which a world is still tended, and its objects are what they were or have died. -/
def Tends (w w' : World S.watched) : Prop :=
  Tended w → Tended w' ∧ Outlasts w.nodes w'.nodes

theorem noted_later {σ α : Type} {call : EngineCall} {x : EngineM σ α} {s s' : Watched σ}
    {r : Except Failure α} (h : (noted call x).run.run s = (r, s')) : s.notes.Later s'.notes := by
  rw [Engine.noted_run] at h
  obtain ⟨-, rfl⟩ := Prod.mk.inj h
  exact Notes.later_add ..

namespace Host.Unwound

variable {nodes : List Node} {root : Nat} {order : List Nat} {finish : List Node → List Node}
  {q : Except Failure Unit × World S.watched}

/-- Where nothing has been refused, everything has been taken back. -/
theorem unrefused (h : Unwound E.watched nodes root order finish w q)
    (hkinds : ∀ t ∈ tokensOf nodes order, t.1 ≠ .args) (hr : q.2.engine.notes.refused = []) :
    ∃ w', q = (.ok (), w') ∧ w'.nodes = finish (fell order w.nodes) ∧
      w'.engine.notes = ⟨w.engine.notes.calls ++ (tokensOf nodes order).map .drop, []⟩ := by
  cases h with
  | @done w' given after aside =>
    have hnotes := Engine.giveBack_watched_ok hkinds given
    rw [show w.engine.notes.refused = [] from by simpa [hnotes] using hr] at hnotes
    exact ⟨w', rfl, after, hnotes⟩
  | stuck split given token refused line after aside =>
    rw [Engine.drop_watched_error (hkinds _ (by simp [split, tokensOf, token])) refused] at hr
    simp at hr

theorem later (h : Unwound E.watched nodes root order finish w q)
    (hkinds : ∀ t ∈ tokensOf nodes order, t.1 ≠ .args) :
    w.engine.notes.Later q.2.engine.notes := by
  have hlater := Engine.giveBack_watched_later (E := E) hkinds w.engine
  rw [h.gives] at hlater
  exact hlater

theorem fades (h : Unwound E.watched nodes root order finish w q)
    (hfinish : ∀ ns, AllFade ns (finish ns)) : AllFade w.nodes q.2.nodes := by
  cases h with
  | done given after aside =>
    rw [after]
    exact (allFade_fell order w.nodes).trans (hfinish _)
  | stuck split given token refused line after aside =>
    rw [after]
    exact (allFade_fell _ w.nodes).trans (allFade_bare _ _)

end Host.Unwound

/-- What holds a handle is no call of a host function. -/
theorem Host.Kinship.tokens {nodes : List Node} (h : Kinship nodes) (ids : List Nat) :
    ∀ t ∈ tokensOf nodes ids, t.1 ≠ .args := by
  intro t ht hargs
  obtain ⟨id, -, n, hn, hkind, hh⟩ := mem_tokensOf.mp ht
  rw [h.args id n hn (hkind.trans hargs)] at hh
  cases hh

namespace Tends

theorem trans (h : Tends w w') (h' : Tends w' w'') : Tends w w'' := by
  intro hw
  obtain ⟨hw', ho⟩ := h hw
  obtain ⟨hw'', ho'⟩ := h' hw'
  exact ⟨hw'', ho.trans ho'⟩

theorem aside (hnodes : w'.nodes = w.nodes) (hlater : w.engine.notes.Later w'.engine.notes) :
    Tends w w' := by
  intro hw
  rw [hnodes]
  refine ⟨⟨hnodes ▸ hw.kin, fun hr => ?_⟩, .refl _⟩
  rw [hnodes]
  exact hw.listed (hlater.refused_nil hr)

/-- A new object, of a live owner if it has one. -/
theorem added (role : Role) (handle : Option Value)
    (hnodes : w'.nodes = adopted role.parent? (refOf w.nodes.length role.kind)
      (w.nodes ++ [⟨role, handle, []⟩]))
    (hlater : w.engine.notes.Later w'.engine.notes)
    (howner : ∀ p, role.parent? = some p → ∃ m, w.nodes[p]? = some m ∧ m.isLive ∧ MayOwn m.role role)
    (hargs : role.kind = .args → handle = none) : Tends w w' := by
  intro hw
  rw [hnodes]
  refine ⟨⟨?_, fun hr => ?_⟩, outlasts_added _ _ _⟩
  · rw [hnodes]
    refine hw.kin.add role handle (fun p hp => ?_) hargs
    obtain ⟨m, hm, -, hmay⟩ := howner p hp
    exact ⟨m, hm, hmay⟩
  · rw [hnodes]
    refine (hw.listed (hlater.refused_nil hr)).add role handle fun p hp => ?_
    obtain ⟨m, hm, hlive, -⟩ := howner p hp
    exact ⟨m, hm, hlive⟩

/-- Objects fade, and if no handle has been refused, live ones are still listed. -/
theorem faded (hnodes : AllFade w.nodes w'.nodes)
    (hlisted : Kinship w.nodes → Listed w.nodes → w'.engine.notes.refused = [] → Listed w'.nodes)
    (hlater : w.engine.notes.Later w'.engine.notes) : Tends w w' := by
  intro hw
  refine ⟨⟨hw.kin.fade hnodes, fun hr => ?_⟩, hnodes.outlasts⟩
  exact hlisted hw.kin (hw.listed (hlater.refused_nil hr)) hr

theorem looks {α : Type} {x : Host S.watched α} (hx : Looks x) : Tends w (exec x w).2 := by
  rw [hx w]
  exact aside rfl (.refl _)

/-- A call of the engine, and what is done with its answer. -/
theorem noted_bind {α β : Type} {call : EngineCall} {x : EngineM S.State α}
    {k : α → Host S.watched β}
    (hk : ∀ a w', w'.nodes = w.nodes → w.engine.notes.Later w'.engine.notes →
      Tends w (exec (k a) w').2) :
    Tends w (exec (onEngine (S := S.watched) (noted call x) >>= k) w).2 := by
  rw [exec_bind, exec_onEngine]
  cases hr : (noted call x).run.run w.engine with
  | mk r s' =>
    have hlater := noted_later hr
    cases r with
    | ok a => exact hk a { w with engine := s' } rfl hlater
    | error f => exact aside rfl hlater

theorem newScope : Tends w (exec (Scope.create E.watched) w).2 := by
  refine noted_bind fun handle w₁ hnodes hlater => ?_
  refine added (.scope handle .empty .empty) (handleOf handle) ?_ hlater (by simp [Role.parent?])
    (by simp [Role.kind])
  simp only [exec_bind, exec_addNode, exec_write, exec_pure, hnodes]
  rfl

theorem newEvaluator : Tends w (exec (Evaluator.create E.watched) w).2 := by
  refine noted_bind fun handle w₁ hnodes hlater => ?_
  refine added .evaluator (handleOf handle) ?_ hlater (by simp [Role.parent?]) (by simp [Role.kind])
  simp only [exec_bind, exec_addNode, exec_write, exec_pure, hnodes]
  rfl

theorem newArgs (signature : Signature) (entries : List Entry) :
    Tends w (exec (addNode (.args ⟨signature, entries, [], false⟩) none) w).2 :=
  added (.args ⟨signature, entries, [], false⟩) none rfl (.refl _) (by simp [Role.parent?])
    (fun _ => rfl)

/-- An object that is asked for its handle lives, or nothing happens. -/
theorem liveHandle_bind {β : Type} {id : Nat} {k : Value → Host S.watched β}
    (hk : ∀ n h, w.nodes[id]? = some n → n.handle = some h → Tends w (exec (k h) w).2) :
    Tends w (exec (liveHandle id >>= k) w).2 := by
  rw [exec_bind]
  by_cases hlive : ∃ n, w.nodes[id]? = some n ∧ n.handle.isSome
  · obtain ⟨n, hn, hlive⟩ := hlive
    obtain ⟨h, hh⟩ := Option.isSome_iff_exists.mp hlive
    rw [exec_liveHandle hn hh]
    exact hk n h hn hh
  · obtain ⟨f, hf⟩ := exec_liveHandle_dead hlive
    rw [hf]
    exact aside rfl (.refl _)

/-- A new object of a live owner, and what follows where no object is touched. -/
theorem addChild {α : Type} {w₁ : World S.watched} {p : Nat} {m : Node} (role : Role)
    {handle : Option Value} {k : Nat → Host S.watched α} (hm : w₁.nodes[p]? = some m)
    (hlive : m.isLive) (hparent : role.parent? = some p) (hmay : MayOwn m.role role)
    (hnodes : w₁.nodes = w.nodes) (hlater : w.engine.notes.Later w₁.engine.notes)
    (hk : ∀ id w₂, (exec (k id) w₂).2.nodes = w₂.nodes ∧ (exec (k id) w₂).2.engine = w₂.engine) :
    Tends w (exec (do
      let id ← addNode role handle
      adopt p (refOf id role.kind)
      k id) w₁).2 := by
  rw [exec_addNode_adopt role hm hlive hparent]
  refine added role handle ?_ ?_ ?_ fun hargs => absurd hargs (kind_ne_args_of_parent hparent)
  · rw [(hk _ _).1, hnodes]
  · rw [(hk _ _).2]
    exact hlater
  · intro q hq
    obtain rfl := Option.some.inj (hparent.symm.trans hq)
    exact ⟨m, hnodes ▸ hm, hlive, hmay⟩

theorem compile {id : Nat} {n : Node} {source : Value} (hn : w.nodes[id]? = some n)
    (hkind : n.role.kind = .scope) : Tends w (exec (Scope.compile E.watched id source) w).2 := by
  refine liveHandle_bind fun n' h hn' hh => ?_
  obtain rfl := Option.some.inj (hn.symm.trans hn')
  have hlive : n.isLive := by
    rw [isLive_of_handle (by simp [hkind]), hh]
    rfl
  refine noted_bind fun script w₁ hnodes hlater => ?_
  exact addChild (.script id source) (hnodes ▸ hn) hlive rfl hkind hnodes hlater
    fun _ _ => ⟨rfl, rfl⟩

theorem receive {id : Nat} {n : Node} (value block : Value) (hn : w.nodes[id]? = some n)
    (hkind : n.role.kind = .script ∨ n.role.kind = .evaluator ∨ n.role.kind = .args) :
    Tends w (exec (Host.receive id value block) w).2 := by
  by_cases hnull : block = .null
  · subst hnull
    exact looks (.check (Wire.decode value))
  · rw [receive_block hnull, wrapBlock]
    by_cases hlive : n.isLive = true
    · rw [exec_bind, exec_checkLive hn hlive]
      exact addChild (.block id) hn hlive rfl hkind rfl (.refl _) fun _ _ => ⟨rfl, rfl⟩
    · rw [exec_bind, exec_checkLive_dead hn (Bool.eq_false_iff.mpr hlive)]
      exact aside rfl (.refl _)

theorem renew {id : Nat} {n : Node} {role : Role} (hn : w.nodes[id]? = some n)
    (hfixed : fixedRole role = fixedRole n.role) (hlive : Node.isLive { n with role } = n.isLive) :
    Tends w (exec (setRole id role) w).2 := by
  have hrenewed := nodewise_setRole hn hfixed hlive
  exact faded (hrenewed.mono fun _ _ _ _ h => h.fades) (fun _ hl _ => hl.renew hrenewed) (.refl _)

/-- A resource that is not destroyed goes with all that it owns; any other is refused. -/
theorem unwound_destroy {id : Nat} {n : Node} (hk : Kinship w.nodes) (hn : w.nodes[id]? = some n)
    (hlive : n.handle.isSome) :
    Unwound E.watched w.nodes id (teardown (pruned w.nodes) (w.nodes.length + 1) id)
      (forgotten n.role.parent? (refOf id n.role.kind)) w (exec (Host.destroy E.watched id) w) := by
  have hkind : n.role.kind ≠ .args := fun hargs => by
    rw [hk.args id n hn hargs] at hlive
    cases hlive
  exact unwinds_destroy hk.thicket id n w (Nat.zero_le id) hn hlive hkind (by omega) (.refl id _ w)

theorem destroy (id : Nat) : Tends w (exec (Host.destroy E.watched id) w).2 := by
  intro hw
  by_cases hlive : ∃ n, w.nodes[id]? = some n ∧ n.handle.isSome
  · obtain ⟨n, hn, hlive⟩ := hlive
    have hunwound := unwound_destroy (E := E) hw.kin hn hlive
    refine faded (hunwound.fades fun ns => allFade_forgotten ..) ?_
      (hunwound.later (hw.kin.tokens _)) hw
    intro hk hl hr
    obtain ⟨w', hq, hnodes, -⟩ := hunwound.unrefused (hw.kin.tokens _) hr
    rw [hq, hnodes]
    exact hl.destroyed hk hn
  · obtain ⟨f, hf⟩ := exec_destroy_dead (E := E.watched) hlive
    rw [hf]
    exact aside rfl (.refl _) hw

theorem bind {α β : Type} {x : Host S.watched α} {k : α → Host S.watched β}
    (hx : Tends w (exec x w).2)
    (hk : ∀ a w', exec x w = (.ok a, w') → Tended w' → Outlasts w.nodes w'.nodes →
      Tends w' (exec (k a) w').2) :
    Tends w (exec (x >>= k) w).2 := by
  intro hw
  obtain ⟨hw', ho⟩ := hx hw
  rw [exec_bind]
  cases hp : exec x w with
  | mk r w' =>
    rw [hp] at hw' ho
    cases r with
    | ok a =>
      obtain ⟨hw'', ho'⟩ := hk a w' hp hw' ho hw'
      exact ⟨hw'', ho.trans ho'⟩
    | error f => exact ⟨hw', ho⟩

/-- An owner releases what it owns. -/
theorem unwound_releaseOwned {id : Nat} {n : Node} (hk : Kinship w.nodes)
    (hn : w.nodes[id]? = some n) : ∃ k, (pruned w.nodes)[id]? = some k ∧
      Unwound E.watched w.nodes id (below (pruned w.nodes) (w.nodes.length + 1) k) (fun ns => ns)
        { w with nodes := bare [id] w.nodes } (exec (releaseOwned E.watched id) w) := by
  obtain ⟨k, hk', -⟩ := pruned_of hn
  exact ⟨k, hk', unwound_releaseOwnedWith hk.thicket (unwinds_destroy hk.thicket) (Nat.zero_le id) hn
    hk' (by omega) hn rfl (.refl id _ w)⟩

theorem releaseOwned {id : Nat} {n : Node} (hn : w.nodes[id]? = some n) :
    Tends w (exec (Host.releaseOwned E.watched id) w).2 := by
  intro hw
  obtain ⟨k, hk, hunwound⟩ := unwound_releaseOwned (E := E) hw.kin hn
  refine faded ((allFade_bare [id] w.nodes).trans (hunwound.fades .refl)) ?_
    (hunwound.later (hw.kin.tokens _)) hw
  intro hkin hl hr
  obtain ⟨w', hq, hnodes, -⟩ := hunwound.unrefused (hw.kin.tokens _) hr
  rw [hq, hnodes]
  refine Listed.released hkin (fun j q m hm hlive hparent => ?_) hk
  obtain ⟨m', hm', hlive', hmem⟩ := hl j q m hm hlive hparent
  exact ⟨m', hm', fun _ => hlive', hmem⟩

theorem recompile {id : Nat} {n : Node} {source : Value} (hn : w.nodes[id]? = some n)
    (hkind : n.role.kind = .script) : Tends w (exec (Script.recompile E.watched id source) w).2 := by
  refine liveHandle_bind fun _ h _ _ => bind (releaseOwned hn) fun _ w₁ _ _ ho => ?_
  obtain ⟨n₁, hn₁, hkind₁⟩ := ho.kind hn
  refine noted_bind fun _ w₂ hnodes hlater => ?_
  have hn₂ : w₂.nodes[id]? = some n₁ := hnodes ▸ hn₁
  obtain ⟨home, source', hrole⟩ := script_of_kind (hkind₁.trans hkind)
  have hrenew : Tends w₂ (exec (setRole id (.script home source)) w₂).2 :=
    renew hn₂ (by rw [hrole]; rfl) (by simp [Node.isLive, hrole])
  refine trans (aside hnodes hlater) (trans hrenew (aside ?_ ?_))
  all_goals simp only [Script.scriptOf, exec_bind, exec_node_some hn₂, hrole, exec_pure, exec_setRole]
  · rw [exec_node_some (n := { n₁ with role := .script home source }) (by simp [hn₂])]
    rfl
  · rw [exec_node_some (n := { n₁ with role := .script home source }) (by simp [hn₂])]
    exact .refl _

theorem dropAll (handles : List Value) (w : World S.watched) :
    (exec (Args.dropAll E.watched handles) w).2.nodes = w.nodes ∧
      w.engine.notes.Later (exec (Args.dropAll E.watched handles) w).2.engine.notes := by
  rw [exec_dropAll_any]
  refine ⟨rfl, Engine.giveBack_watched_later ?_ w.engine⟩
  intro t ht
  obtain ⟨h, -, rfl⟩ := List.mem_map.mp ht
  exact nofun

/-- When a release comes to the handles that have not been read, it changes nothing but the engine. -/
theorem dropUnread (id : Nat) (w : World S.watched) :
    (exec (Host.callOf id >>= fun call => Args.dropAll E.watched (Args.unreadBlocks call)) w).2.nodes =
        w.nodes ∧
      w.engine.notes.Later (exec (Host.callOf id >>= fun call =>
        Args.dropAll E.watched (Args.unreadBlocks call)) w).2.engine.notes := by
  have hlooks := Looks.callOf id w
  rw [exec_bind]
  cases hc : exec (Host.callOf id) w with
  | mk r w' =>
    rw [hc] at hlooks
    subst hlooks
    cases r with
    | ok call => exact dropAll _ w'
    | error f => exact ⟨rfl, .refl _⟩

theorem allFade_markReleased {id : Nat} {n : Node} {call : Call} (hn : w.nodes[id]? = some n)
    (hrole : n.role = .args call) : AllFade w.nodes (markReleased id call w).nodes := by
  refine nodewise_modify id _ (fun _ => Fades.refl) fun k hk => ?_
  obtain rfl := Option.some.inj (hn.symm.trans hk)
  refine ⟨⟨by rw [hrole]; rfl, .inl rfl, List.Sublist.refl _⟩, fun hl => ?_⟩
  simp [Node.isLive, releasedRole] at hl

/-- Arguments that are being released list what they own still, though they live no more. -/
theorem listed_markReleased (hl : Listed w.nodes) {id : Nat} {n : Node} {call : Call}
    (hn : w.nodes[id]? = some n) {j p : Nat} {m : Node}
    (hm : (markReleased id call w).nodes[j]? = some m) (hlive : m.handle.isSome)
    (hparent : m.role.parent? = some p) :
    ∃ m', (markReleased id call w).nodes[p]? = some m' ∧ (p ≠ id → m'.isLive) ∧
      refOf j m.role.kind ∈ m'.owned := by
  have hn₁ := markReleased_self call hn
  have hj : id ≠ j := by
    rintro rfl
    obtain rfl := Option.some.inj (hn₁.symm.trans hm)
    cases hparent
  rw [markReleased_other call w hj] at hm
  obtain ⟨m', hm', hlive', hmem⟩ := hl j p m hm hlive hparent
  by_cases hp : id = p
  · subst hp
    obtain rfl := Option.some.inj (hn.symm.trans hm')
    exact ⟨_, hn₁, fun h => absurd rfl h, hmem⟩
  · exact ⟨m', (markReleased_other call w hp).trans hm', fun _ => hlive', hmem⟩

theorem release {id : Nat} {n : Node} (hn : w.nodes[id]? = some n) (hkind : n.role.kind = .args) :
    Tends w (exec (Args.release E.watched id) w).2 := by
  intro hw
  obtain ⟨call, hrole⟩ := args_of_kind hkind
  cases hreleased : call.released with
  | true =>
    rw [exec_release_released hn hrole hreleased]
    exact aside rfl (.refl _) hw
  | false =>
    have hmarked := allFade_markReleased hn hrole
    have hk := hw.kin.fade hmarked
    obtain ⟨k, hpk, hunwound⟩ := unwound_releaseOwned (E := E) hk (markReleased_self call hn)
    have hfade := hmarked.trans ((allFade_bare [id] _).trans (hunwound.fades .refl))
    have hlater := hunwound.later (hk.tokens _)
    have hlisted : (exec (Host.releaseOwned E.watched id) (markReleased id call w)).2.engine.notes.refused = [] →
        Listed (exec (Host.releaseOwned E.watched id) (markReleased id call w)).2.nodes := by
      intro hr
      obtain ⟨w', hq, hnodes, -⟩ := hunwound.unrefused (hk.tokens _) hr
      rw [hq, hnodes]
      exact Listed.released hk (fun _ _ _ => listed_markReleased (hw.listed (hlater.refused_nil hr)) hn) hpk
    rw [exec_release_open hn hrole hreleased, exec_bind]
    generalize exec (Host.releaseOwned E.watched id) (markReleased id call w) = q at hfade hlater hlisted ⊢
    obtain ⟨r, w₂⟩ := q
    cases r with
    | error f => exact faded hfade (fun _ _ hr => hlisted hr) hlater hw
    | ok u =>
      obtain ⟨hnodes, hlater'⟩ := dropUnread (E := E) id w₂
      refine faded (hnodes ▸ hfade) (fun _ _ hr => ?_) (hlater.trans hlater') hw
      rw [hnodes]
      exact hlisted (hlater'.refused_nil hr)

end Tends

/-- One step, whatever it is. -/
theorem Step.tends (h : Step E w w') : Tends w w' := by
  cases h with
  | aside hnodes hlater => exact .aside hnodes hlater
  | newScope => exact .newScope
  | newEvaluator => exact .newEvaluator
  | compile source hn hkind => exact .compile hn hkind
  | newArgs signature entries => exact .newArgs signature entries
  | receive value block hn hkind => exact .receive value block hn hkind
  | renew hn hfixed hlive => exact .renew hn hfixed hlive
  | destroy id => exact .destroy id
  | recompile source hn hkind => exact .recompile hn hkind
  | release hn hkind => exact .release hn hkind

/-- A run of steps. -/
theorem tends_run (h : Relation.ReflTransGen (Step E) w w') : Tends w w' := by
  induction h with
  | refl => exact fun hw => ⟨hw, .refl _⟩
  | tail _ hstep ih => exact ih.trans hstep.tends

theorem Reachable.tended (h : Reachable E w) : Tended w := by
  obtain ⟨w₀, hempty, hrun⟩ := h
  have hw₀ : Tended w₀ := by
    refine ⟨hempty ▸ .empty, fun _ => ?_⟩
    rw [hempty]
    intro id p n hn
    simp at hn
  exact (tends_run hrun hw₀).1

end EngineHost
