import EngineHost.Proofs.Barring
import EngineHost.Proofs.Footprint

/-!
What has been destroyed refuses every operation, whatever ended it and whatever has happened since: it was
destroyed itself or with one of its owners, its script was recompiled, or the call that it belonged to
returned.
-/
namespace EngineHost

open Host

variable {S : Embedding} {α β : Type} {kind : ResourceKind} {id : Nat}

/-! ### Refusals -/

section Refusals

variable {E : Engine S.State} {w w' : World S}

/-- The operations on a resource, with any arguments, declarations and sources. -/
inductive Operates (E : Engine S.State) (run : RunBody S) :
    ResourceKind → Nat → {α : Type} → Host S α → Prop where
  | use {may : ResourceKind → Prop} {kind : ResourceKind} {id : Nat} {α : Type} {x : Host S α}
    (hkind : kind ≠ .args) (h : Use E run may kind id x) : Operates E run kind id x
  | define (id : Nat) (build : Host S (Builder S.Body)) : Operates E run .scope id (Scope.define E id build)
  | recompile (id : Nat) (source : Value) : Operates E run .script id (Script.recompile E id source)
  | destroy (kind : ResourceKind) (id : Nat) : Operates E run kind id (Host.destroy E id)

/-- A resource that has been destroyed. -/
def Destroyed (kind : ResourceKind) (id : Nat) (w : World S) : Prop :=
  ∃ n, w.nodes[id]? = some n ∧ n.role.kind = kind ∧ n.handle = none

/-- What asks for the handle of a destroyed resource gets no further. -/
theorem Destroyed.liveHandle_bind (h : Destroyed kind id w) (k : Value → Host S α) :
    exec (liveHandle id >>= k) w = (.error (.host (.useAfterDestroy kind)), w) := by
  obtain ⟨n, hn, rfl, hgone⟩ := h
  rw [exec_bind, exec_liveHandle_gone hn hgone]

theorem Destroyed.checkLive_bind (h : Destroyed kind id w) (hkind : kind ≠ .args) (k : Unit → Host S α) :
    exec (checkLive id >>= k) w = (.error (.host (.useAfterDestroy kind)), w) := by
  obtain ⟨n, hn, rfl, hgone⟩ := h
  have hdead : n.isLive = false := by rw [isLive_of_handle hkind, hgone]; rfl
  rw [exec_bind, exec_checkLive_dead hn hdead]

/-- Every operation asks first. -/
theorem Destroyed.refuses {run : RunBody S} (h : Destroyed kind id w) {x : Host S α}
    (hx : Operates E run kind id x) : exec x w = (.error (.host (.useAfterDestroy kind)), w) := by
  cases hx with
  | use hkind huse =>
    cases huse with
    | defineType _ name expr => exact h.checkLive_bind hkind _
    | getSignature _ name => exact h.liveHandle_bind _
    | compile _ source hmay => exact h.liveHandle_bind _
    | typeInfo _ => exact h.liveHandle_bind _
    | evalScript _ inputs => exact h.liveHandle_bind _
    | evalSource _ source inputs => exact h.liveHandle_bind _
    | typeOf _ source => exact h.liveHandle_bind _
    | set _ name value => exact h.liveHandle_bind _
    | vars _ => exact h.liveHandle_bind _
    | callBlock _ args => exact h.liveHandle_bind _
    | _ => exact absurd rfl hkind
  | define _ build => exact h.liveHandle_bind _
  | recompile _ source => exact h.liveHandle_bind _
  | destroy _ _ => exact h.liveHandle_bind _

/-- Leaving its block of statements passes it over. -/
theorem Destroyed.exec_close (h : Destroyed kind id w) : exec (close E id) w = (.ok (), w) := by
  obtain ⟨n, hn, -, hgone⟩ := h
  simp only [close, exec_bind, exec_node_some hn, hgone, Option.isSome_none, Bool.false_eq_true, if_false,
    exec_pure]

/-- It stays destroyed. -/
theorem Destroyed.outlasts (h : Destroyed kind id w) (ho : Outlasts w.nodes w'.nodes) :
    Destroyed kind id w' := by
  obtain ⟨n, hn, hkind, hgone⟩ := h
  obtain ⟨n', hn', hages⟩ := ho id n hn
  refine ⟨n', hn', (kind_congr hages.role).trans hkind, ?_⟩
  rcases hages.handle with hsame | hnone
  · exact hsame.trans hgone
  · exact hnone

end Refusals

/-! ### What is inherited -/

namespace Host

variable {nodes nodes' : List Node} {root : Nat}

theorem Descends.outlasts (h : Descends nodes root id) (ho : Outlasts nodes nodes') :
    Descends nodes' root id := by
  induction h with
  | self => exact .self
  | child hn hparent _ ih =>
    obtain ⟨n', hn', hages⟩ := ho _ _ hn
    exact .child hn' ((parent?_congr hages.role).trans hparent) ih

/-- What lives has an owner that lives, if it has one. -/
theorem Listed.owner_live (hl : Listed nodes) {n : Node} {p : Nat} (hn : nodes[id]? = some n)
    (hparent : n.role.parent? = some p) (hlive : n.isLive) : ∃ m, nodes[p]? = some m ∧ m.isLive := by
  have hkind := kind_ne_args_of_parent hparent
  obtain ⟨m, hm, hlive, -⟩ := hl id p n hn (isLive_of_handle hkind ▸ hlive) hparent
  exact ⟨m, hm, hlive⟩

/-- By induction on the descent: what descends from something dead is dead. -/
theorem Listed.root_live (hl : Listed nodes) (h : Descends nodes root id) {n : Node}
    (hn : nodes[id]? = some n) (hlive : n.isLive) : ∃ m, nodes[root]? = some m ∧ m.isLive := by
  induction h generalizing n with
  | self => exact ⟨n, hn, hlive⟩
  | child hn' hparent _ ih =>
    obtain rfl := Option.some.inj (hn'.symm.trans hn)
    obtain ⟨m, hm, hm_live⟩ := hl.owner_live hn hparent hlive
    exact ih hm hm_live

end Host

variable {E : Engine S.State} {run : RunBody S.watched} {w w₁ w₂ : World S.watched}

/-- The ways in which a resource ends: it or one of its owners is destroyed, or it is a callback and the
script that owns it is recompiled, or the call of a host function that owns it has returned. -/
inductive Ends (E : Engine S.State) (run : RunBody S.watched) (id : Nat) (w : World S.watched) :
    World S.watched → Prop where
  | destroyed {root : Nat} {n m : Node} (hn : w.nodes[id]? = some n) (hm : w.nodes[root]? = some m)
    (hkind : m.role.kind ≠ .args) (h : Descends w.nodes root id) :
    Ends E run id w (exec (Host.destroy E.watched root) w).2
  | recompiled {script home : Nat} {n m : Node} {old : Value} (source : Value) (hn : w.nodes[id]? = some n)
    (hblock : n.role = .block script) (hm : w.nodes[script]? = some m) (hscript : m.role = .script home old) :
    Ends E run id w (exec (Script.recompile E.watched script source) w).2
  | returned {f : FunctionId} {fn : HostFunction S.Body} {raw : List RawArg} {args : Nat} {n : Node}
    {envelope : Value} {w₁ w' : World S.watched} (hfn : w.functions[f]? = some fn)
    (hargs : exec (newArgs E.watched fn.scope fn.definition.signature raw) w = (.ok args, w₁))
    (hcall : exec (invoke E.watched run f raw) w = (.ok envelope, w')) (hn : w'.nodes[id]? = some n)
    (hblock : n.role = .block args) : Ends E run id w w'

/-- What descends from something that is not live has been destroyed. -/
theorem Host.Listed.inherited (hl : Listed w.nodes) {root : Nat} {n m : Node} (h : Descends w.nodes root id)
    (hn : w.nodes[id]? = some n) (hkind : n.role.kind ≠ .args) (hm : w.nodes[root]? = some m)
    (hdead : m.isLive = false) : Destroyed n.role.kind id w := by
  refine ⟨n, hn, rfl, Option.not_isSome_iff_eq_none.mp fun hlive => ?_⟩
  obtain ⟨m', hm', hm_live⟩ := hl.root_live h hn ((isLive_of_handle hkind).trans hlive)
  obtain rfl := Option.some.inj (hm.symm.trans hm')
  rw [hdead] at hm_live
  cases hm_live

/-- Nothing has its handle after it was to be destroyed, unless a handle was refused. -/
theorem destroyed_of_destroy (hw : Tended w) {n : Node} (hn : w.nodes[id]? = some n)
    (hr : (exec (Host.destroy E.watched id) w).2.engine.notes.refused = []) :
    Destroyed n.role.kind id (exec (Host.destroy E.watched id) w).2 := by
  cases hhandle : n.handle with
  | none =>
    have hdestroyed : Destroyed n.role.kind id w := ⟨n, hn, rfl, hhandle⟩
    exact hdestroyed.outlasts (Tends.destroy id hw).2
  | some h =>
    obtain ⟨order, w', hexec, hfoot, -, -, huprooted⟩ := destroy_footprint hw hn (by rw [hhandle]; rfl) hr
    have hmem : id ∈ order := (hfoot.mem_iff id).mpr ⟨.self, n, hn, by rw [hhandle]; rfl⟩
    rw [hexec]
    exact ⟨_, huprooted.gone id hmem n hn, rfl, rfl⟩

theorem destroyed_of_owner (hw : Tended w) {root : Nat} {n m : Node} (hn : w.nodes[id]? = some n)
    (hm : w.nodes[root]? = some m) (hkind : m.role.kind ≠ .args) (h : Descends w.nodes root id)
    (hr : (exec (Host.destroy E.watched root) w).2.engine.notes.refused = []) :
    Destroyed n.role.kind id (exec (Host.destroy E.watched root) w).2 := by
  obtain ⟨htended, ho⟩ := Tends.destroy (E := E) root hw
  obtain ⟨n', hn', hages⟩ := ho id n hn
  obtain ⟨m', hm', hm_kind, hm_gone⟩ := destroyed_of_destroy hw hm hr
  have hdead : m'.isLive = false := by
    rw [isLive_of_handle (hm_kind ▸ hkind), hm_gone]
    rfl
  have hn_kind : n.role.kind ≠ .args := by
    cases h with
    | self =>
      obtain rfl := Option.some.inj (hn.symm.trans hm)
      exact hkind
    | child hn₁ hparent _ =>
      obtain rfl := Option.some.inj (hn.symm.trans hn₁)
      exact kind_ne_args_of_parent hparent
  have hsame : n'.role.kind = n.role.kind := kind_congr hages.role
  rw [← hsame] at hn_kind ⊢
  exact (htended.listed hr).inherited (h.outlasts ho) hn' hn_kind hm' hdead

theorem destroyed_of_recompile (hw : Tended w) {script home : Nat} {n m : Node} {old : Value} (source : Value)
    (hn : w.nodes[id]? = some n) (hblock : n.role = .block script) (hm : w.nodes[script]? = some m)
    (hscript : m.role = .script home old)
    (hr : (exec (Script.recompile E.watched script source) w).2.engine.notes.refused = []) :
    Destroyed n.role.kind id (exec (Script.recompile E.watched script source) w).2 := by
  have hkind : m.role.kind = .script := by rw [hscript]; rfl
  have hends : Tends w (exec (Script.recompile E.watched script source) w).2 := .recompile hm hkind
  obtain ⟨htended, ho⟩ := hends hw
  cases hhandle : m.handle with
  | none =>
    -- The script is gone, and with it what it owned.
    have hgone : Destroyed .script script w := ⟨m, hm, hkind, hhandle⟩
    have hexec : exec (Script.recompile E.watched script source) w =
        (.error (.host (.useAfterDestroy .script)), w) := hgone.liveHandle_bind _
    rw [hexec] at htended hr ⊢
    refine (htended.listed hr).inherited (.child hn (by rw [hblock]; rfl) .self) hn ?_ hm ?_
    · simp [hblock, Role.kind]
    · rw [isLive_of_handle (by simp [hkind]), hhandle]
      rfl
  | some h =>
    obtain ⟨order, _, _, w', hexec, hfoot, -, -, hrecompiled⟩ := recompile_footprint hw hm hscript hhandle hr
    cases hlive : n.handle with
    | none =>
      have hgone : Destroyed n.role.kind id w := ⟨n, hn, rfl, hlive⟩
      exact hgone.outlasts ho
    | some b =>
      have hmem : id ∈ order := (hfoot.mem_iff id).mpr ⟨⟨n, hn, hblock⟩, n, hn, by rw [hlive]; rfl⟩
      rw [hexec]
      exact ⟨_, hrecompiled.gone id hmem n hn, rfl, rfl⟩

theorem node_of_newArgs {S : Embedding} {E : Engine S.State} {w w₁ : World S} {scope args : Nat}
    {signature : Signature} {raw : List RawArg}
    (hargs : exec (newArgs E scope signature raw) w = (.ok args, w₁)) :
    ∃ n, w₁.nodes[args]? = some n ∧ n.role.kind = .args := by
  rw [newArgs, exec_bind] at hargs
  split at hargs
  · rw [exec_addNode] at hargs
    obtain ⟨hid, rfl⟩ := Prod.mk.inj hargs
    obtain rfl := Except.ok.inj hid
    exact ⟨_, List.getElem?_concat_length, rfl⟩
  · cases hargs

theorem tended_of_newArgs (hw : Tended w) {scope args : Nat} {signature : Signature} {raw : List RawArg}
    (hargs : exec (newArgs E.watched scope signature raw) w = (.ok args, w₁)) : Tended w₁ := by
  have hprogress : Progress E w (exec (newArgs E.watched scope signature raw) w).2 := Turns.newArgs hw
  have htended := (hprogress.tends hw).1
  rwa [hargs] at htended

/-- A call that returns has been answered, and then the release of its arguments was seen to. -/
theorem answered_of_invoke {f : FunctionId} {fn : HostFunction S.Body} {raw : List RawArg} {args : Nat}
    {envelope : Value} (hfn : w.functions[f]? = some fn)
    (hargs : exec (newArgs E.watched fn.scope fn.definition.signature raw) w = (.ok args, w₁))
    (hcall : exec (invoke E.watched run f raw) w = (.ok envelope, w₂)) :
    ∃ v w₃, exec (answer run fn.definition args) w₁ = (.ok v, w₃) ∧
      w₂.nodes = (exec (releaseArgs E.watched args) w₃).2.nodes := by
  have hcallee : exec (callee? (S := S.watched) f) w = (.ok fn, w) := by
    simp only [callee?, exec_bind, exec_get, hfn, exec_pure]
  simp only [invoke, exec_bind, hcallee, hargs, exec_attempt] at hcall
  cases hanswer : exec (answer run fn.definition args) w₁ with
  | mk result w₃ =>
    rw [hanswer] at hcall
    cases result with
    | error f => cases hcall
    | ok v =>
      refine ⟨v, w₃, rfl, ?_⟩
      cases hrelease : exec (releaseArgs E.watched args) w₃ with
      | mk outcome w₄ =>
        simp only [hrelease] at hcall
        cases outcome with
        | ok u =>
          obtain ⟨-, rfl⟩ := Prod.mk.inj hcall
          rfl
        | error f =>
          -- A release that failed is logged and answered, which touches no object.
          dsimp only at hcall
          split at hcall
          · next name message _ _ =>
            have hspares : Spares (do
                write (.releaseFailed name message)
                failureEnvelope f : Host S.watched Value) :=
              .bind (.write _) fun _ => .looks (Turns.failureEnvelope f)
            have hspared := (hspares w₄).1
            rwa [hcall] at hspared
          · have hlooks := Turns.failureEnvelope f w₄
            rw [hcall] at hlooks
            exact congrArg World.nodes hlooks

/-- The arguments of a call that has returned are released. -/
theorem shut_of_invoke (hw : Tended w) (hrun : Programs E.watched run) {f : FunctionId}
    {fn : HostFunction S.Body} {raw : List RawArg} {args : Nat} {envelope : Value}
    (hfn : w.functions[f]? = some fn)
    (hargs : exec (newArgs E.watched fn.scope fn.definition.signature raw) w = (.ok args, w₁))
    (hcall : exec (invoke E.watched run f raw) w = (.ok envelope, w₂)) : IsShut args w₂ := by
  obtain ⟨n, hn, hkind⟩ := node_of_newArgs hargs
  obtain ⟨v, w₃, hanswer, hnodes⟩ := answered_of_invoke hfn hargs hcall
  have htended := tended_of_newArgs hw hargs
  have ho := ((Turns.answer hrun.turns fn.definition args htended).tends htended).2
  rw [hanswer] at ho
  obtain ⟨n₃, hn₃, hkind₃⟩ := ho.kind hn
  rw [IsShut, hnodes]
  exact shut_of_releaseArgs hn₃ (hkind₃.trans hkind)

/-- Each of them is a run of steps. -/
theorem Ends.steps (hw : Tended w) (hrun : Programs E.watched run) (h : Ends E run id w w₁) :
    Relation.ReflTransGen (Step E) w w₁ := by
  cases h with
  | destroyed hn hm hkind hd => exact .single (.destroy w _)
  | recompiled source hn hblock hm hscript => exact .single (.recompile source hm (by rw [hscript]; rfl))
  | @returned f fn raw args n envelope w' _ hfn hargs hcall hn hblock =>
    have hsteps := (Turns.invoke (E := E) hrun.turns f raw).proceeds hw
    rwa [hcall] at hsteps

/-- In a world without refused handles that comes after an ending, the resource is destroyed. -/
theorem Ends.destroyed_after (hw : Tended w) (hrun : Programs E.watched run) (h : Ends E run id w w₁)
    (hr : w₁.engine.notes.refused = []) : ∃ kind, Destroyed kind id w₁ := by
  have htended := (tends_run (h.steps hw hrun) hw).1
  cases h with
  | destroyed hn hm hkind hd => exact ⟨_, destroyed_of_owner hw hn hm hkind hd hr⟩
  | recompiled source hn hblock hm hscript =>
    exact ⟨_, destroyed_of_recompile hw source hn hblock hm hscript hr⟩
  | @returned f fn raw args n envelope w' _ hfn hargs hcall hn hblock =>
    obtain ⟨m, call, hm, hrole, hdead⟩ := (shut_of_invoke hw hrun hfn hargs hcall).node
    have hchild : Descends w₁.nodes args id := .child hn (by rw [hblock]; rfl) .self
    exact ⟨_, (htended.listed hr).inherited hchild hn (by simp [hblock, Role.kind]) hm hdead⟩

/-- A destroyed resource is destroyed for ever: in whatever world a program comes to later, every operation
on it is refused as use after destruction and does nothing else, and leaving its block of statements does
nothing at all. -/
theorem Ends.forever (hw : Reachable E w) (hrun : Programs E.watched run) (h : Ends E run id w w₁)
    (hr : w₁.engine.notes.refused = []) (hlater : Relation.ReflTransGen (Step E) w₁ w₂) :
    ∃ n, w₂.nodes[id]? = some n ∧
      (∀ {α : Type} (run' : RunBody S.watched) (x : Host S.watched α),
        Operates E.watched run' n.role.kind id x →
          exec x w₂ = (.error (.host (.useAfterDestroy n.role.kind)), w₂)) ∧
      exec (close E.watched id) w₂ = (.ok (), w₂) := by
  obtain ⟨kind, hdestroyed⟩ := h.destroyed_after hw.tended hrun hr
  have htended : Tended w₁ := (tends_run (h.steps hw.tended hrun) hw.tended).1
  have hgone := hdestroyed.outlasts (tends_run hlater htended).2
  obtain ⟨n, hn, rfl, hhandle⟩ := hgone
  exact ⟨n, hn, fun _ _ hx => Destroyed.refuses ⟨n, hn, rfl, hhandle⟩ hx,
    Destroyed.exec_close ⟨n, hn, rfl, hhandle⟩⟩

namespace Tickets

/-- In the household, the scope is destroyed with what it owns. -/
theorem ends_household :
    Ends engine noBody 3 (household engine) (exec (Host.destroy engine.watched 0) (household engine)).2 := by
  have hscope : (household engine).nodes[0]? =
      some ⟨.scope (.int 0) .empty .empty, some (.int 0), [refOf 1 .script, refOf 2 .script]⟩ := by cbv
  have hscript : (household engine).nodes[1]? =
      some ⟨.script 0 (.str "f()"), some (.int 1), [refOf 3 .block, refOf 5 .block]⟩ := by cbv
  have hblock : (household engine).nodes[3]? = some ⟨.block 1, some (.int 3), []⟩ := by cbv
  exact .destroyed hblock hscope (by rintro ⟨⟩) (.child hblock rfl (.child hscript rfl .self))

end Tickets

theorem forever_household :
    Reachable Tickets.engine (Tickets.household Tickets.engine) ∧
      Programs (S := Tickets.embedding.watched) Tickets.engine.watched Tickets.noBody ∧
      let w := (exec (Host.destroy Tickets.engine.watched 0) (Tickets.household Tickets.engine)).2
      Ends Tickets.engine Tickets.noBody 3 (Tickets.household Tickets.engine) w ∧
      w.engine.notes.refused = [] ∧
      ∃ n, w.nodes[3]? = some n ∧
        (∀ {α : Type} (run : RunBody Tickets.embedding.watched) (x : Host Tickets.embedding.watched α),
          Operates Tickets.engine.watched run n.role.kind 3 x →
            exec x w = (.error (.host (.useAfterDestroy n.role.kind)), w)) ∧
        exec (close Tickets.engine.watched 3) w = (.ok (), w) := by
  have hreachable := Tickets.household_reachable Tickets.engine
  have hrefused : (exec (Host.destroy Tickets.engine.watched 0)
      (Tickets.household Tickets.engine)).2.engine.notes.refused = [] := by cbv
  exact ⟨hreachable, .bottom, Tickets.ends_household, hrefused,
    Ends.forever hreachable .bottom Tickets.ends_household hrefused .refl⟩

namespace Tickets

/-- Tickets whose callbacks fail with a message that is no text. -/
def grumbling : Engine Tickets :=
  { engine with callBlock := fun _ _ s => .done (.ok (Envelope.err (.int 5))) s }

/-- Demands a callback and calls it. -/
def demanding : RunBody embedding.watched := fun _ args => do
  let v ← since 0 .args args (Args.demand args (.str "f"))
  match v with
  | .object ref => since 0 .block ref.id (Block.call grumbling.watched noBody ref.id [])
  | v => pure v

/-- Defines a function, and evaluates a script that hands it a callback. -/
def overhear : Host embedding.watched (Except Failure Value) := do
  let scope ← Scope.create grumbling.watched
  let _ ← Scope.define grumbling.watched scope (Scope.declareAll scope declaration)
  let script ← Scope.compile grumbling.watched scope (.str "f({})")
  attempt (Script.eval grumbling.watched demanding script .null)

/-- What comes of it. -/
def overheard : Except Failure (Except Failure Value) × World embedding.watched :=
  exec overhear ⟨[], [], [], ⟨⟨[], [], []⟩, ⟨[], []⟩⟩, (), []⟩

/-- A callback outlives the call that owns it when the failure of the function cannot be told: the evaluation
has come to its end, and the engine still answers. -/
theorem outlives_call :
    overheard.1 = .ok (.ok (refOf 4 .block)) ∧ overheard.2.engine.notes.refused = [] ∧
      overheard.2.nodes[3]? = some ⟨.block 2, some (.int 2), []⟩ ∧
      (exec (Block.call grumbling.watched noBody 3 []) overheard.2).1 =
        .error (.host (.engine (.int 5))) := by
  refine ⟨?_, ?_, ?_, ?_⟩
  · cbv
  · cbv
  · cbv
  · cbv

end Tickets

end EngineHost
