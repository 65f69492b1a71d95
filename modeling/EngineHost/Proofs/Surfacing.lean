import EngineHost.Proofs.Custody

/-!
A failure deep inside nested calls. A function that fails is answered with a message, the evaluation that
called it ends with that message, and the callback or the script that was evaluated fails with it; so the
text that was told first is what comes out in the end, and every call on the way has released what is its.
-/
namespace EngineHost

open Host

/-! ### Texts -/

/-- What the engine is told of a failure: its message, or its family if the message is empty. -/
def Failure.told (f : Failure) : Value :=
  match f.message? with
  | some (.str "") => .str f.family
  | some message => message
  | none => .null

section Texts

variable {S : Embedding} {f : Failure} {m : Value}

theorem told_of_empty (h : f.message? = some (.str "")) : f.told = .str f.family := by
  simp [Failure.told, h]

theorem told_of_text (h : f.message? = some m) (hne : m ≠ .str "") : f.told = m := by
  rw [Failure.told, h]
  split
  · rename_i heq
    exact absurd (Option.some.inj heq) hne
  · rename_i heq
    exact (Option.some.inj heq).symm
  · rename_i heq
    cases heq

theorem Reportable.exec_failureEnvelope (h : Reportable f) (w : World S) :
    exec (failureEnvelope f) w = (.ok (Envelope.err f.told), w) := by
  obtain ⟨message, hmessage⟩ := Option.isSome_iff_exists.mp h.message
  by_cases hempty : message = .str ""
  · subst hempty
    rw [failureEnvelope, hmessage, told_of_empty hmessage]
    rfl
  · rw [failureEnvelope, told_of_text hmessage hempty, hmessage]
    split
    · rename_i heq
      exact absurd (Option.some.inj heq) hempty
    · rename_i heq
      rw [Option.some.inj heq]
      rfl
    · rename_i heq
      cases heq

theorem Reportable.told_isText (h : Reportable f) : f.told.isText ∧ f.told ≠ .str "" := by
  obtain ⟨message, hmessage⟩ := Option.isSome_iff_exists.mp h.message
  by_cases hempty : message = .str ""
  · subst hempty
    rw [told_of_empty hmessage]
    exact ⟨rfl, by simpa using h.family⟩
  · rw [told_of_text hmessage hempty]
    exact ⟨Failure.isText_of_message? hmessage, hempty⟩

theorem message?_engine (h : m.isText) : (Failure.host (.engine m)).message? = some m := by
  simp [Failure.message?, HostError.message, h]

theorem reportable_engine (h : m.isText) : Reportable (.host (.engine m)) := by
  refine ⟨?_, by simp [Failure.family, HostError.family]⟩
  rw [Failure.Tellable, message?_engine h]
  rfl

/-- A text that has been told is told again as it is. -/
theorem told_engine (h : m.isText) (hne : m ≠ .str "") : (Failure.host (.engine m)).told = m :=
  told_of_text (message?_engine h) hne

end Texts

/-! ### Evaluations -/

section Evaluations

variable {σ : Type}

/-- However it goes on, the evaluation ends with a message. -/
inductive Surfaces (m : Value) : Evaluation σ (Checked Value) → Prop where
  | done {envelope : Value} {state : σ} (h : Envelope.unwrapPair envelope = .error (.host (.engine m))) :
    Surfaces m (.done (.ok envelope) state)
  | ask {f : FunctionId} {raw : List RawArg} {state : σ}
    {resume : Checked Value → σ → Evaluation σ (Checked Value)} (h : ∀ outcome s, Surfaces m (resume outcome s)) :
    Surfaces m (.ask f raw state resume)

/-- An evaluation that ends with the message with which a call of it has been answered. -/
inductive Relays : Evaluation σ (Checked Value) → Prop where
  | done (result : Checked Value) (state : σ) : Relays (.done result state)
  | ask {f : FunctionId} {raw : List RawArg} {state : σ}
    {resume : Checked Value → σ → Evaluation σ (Checked Value)}
    (herr : ∀ m s, m.isText → Surfaces m (resume (.ok (Envelope.err m)) s))
    (hrest : ∀ outcome s, Relays (resume outcome s)) : Relays (.ask f raw state resume)

/-- An engine that passes messages on unchanged. -/
structure RelaysMessages (E : Engine σ) : Prop where
  evaluate : ∀ script inputs s, Relays (E.evaluate script inputs s)
  callBlock : ∀ block args s, Relays (E.callBlock block args s)

end Evaluations

variable {S : Embedding} {E : Engine S.State}

/-- A watched evaluation comes to a call, in a world, with what is done with the answer. -/
inductive Asking (call : FunctionId → List RawArg → Host S.watched Value) :
    Evaluation S.State (Checked Value) → Notes → World S.watched → FunctionId → List RawArg →
      World S.watched → (Checked Value → S.State → Evaluation S.State (Checked Value)) → Prop where
  | here {notes : Notes} {w : World S.watched} {f : FunctionId} {raw : List RawArg} {state : S.State}
    {resume : Checked Value → S.State → Evaluation S.State (Checked Value)} :
    Asking call (.ask f raw state resume) notes w f raw { w with engine := ⟨state, notes⟩ } resume
  /-- Other calls have been answered before. -/
  | later {notes : Notes} {w w' v : World S.watched} {f g : FunctionId} {raw given : List RawArg}
    {state : S.State} {outcome : Checked Value}
    {resume last : Checked Value → S.State → Evaluation S.State (Checked Value)}
    (hcall : exec (call g given) { w with engine := ⟨state, notes⟩ } = (outcome, w'))
    (h : Asking call (resume outcome w'.engine.state) w'.engine.notes w' f raw v last) :
    Asking call (.ask g given state resume) notes w f raw v last

namespace Asking

variable {call : FunctionId → List RawArg → Host S.watched Value} {ev : Evaluation S.State (Checked Value)}
  {notes : Notes} {w v : World S.watched} {f : FunctionId} {raw : List RawArg}
  {resume : Checked Value → S.State → Evaluation S.State (Checked Value)}

/-- The evaluation goes on from the call that it has come to. -/
theorem exec_runEvaluation (h : Asking call ev notes w f raw v resume) {outcome : Checked Value}
    {v' : World S.watched} (hcall : exec (call f raw) v = (outcome, v')) :
    exec (runEvaluation call (ev.watched notes)) w =
      exec (runEvaluation call ((resume outcome v'.engine.state).watched v'.engine.notes)) v' := by
  induction h with
  | here =>
    simp only [Evaluation.watched, runEvaluation, exec_bind, exec_modify, exec_attempt, hcall, exec_get]
  | later hbefore _ ih =>
    simp only [Evaluation.watched, runEvaluation, exec_bind, exec_modify, exec_attempt, hbefore, exec_get]
    exact ih hcall

theorem surfaces (h : Asking call ev notes w f raw v resume) (hev : Relays ev) {m : Value} (hm : m.isText)
    (s : S.State) : Surfaces m (resume (.ok (Envelope.err m)) s) := by
  induction h with
  | here =>
    cases hev with
    | ask herr hrest => exact herr m s hm
  | later _ _ ih =>
    cases hev with
    | ask herr hrest => exact ih (hrest _ _)

/-- What leads to the call. -/
theorem before (h : Asking call ev notes w f raw v resume) (hcall : ∀ f raw w, Turns E w (call f raw))
    (hlater : w.engine.notes.Later notes) (hw : Tended w) : Progress E w v := by
  induction h with
  | here => exact .single (.aside rfl hlater)
  | @later notes w w' v f g raw given state outcome resume last hbefore _ ih =>
    have haside : Turn E w { w with engine := ⟨state, notes⟩ } := .aside rfl hlater
    have hw₁ := (haside.tends hw).1
    have hanswered := hcall g given _ hw₁
    rw [hbefore] at hanswered
    exact .head haside (hanswered.trans (ih (.refl _) (hanswered.tends hw₁).1))

/-- What follows it. -/
theorem after (h : Asking call ev notes w f raw v resume) (hcall : ∀ f raw w, Turns E w (call f raw))
    {outcome : Checked Value} {v' : World S.watched} (hexec : exec (call f raw) v = (outcome, v'))
    (hv' : Tended v') : Progress E v' (exec (runEvaluation call (ev.watched notes)) w).2 := by
  rw [h.exec_runEvaluation hexec]
  exact Turns.runEvaluation hcall _ (.refl _) hv'

end Asking

/-- An evaluation that surfaces a message ends with it, whatever calls it still makes. -/
theorem Surfaces.exec (call : FunctionId → List RawArg → Host S.watched Value) {m : Value}
    {ev : Evaluation S.State (Checked Value)} (h : Surfaces m ev) (notes : Notes) (w : World S.watched) :
    ∃ envelope w', Host.exec (runEvaluation call (ev.watched notes)) w = (.ok envelope, w') ∧
      Envelope.unwrapPair envelope = .error (.host (.engine m)) := by
  induction h generalizing notes w with
  | done hunwrap => exact ⟨_, _, rfl, hunwrap⟩
  | ask _ ih =>
    simp only [Evaluation.watched, runEvaluation, exec_bind, exec_modify, exec_attempt, exec_get]
    exact ih _ _ _ _

/-! ### One call -/

section Calls

variable {run : RunBody S.watched} {w w₁ w₂ : World S.watched} {e : Failure}

/-- A release that no refusal breaks off succeeds. -/
theorem releaseArgs_unrefused {args : Nat} {n : Node} (hw : Tended w) (hn : w.nodes[args]? = some n)
    (hkind : n.role.kind = .args) (hr : (exec (releaseArgs E.watched args) w).2.engine.notes.refused = []) :
    (exec (releaseArgs E.watched args) w).1 = .ok () := by
  obtain ⟨call, hrole⟩ := args_of_kind hkind
  rw [releaseArgs, exec_bind, exec_callOf hn hrole] at hr ⊢
  cases hreleased : call.released with
  | true =>
    simp only [hreleased, if_true]
    rfl
  | false =>
    simp only [hreleased, Bool.false_eq_true, if_false] at hr ⊢
    obtain ⟨order, w', hexec, -⟩ := release_unrefused hw hn hrole hreleased hr
    rw [hexec]

/-- That a release has failed is reported without any release. -/
theorem spares_releaseFailed (name? message? : Option Value) (g : Failure) :
    Spares (S := S) (do
      match name?, message? with
      | some name, some message => write (.releaseFailed name message)
      | _, _ => pure ()
      failureEnvelope g) := by
  split
  · exact .bind (.write _) fun _ => .looks (Turns.failureEnvelope g)
  · exact .looks (Turns.failureEnvelope g)

/-- A call whose implementation fails is answered with the text of the failure, declared as it may be. -/
theorem invoke_of_raise {f : FunctionId} {fn : HostFunction S.Body} {raw : List RawArg} {args : Nat}
    (he : Reportable e) (hw : Tended w) (hrun : Programs E.watched run) (hfn : w.functions[f]? = some fn)
    (hargs : exec (newArgs E.watched fn.scope fn.definition.signature raw) w = (.ok args, w₁))
    (hraise : exec (runCallee run fn.definition.implementation args) w₁ = (.error e, w₂))
    (hr : (exec (invoke E.watched run f raw) w).2.engine.notes.refused = []) :
    (exec (invoke E.watched run f raw) w).1 = .ok (Envelope.err e.told) := by
  have hfind : exec (callee? (S := S.watched) f) w = (.ok fn, w) := by
    simp only [callee?, exec_bind, exec_get, hfn, exec_pure]
  have himplement : exec (implement run fn.definition args) w₁ = (.error e, w₂) := by
    rw [implement, exec_bind, hraise]
  have hanswer : (exec (answer run fn.definition args) w₁).1 = .ok (Envelope.err e.told) := by
    rw [exec_answer_any himplement]
    dsimp only
    split
    · rw [exec_bind, exec_write]
      dsimp only
      rw [he.exec_failureEnvelope]
    · rw [he.exec_failureEnvelope]
  -- The arguments are still there, and nothing is refused when they are released.
  have hw₁ := tended_of_newArgs hw hargs
  obtain ⟨n₁, hn₁, hkind₁⟩ := node_of_newArgs hargs
  have hanswered : Progress E w₁ (exec (answer run fn.definition args) w₁).2 :=
    Turns.answer hrun.turns _ _ hw₁
  obtain ⟨hw₃, ho⟩ := hanswered.tends hw₁
  obtain ⟨n₃, hn₃, hkind₃⟩ := ho.kind hn₁
  simp only [invoke, exec_bind, hfind, hargs, exec_attempt] at hr ⊢
  cases hp : exec (answer run fn.definition args) w₁ with
  | mk result w₃ =>
    rw [hp] at hanswer hw₃ hn₃
    obtain rfl : result = .ok (Envelope.err e.told) := hanswer
    simp only [hp] at hr ⊢
    have hreleased := releaseArgs_unrefused (E := E) hw₃ hn₃ (hkind₃.trans hkind₁)
    cases hq : exec (releaseArgs E.watched args) w₃ with
    | mk outcome w₄ =>
      simp only [hq] at hr hreleased ⊢
      cases outcome with
      | ok u => rfl
      | error g =>
        have hspares := spares_releaseFailed (S := S) fn.definition.signature.name? g.message? g
        cases hreleased ((hspares w₄).2.refused_nil hr)

end Calls

/-! ### One evaluation -/

/-- A message is an error, whoever was to receive the value. -/
theorem exec_receivePair_message {S : Embedding} {envelope m : Value} (owner : Nat) (w : World S)
    (h : Envelope.unwrapPair envelope = .error (.host (.engine m))) :
    exec (receivePair owner envelope) w = (.error (.host (.engine m)), w) := by
  rw [receivePair, h, exec_bind]
  rfl

section Exchange

variable {run : RunBody S.watched} {v v' v'' : World S.watched} {call : EngineCall}
  {start : S.State → Evaluation S.State (Checked Value)} {f : FunctionId} {raw : List RawArg}
  {resume : Checked Value → S.State → Evaluation S.State (Checked Value)}
  {k : Value → Host S.watched Value} {outcome : Checked Value}

/-- From before an evaluation to after a call within it. -/
theorem Asking.upto (hasks : Asking (invoke E.watched run) (start v.engine.state)
      (v.engine.notes.add call (.ok () : Except Failure Unit)) v f raw v' resume)
    (hrun : Programs E.watched run) (hv : Tended v)
    (hexec : exec (invoke E.watched run f raw) v' = (outcome, v'')) : Progress E v v'' := by
  have hbefore := hasks.before (fun f raw _ => Turns.invoke hrun.turns f raw) (Notes.later_add ..) hv
  have hwithin : Progress E v' (exec (invoke E.watched run f raw) v').2 :=
    Turns.invoke hrun.turns f raw (hbefore.tends hv).1
  rw [hexec] at hwithin
  exact hbefore.trans hwithin

/-- What follows a call within an evaluation, until somebody has received what the evaluation gives. -/
theorem progress_exchange (hrun : Programs E.watched run) (hv : Tended v)
    (hasks : Asking (invoke E.watched run) (start v.engine.state)
      (v.engine.notes.add call (.ok () : Except Failure Unit)) v f raw v' resume)
    (hexec : exec (invoke E.watched run f raw) v' = (outcome, v''))
    (hk : ∀ envelope w, Outlasts v.nodes w.nodes → Turns E w (k envelope)) :
    Progress E v'' (exec (evaluating E.watched run (started call start) >>= k) v).2 := by
  obtain ⟨hv'', ho⟩ := (hasks.upto hrun hv hexec).tends hv
  have hafter := hasks.after (fun f raw _ => Turns.invoke hrun.turns f raw) hexec hv''
  obtain ⟨hend, ho'⟩ := hafter.tends hv''
  rw [exec_bind, evaluating, exec_bind, exec_get]
  dsimp only [started]
  cases hp : exec (runEvaluation (invoke E.watched run)
      ((start v.engine.state).watched (v.engine.notes.add call (.ok () : Except Failure Unit)))) v with
  | mk r w =>
    rw [hp] at hafter hend ho'
    cases r with
    | error g => exact hafter
    | ok envelope => exact hafter.trans (hk envelope w (ho.trans ho') hend)

/-- When a call within an evaluation is answered with a message, what was evaluated fails with it. -/
theorem exchange_surfaces (hrun : Programs E.watched run) (hv : Tended v)
    (hasks : Asking (invoke E.watched run) (start v.engine.state)
      (v.engine.notes.add call (.ok () : Except Failure Unit)) v f raw v' resume)
    (hstart : Relays (start v.engine.state)) {m : Value} (hm : m.isText)
    (hexec : exec (invoke E.watched run f raw) v' = (.ok (Envelope.err m), v''))
    (hk : ∀ envelope w, Outlasts v.nodes w.nodes → Envelope.unwrapPair envelope = .error (.host (.engine m)) →
      (exec (k envelope) w).1 = .error (.host (.engine m))) :
    (exec (evaluating E.watched run (started call start) >>= k) v).1 = .error (.host (.engine m)) := by
  obtain ⟨hv'', ho⟩ := (hasks.upto hrun hv hexec).tends hv
  have hafter := hasks.after (fun f raw _ => Turns.invoke hrun.turns f raw) hexec hv''
  obtain ⟨-, ho'⟩ := hafter.tends hv''
  obtain ⟨envelope, w, hrest, hunwrap⟩ :=
    (hasks.surfaces hstart hm v''.engine.state).exec (invoke E.watched run) v''.engine.notes v''
  rw [← hasks.exec_runEvaluation hexec] at hrest
  rw [hrest] at ho'
  rw [exec_bind, evaluating, exec_bind, exec_get]
  dsimp only [started]
  rw [hrest]
  exact hk envelope w (ho.trans ho') hunwrap

end Exchange

/-! ### Programs that come to a callback -/

theorem exec_since {S : Embedding} {α : Type} {kind : ResourceKind} {id : Nat} {n : Node} {x : Host S α}
    {w : World S} (hn : w.nodes[id]? = some n) (hkind : n.role.kind = kind) :
    exec (since 0 kind id x) w = exec x w := by
  simp only [since, exec_bind, exec_get, hn, Nat.zero_le, hkind, and_self, if_true]

/-- A program comes to a computation, in a world. -/
inductive Comes (E : Engine S.State) (run : RunBody S.watched) {β : Type} (y : Host S.watched β)
    (v : World S.watched) : {α : Type} → Host S.watched α → World S.watched → Prop where
  | here : Comes E run y v y v
  | after {α γ : Type} {x : Host S.watched α} {k : α → Host S.watched γ} {a : α} {w w' : World S.watched}
    (hx : Program E.watched run x) (hexec : exec x w = (.ok a, w')) (h : Comes E run y v (k a) w') :
    Comes E run y v (x >>= k) w
  | within {α γ : Type} {x : Host S.watched α} {k : α → Host S.watched γ} {w : World S.watched}
    (h : Comes E run y v x w) (hk : ∀ a, Program E.watched run (k a)) : Comes E run y v (x >>= k) w
  | attempt {α : Type} {x : Host S.watched α} {w : World S.watched} (h : Comes E run y v x w) :
    Comes E run y v (attempt x) w
  | since {α : Type} {x : Host S.watched α} {kind : ResourceKind} {id : Nat} {n : Node} {w : World S.watched}
    (hn : w.nodes[id]? = some n) (hkind : n.role.kind = kind) (h : Comes E run y v x w) :
    Comes E run y v (since 0 kind id x) w
  /-- While a function is declared. -/
  | declaring {build : Host S.watched (Builder S.Body)} {id : Nat} {n : Node} {handle : Value}
    {w : World S.watched} (hn : w.nodes[id]? = some n) (hhandle : n.handle = some handle)
    (h : Comes E run y v build w) : Comes E run y v (Scope.define E.watched id build) w

namespace Comes

variable {run : RunBody S.watched} {α β : Type} {y : Host S.watched β} {v w : World S.watched}
  {x : Host S.watched α}

/-- What leads to the computation. -/
theorem before (h : Comes E run y v x w) (hrun : Programs E.watched run) (hw : Tended w) :
    Progress E w v := by
  induction h with
  | here => exact .refl
  | after hx hexec _ ih =>
    have hfirst := hx.turns hrun.turns _ hw
    rw [hexec] at hfirst
    exact hfirst.trans (ih (hfirst.tends hw).1)
  | within _ _ ih => exact ih hw
  | attempt _ ih => exact ih hw
  | since _ _ _ ih => exact ih hw
  | declaring _ _ _ ih => exact ih hw

/-- What follows it, however it ends. -/
theorem rest (h : Comes E run y v x w) (hrun : Programs E.watched run) (hy : Tended (exec y v).2) :
    Progress E (exec y v).2 (exec x w).2 := by
  induction h with
  | here => exact .refl
  | after hx hexec _ ih =>
    rw [exec_bind, hexec]
    exact ih
  | @within _ _ x k w _ hk ih =>
    have hw' := (ih.tends hy).1
    rw [exec_bind]
    cases hp : exec x w with
    | mk r w' =>
      rw [hp] at ih hw'
      cases r with
      | error f => exact ih
      | ok a => exact ih.trans ((hk a).turns hrun.turns w' hw')
  | attempt _ ih => exact ih
  | since hn hkind _ ih =>
    rw [exec_since hn hkind]
    exact ih
  | @declaring build id n handle w hn hhandle _ ih =>
    have hw' := (ih.tends hy).1
    rw [Scope.define, exec_bind, exec_liveHandle hn hhandle]
    dsimp only
    rw [exec_bind]
    cases hp : exec build w with
    | mk r w' =>
      rw [hp] at ih hw'
      cases r with
      | error f => exact ih
      | ok builder => exact ih.trans (Turns.register (E := E) builder hw')

end Comes

/-! ### Chains of calls -/

/-- A callback is called in a world, and the evaluation that it starts comes to a call. -/
def BlockAsks (E : Engine S.State) (run : RunBody S.watched) (id : Nat) (args : List Value)
    (v : World S.watched) (f : FunctionId) (raw : List RawArg) (v' : World S.watched) : Prop :=
  ∃ n owner handle encoded resume, v.nodes[id]? = some n ∧ n.role = .block owner ∧ n.handle = some handle ∧
    exec (Block.encodeArgs 0 args) v = (.ok encoded, v) ∧
    Asking (invoke E.watched run) (E.callBlock handle encoded v.engine.state)
      (v.engine.notes.add (.callBlock handle encoded) (.ok () : Except Failure Unit)) v f raw v' resume

/-- A call of a function: the number of its arguments, what was sent, and the world in which it was made. -/
structure Invocation (S : Embedding) where
  args : Nat
  raw : List RawArg
  world : World S.watched

/-- Calls of functions, each but the last by a callback that the function before it has called, and the last
of a function that fails; what a callback fails with, its function fails with. -/
inductive Chain (E : Engine S.State) (e : Failure) :
    RunBody S.watched → FunctionId → List RawArg → World S.watched → List (Invocation S) → Prop where
  | innermost {run : RunBody S.watched} {f : FunctionId} {fn : HostFunction S.Body} {raw : List RawArg}
    {args : Nat} {w w₁ : World S.watched} (hrun : Programs E.watched run) (hfn : w.functions[f]? = some fn)
    (hargs : exec (newArgs E.watched fn.scope fn.definition.signature raw) w = (.ok args, w₁))
    (hraise : (exec (runCallee run fn.definition.implementation args) w₁).1 = .error e) :
    Chain E e run f raw w [⟨args, raw, w⟩]
  | outer {run run' : RunBody S.watched} {f g : FunctionId} {fn : HostFunction S.Body} {body : S.Body}
    {raw given : List RawArg} {args id : Nat} {vs : List Value} {w w₁ v v' : World S.watched}
    {calls : List (Invocation S)} (hrun : Programs E.watched run)
    (hbodies : ∀ body args, Program E.watched run (run' body args)) (hfn : w.functions[f]? = some fn)
    (hbody : fn.definition.implementation = .function body)
    (hargs : exec (newArgs E.watched fn.scope fn.definition.signature raw) w = (.ok args, w₁))
    (hcomes : Comes E run (Block.call E.watched run id vs) v (run' body args) w₁)
    (hpropagates : ∀ m, (exec (Block.call E.watched run id vs) v).1 = .error (.host (.engine m)) →
      (exec (run' body args) w₁).1 = .error (.host (.engine m)))
    (hasks : BlockAsks E run id vs v g given v') (h : Chain E e run g given v' calls) :
    Chain E e run' f raw w (⟨args, raw, w⟩ :: calls)

theorem Chain.programs {e : Failure} {run : RunBody S.watched} {f : FunctionId} {raw : List RawArg}
    {w : World S.watched} {calls : List (Invocation S)} (h : Chain E e run f raw w calls) :
    Programs E.watched run := by
  cases h with
  | innermost hrun => exact hrun
  | outer hrun hbodies => exact .nest hrun hbodies

namespace BlockAsks

variable {run : RunBody S.watched} {id : Nat} {args : List Value} {v v' v'' : World S.watched} {f : FunctionId}
  {raw : List RawArg} {outcome : Checked Value}

theorem before (h : BlockAsks E run id args v f raw v') (hrun : Programs E.watched run) (hv : Tended v) :
    Progress E v v' := by
  obtain ⟨n, owner, handle, encoded, resume, -, -, -, -, hasks⟩ := h
  exact hasks.before (fun f raw _ => Turns.invoke hrun.turns f raw) (Notes.later_add ..) hv

/-- A callback that is called starts an evaluation. -/
theorem exec_call {n : Node} {handle : Value} {encoded : List Value} (hn : v.nodes[id]? = some n)
    (hhandle : n.handle = some handle) (hencoded : exec (Block.encodeArgs 0 args) v = (.ok encoded, v)) :
    exec (Block.call E.watched run id args) v =
      exec (evaluating E.watched run (started (.callBlock handle encoded) (E.callBlock handle encoded)) >>=
        fun envelope => Block.ownerOf id >>= fun owner => receivePair owner envelope) v := by
  rw [Block.call, exec_bind, exec_liveHandle hn hhandle]
  dsimp only
  rw [exec_bind, hencoded]
  rfl

theorem after (h : BlockAsks E run id args v f raw v') (hrun : Programs E.watched run) (hv : Tended v)
    (hexec : exec (invoke E.watched run f raw) v' = (outcome, v'')) :
    Progress E v'' (exec (Block.call E.watched run id args) v).2 := by
  obtain ⟨n, owner, handle, encoded, resume, hn, -, hhandle, hencoded, hasks⟩ := h
  rw [exec_call hn hhandle hencoded]
  exact progress_exchange hrun hv hasks hexec fun envelope _ _ => Turns.receiveOwned envelope

theorem surfaces (h : BlockAsks E run id args v f raw v') (hE : RelaysMessages E) (hrun : Programs E.watched run)
    (hv : Tended v) {m : Value} (hm : m.isText)
    (hexec : exec (invoke E.watched run f raw) v' = (.ok (Envelope.err m), v'')) :
    (exec (Block.call E.watched run id args) v).1 = .error (.host (.engine m)) := by
  obtain ⟨n, owner, handle, encoded, resume, hn, hrole, hhandle, hencoded, hasks⟩ := h
  rw [exec_call hn hhandle hencoded]
  refine exchange_surfaces hrun hv hasks (hE.callBlock _ _ _) hm hexec fun envelope w ho hunwrap => ?_
  -- The object is a callback still, so there is an owner who is told.
  obtain ⟨n', hn', hages⟩ := ho id n hn
  have hblock : n'.role = .block owner := by
    have hfixed := hages.role
    rw [hrole] at hfixed
    cases hrole' : n'.role with
    | block owner' =>
      rw [hrole'] at hfixed
      exact hfixed
    | _ =>
      rw [hrole'] at hfixed
      cases hfixed
  simp only [Block.ownerOf, exec_bind, exec_node_some hn', hblock, exec_pure]
  rw [exec_receivePair_message owner w hunwrap]

end BlockAsks

/-- By induction on the chain: the text of the innermost failure is the answer to every call of it, and
every one of them is cleared when the first has returned. -/
theorem Chain.surfaces {e : Failure} {run : RunBody S.watched} {f : FunctionId} {raw : List RawArg}
    {w : World S.watched} {calls : List (Invocation S)} (h : Chain E e run f raw w calls)
    (hE : RelaysMessages E) (he : Reportable e) (hw : Tended w)
    (hr : (exec (invoke E.watched run f raw) w).2.engine.notes.refused = []) :
    (exec (invoke E.watched run f raw) w).1 = .ok (Envelope.err e.told) ∧
      ∀ c ∈ calls, Cleared c.args c.raw c.world (exec (invoke E.watched run f raw) w).2 := by
  induction h with
  | @innermost run f fn raw args w w₁ hrun hfn hargs hraise =>
    have hanswer := invoke_of_raise he hw hrun hfn hargs (Prod.ext hraise rfl) hr
    refine ⟨hanswer, fun c hc => ?_⟩
    obtain rfl := List.mem_singleton.mp hc
    exact cleared_of_invoke hw hrun hfn hargs (Prod.ext hanswer rfl) hr
  | @outer run run' f g fn body raw given args id vs w w₁ v v' calls hrun hbodies hfn hbody hargs hcomes
      hpropagates hasks _ ih =>
    have hrun' : Programs E.watched run' := .nest hrun hbodies
    have hw₁ := tended_of_newArgs hw hargs
    obtain ⟨n₁, hn₁, hkind₁⟩ := node_of_newArgs hargs
    have hv := ((hcomes.before hrun hw₁).tends hw₁).1
    have hv' := ((hasks.before hrun hv).tends hv).1
    -- From the inner call to the end of the outer one.
    have hinner : Progress E v' (exec (invoke E.watched run g given) v').2 := Turns.invoke hrun.turns g given hv'
    have hv'' := (hinner.tends hv').1
    have hblock := hasks.after hrun hv rfl
    have hbody' := hcomes.rest hrun (hblock.tends hv'').1
    have hcallee : runCallee run' fn.definition.implementation args = run' body args := by
      rw [hbody]
      rfl
    have hw₂ : Progress E w₁ (exec (run' body args) w₁).2 := hrun'.turns body args w₁ hw₁
    obtain ⟨n₂, hn₂, hkind₂⟩ := (hw₂.tends hw₁).2.kind hn₁
    have hended : exec (runCallee run' fn.definition.implementation args) w₁ =
        ((exec (run' body args) w₁).1, (exec (run' body args) w₁).2) := by rw [hcallee]
    have hconcluded := progress_invoke (E := E) hfn hargs hended hn₂ (hkind₂.trans hkind₁) (hw₂.tends hw₁).1
    have hrest : Progress E (exec (invoke E.watched run g given) v').2 (exec (invoke E.watched run' f raw) w).2 :=
      hblock.trans (hbody'.trans hconcluded)
    -- The failure on the same way.
    obtain ⟨hanswered, hcleared⟩ := ih hv' (hrest.later.refused_nil hr)
    obtain ⟨htext, hne⟩ := he.told_isText
    have hraise := hpropagates _ (hasks.surfaces hE hrun hv htext (Prod.ext hanswered rfl))
    have hanswer := invoke_of_raise (reportable_engine htext) hw hrun' hfn hargs
      (by rw [hcallee]; exact Prod.ext hraise rfl) hr
    rw [told_engine htext hne] at hanswer
    refine ⟨hanswer, fun c hc => ?_⟩
    rcases List.mem_cons.mp hc with rfl | hc
    · exact cleared_of_invoke hw hrun' hfn hargs (Prod.ext hanswer rfl) hr
    · exact (hcleared c hc).lasts hrest hv'' hr

namespace Tickets

/-- An evaluation that calls the function that was registered last, and ends with a message if it is given
one. -/
def relay (s : Tickets) : Evaluation Tickets (Checked Value) :=
  match s.functions with
  | [] => s.finish
  | (f, _) :: _ => .ask f [⟨.str "f", .null, s.next⟩] (s.give .block) fun answer s =>
    match answer >>= Envelope.unwrap with
    | .ok _ => s.finish
    | .error _ => .done answer s

/-- Tickets whose scripts and callbacks are evaluated in this way. -/
def relaying : Engine Tickets :=
  { engine with evaluate := fun _ _ => relay, callBlock := fun _ _ => relay }

/-- Makes a scope with a function that is declared never to fail, and a script that calls it. -/
def stage : Host embedding.watched Unit := do
  let scope ← Scope.create relaying.watched
  let _ ← since 0 .scope scope (Scope.define relaying.watched scope
    (Scope.declareAll scope (.setTotal true :: declaration)))
  let _ ← since 0 .scope scope (Scope.compile relaying.watched scope (.str "f({})"))
  pure ()

def staged : World embedding.watched :=
  (exec stage ⟨[], [], [], ⟨⟨[], [], []⟩, ⟨[], []⟩⟩, (), []⟩).2

/-- The world after an evaluation has begun that hands out a callback. -/
def asked (call : EngineCall) (w : World embedding.watched) : World embedding.watched :=
  { w with engine := ⟨w.engine.state.give .block, w.engine.notes.add call (.ok () : Except Failure Unit)⟩ }

/-- The function and what it is called with. -/
def known : HostFunction Unit :=
  ⟨0, ⟨⟨[⟨.str "f", .primitive .number, true, false⟩], .primitive .number, true⟩, .function ()⟩⟩

def handing (handle : Int) : List RawArg :=
  [⟨.str "f", .null, .int handle⟩]

/-- The worlds in which it is called, has its arguments, has read its callback, and is called again. -/
def begun : World embedding.watched :=
  asked (.evaluate (.int 1) []) staged

def opened : World embedding.watched :=
  (exec (newArgs relaying.watched known.scope known.definition.signature (handing 2)) begun).2

end Tickets

end EngineHost
