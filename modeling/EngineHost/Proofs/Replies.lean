import Mathlib
import EngineHost.Proofs.Discharge
import EngineHost.Proofs.Reach

/-!
What the engine is told after it has called a host function. Once the arguments have an object, every
failure that has a text becomes an envelope; a failure before that, and one without a text, goes through to
the engine, with the arguments as they are.
-/
namespace EngineHost

open Host

variable {S : Embedding} {E : Engine S.State} {run : RunBody S} {α β : Type} {w w₁ w₂ : World S}

/-- A failure that can be told, by its family if its message is empty. -/
structure Reportable (f : Failure) : Prop where
  message : f.Tellable
  family : f.family ≠ ""

/-- Answers to the engine: a value in wire form, or a text that is not empty. -/
inductive Reply : Value → Prop where
  | ok {v wire : Value} (h : Wire.encode .top v = .ok wire) : Reply (Envelope.ok wire)
  | err {message : Value} (htext : message.isText) (hne : message.isTruthy) :
    Reply (Envelope.err message)

/-- The engine refuses handles only with failures that can be told. -/
def RefusalsReport (E : Engine S.State) : Prop :=
  ∀ (t : Token) (s : S.State) (f : Failure), ((E.drop t).run.run s).1 = .error f → Reportable f

theorem Failure.isText_of_message? {f : Failure} {message : Value} (h : f.message? = some message) :
    message.isText := by
  cases f with
  | host e =>
    simp only [Failure.message?] at h
    split at h
    · rename_i htext
      obtain rfl := Option.some.inj h
      exact htext
    · cases h
  | shape fault => cases fault <;> (obtain rfl := Option.some.inj h; rfl)
  | _ =>
    obtain rfl := Option.some.inj h
    rfl

theorem isTruthy_of_isText {v : Value} (htext : v.isText) (hne : v ≠ .str "") : v.isTruthy := by
  cases v with
  | str s => simpa [Value.isTruthy] using hne
  | letters s => rfl
  | _ => cases htext

/-- A failure that can be told is. -/
theorem Reportable.reply {f : Failure} (h : Reportable f) (w : World S) :
    ∃ v, exec (failureEnvelope f) w = (.ok v, w) ∧ Reply v := by
  obtain ⟨message, hmessage⟩ := Option.isSome_iff_exists.mp h.message
  have htext := Failure.isText_of_message? hmessage
  unfold failureEnvelope
  rw [hmessage]
  split
  · exact ⟨_, rfl, .err rfl (isTruthy_of_isText rfl (by simpa using h.family))⟩
  · rename_i hne heq
    obtain rfl := Option.some.inj heq
    exact ⟨_, rfl, .err htext (isTruthy_of_isText htext hne)⟩
  · rename_i heq
    cases heq

theorem exec_failureEnvelope_untold {f : Failure} (h : ¬ f.Tellable) (w : World S) :
    exec (failureEnvelope f) w = (.error (.shape .wrongKind), w) := by
  have hnone : f.message? = none := Option.not_isSome_iff_eq_none.mp h
  unfold failureEnvelope
  rw [hnone]
  rfl

/-- A computation whose failures can be told. -/
def Reports (x : Host S α) : Prop :=
  ∀ (w w' : World S) (f : Failure), exec x w = (.error f, w') → Reportable f

namespace Reports

theorem pure (a : α) : Reports (Pure.pure a : Host S α) := by
  intro w w' f h
  cases h

theorem look : Reports (get : Host S (World S)) := by
  intro w w' f h
  cases h

theorem update (k : World S → World S) : Reports (modify k : Host S Unit) := by
  intro w w' f h
  cases h

theorem bind {x : Host S α} {k : α → Host S β} (hx : Reports x) (hk : ∀ a, Reports (k a)) :
    Reports (x >>= k) := by
  intro w w' f h
  rw [exec_bind] at h
  cases hp : exec x w with
  | mk r w₁ =>
    rw [hp] at h
    cases r with
    | ok a => exact hk a w₁ w' f h
    | error g =>
      obtain ⟨hg, -⟩ := Prod.mk.inj h
      obtain rfl := Except.error.inj hg
      exact hx w w₁ g hp

theorem shape (fault : ShapeFault) : Reports (fail (.shape fault) : Host S α) := by
  intro w w' f h
  obtain ⟨hf, -⟩ := Prod.mk.inj h
  obtain rfl := Except.error.inj hf
  exact ⟨by cases fault <;> rfl, by cases fault <;> simp [Failure.family, ShapeFault.family]⟩

theorem useAfterDestroy (kind : ResourceKind) : Reports (Host.useAfterDestroy kind : Host S α) := by
  intro w w' f h
  obtain ⟨hf, -⟩ := Prod.mk.inj h
  obtain rfl := Except.error.inj hf
  exact ⟨rfl, by simp [Failure.family, HostError.mapValues, HostError.family]⟩

theorem node (id : Nat) : Reports (Host.node id : Host S Node) := by
  refine bind look fun w => ?_
  split
  · exact pure _
  · exact shape _

theorem callOf (id : Nat) : Reports (Host.callOf id : Host S Call) := by
  refine bind (node id) fun n => ?_
  split
  · exact pure _
  · exact shape _

theorem liveHandle (id : Nat) : Reports (Host.liveHandle id : Host S Value) := by
  refine bind (node id) fun n => ?_
  split
  · exact pure _
  · exact useAfterDestroy _

theorem checkLive (id : Nat) : Reports (Host.checkLive id : Host S Unit) := by
  refine bind (node id) fun n => ?_
  split
  · exact pure _
  · exact useAfterDestroy _

theorem dropHandle (hE : RefusalsReport E) (kind : ResourceKind) (h : Value) :
    Reports (Host.dropHandle E kind h) := by
  intro w w' f hx
  rw [exec_dropHandle_any] at hx
  exact hE (kind, h) w.engine f (congrArg Prod.fst hx)

theorem releaseEach {destroy : Nat → Host S Unit} (hdestroy : ∀ id, Reports (destroy id))
    (owned : List Value) : Reports (Host.releaseEach destroy owned) := by
  induction owned with
  | nil => exact pure ()
  | cons v rest ih =>
    refine bind ?_ fun r => ?_
    · unfold resource
      split
      · refine bind look fun w => ?_
        split
        · split
          · exact pure _
          · exact shape _
        · exact shape _
      · exact shape _
    · obtain ⟨id, n⟩ := r
      dsimp only
      split
      · exact bind (hdestroy id) fun _ => ih
      · exact ih

theorem releaseOwnedWith {destroy : Nat → Host S Unit} (hdestroy : ∀ id, Reports (destroy id)) (id : Nat) :
    Reports (Host.releaseOwnedWith destroy id) := by
  refine bind ?_ fun owned => releaseEach hdestroy _
  exact bind (node id) fun n => bind (update _) fun _ => pure _

theorem destroyWithin (hE : RefusalsReport E) (fuel id : Nat) : Reports (Host.destroyWithin E fuel id) := by
  induction fuel generalizing id with
  | zero =>
    intro w w' f h
    obtain ⟨hf, -⟩ := Prod.mk.inj h
    obtain rfl := Except.error.inj hf
    exact ⟨rfl, by decide⟩
  | succ fuel ih =>
    refine bind (liveHandle id) fun handle => bind (releaseOwnedWith ih id) fun _ => ?_
    refine bind (update _) fun _ => bind (node id) fun n => bind (update _) fun _ => ?_
    refine bind (dropHandle hE _ _) fun _ => ?_
    split
    · exact update _
    · exact pure _

theorem releaseArgs (hE : RefusalsReport E) (args : Nat) : Reports (Host.releaseArgs E args) := by
  have hdestroy : ∀ id, Reports (Host.destroy E id) := fun id =>
    bind look fun w => destroyWithin hE _ id
  have hdropAll : ∀ handles, Reports (Args.dropAll E handles) := by
    intro handles
    induction handles with
    | nil => exact pure ()
    | cons h rest ih => exact bind (dropHandle hE .block h) fun _ => ih
  refine bind (callOf args) fun call => ?_
  split
  · exact pure _
  · refine bind (bind (checkLive args) fun _ => callOf args) fun call => bind (update _) fun _ => ?_
    exact bind (releaseOwnedWith hdestroy args) fun _ => bind (callOf args) fun _ => hdropAll _

end Reports

/-- What an implementation gives in wire form, on arguments that have an object. -/
def implement (run : RunBody S) (definition : Definition S.Body) (args : Nat) : Host S Value :=
  runCallee run definition.implementation args >>= encode .top

theorem exec_implement_ok {definition : Definition S.Body} {args : Nat} {wire : Value}
    (h : exec (implement run definition args) w = (.ok wire, w₁)) :
    ∃ v, Wire.encode .top v = .ok wire := by
  rw [implement, exec_bind] at h
  cases hp : exec (runCallee run definition.implementation args) w with
  | mk r w' =>
    rw [hp] at h
    cases r with
    | error f => cases h
    | ok v =>
      refine ⟨v, ?_⟩
      change exec (check (Wire.encode .top v)) w' = _ at h
      rcases exec_check (S := S) (Wire.encode .top v) w' with ⟨a, ha, hexec⟩ | ⟨f, g, -, hexec, -⟩
      · obtain ⟨hok, -⟩ := Prod.mk.inj (hexec.symm.trans h)
        rw [ha, Except.ok.inj hok]
      · cases hexec.symm.trans h

theorem exec_answer_any {definition : Definition S.Body} {args : Nat} {r : Except Failure Value}
    (h : exec (implement run definition args) w = (r, w₁)) :
    exec (answer run definition args) w = match r with
      | .ok wire => (.ok (Envelope.ok wire), w₁)
      | .error f => exec (do
          match definition.signature.total, definition.signature.name?, f.message? with
          | true, some name, some message => write (.neverFailsRaised name message)
          | _, _, _ => pure ()
          failureEnvelope f) w₁ := by
  unfold answer
  rw [exec_bind, exec_attempt, show exec (runCallee run definition.implementation args >>= encode .top) w =
    (r, w₁) from h]
  cases r with
  | ok wire => rfl
  | error f => rfl

/-- An implementation that fails, if at all, with what can be told is answered. -/
theorem exec_answer_reply {definition : Definition S.Body} {args : Nat}
    (h : ∀ f w', exec (implement run definition args) w = (.error f, w') → Reportable f) :
    ∃ v w', exec (answer run definition args) w = (.ok v, w') ∧ Reply v := by
  cases hp : exec (implement run definition args) w with
  | mk r w₁ =>
    rw [exec_answer_any hp]
    cases r with
    | ok wire =>
      obtain ⟨v, hv⟩ := exec_implement_ok hp
      exact ⟨_, w₁, rfl, .ok hv⟩
    | error f =>
      have hf := h f w₁ hp
      dsimp only
      split
      · obtain ⟨v, hexec, hreply⟩ := hf.reply (exec (write (.neverFailsRaised _ _)) w₁).2
        exact ⟨v, _, hexec, hreply⟩
      · obtain ⟨v, hexec, hreply⟩ := hf.reply w₁
        exact ⟨v, _, hexec, hreply⟩

theorem exec_answer_untold {definition : Definition S.Body} {args : Nat} {f : Failure}
    (h : exec (implement run definition args) w = (.error f, w₁)) (hf : ¬ f.Tellable) :
    exec (answer run definition args) w = (.error (.shape .wrongKind), w₁) := by
  have hnone : f.message? = none := Option.not_isSome_iff_eq_none.mp hf
  rw [exec_answer_any h]
  dsimp only
  rw [hnone]
  split
  · rename_i heq
    cases heq
  · exact exec_failureEnvelope_untold hf w₁

section Names

variable {E : Engine S.State}

/-- A computation that asks the engine for nothing but names. -/
def AsksNames (x : Host S.watched α) : Prop :=
  ∀ w, ∃ asked, (exec x w).2.engine.notes.calls = w.engine.notes.calls ++ asked ∧
    ∀ call ∈ asked, ∃ scope symbol, call = .lookupSymbol scope symbol

namespace AsksNames

theorem quiet {x : Host S.watched α} (hx : ∀ w, (exec x w).2.engine = w.engine) : AsksNames x :=
  fun w => ⟨[], by rw [hx w, List.append_nil], by simp⟩

theorem looks {x : Host S.watched α} (hx : Looks x) : AsksNames x :=
  quiet fun w => by rw [hx w]

theorem bind {x : Host S.watched α} {k : α → Host S.watched β} (hx : AsksNames x)
    (hk : ∀ a, AsksNames (k a)) : AsksNames (x >>= k) := by
  intro w
  obtain ⟨asked, hcalls, hall⟩ := hx w
  rw [exec_bind]
  cases hp : exec x w with
  | mk r w₁ =>
    rw [hp] at hcalls
    cases r with
    | error f => exact ⟨asked, hcalls, hall⟩
    | ok a =>
      obtain ⟨asked', hcalls', hall'⟩ := hk a w₁
      refine ⟨asked ++ asked', ?_, fun call hc => (List.mem_append.mp hc).elim (hall call) (hall' call)⟩
      rw [hcalls', hcalls, List.append_assoc]

theorem mapM {k : α → Host S.watched β} (hk : ∀ a, AsksNames (k a)) (xs : List α) :
    AsksNames (xs.mapM k) := by
  induction xs with
  | nil => exact looks (.pure _)
  | cons x rest ih =>
    rw [List.mapM_cons]
    exact bind (hk x) fun _ => bind ih fun _ => looks (.pure _)

theorem nameIn (scope : Nat) (symbol : Value) : AsksNames (Host.nameIn E.watched scope symbol) := by
  unfold Host.nameIn symbolsOf
  refine bind (looks (.bind (.node scope) fun n => ?_)) fun r => bind ?_ fun _ => ?_
  · split
    · exact .pure _
    · exact .fail _
  · unfold SymbolTable.nameOf
    split
    · exact looks (.pure _)
    · exact looks (.pure _)
    · refine bind (fun w => ⟨[.lookupSymbol _ _], rfl, ?_⟩) fun _ => looks (.pure _)
      simp
  · exact bind (quiet fun _ => rfl) fun _ => looks (.check _)

theorem newArgs (scope : Nat) (signature : Signature) (raw : List RawArg) :
    AsksNames (Host.newArgs E.watched scope signature raw) := by
  unfold Host.newArgs
  refine bind (mapM (fun r => ?_) raw) fun entries => quiet fun w => ?_
  · exact bind (nameIn scope r.symbol) fun _ => looks (.pure _)
  · rw [exec_addNode]

end AsksNames

theorem RefusalsReport.watched (hE : RefusalsReport E) : RefusalsReport (S := S.watched) E.watched := by
  intro t s f h
  by_cases hkind : t.1 = .args
  · obtain ⟨kind, handle⟩ := t
    subst hkind
    obtain rfl := Except.error.inj h
    exact ⟨rfl, by simp [Failure.family, ShapeFault.family]⟩
  · rw [Engine.drop_watched hkind, Engine.noted_run] at h
    exact hE t s.state f h

end Names

/-- How a call ends: with a reply, but for two cases in which it fails and releases nothing. An argument has
no name, or the implementation fails with what has no text. -/
theorem invoke_replies {S : Embedding} {E : Engine S.State} {run : RunBody S.watched}
    {w : World S.watched} (hE : RefusalsReport E) {f : FunctionId} {fn : HostFunction S.Body}
    (hfn : w.functions[f]? = some fn) (raw : List RawArg) :
    (∀ args w₁, exec (newArgs E.watched fn.scope fn.definition.signature raw) w = (.ok args, w₁) →
      (∀ g w₂, exec (implement run fn.definition args) w₁ = (.error g, w₂) → Reportable g) →
      ∃ v w', exec (invoke E.watched run f raw) w = (.ok v, w') ∧ Reply v) ∧
    (∀ g w₁, exec (newArgs E.watched fn.scope fn.definition.signature raw) w = (.error g, w₁) →
      exec (invoke E.watched run f raw) w = (.error g, w₁) ∧
      ∃ asked, w₁.engine.notes.calls = w.engine.notes.calls ++ asked ∧
        ∀ call ∈ asked, ∃ scope symbol, call = .lookupSymbol scope symbol) ∧
    ∀ args w₁ g w₂, exec (newArgs E.watched fn.scope fn.definition.signature raw) w = (.ok args, w₁) →
      exec (implement run fn.definition args) w₁ = (.error g, w₂) → ¬ g.Tellable →
      exec (invoke E.watched run f raw) w = (.error (.shape .wrongKind), w₂) := by
  have hcallee : exec (callee? (S := S.watched) f) w = (.ok fn, w) := by
    simp only [callee?, exec_bind, exec_get, hfn, exec_pure]
  refine ⟨fun args w₁ hargs himplement => ?_, fun g w₁ hargs => ⟨?_, ?_⟩,
    fun args w₁ g w₂ hargs himplement hg => ?_⟩
  · obtain ⟨v, w₂, hanswer, hreply⟩ := exec_answer_reply himplement
    simp only [invoke, exec_bind, hcallee, hargs, hanswer, exec_attempt]
    cases hrelease : exec (releaseArgs E.watched args) w₂ with
    | mk r w₃ =>
      cases r with
      | ok u => exact ⟨v, w₃, rfl, hreply⟩
      | error g =>
        have hg := Reports.releaseArgs hE.watched args w₂ w₃ g hrelease
        dsimp only
        split
        · obtain ⟨v', hexec, hreply'⟩ := hg.reply (exec (write (.releaseFailed _ _)) w₃).2
          exact ⟨v', _, hexec, hreply'⟩
        · obtain ⟨v', hexec, hreply'⟩ := hg.reply w₃
          exact ⟨v', _, hexec, hreply'⟩
  · simp only [invoke, exec_bind, hcallee, hargs]
  · have hasks := AsksNames.newArgs (E := E) fn.scope fn.definition.signature raw w
    rw [hargs] at hasks
    exact hasks
  · simp only [invoke, exec_bind, hcallee, hargs, exec_answer_untold himplement hg]

namespace Tickets

/-- Tickets that may fail to know a symbol. -/
def forgetful : Engine Tickets :=
  { engine with lookupSymbol := fun _ _ => throw (.engineFault "no symbol") }

/-- A body that fails with a message of the engine that is no text. -/
def cryptic : RunBody embedding := fun _ _ => fail (.host (.engine (.int 5)))

/-- The call with two callbacks, watched. -/
def watchedCalling : World embedding.watched :=
  ⟨calling.nodes, [], calling.functions, ⟨calling.engine, ⟨[], []⟩⟩, (), []⟩

theorem refusalsReport : RefusalsReport (S := embedding) engine := by
  intro t s f h
  obtain ⟨kind, handle⟩ := t
  cases kind with
  | args =>
    obtain rfl := Except.error.inj h
    exact ⟨rfl, by simp [Failure.family, ShapeFault.family]⟩
  | _ => cases h

end Tickets

/-- A body that looks at nothing gives a number. -/
theorem invoke_replies_idle :
    ∃ v w', exec (invoke Tickets.engine.watched (fun _ _ => pure (.int 0)) 0 Tickets.callbacks)
      Tickets.watchedCalling = (.ok v, w') ∧ Reply v := by
  have hfn : Tickets.watchedCalling.functions[0]? = some
      ⟨0, ⟨⟨[⟨.str "f", .primitive .number, true, false⟩], .primitive .number, true⟩, .function ()⟩⟩ := rfl
  refine (invoke_replies (S := Tickets.embedding) Tickets.refusalsReport hfn Tickets.callbacks).1 1 _
    (Prod.ext (by cbv) rfl) ?_
  intro g w₂ h
  cases h

/-- A symbol that is not known, or a failure without a text, and both callbacks stay with the engine. -/
theorem invoke_escapes :
    ∃ w₁ w₂, exec (invoke Tickets.forgetful (fun _ _ => pure (.int 0)) 0 Tickets.callbacks) Tickets.calling =
        (.error (.engineFault "no symbol"), w₁) ∧ w₁.engine.dropped = [] ∧
      exec (invoke Tickets.engine Tickets.cryptic 0 Tickets.callbacks) Tickets.calling =
        (.error (.shape .wrongKind), w₂) ∧ w₂.engine.dropped = [] :=
  ⟨_, _, Prod.ext (by cbv) rfl, by cbv, Prod.ext (by cbv) rfl, by cbv⟩

end EngineHost
