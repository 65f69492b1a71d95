import EngineHost.Proofs.Evaluators
import EngineHost.Proofs.Precedence
import EngineHost.Scripted.Engine

/-!
How a program run from the command line ends. A program without host functions answers none, so an evaluation
comes to its end by itself, and the evaluator owns at most one callback, which goes before it. What fails on the
way is reported, or it is of a kind that is not.
-/
namespace EngineHost

/-- How an evaluation ends when every function that it asks for is unknown. -/
def Evaluation.alone {σ α : Type} : Evaluation σ α → α × σ
  | .done result state => (result, state)
  | .ask _ _ state resume => (resume (.error (.shape .wrongKind)) state).alone

namespace Host

variable {S : Embedding} {E : Engine S.State} {w : World S}

/-- An evaluator, and the callback that it owns, if it has one. -/
def household (evaluator : Value) (callback : Option Value) : List Node :=
  match callback with
  | none => [⟨.evaluator, some evaluator, []⟩]
  | some b => [⟨.evaluator, some evaluator, [refOf 1 .block]⟩, ⟨.block 0, some b, []⟩]

/-- The callback that comes with an envelope. -/
def callbackOf (envelope : Checked Value) : Option Value :=
  match envelope >>= Envelope.unwrapPair with
  | .ok (_, block) => handleOf block
  | .error _ => none

/-- What an evaluator and its callback hold, in the order in which it goes. -/
def holdings (evaluator : Value) (callback : Option Value) : List Token :=
  (callback.map fun b => (.block, b)).toList ++ [(.evaluator, evaluator)]

theorem forest_household (evaluator : Value) (callback : Option Value) :
    Forest 0 (household evaluator callback) := by
  cases callback with
  | none =>
    constructor
    · intro p m _ hm v hv
      match p, hm with
      | 0, hm =>
        obtain rfl := Option.some.inj hm
        cases hv
    · intro p m _ hm
      match p, hm with
      | 0, hm =>
        obtain rfl := Option.some.inj hm
        exact .nil
  | some b =>
    constructor
    · intro p m _ hm v hv
      match p, hm with
      | 0, hm =>
        obtain rfl := Option.some.inj hm
        obtain rfl := List.mem_singleton.mp hv
        exact ⟨1, _, rfl, rfl, rfl, rfl, by omega⟩
      | 1, hm =>
        obtain rfl := Option.some.inj hm
        cases hv
    · intro p m _ hm
      match p, hm with
      | 0, hm =>
        obtain rfl := Option.some.inj hm
        exact List.nodup_singleton _
      | 1, hm =>
        obtain rfl := Option.some.inj hm
        exact .nil

/-- Closing an evaluator gives back what it and its callback hold, and nothing else changes for the program. -/
theorem exec_close {evaluator : Value} {callback : Option Value} (hw : w.nodes = household evaluator callback) :
    ∃ w', exec (close E 0) w = (((E.giveBack (holdings evaluator callback)).run.run w.engine).1, w') ∧
      w'.engine = ((E.giveBack (holdings evaluator callback)).run.run w.engine).2 ∧ w'.own = w.own := by
  have hF := forest_household evaluator callback
  obtain ⟨n, hn, hlive, hkind, htokens⟩ : ∃ n, (household evaluator callback)[0]? = some n ∧
      n.handle.isSome ∧ n.role.kind ≠ .args ∧
      tokensOf (household evaluator callback)
        (teardown (household evaluator callback) ((household evaluator callback).length + 1) 0) =
        holdings evaluator callback := by
    cases callback with
    | none => exact ⟨_, rfl, rfl, nofun, rfl⟩
    | some b => exact ⟨_, rfl, rfl, nofun, rfl⟩
  have hdestroy := unwinds_destroy (E := E) hF.thicket 0 n w (Nat.zero_le _) hn hlive hkind (by omega)
    (hw ▸ Standing.refl 0 _ w)
  rw [hF.teardown_pruned _ (Nat.zero_le _)] at hdestroy
  have hgives := hdestroy.gives
  rw [htokens] at hgives
  have hown : (exec (destroy E 0) w).2.own = w.own := by
    generalize exec (destroy E 0) w = q at hdestroy
    cases hdestroy with
    | done given after aside => exact aside.own
    | stuck split given token refused line after aside => exact aside.own
  rw [close, exec_bind_ok (exec_node_some (hw ▸ hn)), if_pos hlive, hgives]
  exact ⟨_, rfl, rfl, hown⟩

end Host

namespace CommandLine

open Host

variable {σ : Type}

/-- Nothing, or lines that are complete. -/
def WholeLines (text : String) : Prop :=
  text = "" ∨ ∃ front, text = front ++ "\n"

namespace WholeLines

theorem line (text : String) : WholeLines (text ++ "\n") :=
  .inr ⟨text, rfl⟩

theorem append {a b : String} (ha : WholeLines a) (hb : WholeLines b) : WholeLines (a ++ b) := by
  rcases hb with rfl | ⟨front, rfl⟩
  · rwa [String.append_empty]
  · exact .inr ⟨a ++ front, (String.append_assoc ..).symm⟩

theorem join (events : List LogEvent) : WholeLines (String.join (events.map logLine)) := by
  induction events with
  | nil => exact .inl rfl
  | cons e rest ih =>
    rw [List.map_cons, String.join_cons]
    exact (line e.text).append ih

theorem showLog {w : World (embedding σ)} (h : WholeLines w.own.errors) :
    WholeLines (CommandLine.showLog w).own.errors :=
  h.append (join _)

end WholeLines

/-- The inputs of a request as they cross. -/
def Request.inputs (params : List String) : Checked (List (Value × Value)) :=
  readInputs params >>= Wire.encodeInputs

/-- What is asked of the engine for a request. -/
def Request.asks (r : Request) (evaluator : Value) : List EngineCall :=
  match r.command with
  | .eval params =>
    match Request.inputs params with
    | .ok inputs => [.evaluateSource evaluator (.str r.source) inputs]
    | .error _ => []
  | .typeOf => [.typeOf evaluator (.str r.source)]

/-- The callback that comes of it, if any, and the engine's state after it. -/
def Request.serve (r : Request) (E : Engine σ) (evaluator : Value) (s : σ) : Option Value × σ :=
  match r.command with
  | .eval params =>
    match Request.inputs params with
    | .ok inputs =>
      let e := (E.evaluateSource evaluator (.str r.source) inputs s).alone
      (callbackOf e.1, e.2)
    | .error _ => (none, s)
  | .typeOf => (none, ((E.typeOf evaluator (.str r.source)).run.run s).2)

/-- The types that the engine infers for a request. -/
def Request.typing (r : Request) (E : Engine σ) (evaluator : Value) (s : σ) : Checked TypeInfo :=
  ((E.typeOf evaluator (.str r.source)).run.run s).1 >>= Envelope.unwrap >>= TypeInfo.ofWire (.str r.source)

/-- What carrying out a request comes to, and what has been printed to the error output. `typed` tells of the
types that may have been inferred. -/
inductive Answer (r : Request) (typed : TypeInfo → Prop) : Except Failure Nat → String → Prop where
  | done {errors : String} (h : WholeLines errors) : Answer r typed (.ok 0) errors
  | failed {f : Failure} {errors : String} (h : WholeLines errors) : Answer r typed (.error f) errors
  | typeErrors {info : TypeInfo} {before after : String} (hcommand : r.command = .typeOf) (htyped : typed info)
    (herrors : info.hasErrors) (hbefore : WholeLines before) (hafter : WholeLines after) :
    Answer r typed (.ok 1) (before ++ info.formatErrors ++ "\n" ++ after)

namespace Answer

variable {r : Request} {typed typed' : TypeInfo → Prop} {outcome : Except Failure Nat} {errors more : String}

theorem wholeLines (h : Answer r typed outcome errors) : WholeLines errors := by
  cases h with
  | done h => exact h
  | failed h => exact h
  | typeErrors hcommand htyped herrors hbefore hafter => exact (WholeLines.line _).append hafter

theorem append (h : Answer r typed outcome errors) (hmore : WholeLines more) :
    Answer r typed outcome (errors ++ more) := by
  cases h with
  | done h => exact .done (h.append hmore)
  | failed h => exact .failed (h.append hmore)
  | typeErrors hcommand htyped herrors hbefore hafter =>
    rw [String.append_assoc]
    exact .typeErrors hcommand htyped herrors hbefore (hafter.append hmore)

theorem imp (h : Answer r typed outcome errors) (himp : ∀ info, typed info → typed' info) :
    Answer r typed' outcome errors := by
  cases h with
  | done h => exact .done h
  | failed h => exact .failed h
  | typeErrors hcommand htyped herrors hbefore hafter =>
    exact .typeErrors hcommand (himp _ htyped) herrors hbefore hafter

end Answer

/-- A command that has been carried out on an evaluator. -/
structure Served (r : Request) (E : Engine σ) (evaluator : Value) (s : σ)
    (q : Except Failure Nat × World (embedding σ)) : Prop where
  nodes : q.2.nodes = household evaluator (r.serve E evaluator s).1
  engine : q.2.engine = (r.serve E evaluator s).2
  answer : Answer r (fun info => r.typing E evaluator s = .ok info) q.1 q.2.own.errors

theorem Served.of {r : Request} {E : Engine σ} {evaluator : Value} {s s' : σ} {callback : Option Value}
    {q : Except Failure Nat × World (embedding σ)} (hserve : r.serve E evaluator s = (callback, s'))
    (hnodes : q.2.nodes = household evaluator callback) (hengine : q.2.engine = s')
    (answer : Answer r (fun info => r.typing E evaluator s = .ok info) q.1 q.2.own.errors) : Served r E evaluator s q where
  nodes := by rw [hserve, hnodes]
  engine := by rw [hserve, hengine]
  answer := answer

section Commands

variable {r : Request} {E : Engine σ} {evaluator : Value} {w : World (embedding σ)} {params : List String}

end Commands

/-- The engine's state when a request has been carried out. -/
def Request.leave (r : Request) (E : Engine σ) (s : σ) : σ :=
  match E.allocEvaluator.run.run s with
  | (.error _, s') => s'
  | (.ok .null, s') => s'
  | (.ok evaluator, s') =>
    let served := r.serve E evaluator s'
    ((E.giveBack (holdings evaluator served.1)).run.run served.2).2

section Leaving

variable {r : Request} {E : Engine σ} {s s' : σ}

end Leaving

/-- The types that an evaluator made for a request infers. -/
def Request.Infers (r : Request) (E : Engine σ) (s : σ) (info : TypeInfo) : Prop :=
  ∃ evaluator s', E.allocEvaluator.run.run s = (.ok evaluator, s') ∧ r.typing E evaluator s' = .ok info

/-- A request that has been carried out. -/
structure Ended (r : Request) (E : Engine σ) (s : σ) (q : Except Failure Nat × World (embedding σ)) : Prop where
  engine : q.2.engine = r.leave E s
  answer : Answer r (r.Infers E s) q.1 q.2.own.errors

section Programs

variable {r : Request} {E : Engine σ} {w : World (embedding σ)}

end Programs

/-- The failures that are reported: those of this library, and bad values. -/
def Caught (f : Failure) : Prop :=
  (∃ e, f = .host e) ∨ f.family ∈ ["ValueError", "UnicodeDecodeError"]

theorem reported?_other {f : Failure} (hf : ∀ e, f ≠ .host e) :
    reported? f = if ["ValueError", "UnicodeDecodeError"].contains f.family then some (pure (messageText f))
      else none := by
  cases f with
  | host e => exact absurd rfl (hf e)
  | _ => rfl

theorem reported?_caught {f : Failure} {message : Value} (hcaught : Caught f) (hmessage : f.message? = some message) :
    reported? f = some (.ok message.text) := by
  rcases hcaught with ⟨e, rfl⟩ | hfamily
  · rw [reported?, hmessage]
    rfl
  · have hf : ∀ e, f ≠ .host e := by
      rintro e rfl
      cases e <;> simp [Failure.family, HostError.family] at hfamily
    rw [reported?_other hf, if_pos (List.contains_iff_mem.mpr hfamily), messageText, hmessage]
    rfl

theorem reported?_untold {f : Failure} (hcaught : Caught f) (hmessage : f.message? = none) :
    reported? f = some (.error (.shape .wrongKind)) := by
  cases f with
  | host e => simp [reported?, hmessage, throw, throwThe, MonadExceptOf.throw]
  | shape fault => cases fault <;> cases hmessage
  | _ => cases hmessage

theorem reported?_escaped {f : Failure} (h : ¬ Caught f) : reported? f = none := by
  rw [reported?_other fun e he => h (.inl ⟨e, he⟩), if_neg fun hmem => h (.inr (List.contains_iff_mem.mp hmem))]

/-- How a program ends for the user, by what it came to: with 0; with 1 after type errors or after a line for
the failure; or with a failure that nobody reports. -/
inductive Ending (r : Request) (typed : TypeInfo → Prop) (result : Except Failure Nat) :
    Checked Outcome → Prop where
  | done {output errors : String} (hresult : result = .ok 0) :
    Ending r typed result (.ok (.finished 0 output errors))
  | typeErrors {info : TypeInfo} {output before after : String} (hresult : result = .ok 1)
    (hcommand : r.command = .typeOf) (htyped : typed info) (herrors : info.hasErrors)
    (hbefore : WholeLines before) (hafter : WholeLines after) :
    Ending r typed result (.ok (.finished 1 output (before ++ info.formatErrors ++ "\n" ++ after)))
  | reported {f : Failure} {message : Value} {output before : String} (hresult : result = .error f)
    (hcaught : Caught f) (hmessage : f.message? = some message) (hbefore : WholeLines before) :
    Ending r typed result (.ok (.finished 1 output (before ++ "Error: " ++ message.text ++ "\n")))
  /-- The engine's message is no text. -/
  | untold {f : Failure} (hresult : result = .error f) (hcaught : Caught f) (hmessage : f.message? = none) :
    Ending r typed result (.error (.shape .wrongKind))
  | escaped {f : Failure} (hresult : result = .error f) (h : ¬ Caught f) : Ending r typed result (.error f)

theorem Answer.ending {r : Request} {typed : TypeInfo → Prop} {result : Except Failure Nat} {console : Console}
    (h : Answer r typed result console.errors) : Ending r typed result (conclude console result) := by
  cases result with
  | ok exit =>
    rw [conclude]
    generalize console.errors = errors at h ⊢
    cases h with
    | done h => exact .done rfl
    | typeErrors hcommand htyped herrors hbefore hafter =>
      exact .typeErrors rfl hcommand htyped herrors hbefore hafter
  | error f =>
    rw [conclude]
    by_cases hcaught : Caught f
    · cases hmessage : f.message? with
      | some message =>
        rw [reported?_caught hcaught hmessage]
        exact .reported rfl hcaught hmessage h.wholeLines
      | none =>
        rw [reported?_untold hcaught hmessage]
        exact .untold rfl hcaught hmessage
    · rw [reported?_escaped hcaught]
      exact .escaped rfl hcaught

end CommandLine

end EngineHost
