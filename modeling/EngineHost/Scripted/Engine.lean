import EngineHost.Scripted.Evaluation

/-!
The scripted engine behind the entry points of every engine.
-/
namespace EngineHost.Scripted

def inputsValue (inputs : List (Value × Value)) : Value :=
  .mapping .plain inputs

/-- What a program is known to be about. -/
def typesOf (source : Value) : Action Value := do
  requireKey source
  match find? source (← get).programs with
  | none => pure (Envelope.err (.str (unknownProgram source)))
  | some program =>
    match program.types? with
    | some answer => pure answer
    | none => pure (Envelope.ok (.ofFields [("inputs", .mapping .plain []), ("errors", .list [])]))

/-- An entry point that evaluates: `prepare` finds out what. -/
def evaluation (name : String) (args : List Value) (prepare : Action (Eval Item)) (state : State) :
    Evaluation State (Checked Value) :=
  match (enter name args).run state with
  | (.error f, state) => .done (.error f) state
  | (.ok (some answer), state) => .done (.ok answer) state
  | (.ok none, state) =>
    match prepare.run state with
    | (.error f, state) => .done (.error f) state
    | (.ok eval, state) => conclude eval state

/-- The name that a signature on the wire gives its function. -/
def definedName (scope signature : Value) : Action Value := do
  let args ← ofExcept (signature.atKey "args" >>= Value.elements)
  match args with
  | [] => throw (.shape .emptySequence)
  | first :: _ => lookupSymbol scope (← ofExcept (first.atKey "name"))

def engine : Engine State where
  allocScope := entry "alloc_namespace" [] id do
    let handle ← freshHandle
    modify fun s => { s with scopes := s.scopes ++ [(handle, ⟨[], []⟩)] }
    pure handle
  dropScope scope := entry "drop_namespace" [scope] (fun _ => ()) do
    let _ ← require "namespace" scope (← get).scopes
    modify fun s => { s with scopes := remove scope s.scopes }
  internSymbol scope name := entry "intern_symbol" [scope, name] id (internSymbol scope name)
  lookupSymbol scope symbol :=
    entry "lookup_symbol" [scope, symbol] id (lookupSymbol scope symbol)
  define scope signature function := entry "define" [scope, signature] (fun _ => ()) do
    let _ ← require "namespace" scope (← get).scopes
    let name ← definedName scope signature
    let known ← require "namespace" scope (← get).scopes
    let changed := { known with functions := putKey name (signature, function) known.functions }
    modify fun s => { s with scopes := put scope changed s.scopes }
  getSignature scope name := entry "get_signature" [scope, name] id do
    let known ← require "namespace" scope (← get).scopes
    requireKey name
    pure ((find? name known.functions).elim .null Prod.fst)
  compile scope source := entry "compile" [scope, source] id do
    let _ ← require "namespace" scope (← get).scopes
    let handle ← freshHandle
    modify fun s => { s with scripts := s.scripts ++ [(handle, ⟨scope, source⟩)] }
    pure handle
  recompile script source := entry "recompile" [script, source] (fun _ => ()) do
    let known ← require "script" script (← get).scripts
    modify fun s => { s with scripts := put script { known with source } s.scripts }
  typeInfo script := entry "type_info" [script] id do
    let known ← require "script" script (← get).scripts
    typesOf known.source
  evaluate script inputs := evaluation "evaluate" [script, inputsValue inputs] do
    let known ← require "script" script (← get).scripts
    pure (evalSource known.source (envOf inputs) (some known.scope))
  dropScript script := entry "drop_script" [script] (fun _ => ()) do
    let _ ← require "script" script (← get).scripts
    modify fun s => { s with scripts := remove script s.scripts }
  callBlock block args := evaluation "call_block" [block, .list args] do
    let closure ← require "block" block (← get).blocks
    pure (apply closure (args.map .value))
  dropBlock block := entry "drop_block" [block] (fun _ => ()) do
    let _ ← require "block" block (← get).blocks
    modify fun s => { s with blocks := remove block s.blocks }
  allocEvaluator := entry "alloc_evaluator" [] id do
    let handle ← freshHandle
    modify fun s => { s with evaluators := s.evaluators ++ [(handle, [])] }
    pure handle
  dropEvaluator evaluator := entry "drop_evaluator" [evaluator] (fun _ => ()) do
    let _ ← require "evaluator" evaluator (← get).evaluators
    modify fun s => { s with evaluators := remove evaluator s.evaluators }
  evaluateSource evaluator source inputs :=
    evaluation "evaluate_source" [evaluator, source, inputsValue inputs] do
      let vars ← require "evaluator" evaluator (← get).evaluators
      pure (evalSource source (envOf (inputs ++ vars)) none)
  typeOf evaluator source := entry "type_of" [evaluator, source] id do
    let _ ← require "evaluator" evaluator (← get).evaluators
    typesOf source
  setVar evaluator name value := entry "set_var" [evaluator, name, value] (fun _ => ()) do
    let vars ← require "evaluator" evaluator (← get).evaluators
    requireKey name
    modify fun s => { s with evaluators := put evaluator (putKey name value vars) s.evaluators }
  getVars evaluator := entry "get_vars" [evaluator] id do
    let vars ← require "evaluator" evaluator (← get).evaluators
    pure (.mapping .plain vars)

end EngineHost.Scripted
