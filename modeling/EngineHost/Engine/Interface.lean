import EngineHost.Failure

/-!
The entry points of an evaluation engine, over a state that only the engine knows. What it hands out as
a handle is any value and is only handed back. Evaluations may call host functions: such a call is a
point where the engine waits for an answer, and meanwhile its other entry points may be used.
-/
namespace EngineHost

/-- One argument of a call from the engine: a symbol, and a wire value or a callback handle. -/
structure RawArg where
  symbol : Value
  value : Value
  block : Value

/-- The number of a host function, as it was given to the engine. -/
abbrev FunctionId := Nat

/-- A call that only the engine's state takes part in. -/
abbrev EngineM (σ : Type) := ExceptT Failure (StateM σ)

/-- A call during which host functions run: it is done, or it asks for the answer of a function. -/
inductive Evaluation (σ α : Type) where
  | done (result : α) (state : σ)
  | ask (function : FunctionId) (args : List RawArg) (state : σ)
      (resume : Checked Value → σ → Evaluation σ α)

namespace Evaluation

variable {σ α β : Type}

/-- Goes on with the result and the state it was reached in. -/
def andThen : Evaluation σ α → (α → σ → Evaluation σ β) → Evaluation σ β
  | .done result state, next => next result state
  | .ask function args state resume, next =>
    .ask function args state fun answer state => (resume answer state).andThen next

end Evaluation


structure Engine (σ : Type) where
  allocScope : EngineM σ Value
  dropScope (scope : Value) : EngineM σ Unit
  internSymbol (scope name : Value) : EngineM σ Value
  lookupSymbol (scope symbol : Value) : EngineM σ Value
  define (scope signature : Value) (function : FunctionId) : EngineM σ Unit
  /-- Null for a name without a function. -/
  getSignature (scope name : Value) : EngineM σ Value
  compile (scope source : Value) : EngineM σ Value
  recompile (script source : Value) : EngineM σ Unit
  typeInfo (script : Value) : EngineM σ Value
  evaluate (script : Value) (inputs : List (Value × Value)) : σ → Evaluation σ (Checked Value)
  dropScript (script : Value) : EngineM σ Unit
  callBlock (block : Value) (args : List Value) : σ → Evaluation σ (Checked Value)
  dropBlock (block : Value) : EngineM σ Unit
  allocEvaluator : EngineM σ Value
  dropEvaluator (evaluator : Value) : EngineM σ Unit
  evaluateSource (evaluator source : Value) (inputs : List (Value × Value)) :
    σ → Evaluation σ (Checked Value)
  typeOf (evaluator source : Value) : EngineM σ Value
  setVar (evaluator name value : Value) : EngineM σ Unit
  getVars (evaluator : Value) : EngineM σ Value

end EngineHost
