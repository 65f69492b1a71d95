import EngineHost.Scripted.State

/-!
Evaluation of scripted programs. Expressions are followed by their structure; each application of a
closure counts against a limit on nesting.
-/
namespace EngineHost.Scripted

/-- Why an evaluation ends without a value. -/
inductive Stop where
  | failure (message : Value)
  | envelope (answer : Value)
  | broken (f : Failure)

/-- Evaluations in a state, which may stop. -/
def Eval (α : Type) := State → Evaluation State (Except Stop α)

namespace Eval

variable {α β : Type}

def stop (s : Stop) : Eval α := fun state => .done (.error s) state

def failure (message : String) : Eval α :=
  stop (.failure (.str message))

instance : Monad Eval where
  pure a := fun state => .done (.ok a) state
  bind x f := fun state =>
    (x state).andThen fun
      | .ok a, state => f a state
      | .error s, state => .done (.error s) state

def ofAction (action : Action α) : Eval α := fun state =>
  match action.run state with
  | (.ok a, state) => .done (.ok a) state
  | (.error f, state) => .done (.error (.broken f)) state

/-- The answer of a host function. -/
def callHost (id : FunctionId) (args : List RawArg) : Eval Value := fun state =>
  .ask id args state fun answer state =>
    match answer with
    | .ok v => .done (.ok v) state
    | .error f => .done (.error (.broken f)) state

end Eval

open Eval

/-- Inside a value there is no place for a closure. -/
def plainValue : Item → Eval Value
  | .value v => pure v
  | .closure _ _ _ _ => failure "callback inside a value"

/-- A host function of the scope, if the scope is still there. -/
def hostFunction? (scope : Option Value) (name : Value) : Eval (Option (Value × FunctionId)) := do
  let s ← ofAction get
  match (scope.bind (find? · s.scopes)).bind (find? name ·.functions), scope with
  | some (_, id), some handle => pure (some (handle, id))
  | _, _ => pure none

/-- The symbol an argument is named by: a text is interned, anything else is a symbol already. -/
def symbolOf (handle name : Value) : Eval Value :=
  if name.isText then ofAction (internSymbol handle name) else pure name

def rawArg (symbol : Value) : Item → Eval RawArg
  | .value v => pure ⟨symbol, v, .null⟩
  | closure => do
    let handle ← ofAction (addBlock closure)
    pure ⟨symbol, .null, handle⟩

/-- A message is a failure of the evaluation. -/
def hostAnswer (answer : Value) : Eval Value :=
  match Envelope.unwrap answer with
  | .ok payload => pure payload
  | .error (.host (.engine message)) => stop (.failure message)
  | .error f => stop (.broken f)

mutual

def evalExpr (apply : Item → List Item → Eval Item) (env : Env) (scope : Option Value) :
    Expr → Eval Item
  | .const v => pure (.value v)
  | .var name =>
    match find? name env with
    | some item => pure item
    | none => failure ("unbound variable: " ++ name.text)
  | .fail message => failure message
  | .list items => do
    let values ← evalList apply env scope items
    pure (.value (.ofFields [("List", .list values)]))
  | .record fields => do
    let entries ← evalFields apply env scope fields
    pure (.value (.ofFields [("Record", .mapping .plain (Value.collectEntries entries))]))
  | .fn params body => pure (.closure params body env scope)
  | .envelope answer => stop (.envelope answer)
  | .call name args =>
    match find? name env with
    | some (.closure params body captured home) => do
      apply (.closure params body captured home) (← evalPositional apply env scope args)
    | _ => do
      match ← hostFunction? scope name with
      | none => failure ("unknown function: " ++ name.text)
      | some (handle, known) => do
        let raw ← evalNamed apply env scope handle args
        -- The arguments may have defined the function anew.
        let now ← hostFunction? scope name
        .value <$> (callHost (now.elim known Prod.snd) raw >>= hostAnswer)

def evalList (apply : Item → List Item → Eval Item) (env : Env) (scope : Option Value) :
    List Expr → Eval (List Value)
  | [] => pure []
  | e :: rest => do
    let v ← evalExpr apply env scope e >>= plainValue
    return v :: (← evalList apply env scope rest)

def evalFields (apply : Item → List Item → Eval Item) (env : Env) (scope : Option Value) :
    List (Value × Expr) → Eval (List (Value × Value))
  | [] => pure []
  | (key, e) :: rest => do
    let v ← evalExpr apply env scope e >>= plainValue
    ofAction (requireKey key)
    return (key, v) :: (← evalFields apply env scope rest)

def evalPositional (apply : Item → List Item → Eval Item) (env : Env) (scope : Option Value) :
    List CallArg → Eval (List Item)
  | [] => pure []
  | .positional e :: rest => do
    let item ← evalExpr apply env scope e
    return item :: (← evalPositional apply env scope rest)
  | .named _ e :: rest => do
    let item ← evalExpr apply env scope e
    return item :: (← evalPositional apply env scope rest)

def evalNamed (apply : Item → List Item → Eval Item) (env : Env) (scope : Option Value)
    (handle : Value) : List CallArg → Eval (List RawArg)
  | [] => pure []
  | .named name e :: rest => do
    let item ← evalExpr apply env scope e
    let raw ← rawArg (← symbolOf handle name) item
    return raw :: (← evalNamed apply env scope handle rest)
  | .positional e :: rest => do
    let raw ← evalExpr apply env scope e >>= rawArg .null
    return raw :: (← evalNamed apply env scope handle rest)

end

/-- The deepest nesting of closures. -/
def maxNesting : Nat := 1000

def applyWithin : Nat → Item → List Item → Eval Item
  | 0, _, _ => stop (.broken .tooDeep)
  | fuel + 1, .closure params body env scope, args =>
    if params.length = args.length then
      evalExpr (applyWithin fuel) ((params.zip args).reverse ++ env) scope body
    else
      failure ("expected " ++ toString params.length ++ " arguments, got " ++ toString args.length)
  | _ + 1, item, [] => pure item
  | _ + 1, .value _, _ :: _ => failure "not a callback"

def apply (closure : Item) (args : List Item) : Eval Item :=
  applyWithin maxNesting closure args

/-- The answer to an evaluation: a closure becomes a block, and a failure its message. -/
def conclude (eval : Eval Item) (state : State) : Evaluation State (Checked Value) :=
  (eval state).andThen fun outcome state =>
    match outcome with
    | .ok (.value v) => .done (.ok (Envelope.ok (.list [v, .null]))) state
    | .ok closure =>
      match (addBlock closure).run state with
      | (.ok handle, state) => .done (.ok (Envelope.ok (.list [.null, handle]))) state
      | (.error f, state) => .done (.error f) state
    | .error (.failure message) => .done (.ok (Envelope.err message)) state
    | .error (.envelope answer) => .done (.ok answer) state
    | .error (.broken f) => .done (.error f) state

def unknownProgram (source : Value) : String :=
  "unknown program: " ++ source.text

/-- A program without an expression cannot be evaluated. -/
def evalSource (source : Value) (env : Env) (scope : Option Value) : Eval Item := do
  ofAction (requireKey source)
  match (find? source (← ofAction get).programs).bind Program.expr? with
  | some e => evalExpr apply env scope e
  | none => failure (unknownProgram source)

/-- Values by name as variables. -/
def envOf (entries : List (Value × Value)) : Env :=
  entries.map fun (name, v) => (name, .value v)

end EngineHost.Scripted
