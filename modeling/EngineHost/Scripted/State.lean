import EngineHost.Scripted.Expr
import EngineHost.Engine.Interface
import EngineHost.Engine.Envelope

/-!
What the scripted engine keeps: live handles with what they stand for, the calls it has been sent, and
answers that have been set for it in advance. Handles are counted from one.
-/
namespace EngineHost.Scripted

/-- A wire value, or a closure with its variables and the scope its functions are looked up in. -/
inductive Item where
  | value (v : Value)
  | closure (params : List Value) (body : Expr) (env : List (Value × Item)) (scope : Option Value)

/-- Variables; the first of a name counts. -/
abbrev Env := List (Value × Item)

structure Scope where
  /-- A name's symbol is its position. -/
  symbols : List Value
  /-- By function name. -/
  functions : List (Value × Value × FunctionId)

structure Script where
  scope : Value
  source : Value

structure State where
  programs : ProgramTable
  nextHandle : Nat
  scopes : List (Value × Scope)
  scripts : List (Value × Script)
  blocks : List (Value × Item)
  evaluators : List (Value × List (Value × Value))
  /-- By entry point. -/
  faults : List (String × String)
  answers : List (String × Value)
  calls : List (List Value)

def State.initial (programs : ProgramTable) : State :=
  ⟨programs, 1, [], [], [], [], [], [], []⟩

/-- The entry of a handle or a name in a table. -/
def find? {α : Type} (key : Value) (table : List (Value × α)) : Option α :=
  (table.find? fun (k, _) => k.equals key).map Prod.snd

def put {α : Type} (handle : Value) (a : α) (table : List (Value × α)) : List (Value × α) :=
  table.map fun (h, b) => if h.equals handle then (h, a) else (h, b)

def remove {α : Type} (handle : Value) (table : List (Value × α)) : List (Value × α) :=
  table.filter fun (h, _) => !h.equals handle

/-- Writes under a key, which keeps its place. -/
def putKey {α : Type} (key : Value) (a : α) : List (Value × α) → List (Value × α)
  | [] => [(key, a)]
  | (k, b) :: rest => if k.equals key then (k, a) :: rest else (k, b) :: putKey key a rest

/-- Writes under a name, which keeps its place. -/
def putName {α : Type} (name : String) (a : α) : List (String × α) → List (String × α)
  | [] => [(name, a)]
  | (n, b) :: rest => if n = name then (n, a) :: rest else (n, b) :: putName name a rest

abbrev Action := EngineM State

def unknownHandle {α : Type} (kind : String) (handle : Value) : Checked α :=
  throw (.engineFault ("no " ++ kind ++ " " ++ handle.text))

def require {α : Type} (kind : String) (handle : Value) (table : List (Value × α)) : Action α :=
  match find? handle table with
  | some a => pure a
  | none => ofExcept (unknownHandle kind handle)

/-- Refuses what cannot be a key. -/
def requireKey (key : Value) : Action Unit :=
  if key.isHashable then pure () else throw (.shape .wrongKind)

def freshHandle : Action Value :=
  modifyGet fun s => (.int s.nextHandle, { s with nextHandle := s.nextHandle + 1 })

/-- Logs a call. A fault set for its entry point breaks it off, an answer set for it is given. -/
def enter (name : String) (args : List Value) : Action (Option Value) := do
  modify fun s => { s with calls := s.calls ++ [.str name :: args] }
  let s ← get
  match s.faults.lookup name with
  | some message => throw (.engineFault message)
  | none => pure (s.answers.lookup name)

/-- An entry point that does its work unless an answer is set for it. -/
def entry {α : Type} (name : String) (args : List Value) (ofAnswer : Value → α) (work : Action α) :
    Action α := do
  match ← enter name args with
  | some answer => pure (ofAnswer answer)
  | none => work

/-- The symbol of a name in a scope, given on first use. -/
def internSymbol (handle name : Value) : Action Value := do
  let scope ← require "namespace" handle (← get).scopes
  requireKey name
  match scope.symbols.findIdx? (·.equals name) with
  | some i => pure (.int i)
  | none => do
    let scope' := { scope with symbols := scope.symbols ++ [name] }
    modify fun s => { s with scopes := put handle scope' s.scopes }
    pure (.int scope.symbols.length)

def nameOfSymbol? (scope : Scope) (symbol : Value) : Option Value :=
  (scope.symbols.zipIdx.find? fun (_, i) => (Value.int i).equals symbol).map Prod.fst

def lookupSymbol (handle symbol : Value) : Action Value := do
  let scope ← require "namespace" handle (← get).scopes
  match nameOfSymbol? scope symbol with
  | some name => pure name
  | none => ofExcept (unknownHandle "symbol" symbol)

/-- A closure as a block of its own. -/
def addBlock (closure : Item) : Action Value := do
  let handle ← freshHandle
  modify fun s => { s with blocks := s.blocks ++ [(handle, closure)] }
  pure handle

end EngineHost.Scripted
