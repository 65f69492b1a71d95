import EngineHost.Host.Operations
import EngineHost.Scripted.Engine

/-!
A host program written down as steps over named variables. A step works on the object that a variable
holds and keeps its outcome in another; the bodies of host functions are such steps too.
-/
namespace EngineHost.Session

/-- A value that may mention variables, built when it is used. -/
structure Template where
  build : (String → Checked Value) → Checked Value
  /-- The variable that is all of the value. -/
  soleVariable : Option String

/-- The outcome of a step, which a variable can hold. -/
inductive Outcome where
  | value (v : Value)
  | signature (s : Signature)
  | typeInfo (info : TypeInfo)
  | fields (fields : List (String × Value))

/-- Where an outcome was made, which tells apart outcomes that look alike. -/
inductive Origin where
  /-- By a step; steps are numbered as they end. -/
  | step (number : Nat)
  /-- When an argument of a call was first read. -/
  | argument (args : ObjectId) (position : Nat)
  deriving DecidableEq, Repr

/-- What a variable holds. -/
structure Held where
  outcome : Outcome
  origin : Origin

/-- A callback among raw arguments: none, a handle, or a new closure of the engine. -/
inductive RawBlock where
  | handle (h : Template)
  | closure (params : List Value) (body : Scripted.Expr)

structure RawEntry where
  symbol : Template
  value : Template
  block : RawBlock

mutual

/-- `name` is what a record of the step calls it. -/
inductive Step where
  | mk (name : String) (target : Option String) (keepAs : Option String) (catches : Bool)
      (action : Action)

inductive Action where
  | newScope
  | newEvaluator
  | defineType (name expr : Template)
  | define (lines : List Line)
  | getSignature (name : Template)
  | compile (source : Template)
  | recompile (source : Template)
  | eval (source : Option Template) (inputs : Template)
  | typeInfo
  | typeOf (source : Template)
  | set (name value : Template)
  | vars
  | destroy
  | release
  | call (args : List Template)
  | within (steps : List Step)
  | args (raw : List RawEntry) (signature : String)
  | demand (name : Template)
  | maybe (name fallback : Template)
  | items
  | iter
  | next
  | size
  | contains (name : Template)
  | intern (name : Template)
  | nameOf (symbol : Template)
  | adopt (what : String)
  | disown (what : String)
  | wrapBlock (handle : Template)
  | same (first second : String)
  | copyOf (source : String)
  | raise (family : String) (message : Option String)
  | setFault (method : String) (message : Option String)
  | setAnswer (method : String) (answer : Option Template)
  | state

/-- One call on the builder of a function. -/
inductive Line where
  | declare (name expr : Template) (required variadic : Bool)
  | setTotal (total : Bool)
  | returns (expr : Template)
  | implement (body : Body)
  | implementValue (value : Template)
  /-- Asks whether the declaration is complete so far. -/
  | validate
  /-- A call that builders do not have. -/
  | unknown

/-- The body of a host function: its steps, then what it returns. -/
inductive Body where
  | mk (steps : List Step) (result : Template)

end

/-- A step that ran inside a host function or a block of statements. -/
structure TraceEntry where
  /-- The name of the function, or what the block of statements is called. -/
  place : Value
  name : String
  /-- Nothing while the step is running. -/
  outcome : Option (Except Failure Outcome)

/-- What a session keeps besides its objects. -/
structure Own where
  bindings : List (String × Held)
  /-- Where the type behind an alias of a scope was made. -/
  aliasOrigins : List (ObjectId × Value × Origin)
  stepsEnded : Nat
  trace : List TraceEntry

/-- Sessions use the scripted engine. -/
def embedding : Embedding := ⟨Scripted.State, Own, Body⟩

/-- Computations of a session. -/
abbrev SessionM := Host embedding

end EngineHost.Session
