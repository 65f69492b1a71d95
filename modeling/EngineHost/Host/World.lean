import EngineHost.Engine.Interface
import EngineHost.Registry
import EngineHost.Symbols
import EngineHost.Signature.Builder
import EngineHost.Value.Objects

/-!
The state of a host program that embeds an engine: its objects, the functions it has defined, the
engine's state, the log and whatever else the program keeps. Objects are numbered in the order they
were made and are never forgotten.
-/
namespace EngineHost

abbrev ObjectId := Nat

/-- One argument of a call, by name. -/
structure Entry where
  name : Value
  value : Value
  block : Value

/-- The arguments of one call of a host function. -/
structure Call where
  signature : Signature
  entries : List Entry
  /-- The values read so far, by position. -/
  decoded : List (Nat × Value)
  released : Bool

/-- What an object is, with what only its kind has. -/
inductive Role where
  /-- `issued` is the handle its symbols are interned under. -/
  | scope (issued : Value) (types : Registry) (symbols : SymbolTable)
  | script (home : ObjectId) (source : Value)
  | block (owner : ObjectId)
  | evaluator
  | args (call : Call)

def Role.kind : Role → ResourceKind
  | .scope _ _ _ => .scope
  | .script _ _ => .script
  | .block _ => .block
  | .evaluator => .evaluator
  | .args _ => .args

/-- The object that is told when one of this role is destroyed. -/
def Role.parent? : Role → Option ObjectId
  | .script home _ => some home
  | .block owner => some owner
  | _ => none

/-- An owner of resources. A resource holds a handle until it is destroyed; the arguments of a call hold
none and are released instead. -/
structure Node where
  role : Role
  handle : Option Value
  /-- In the order of adoption. Nothing keeps a host program from adopting what is no resource. -/
  owned : List Value

def Node.isLive (n : Node) : Bool :=
  match n.role with
  | .args call => !call.released
  | _ => n.handle.isSome

/-- The scripts among what is owned. -/
def Node.scripts (n : Node) : List ObjectId :=
  n.owned.filterMap fun
    | .object ⟨id, "Script"⟩ => some id
    | _ => none

/-- An iteration over the arguments of a call. -/
structure Cursor where
  args : ObjectId
  position : Nat
  started : Bool
  finished : Bool

/-- Types that vary from program to program. -/
structure Embedding where
  /-- The engine's state. -/
  State : Type
  /-- What the host program keeps for itself. -/
  Own : Type
  /-- The bodies of host functions. -/
  Body : Type

structure HostFunction (β : Type) where
  scope : ObjectId
  definition : Definition β

inductive LogEvent where
  | loadedEngine (className spec : String)
  | allocatedScope (handle : Value)
  | allocatedEvaluator (handle : Value)
  | compiled (script scope : Value)
  | recompiled (script : Value)
  | releasing (kind : ResourceKind) (handle : Value)
  | defined (name : Value) (signature : Signature)
  | neverFailsRaised (name message : Value)
  | releaseFailed (name message : Value)

namespace LogEvent

def level : LogEvent → LogLevel
  | .neverFailsRaised _ _ => .error
  | .releaseFailed _ _ => .error
  | _ => .debug

def logger : LogEvent → String
  | .allocatedEvaluator _ => "corvus.runtime.evaluator"
  | .recompiled _ => "corvus.runtime.script"
  | .releasing _ _ => "corvus.runtime.handles"
  | .loadedEngine _ _ => "corvus.engine"
  | _ => "corvus.runtime.namespace"

def message : LogEvent → String
  | .loadedEngine className spec => "loaded engine " ++ className ++ " from " ++ spec
  | .allocatedScope handle => "allocated namespace " ++ handle.display
  | .allocatedEvaluator handle => "allocated evaluator " ++ handle.display
  | .compiled script scope =>
    "compiled script " ++ script.display ++ " in namespace " ++ scope.display
  | .recompiled script => "recompiled script " ++ script.display
  | .releasing kind handle => "releasing " ++ kind.text ++ " " ++ handle.display
  | .defined name signature => "defined " ++ name.text ++ signature.text
  | .neverFailsRaised name message =>
    "function '" ++ name.text ++ "' is declared never-fails but raised: " ++ message.text
  | .releaseFailed name message =>
    "releasing arguments of '" ++ name.text ++ "' failed: " ++ message.text

/-- The event with its values replaced. -/
def replaceObjects (f : ObjectRef → Value) : LogEvent → LogEvent
  | .allocatedScope handle => .allocatedScope (handle.replaceObjects f)
  | .allocatedEvaluator handle => .allocatedEvaluator (handle.replaceObjects f)
  | .compiled script scope => .compiled (script.replaceObjects f) (scope.replaceObjects f)
  | .recompiled script => .recompiled (script.replaceObjects f)
  | .releasing kind handle => .releasing kind (handle.replaceObjects f)
  | .defined name signature => .defined (name.replaceObjects f) (signature.replaceObjects f)
  | .neverFailsRaised name message =>
    .neverFailsRaised (name.replaceObjects f) (message.replaceObjects f)
  | .releaseFailed name message => .releaseFailed (name.replaceObjects f) (message.replaceObjects f)
  | .loadedEngine className spec => .loadedEngine className spec

def text (e : LogEvent) : String :=
  e.level.text ++ " " ++ e.logger ++ ": " ++ e.message

end LogEvent

structure World (S : Embedding) where
  nodes : List Node
  cursors : List Cursor
  functions : List (HostFunction S.Body)
  engine : S.State
  own : S.Own
  log : List LogEvent

/-- Computations of a host program. What happened before a failure stays. -/
abbrev Host (S : Embedding) := ExceptT Failure (StateM (World S))

namespace Host

variable {S : Embedding} {α : Type}

/-- The text of a callback: its handle, or that it has none any more. -/
def blockText (handle : Option Value) : String :=
  match handle with
  | some h => "Block(" ++ h.display ++ ")"
  | none => "Block(released)"

/-- What an object looks like from outside at this time. Arguments that are live and empty count as
false. The handle of a callback may itself be an object, but only an older one. -/
def showWithin (w : World S) : Nat → ObjectRef → Value
  | 0, ref => .object ref
  | fuel + 1, ref =>
    let shown (display : String) (callable truthy : Bool) : Value :=
      .foreign ⟨ref.id, ref.className, display, callable, truthy⟩
    let plain := "<" ++ ref.className ++ " object>"
    match ref.className, w.nodes[ref.id]? with
    | "Block", some n =>
      shown (blockText (n.handle.map (·.replaceObjects (showWithin w fuel)))) true true
    | "Args", some n =>
      match n.role with
      | .args call => shown plain false (call.released || !call.entries.isEmpty)
      | _ => shown plain false true
    | _, _ => shown plain false true

def showObject (w : World S) (ref : ObjectRef) : Value :=
  showWithin w (w.nodes.length + 1) ref

def reveal (w : World S) (v : Value) : Value :=
  v.replaceObjects (showObject w)

/-- Fails; what the message shows of an object is what it is now. -/
def fail (f : Failure) : Host S α := do
  let w ← get
  match f with
  | .host e => throw (.host (e.mapValues (reveal w)))
  | other => throw other

def check (c : Checked α) : Host S α :=
  match c with
  | .ok a => pure a
  | .error f => fail f

/-- The outcome of a computation as a value. -/
def attempt (action : Host S α) : Host S (Except Failure α) :=
  ExceptT.mk do return .ok (← action.run)

def write (e : LogEvent) : Host S Unit :=
  modify fun w => { w with log := w.log ++ [e.replaceObjects (showObject w)] }

/-- A call of the engine during which nothing else runs. -/
def onEngine (call : EngineM S.State α) : Host S α :=
  ExceptT.mk fun w =>
    let (result, state) := call.run w.engine
    (result, { w with engine := state })

/-- An object that is no object of this program is a value of the wrong kind. -/
def node (id : ObjectId) : Host S Node := do
  match (← get).nodes[id]? with
  | some n => pure n
  | none => fail (.shape .wrongKind)

def modifyNode (id : ObjectId) (f : Node → Node) : Host S Unit :=
  modify fun w => { w with nodes := w.nodes.modify id f }

def setRole (id : ObjectId) (role : Role) : Host S Unit :=
  modifyNode id fun n => { n with role }

/-- A new object that owns nothing. -/
def addNode (role : Role) (handle : Option Value) : Host S ObjectId :=
  modifyGet fun w => (w.nodes.length, { w with nodes := w.nodes ++ [⟨role, handle, []⟩] })

/-- A null handle is none: what holds it counts as destroyed. -/
def handleOf : Value → Option Value
  | .null => none
  | h => some h

end Host

end EngineHost
