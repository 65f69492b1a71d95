import EngineHost.Host.Invocation
import EngineHost.TypeInfo

/-!
What a host program does with scopes, scripts, evaluators and callbacks. Each operation first asks
whether its object is live, so that a destroyed one is refused before anything happens.
-/
namespace EngineHost.Host

variable {S : Embedding}

/-- An envelope with a value and a callback handle, received by an owner. -/
def receivePair (owner : ObjectId) (envelope : Value) : Host S Value := do
  let (value, block) ← check (Envelope.unwrapPair envelope)
  receive owner value block

def typeInfoOf (source envelope : Value) : Host S TypeInfo := do
  let payload ← check (Envelope.unwrap envelope)
  check (TypeInfo.ofWire source payload)

namespace Scope

def create (E : Engine S.State) : Host S ObjectId := do
  let handle ← onEngine E.allocScope
  let id ← addNode (.scope handle Registry.empty SymbolTable.empty) (handleOf handle)
  write (.allocatedScope handle)
  pure id

def typesOf (id : ObjectId) : Host S Registry := do
  return (← symbolsOf id).2.1

def defineType (id : ObjectId) (name expr : Value) : Host S Ty := do
  checkLive id
  let (issued, types, symbols) ← symbolsOf id
  let (t, types) ← check (types.define name expr)
  setRole id (.scope issued types symbols)
  pure t

/-- One step of a declaration, under the aliases known at that time. -/
def declare (id : ObjectId) (b : Builder S.Body) (step : BuildStep S.Body) :
    Host S (Builder S.Body) := do
  check (b.step (← typesOf id) step)

def declareAll (id : ObjectId) (steps : List (BuildStep S.Body)) : Host S (Builder S.Body) :=
  steps.foldlM (declare id) Builder.empty

/-- Declares a function by running `build`, and registers it once the declaration is complete. -/
def define (E : Engine S.State) (id : ObjectId) (build : Host S (Builder S.Body)) :
    Host S Signature := do
  let handle ← liveHandle id
  let builder ← build
  let definition ← check builder.validate
  let wire ← definition.signature.toWire (internIn E id)
  let number ← modifyGet fun w =>
    (w.functions.length, { w with functions := w.functions ++ [⟨id, definition⟩] })
  onEngine (E.define handle wire number)
  let name ← check definition.signature.name
  write (.defined name definition.signature)
  pure definition.signature

def getSignature (E : Engine S.State) (id : ObjectId) (name : Value) :
    Host S (Option Signature) := do
  let handle ← liveHandle id
  match ← onEngine (E.getSignature handle name) with
  | .null => pure none
  | wire => some <$> Signature.ofWire (nameIn E id) wire

def compile (E : Engine S.State) (id : ObjectId) (source : Value) : Host S ObjectId := do
  let handle ← liveHandle id
  let scriptHandle ← onEngine (E.compile handle source)
  let script ← addNode (.script id source) (handleOf scriptHandle)
  adopt id (refOf script .script)
  write (.compiled scriptHandle handle)
  pure script

/-- The scripts that a scope still owns. -/
def scripts (id : ObjectId) : Host S (List ObjectId) := do
  return (← node id).scripts

end Scope

namespace Script

def scriptOf (id : ObjectId) : Host S (ObjectId × Value) := do
  match (← node id).role with
  | .script home source => pure (home, source)
  | _ => fail (.shape .noSuchPart)

def typeInfo (E : Engine S.State) (id : ObjectId) : Host S TypeInfo := do
  let handle ← liveHandle id
  let envelope ← onEngine (E.typeInfo handle)
  typeInfoOf (← scriptOf id).2 envelope

def eval (E : Engine S.State) (run : RunBody S) (id : ObjectId) (inputs : Value) : Host S Value := do
  let handle ← liveHandle id
  let encoded ← encodeInputs inputs
  let envelope ← evaluating E run (E.evaluate handle encoded)
  receivePair id envelope

/-- Callbacks of the old program are released first. -/
def recompile (E : Engine S.State) (id : ObjectId) (source : Value) : Host S Unit := do
  let handle ← liveHandle id
  releaseOwned E id
  onEngine (E.recompile handle source)
  let (home, _) ← scriptOf id
  setRole id (.script home source)
  write (.recompiled (((← node id).handle).getD .null))

end Script

namespace Evaluator

def create (E : Engine S.State) : Host S ObjectId := do
  let handle ← onEngine E.allocEvaluator
  let id ← addNode .evaluator (handleOf handle)
  write (.allocatedEvaluator handle)
  pure id

/-- Inputs hide variables of the same name for this call. -/
def eval (E : Engine S.State) (run : RunBody S) (id : ObjectId) (source inputs : Value) :
    Host S Value := do
  let handle ← liveHandle id
  let encoded ← encodeInputs inputs
  let envelope ← evaluating E run (E.evaluateSource handle source encoded)
  receivePair id envelope

def typeOf (E : Engine S.State) (id : ObjectId) (source : Value) : Host S TypeInfo := do
  let handle ← liveHandle id
  let envelope ← onEngine (E.typeOf handle source)
  typeInfoOf source envelope

def set (E : Engine S.State) (id : ObjectId) (name value : Value) : Host S Unit := do
  let handle ← liveHandle id
  let wire ← encode (.ofValue name) value
  onEngine (E.setVar handle name wire)

/-- All variables, decoded. -/
def vars (E : Engine S.State) (id : ObjectId) : Host S (List (Value × Value)) := do
  let handle ← liveHandle id
  let answer ← onEngine (E.getVars handle)
  let entries ← check answer.entries
  check (Wire.decodeEntries entries)

end Evaluator

namespace Block

def ownerOf (id : ObjectId) : Host S ObjectId := do
  match (← node id).role with
  | .block owner => pure owner
  | _ => fail (.shape .wrongKind)

def encodeArgs (index : Nat) : List Value → Host S (List Value)
  | [] => pure []
  | v :: rest => do
    let wire ← encode (Place.top.atIndex index) v
    return wire :: (← encodeArgs (index + 1) rest)

/-- A callback that a callback returns has the same owner. -/
def call (E : Engine S.State) (run : RunBody S) (id : ObjectId) (args : List Value) :
    Host S Value := do
  let handle ← liveHandle id
  let encoded ← encodeArgs 0 args
  let envelope ← evaluating E run (E.callBlock handle encoded)
  receivePair (← ownerOf id) envelope

end Block

end EngineHost.Host
