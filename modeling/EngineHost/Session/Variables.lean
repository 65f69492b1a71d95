import EngineHost.Session.Step

/-!
The variables of a session: what they hold, how they enter values, and when two of them hold the same
thing.
-/
namespace EngineHost.Session

open Host

def noSuchVariable {α : Type} (name : String) : Checked α :=
  throw (.raised "NoSuchVariable" name)

def lookupIn (bindings : List (String × Held)) (name : String) : Checked Held :=
  match bindings.lookup name with
  | some h => pure h
  | none => noSuchVariable name

def held? (name : String) : SessionM (Option Held) := do
  return (← get).own.bindings.lookup name

def held (name : String) : SessionM Held := do
  check (lookupIn (← get).own.bindings name)

def setVariable (name : String) (h : Held) : SessionM Unit :=
  modify fun w => { w with own := { w.own with bindings := Scripted.putName name h w.own.bindings } }

def clearVariable (name : String) : SessionM Unit :=
  modify fun w =>
    { w with own := { w.own with bindings := w.own.bindings.filter (·.1 != name) } }

/-- An outcome as a value among others. -/
def Outcome.toValue : Outcome → Value
  | .value v => v
  | .fields fs => .ofFields fs
  | .signature s => s.instanceValue
  | .typeInfo info => info.instanceValue

def build (t : Template) : SessionM Value := do
  let bindings := (← get).own.bindings
  check (t.build fun name => do return (← lookupIn bindings name).outcome.toValue)

/-- What an outcome shows at this time. -/
def snapshot (outcome : Outcome) : SessionM Outcome := do
  let w ← get
  match outcome with
  | .value v => pure (.value (reveal w v))
  | .fields fs => pure (.fields (fs.map fun (k, v) => (k, reveal w v)))
  | .signature s => pure (.signature (s.replaceObjects (showObject w)))
  | .typeInfo info =>
    let show_ (t : Ty) : Ty := t.replaceObjects (showObject w)
    pure (.typeInfo { info with
      inputs := info.inputs.map fun (name, t) => (reveal w name, show_ t)
      output := info.output.map show_ })

/-- What a failure shows at this time. Only an engine's message can still hold objects. -/
def snapshotFailure {S : Embedding} (w : World S) : Failure → Failure
  | .host (.engine message) => .host (.engine (reveal w message))
  | f => f

/-- Values that are one thing wherever they come from. -/
def isShared : Value → Bool
  | .null | .bool _ | .int _ | .str _ | .letters _ | .object _ | .type (.primitive _) => true
  | _ => false

/-- Whether two outcomes are one thing, not only equal. -/
def Held.isSame (a b : Held) : Bool :=
  let v := a.outcome.toValue
  let w := b.outcome.toValue
  if isShared v && isShared w then v.className == w.className && v.equals w
  else a.origin == b.origin

end EngineHost.Session
