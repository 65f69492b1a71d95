import EngineHost.Ty.Wire
import EngineHost.Value.Access

/-!
Type expressions and named aliases. An alias is expanded when it is defined, so it can only mention
aliases defined before it, and defining one never changes another.
-/
namespace EngineHost

/-- The types that a type expression names without an alias. -/
def Primitive.ofName? : String → Option Primitive
  | "string" => some .string
  | "boolean" => some .boolean
  | "number" => some .number
  | "time" => some .time
  | "date" => some .time
  | _ => none

def Value.primitive? : Value → Option Primitive
  | .str name => Primitive.ofName? name
  | _ => none

/-- A callback expression over any sequence of parameters. -/
def Value.blockExpr (params returns : Value) : Checked Value :=
  return .blockOf (← params.elements) returns

/-- A record expression over the entries of a mapping. -/
def Value.recordExpr (fields extensible : Value) : Checked Value :=
  return .recordOf (← fields.entries) extensible

/-- The name of an alias may be any value that can be a key. -/
structure Registry where
  /-- In the order of their definition. -/
  aliases : List (Value × Ty)

namespace Registry

def empty : Registry := ⟨[]⟩

def lookup? (r : Registry) (name : Value) : Option Ty :=
  (r.aliases.find? fun (known, _) => known.equals name).map Prod.snd

def contains (r : Registry) (name : Value) : Bool :=
  (r.lookup? name).isSome

/-- Primitive names come first, so no alias can stand in their place. -/
def resolveName (r : Registry) (name : Value) : Checked Ty :=
  match name.primitive?, r.lookup? name with
  | some p, _ => pure (.primitive p)
  | none, some t => pure t
  | none, none => throw (.host (.unknownType name))

mutual

def resolve (r : Registry) : Value → Checked Ty
  | .type t => pure t
  | .str name => r.resolveName (.str name)
  | .letters name => r.resolveName (.letters name)
  | .listOf element => return .list (← resolve r element)
  | .variable name => pure (.variable name)
  | .blockOf params returns => do
    let ps ← resolveList r params
    return .block ps (← resolve r returns)
  | .recordOf fields extensible => do Ty.ofFields (← resolveFields r fields) extensible
  | .mapping _ entries => do Ty.ofFields (← resolveFields r entries) (.bool false)
  | expr => throw (.host (.unknownType expr))

def resolveList (r : Registry) : List Value → Checked (List Ty)
  | [] => pure []
  | v :: rest => do
    let t ← resolve r v
    return t :: (← resolveList r rest)

/-- A marker is read only as the value of a field; elsewhere it is no expression. -/
def resolveFields (r : Registry) : List (Value × Value) → Checked (List (Value × Field))
  | [] => pure []
  | (name, .fieldSpec expr isOptional) :: rest =>
    if name.isText then do
      let t ← resolve r expr
      return (name, .mk t (.bool isOptional)) :: (← resolveFields r rest)
    else throw (.host (.unknownType name))
  | (name, expr) :: rest =>
    if name.isText then do
      let t ← resolve r expr
      return (name, .mk t (.bool false)) :: (← resolveFields r rest)
    else throw (.host (.unknownType name))

end

/-- A name that is taken: an alias or a primitive. -/
def isTaken (r : Registry) (name : Value) : Bool :=
  r.contains name || name.primitive?.isSome

def define (r : Registry) (name expr : Value) : Checked (Ty × Registry) :=
  if !name.isHashable then throw (.shape .wrongKind)
  else if r.isTaken name then throw (.host (.duplicateAlias name))
  else do
    let t ← r.resolve expr
    return (t, ⟨r.aliases ++ [(name, t)]⟩)

end Registry

end EngineHost
