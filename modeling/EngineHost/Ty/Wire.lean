import EngineHost.Failure
import EngineHost.Value.Order

/-!
The wire form of types. Record fields are kept in ascending order of their names, so the order they
were declared in does not show.
-/
namespace EngineHost

open Text

def Primitive.ofTag? : String → Option Primitive
  | "Str" => some .string
  | "Bool" => some .boolean
  | "Num" => some .number
  | "Time" => some .time
  | _ => none

namespace Ty

def tagged (tag : String) (body : Value) : Value :=
  .ofFields [(tag, body)]

mutual

def toWire : Ty → Value
  | .primitive p => .str p.tag
  | .variable name => tagged "Var" name
  | .list element => tagged "List" element.toWire
  | .record fields extensible =>
    tagged "Record" (.list [extensible, .mapping .plain (fieldsToWire fields)])
  | .block params returns => tagged "Block" (.list [.list (listToWire params), returns.toWire])

def listToWire : List Ty → List Value
  | [] => []
  | t :: rest => t.toWire :: listToWire rest

def fieldsToWire : List (Value × Field) → List (Value × Value)
  | [] => []
  | (name, .mk t isOptional) :: rest =>
    (name, .ofFields [("optional", isOptional), ("output", t.toWire)]) :: fieldsToWire rest

end

/-- A record type with its fields in order. Names without a common order are refused. -/
def ofFields (fields : List (Value × Field)) (extensible : Value) : Checked Ty :=
  match sortByKey? fields with
  | some sorted => pure (.record sorted extensible)
  | none => throw (.shape .wrongKind)

def unknown {α : Type} (wire : Value) : Checked α :=
  throw (.host (.unknownType wire))

/-- A text in the place of a sequence of types is read character by character, and no character is a
tag. -/
def ofCharacters (s : List Letter) : Checked (List Ty) :=
  match s with
  | [] => pure []
  | c :: _ => unknown (.ofLetters [c])

/-- Likewise a text of two characters in the place of two parts. -/
def ofCharacterPair (s : List Letter) : Checked Ty :=
  match s with
  | [params, _] => unknown (.ofLetters [params])
  | _ => throw (.shape .badContent)

mutual

def ofWire : Value → Checked Ty
  | .str tag =>
    match Primitive.ofTag? tag with
    | some p => pure (.primitive p)
    | none => unknown (.str tag)
  | .mapping _ [(.str "Var", body)] => pure (.variable body.asText)
  | .mapping _ [(.str "List", body)] => return .list (← ofWire body)
  | .mapping _ [(.str "Record", body)] =>
    match body with
    | .list [extensible, fields] => ofWireRecord extensible fields
    | .tuple [extensible, fields] => ofWireRecord extensible fields
    | .mapping _ [(_, _), (_, _)] => throw (.shape .noSuchPart)
    | .str s => throw (.shape (if s.length = 2 then .noSuchPart else .badContent))
    | .letters s => throw (.shape (if s.length = 2 then .noSuchPart else .badContent))
    | .list _ | .tuple _ | .mapping _ _ => throw (.shape .badContent)
    | _ => throw (.shape .wrongKind)
  | .mapping _ [(.str "Block", body)] =>
    match body with
    | .list [params, returns] => return .block (← ofWireParams params) (← ofWire returns)
    | .tuple [params, returns] => return .block (← ofWireParams params) (← ofWire returns)
    | .mapping _ [(params, _), (returns, _)] =>
      return .block (← ofWireParams params) (← ofWire returns)
    | .str s => ofCharacterPair (Letter.ofChars s.toList)
    | .letters s => ofCharacterPair s
    | .list _ | .tuple _ | .mapping _ _ => throw (.shape .badContent)
    | _ => throw (.shape .wrongKind)
  | wire => unknown wire

def ofWireRecord (extensible : Value) : Value → Checked Ty
  | .mapping _ fields => do
    ofFields (← ofWireFields fields) (.bool extensible.isTruthy)
  | _ => throw (.shape .noSuchPart)

def ofWireParams : Value → Checked (List Ty)
  | .list params => ofWireList params
  | .tuple params => ofWireList params
  | .mapping _ entries => ofWireKeys entries
  | .str s => ofCharacters (Letter.ofChars s.toList)
  | .letters s => ofCharacters s
  | _ => throw (.shape .wrongKind)

def ofWireList : List Value → Checked (List Ty)
  | [] => pure []
  | v :: rest => do
    let t ← ofWire v
    return t :: (← ofWireList rest)

def ofWireKeys : List (Value × Value) → Checked (List Ty)
  | [] => pure []
  | (k, _) :: rest => do
    let t ← ofWire k
    return t :: (← ofWireKeys rest)

def ofWireFields : List (Value × Value) → Checked (List (Value × Field))
  | [] => pure []
  | (name, .mapping _ parts) :: rest => do
    let t ← ofWireOutput parts
    let isOptional := ((Value.get? "optional" parts).getD (.bool false)).isTruthy
    return (name, .mk t (.bool isOptional)) :: (← ofWireFields rest)
  | (_, _) :: _ => throw (.shape .wrongKind)

/-- The type under the key `output`. -/
def ofWireOutput : List (Value × Value) → Checked Ty
  | [] => throw (.shape (.missingKey (.str "output")))
  | (.str "output", wire) :: _ => ofWire wire
  | _ :: rest => ofWireOutput rest

end

end Ty

end EngineHost
