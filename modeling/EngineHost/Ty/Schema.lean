import EngineHost.Failure

/-!
JSON Schema for the values that a type admits. Callbacks have none, so neither has a type that holds
one. Times are shown as counts of milliseconds.
-/
namespace EngineHost

inductive JsonType
  | string
  | number
  | boolean
  deriving DecidableEq, Repr

def JsonType.text : JsonType → String
  | .string => "string"
  | .number => "number"
  | .boolean => "boolean"

inductive Schema where
  | scalar (type : JsonType)
  | anyOf (types : List JsonType)
  | array (items : Schema)
  | object (required : List Value) (properties : List (Value × Schema)) (closed : Bool)

/-- The inputs of a script as one object; other keys are tolerated. -/
structure InputSchema where
  title : Value
  properties : List (Value × Schema)

namespace Schema

mutual

def toData : Schema → Value
  | .scalar type => .ofFields [("type", .str type.text)]
  | .anyOf types => .ofFields [("type", .list (types.map fun t => .str t.text))]
  | .array items => .ofFields [("type", .str "array"), ("items", items.toData)]
  | .object required properties closed =>
    .ofFields <|
      [("type", .str "object")] ++
      (if required.isEmpty then [] else [("required", .list required)]) ++
      [("properties", .mapping .plain (propertiesToData properties))] ++
      (if closed then [("additionalProperties", .bool false)] else [])

def propertiesToData : List (Value × Schema) → List (Value × Value)
  | [] => []
  | (name, s) :: rest => (name, s.toData) :: propertiesToData rest

end

def ofPrimitive (p : Primitive) : Checked Schema :=
  if p = .number ∨ p = .time then pure (.scalar .number)
  else if p = .string then pure (.scalar .string)
  else if p = .boolean then pure (.scalar .boolean)
  else throw (.shape (.missingKey (.type (.primitive p))))

/-- The names of the fields that must be present. -/
def requiredNames (fields : List (Value × Field)) : List Value :=
  (fields.filter fun (_, f) => !f.isOptional.isTruthy).map Prod.fst

mutual

def ofType : Ty → Checked Schema
  | .primitive p => ofPrimitive p
  | .variable _ => pure (.anyOf [.string, .number, .boolean])
  | .list element => return .array (← ofType element)
  | .record fields extensible => do
    let properties ← ofTypeFields fields
    return .object (requiredNames fields) properties (!extensible.isTruthy)
  | .block params returns =>
    throw (.refused ("callback type " ++ (Ty.block params returns).name ++ " has no JSON schema"))

def ofTypeFields : List (Value × Field) → Checked (List (Value × Schema))
  | [] => pure []
  | (name, .mk t _) :: rest => do
    let s ← ofType t
    return (name, s) :: (← ofTypeFields rest)

end

/-- Only a type has a schema. -/
def ofValue : Value → Checked Schema
  | .type t => ofType t
  | v => throw (.refused ("unhandled type: " ++ v.display))

end Schema

def InputSchema.toData (s : InputSchema) : Value :=
  .ofFields <|
    [ ("type", .str "object"),
      ("title", s.title),
      ("properties", .mapping .plain (Schema.propertiesToData s.properties)) ] ++
    (if s.properties.isEmpty then [] else [("required", .list (s.properties.map Prod.fst))])

def InputSchema.ofTypes (title : Value) : List (Value × Ty) → Checked InputSchema
  | [] => pure ⟨title, []⟩
  | (name, t) :: rest => do
    let s ← Schema.ofType t
    let more ← InputSchema.ofTypes title rest
    return ⟨title, (name, s) :: more.properties⟩

end EngineHost
