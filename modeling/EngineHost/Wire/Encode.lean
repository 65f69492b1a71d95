import EngineHost.Failure

/-!
From native values to wire values. A wire value is a mapping with one tag: `Prim` over a kind and a
scalar, `List` over wire values, or `Record` over wire values by name. The place of a value is told by
the error that refuses it.
-/
namespace EngineHost.Wire

open Calendar

def prim (kind : String) (scalar : Value) : Value :=
  .ofFields [("Prim", .ofFields [(kind, scalar)])]

def list (items : List Value) : Value :=
  .ofFields [("List", .list items)]

def record (entries : List (Value × Value)) : Value :=
  .ofFields [("Record", .mapping .plain entries)]

def recordOfFields (fields : List (String × Value)) : Value :=
  .ofFields [("Record", .ofFields fields)]

mutual

def encode (place : Place) : Value → Checked Value
  | .bool b => pure (prim "Boolean" (.bool b))
  | .int i => pure (prim "Number" (.int i))
  | .float x => pure (prim "Number" (.float x))
  | .str s => pure (prim "String" (.str s))
  | .letters s => pure (prim "String" (.letters s))
  | .moment m => pure (prim "Time" (.int m.millis))
  | .date d => pure (prim "Time" (.int d.midnight.millis))
  | .list items => return list (← encodeList place 0 items)
  | .tuple items => return list (← encodeList place 0 items)
  | .mapping _ entries => return record (← encodeEntries place entries)
  | .data _ fields => return recordOfFields (← encodeFields place fields)
  | .type t => encodeType place t
  | .listOf element => return recordOfFields [("element", ← encode (place.atKey "element") element)]
  | .variable name => return recordOfFields [("var_name", ← encode (place.atKey "var_name") name)]
  | .blockOf params returns => do
    let encoded ← encodeList (place.atKey "params") 0 params
    return recordOfFields
      [("params", list encoded), ("returns", ← encode (place.atKey "returns") returns)]
  | .fieldSpec expr isOptional => do
    let encoded ← encode (place.atKey "expr") expr
    return recordOfFields [("expr", encoded), ("optional", prim "Boolean" (.bool isOptional))]
  | .recordOf fields extensible => do
    let encoded ← encodePairs (place.atKey "fields") 0 fields
    return recordOfFields
      [("fields", list encoded), ("extensible", ← encode (place.atKey "extensible") extensible)]
  | .null => throw (.host (.invalidValue .null place))
  | .foreign o => throw (.host (.invalidValue (.foreign o) place))
  | .object ref => throw (.host (.invalidValue (.object ref) place))

def encodeList (place : Place) (index : Nat) : List Value → Checked (List Value)
  | [] => pure []
  | v :: rest => do
    let encoded ← encode (place.atIndex index) v
    return encoded :: (← encodeList place (index + 1) rest)

/-- A key is checked just before its value. -/
def encodeEntries (place : Place) : List (Value × Value) → Checked (List (Value × Value))
  | [] => pure []
  | (key, v) :: rest =>
    if key.isText then do
      let encoded ← encode (place.atKey key.text) v
      return (key, encoded) :: (← encodeEntries place rest)
    else throw (.host (.invalidRecordKey key place))

def encodeFields (place : Place) : List (String × Value) → Checked (List (String × Value))
  | [] => pure []
  | (key, v) :: rest => do
    let encoded ← encode (place.atKey key) v
    return (key, encoded) :: (← encodeFields place rest)

/-- Pairs as lists of two. -/
def encodePairs (place : Place) (index : Nat) : List (Value × Value) → Checked (List Value)
  | [] => pure []
  | (k, v) :: rest => do
    let first ← encode ((place.atIndex index).atIndex 0) k
    let second ← encode ((place.atIndex index).atIndex 1) v
    return list [first, second] :: (← encodePairs place (index + 1) rest)

/-- A type crosses as the record of its parts. -/
def encodeType (place : Place) : Ty → Checked Value
  | .primitive p =>
    pure (recordOfFields [("_name", prim "String" (.str p.name)), ("tag", prim "String" (.str p.tag))])
  | .variable name => return recordOfFields [("var_name", ← encode (place.atKey "var_name") name)]
  | .list element =>
    return recordOfFields [("element_type", ← encodeType (place.atKey "element_type") element)]
  | .record fields extensible => do
    let encoded ← encodeTypeFields (place.atKey "fields") 0 fields
    return recordOfFields
      [("fields", list encoded), ("extensible", ← encode (place.atKey "extensible") extensible)]
  | .block params returns => do
    let encoded ← encodeTypes (place.atKey "param_types") 0 params
    return recordOfFields
      [("param_types", list encoded),
       ("return_type", ← encodeType (place.atKey "return_type") returns)]

def encodeTypes (place : Place) (index : Nat) : List Ty → Checked (List Value)
  | [] => pure []
  | t :: rest => do
    let encoded ← encodeType (place.atIndex index) t
    return encoded :: (← encodeTypes place (index + 1) rest)

def encodeTypeFields (place : Place) (index : Nat) : List (Value × Field) → Checked (List Value)
  | [] => pure []
  | (k, .mk t isOptional) :: rest => do
    let here := place.atIndex index
    let key ← encode (here.atIndex 0) k
    let type ← encodeType ((here.atIndex 1).atKey "type") t
    let optional ← encode ((here.atIndex 1).atKey "optional") isOptional
    let field := recordOfFields [("type", type), ("optional", optional)]
    return list [key, field] :: (← encodeTypeFields place (index + 1) rest)

end

/-- Inputs by name; what counts as false stands for no inputs. -/
def encodeInputs (inputs : Value) : Checked (List (Value × Value)) :=
  if !inputs.isTruthy then pure []
  else
    match inputs.entries? with
    | some entries => encodeEntries .top entries
    | none => throw (.shape .noSuchPart)

end EngineHost.Wire
