import EngineHost.Failure

/-!
From wire values to native values. A scalar under a kind other than `Time` is taken as it is; a `Time`
is a count of milliseconds.
-/
namespace EngineHost.Wire

open Calendar Decimal

/-- A universal moment from a count of milliseconds, which may be fractional. -/
def momentOfMillis : Value → Checked Value
  | .bool b => fromInstant ((if b then 1 else 0) * 1000)
  | .int i => fromInstant (i * 1000)
  | .float x =>
    match classify x with
    | .nan => throw (.shape .badContent)
    | .infinite _ => throw (.shape .outOfRange)
    | .finite b => fromInstant (microsOfMillis x b)
  | _ => throw (.shape .wrongKind)
where
  fromInstant (micros : Int) : Checked Value :=
    match Moment.ofInstant? micros with
    | some m => pure (.moment m)
    | none => throw (.shape .outOfRange)

/-- The scalar under a kind; `whole` is what an error shows. -/
def decodeScalar (whole : Value) (kind scalar : Value) : Checked Value :=
  match kind with
  | .str "Time" => momentOfMillis scalar
  | .str "Number" => pure scalar
  | .str "String" => pure scalar
  | .str "Boolean" => pure scalar
  | _ => throw (.host (.malformedWire whole))

mutual

def decode : Value → Checked Value
  | .mapping kind [(.str "Prim", body)] =>
    match body with
    | .mapping _ [(k, scalar)] => decodeScalar (.mapping kind [(.str "Prim", body)]) k scalar
    | _ => throw (.host (.malformedWire (.mapping kind [(.str "Prim", body)])))
  | .mapping kind [(.str "List", body)] =>
    match body with
    | .list items => return .list (← decodeList items)
    | .tuple items => return .list (← decodeList items)
    | _ => throw (.host (.malformedWire (.mapping kind [(.str "List", body)])))
  | .mapping kind [(.str "Record", body)] =>
    match body with
    | .mapping _ entries => return .mapping .plain (← decodeEntries entries)
    | _ => throw (.host (.malformedWire (.mapping kind [(.str "Record", body)])))
  | value => throw (.host (.malformedWire value))

def decodeList : List Value → Checked (List Value)
  | [] => pure []
  | v :: rest => do
    let decoded ← decode v
    return decoded :: (← decodeList rest)

def decodeEntries : List (Value × Value) → Checked (List (Value × Value))
  | [] => pure []
  | (k, v) :: rest => do
    let decoded ← decode v
    return (k, decoded) :: (← decodeEntries rest)

end

/-- A callback needs an owner, so outside one it is refused. -/
def decodeUnowned (value block : Value) : Checked Value :=
  match block with
  | .null => decode value
  | _ => throw (.refused "decoding a callback requires an owner")

end EngineHost.Wire
