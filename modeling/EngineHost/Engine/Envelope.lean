import EngineHost.Value.Access

/-!
The engine answers fallible calls with an envelope: a mapping that holds a payload under `Ok` or a
message under `Err`.
-/
namespace EngineHost.Envelope

def ok (payload : Value) : Value :=
  .ofFields [("Ok", payload)]

def err (message : Value) : Value :=
  .ofFields [("Err", message)]

/-- A message wins over a payload. -/
def unwrap : Value → Checked Value
  | .mapping _ entries =>
    match Value.get? "Err" entries, Value.get? "Ok" entries with
    | some message, _ => throw (.host (.engine message))
    | none, some payload => pure payload
    | none, none => throw (.shape (.missingKey (.str "Ok")))
  | _ => throw (.shape .wrongKind)

/-- The payload of an evaluation: a value and a callback handle. -/
def unwrapPair (envelope : Value) : Checked (Value × Value) :=
  unwrap envelope >>= Value.pair

end EngineHost.Envelope
