import EngineHost.Failure
import EngineHost.Value.Equality
import EngineHost.Decimal.Reader

/-!
Reading parts of values whose shape nobody has checked.
-/
namespace EngineHost.Value

open Decimal

/-- What a loop over the value meets: entries of a sequence, characters of a text, keys of a mapping. -/
def elements? : Value → Option (List Value)
  | .list items => some items
  | .tuple items => some items
  | .str s => some (s.toList.map fun c => .str c.toString)
  | .letters s => some (s.map fun c => ofLetters [c])
  | .mapping _ entries => some (entries.map Prod.fst)
  | _ => none

def elements (v : Value) : Checked (List Value) :=
  match v.elements? with
  | some items => pure items
  | none => throw (.shape .wrongKind)

/-- The entries of a mapping; nothing else has entries. -/
def entries (v : Value) : Checked (List (Value × Value)) :=
  match v.entries? with
  | some es => pure es
  | none => throw (.shape .noSuchPart)

/-- Exactly two elements. -/
def pair (v : Value) : Checked (Value × Value) := do
  match ← v.elements with
  | [a, b] => pure (a, b)
  | _ => throw (.shape .badContent)

/-- The value under a key that must be there. -/
def atKey (v : Value) (key : String) : Checked Value :=
  match v with
  | .mapping _ es =>
    match get? key es with
    | some w => pure w
    | none => throw (.shape (.missingKey (.str key)))
  | _ => throw (.shape .wrongKind)

/-- The value under a key that may be missing. -/
def atKeyOr (v : Value) (key : String) (default : Value) : Checked Value := do
  return (get? key (← v.entries)).getD default

/-- A whole number: floats lose their fraction, texts are read. -/
def toInt : Value → Checked Int
  | .bool b => pure (if b then 1 else 0)
  | .int i => pure i
  | .float x =>
    match classify x with
    | .nan => throw (.shape .badContent)
    | .infinite _ => throw (.shape .outOfRange)
    | .finite b => pure b.truncate
  | .str s =>
    match readInt? s.toList with
    | some i => pure i
    | none => throw (.shape .badContent)
  | .letters _ => throw (.shape .badContent)
  | _ => throw (.shape .wrongKind)

end EngineHost.Value
