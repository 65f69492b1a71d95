import EngineHost.Decimal.Reader
import EngineHost.Yaml.Binary
import EngineHost.Yaml.SetOrder

/-!
The content of a document and its text. A collection that is shown inside itself is cut short there; the
same collection in two places is shown twice.
-/
namespace EngineHost.Yaml

open Text Decimal

structure Document where
  /-- By number. -/
  collections : Array Collection
  root : Datum

namespace Document

/-- A text has to be found for every part; too long a number has none. -/
abbrev Shown := Except ShapeFault

/-- The least whole number that is too long. -/
def tooLong : Nat :=
  tenTo maxDigits

def displayInt (i : Int) : Shown String :=
  if i.natAbs < tooLong then .ok (toString i) else .error .badContent

/-- What stands for a collection inside itself. -/
def ellipsis : Collection → String
  | .list _ | .pairs _ => "[...]"
  | .set _ => "set(...)"
  | .mapping _ => "\x7b...\x7d"

/-- A collection around the texts of its parts. -/
def displayCollection (show_ : Datum → Shown String) : Collection → Shown String
  | .list items => return bracketed (← items.mapM show_)
  | .pairs items => return bracketed (← items.mapM fun (k, v) => do
      return parenthesized [← show_ k, ← show_ v])
  | .set [] => .ok "set()"
  | .set items => return braced (← (SetOrder.arrange items).mapM show_)
  | .mapping entries => return braced (← entries.mapM fun (k, v) => do
      return (← show_ k) ++ ": " ++ (← show_ v))

/-- `open_` are the collections around a datum. Each step inward opens another one, so there are at most
as many steps as collections. -/
def displayWithin (d : Document) : Nat → List Nat → Datum → Shown String
  | _, _, .null => .ok "None"
  | _, _, .bool b => .ok (boolText b)
  | _, _, .int i => displayInt i
  | _, _, .float x _ => .ok (Layout.native.write x)
  | _, _, .text letters => .ok (quotedLetters letters)
  | _, _, .bytes values => .ok (Bytes.display values)
  | _, _, .date e => .ok (dateDisplay e)
  | _, _, .moment m => .ok (momentDisplay m)
  | 0, _, .collection _ => .error .wrongKind
  | fuel + 1, open_, .collection id =>
    match d.collections[id]? with
    | none => .error .wrongKind
    | some c =>
      if open_.contains id then .ok (ellipsis c)
      else displayCollection (d.displayWithin fuel (id :: open_)) c

def display (d : Document) (v : Datum) : Shown String :=
  d.displayWithin (d.collections.size + 1) [] v

/-- A text stands for itself and a moment for its reading. -/
def text (d : Document) : Datum → Shown Value
  | .text letters => .ok (.ofLetters letters)
  | .date e => .ok (.str e.iso)
  | .moment m => .ok (.str (m.isoWith " "))
  | v => .str <$> d.display v

/-- The entries of the root, if it is a mapping; nothing at all has none. -/
def entries? (d : Document) : Option (List (Datum × Datum)) :=
  match d.root with
  | .null => some []
  | .collection id =>
    match d.collections[id]? with
    | some (.mapping entries) => some entries
    | _ => none
  | _ => none

end Document

end EngineHost.Yaml
