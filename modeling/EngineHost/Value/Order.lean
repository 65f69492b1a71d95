import EngineHost.Sorting
import EngineHost.Value.Equality

/-!
The order of values that can be sorted: numbers with numbers, texts by code point, dates, moments, and
sequences entry by entry. Other pairs have no order.
-/
namespace EngineHost

open Decimal Calendar Text

/-- Whether `i` is below the float. -/
def wholeBelow (i : Int) (x : Float) : Bool :=
  match classify x with
  | .nan => false
  | .infinite negative => !negative
  | .finite b => if b.isWhole then i < b.truncate else i < b.truncate || (i == b.truncate && !b.negative)

/-- Whether the float is below `i`. -/
def wholeAbove (x : Float) (i : Int) : Bool :=
  match classify x with
  | .nan => false
  | .infinite negative => negative
  | .finite b => if b.isWhole then b.truncate < i else b.truncate < i || (b.truncate == i && b.negative)

def Number.less : Number → Number → Bool
  | .whole i, .whole j => i < j
  | .whole i, .float y => wholeBelow i y
  | .float x, .whole j => wholeAbove x j
  | .float x, .float y => x < y

mutual

/-- Whether the first comes before the second; nothing when the two have no order. -/
def Value.less? : Value → Value → Option Bool
  | .str s, .str t => some (s < t)
  | .letters s, .letters t => some (Letter.precedes s t)
  | .str s, .letters t => some (Letter.precedes (Letter.ofChars s.toList) t)
  | .letters s, .str t => some (Letter.precedes s (Letter.ofChars t.toList))
  | .date d, .date e => some (d.ordinal < e.ordinal)
  | .moment m, .moment n =>
    if m.offset.isSome == n.offset.isSome then some (m.instant < n.instant) else none
  | .list xs, .list ys => Value.lessList? xs ys
  | .tuple xs, .tuple ys => Value.lessList? xs ys
  | v, w =>
    match v.number?, w.number? with
    | some a, some b => some (a.less b)
    | _, _ => none

/-- The first pair of different entries decides, then the length. -/
def Value.lessList? : List Value → List Value → Option Bool
  | [], ys => some (!ys.isEmpty)
  | _ :: _, [] => some false
  | x :: xs, y :: ys => if x.equals y then Value.lessList? xs ys else x.less? y

end

/-- Ascending by key, if the keys that are compared have an order. -/
def sortByKey? {α : Type} (items : List (Value × α)) : Option (List (Value × α)) :=
  Sorting.sort? (fun a b => a.1.less? b.1) items

end EngineHost
