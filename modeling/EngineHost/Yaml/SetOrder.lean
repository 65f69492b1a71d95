import EngineHost.Yaml.Datum

/-!
The order in which a set shows its numbers. Each number has a place in a table that is more than twice
as large as the set; where the place is taken, the number moves on by a rule that ends at a free one.
Other keys have no fixed places, so a set that holds any is shown in the order it was written.
-/
namespace EngineHost.Yaml.SetOrder

open Decimal

/-- Numbers are reduced by a prime before they are placed, so that equal ones share a place. -/
def modulus : Nat := twoTo 61 - 1

/-- The remainder of `m` times two to the power `e`. The power repeats every sixty-one steps. -/
def scaled (m : Nat) (e : Int) : Nat :=
  m * twoTo (e % 61).toNat % modulus

/-- The signed remainder; minus one is not used. -/
def signedKey (negative : Bool) (n : Nat) : Int :=
  if negative then (if n = 1 then -2 else -(n : Int)) else n

def keyOf : Number → Option Int
  | .whole i => some (signedKey (i < 0) (i.natAbs % modulus))
  | .float x =>
    match classify x with
    | .finite b => some (signedKey b.negative (scaled b.mantissa b.exponent))
    | .infinite negative => some (signedKey negative 314159)
    | .nan => none

/-- The least power of two, from eight up, that exceeds `n`. -/
def powerAbove (n : Nat) : Nat → Nat → Nat
  | 0, size => size
  | fuel + 1, size => if size ≤ n then powerAbove n fuel (2 * size) else size

def tableSize (count : Nat) : Nat :=
  if count < 5 then 8 else powerAbove (2 * count) count 8

/-- The next nine places are tried too, if the table has them. -/
def reach (size place : Nat) : Nat :=
  if place + 9 < size then 10 else 1

/-- The first free place on the way from `place`; `rest` is what is left of the key to mix in. -/
def freePlace (size : Nat) (taken : List Nat) : Nat → Nat → Nat → Nat
  | 0, place, _ => place
  | fuel + 1, place, rest =>
    match ((List.range (reach size place)).map (place + ·)).find? (!taken.contains ·) with
    | some free => free
    | none => freePlace size taken fuel ((5 * place + 1 + rest / 32) % size) (rest / 32)

/-- The place of a key; all places are visited once the key is used up. -/
def placeOf (size : Nat) (taken : List Nat) (key : Int) : Nat :=
  let bits := (key % (twoTo 64 : Int)).toNat
  freePlace size taken (size + 16) (bits % size) bits

/-- The items with their places. -/
def place (size : Nat) : List Nat → List (Int × Datum) → List (Nat × Datum)
  | _, [] => []
  | taken, (key, item) :: rest =>
    let p := placeOf size taken key
    (p, item) :: place size (p :: taken) rest

def keyed (item : Datum) : Option (Int × Datum) := do
  return (← keyOf (← item.number?), item)

def arrange (items : List Datum) : List Datum :=
  match items.mapM keyed with
  | some keys =>
    ((place (tableSize items.length) [] keys).mergeSort fun a b => a.1 ≤ b.1).map Prod.snd
  | none => items

end EngineHost.Yaml.SetOrder
