import EngineHost.Decimal.Shortest

/-!
How a float is written: the shortest digits that read back, placed by a layout.
-/
namespace EngineHost.Decimal

/-- Where positional writing begins and ends, and how the rest is spelled. -/
structure Layout where
  /-- Leading powers of ten written positionally. -/
  leastPower : Int
  mostPower : Int
  /-- Follows a whole number written positionally. -/
  wholeMark : String
  exponentMark : String
  exponentDigits : Nat
  nan : String
  infinity : String

/-- Positional from `0.0001` up to below `10 ^ 16`, with `.0` after a whole number; otherwise a signed
exponent of at least two digits. -/
def Layout.native : Layout :=
  { leastPower := -4, mostPower := 15, wholeMark := ".0", exponentMark := "e", exponentDigits := 2
    nan := "nan", infinity := "inf" }

/-- As `native`, with the spellings of a data format for what is no finite number. -/
def Layout.data : Layout :=
  { Layout.native with nan := "NaN", infinity := "Infinity" }

def trimZeros (digits : List Char) : List Char :=
  (digits.reverse.dropWhile (· == '0')).reverse

def padLeft (width : Nat) (digits : List Char) : List Char :=
  List.replicate (width - digits.length) '0' ++ digits

def Layout.exponent (l : Layout) (p : Int) : List Char :=
  l.exponentMark.toList ++ (if p < 0 then '-' else '+') ::
    padLeft l.exponentDigits (Nat.toDigits 10 p.natAbs)

/-- Writes `0.digits · 10 ^ point`. -/
def Layout.place (l : Layout) (digits : List Char) (point : Int) : List Char :=
  let leading := point - 1
  if l.leastPower ≤ leading && leading ≤ l.mostPower then
    if point ≤ 0 then '0' :: '.' :: List.replicate (-point).toNat '0' ++ digits
    else if digits.length ≤ point.toNat then
      digits ++ List.replicate (point.toNat - digits.length) '0' ++ l.wholeMark.toList
    else digits.take point.toNat ++ '.' :: digits.drop point.toNat
  else
    let tail := digits.drop 1
    digits.take 1 ++ (if tail.isEmpty then [] else '.' :: tail) ++ l.exponent leading

def Layout.write (l : Layout) (x : Float) : String :=
  match classify x with
  | .nan => l.nan
  | .infinite negative => (if negative then "-" else "") ++ l.infinity
  | .finite b =>
    let body :=
      if b.mantissa = 0 then '0' :: l.wholeMark.toList
      else
        let d := b.shortest
        let digits := Nat.toDigits 10 d.digits
        l.place (trimZeros digits) (digits.length + d.power)
    String.ofList (if b.negative then '-' :: body else body)

end EngineHost.Decimal
