import EngineHost.Decimal.Binary

/-!
The fewest decimal digits that read back as a given float. Every real in the float's rounding
interval reads back as it, the ends included when the mantissa is even; on the coarsest decimal grid
with a point in the interval, the point nearest to the float is taken.
-/
namespace EngineHost.Decimal

def digitCount (n : Nat) : Nat :=
  (Nat.toDigits 10 n).length

/-- A fraction of naturals. -/
structure Fraction where
  num : Nat
  den : Nat

/-- `n · 2 ^ e`. -/
def Fraction.scaled (n : Nat) (e : Int) : Fraction :=
  if e < 0 then ⟨n, twoTo (-e).toNat⟩ else ⟨n * twoTo e.toNat, 1⟩

/-- The power of ten of the leading digit. -/
def Fraction.leadingPower (f : Fraction) : Int :=
  if f.den ≤ f.num then (digitCount (f.num / f.den) : Int) - 1
  else -(digitCount ((f.den + f.num - 1) / f.num - 1) : Int)

/-- `f / 10 ^ p`. -/
def Fraction.shift (f : Fraction) (p : Int) : Fraction :=
  if p < 0 then ⟨f.num * tenTo (-p).toNat, f.den⟩ else ⟨f.num, f.den * tenTo p.toNat⟩

/-- A finite positive float with the ends of its rounding interval, all over one denominator. -/
structure Interval where
  value : Nat
  low : Nat
  high : Nat
  den : Nat
  closed : Bool

/-- Below a power of two the neighbour is half as far as above it. -/
def Binary.interval (b : Binary) : Interval :=
  let step := Fraction.scaled 1 (b.exponent - 2)
  let below := if b.mantissa = twoTo 52 ∧ -1074 < b.exponent then 1 else 2
  { value := 4 * b.mantissa * step.num
    low := (4 * b.mantissa - below) * step.num
    high := (4 * b.mantissa + 2) * step.num
    den := step.den
    closed := b.mantissa % 2 == 0 }

/-- Whether `n / d` lies in the interval. -/
def Interval.contains (i : Interval) (n d : Nat) : Bool :=
  let point := n * i.den
  if i.closed then i.low * d ≤ point && point ≤ i.high * d else i.low * d < point && point < i.high * d

/-- The point nearest to the value on the grid of multiples of `10 ^ p`, if it lies in the interval;
a tie goes to the even multiple. -/
def Interval.gridPoint? (i : Interval) (p : Int) : Option Nat :=
  let f := Fraction.shift ⟨i.value, i.den⟩ p
  let below := f.num / f.den
  let inside (n : Nat) : Bool :=
    if p < 0 then i.contains n (tenTo (-p).toNat) else i.contains (n * tenTo p.toNat) 1
  let twice := 2 * (f.num % f.den)
  let nearBelow := twice < f.den || (twice == f.den && below % 2 == 0)
  let first := if nearBelow then below else below + 1
  let second := if nearBelow then below + 1 else below
  if inside first then some first else if inside second then some second else none

/-- A positive decimal `digits · 10 ^ power`. -/
structure Scaled where
  digits : Nat
  power : Int
  deriving DecidableEq, Repr

def Interval.search (i : Interval) (leading : Int) : Nat → Nat → Scaled
  | 0, _ => ⟨i.value / i.den, 0⟩
  | fuel + 1, places =>
    let p := leading - places
    match i.gridPoint? p with
    | some n => ⟨n, p⟩
    | none => i.search leading fuel (places + 1)

/-- Seventeen digits always suffice. -/
def Binary.shortest (b : Binary) : Scaled :=
  let i := b.interval
  i.search (Fraction.leadingPower ⟨i.value, i.den⟩) 18 0

end EngineHost.Decimal
