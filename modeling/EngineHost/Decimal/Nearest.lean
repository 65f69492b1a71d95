import EngineHost.Decimal.Binary

/-!
The float nearest to a fraction or a decimal, ties to the even mantissa.
-/
namespace EngineHost.Decimal

/-- `num / den` to the nearest natural, ties to even. -/
def roundDiv (num den : Nat) : Nat :=
  let q := num / den
  let twice := 2 * (num % den)
  if twice < den || (twice == den && q % 2 == 0) then q else q + 1

/-- `num / den / 2 ^ e` as a fraction. -/
def unscale (num den : Nat) (e : Int) : Nat × Nat :=
  if e < 0 then (num * twoTo (-e).toNat, den) else (num, den * twoTo e.toNat)

/-- The exponent that leaves a mantissa of fifty-three bits, or the least exponent. -/
def mantissaExponent (num den : Nat) : Int :=
  let guess : Int := max ((Nat.log2 num : Int) - Nat.log2 den - 53) (-1074)
  let (n, d) := unscale num den guess
  if n / d < twoTo 53 then guess else guess + 1

/-- The bits of the float nearest to `num / den`. -/
def nearestBits (num den : Nat) : Nat :=
  let e := mantissaExponent num den
  let (n, d) := unscale num den e
  let m := roundDiv n d
  if m < twoTo 52 then m
  else min ((e + 1074).toNat * twoTo 52 + m) (2047 * twoTo 52)

def signed (negative : Bool) (bits : Nat) : Float :=
  Float.ofBits (UInt64.ofNat (if negative then bits + twoTo 63 else bits))

def infiniteBits : Nat := 2047 * twoTo 52

/-- `± digits · 10 ^ power`. Beyond four hundred places it is infinite or zero. -/
def floatOfDecimal (negative : Bool) (digits : Nat) (power : Int) : Float :=
  let places := (Nat.toDigits 10 digits).length + power
  let bits :=
    if digits = 0 || places < -400 then 0
    else if 400 < places then infiniteBits
    else if power < 0 then nearestBits digits (tenTo (-power).toNat)
    else nearestBits (digits * tenTo power.toNat) 1
  signed negative bits

end EngineHost.Decimal
