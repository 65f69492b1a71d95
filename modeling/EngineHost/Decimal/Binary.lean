/-!
The number behind the 64 bits of a float: `± mantissa · 2 ^ exponent`, an infinity, or no number.
-/
namespace EngineHost.Decimal

def twoTo (n : Nat) : Nat :=
  Nat.pow 2 n

def tenTo (n : Nat) : Nat :=
  Nat.pow 10 n

/-- A finite binary number; zero keeps its sign. -/
structure Binary where
  negative : Bool
  mantissa : Nat
  exponent : Int
  deriving DecidableEq, Repr

inductive FloatClass
  | nan
  | infinite (negative : Bool)
  | finite (number : Binary)
  deriving DecidableEq, Repr

/-- Eleven bits of exponent above fifty-two bits of fraction; the least exponent has no hidden bit. -/
def classify (x : Float) : FloatClass :=
  let bits : Nat := x.toBits.toNat
  let negative : Bool := bits / twoTo 63 % 2 == 1
  let exponent : Nat := bits / twoTo 52 % twoTo 11
  let fraction : Nat := bits % twoTo 52
  if exponent = 2047 then
    if fraction = 0 then .infinite negative else .nan
  else if exponent = 0 then .finite ⟨negative, fraction, -1074⟩
  else .finite ⟨negative, fraction + twoTo 52, (exponent : Int) - 1075⟩

/-- The whole part, rounded toward zero. -/
def Binary.truncate (b : Binary) : Int :=
  let size : Nat :=
    if b.exponent < 0 then b.mantissa / twoTo (-b.exponent).toNat
    else b.mantissa * twoTo b.exponent.toNat
  if b.negative then -(size : Int) else size

/-- Whether the number is whole. -/
def Binary.isWhole (b : Binary) : Bool :=
  0 ≤ b.exponent || b.mantissa % twoTo (-b.exponent).toNat == 0

end EngineHost.Decimal
