import EngineHost.Decimal.Nearest
import EngineHost.Text.Blank
import EngineHost.Text.Digit

/-!
Whole numbers and floats as people type them: blanks around them, digits of any script, single
underscores between digits.
-/
namespace EngineHost.Decimal

open Text

def startsWithDigit (s : List Char) : Bool :=
  s.head?.any fun c => (digitValue? c).isSome

/-- The digits at the front and the rest; after a digit, one underscore before another digit is
skipped. -/
def takeDigitsAfter (afterDigit : Bool) : List Char → List Nat × List Char
  | [] => ([], [])
  | c :: rest =>
    match digitValue? c with
    | some d =>
      let (ds, tail) := takeDigitsAfter true rest
      (d :: ds, tail)
    | none =>
      if afterDigit && c == '_' && startsWithDigit rest then takeDigitsAfter false rest
      else ([], c :: rest)

def takeDigits (s : List Char) : List Nat × List Char :=
  takeDigitsAfter false s

def ofDigits (ds : List Nat) : Nat :=
  ds.foldl (fun n d => 10 * n + d) 0

def takeSign : List Char → Bool × List Char
  | '-' :: rest => (true, rest)
  | '+' :: rest => (false, rest)
  | s => (false, s)

/-- The most digits a whole number may have. -/
def maxDigits : Nat := 4300

def signedInt (negative : Bool) (n : Nat) : Int :=
  if negative then -(n : Int) else n

def readInt? (s : List Char) : Option Int :=
  let (negative, body) := takeSign (strip s)
  match takeDigits body with
  | (d :: ds, []) =>
    if (d :: ds).length ≤ maxDigits then some (signedInt negative (ofDigits (d :: ds))) else none
  | _ => none

def lowerAscii (s : List Char) : List Char :=
  s.map Char.toLower

/-- An exponent, if one follows; nothing else may follow the number. -/
def readExponent? : List Char → Option Int
  | [] => some 0
  | c :: rest =>
    if c == 'e' || c == 'E' then
      let (negative, body) := takeSign rest
      match takeDigits body with
      | (d :: ds, []) => some (signedInt negative (ofDigits (d :: ds)))
      | _ => none
    else none

def readDecimal? (negative : Bool) (body : List Char) : Option Float :=
  let (whole, afterWhole) := takeDigits body
  let (part, rest) :=
    match afterWhole with
    | '.' :: more => takeDigits more
    | _ => ([], afterWhole)
  if whole.isEmpty && part.isEmpty then none
  else
    (readExponent? rest).map fun e =>
      floatOfDecimal negative (ofDigits (whole ++ part)) (e - part.length)

def readFloat? (s : List Char) : Option Float :=
  let (negative, body) := takeSign (strip s)
  match String.ofList (lowerAscii body) with
  | "inf" | "infinity" => some (signed negative infiniteBits)
  | "nan" => some (0.0 / 0.0)
  | _ => readDecimal? negative body

end EngineHost.Decimal
