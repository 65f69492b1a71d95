/-!
Texts in which halves of surrogate pairs may stand alone. Escapes can write such a half; a text without
any is a list of characters.
-/
namespace EngineHost.Text

/-- A character, or a half of a surrogate pair on its own. -/
inductive Letter where
  | char (c : Char)
  | half (code : Nat)
  deriving DecidableEq, Repr

namespace Letter

def isHighHalf (n : Nat) : Bool := 0xD800 ≤ n && n ≤ 0xDBFF
def isLowHalf (n : Nat) : Bool := 0xDC00 ≤ n && n ≤ 0xDFFF

def ofCode (n : Nat) : Letter :=
  if isHighHalf n || isLowHalf n then .half n else .char (Char.ofNat n)

def code : Letter → Nat
  | .char c => c.toNat
  | .half n => n

/-- The character that two halves make. -/
def join (high low : Nat) : Letter :=
  .char (Char.ofNat (0x10000 + (high - 0xD800) * 0x400 + (low - 0xDC00)))

/-- Neighbouring halves joined where they make a character. -/
def joinHalves : List Letter → List Letter
  | .half a :: .half b :: rest =>
    if isHighHalf a && isLowHalf b then join a b :: joinHalves rest
    else .half a :: joinHalves (.half b :: rest)
  | l :: rest => l :: joinHalves rest
  | [] => []

def ofChars (cs : List Char) : List Letter :=
  cs.map .char

/-- The characters of a text without lone halves. -/
def chars? : List Letter → Option (List Char)
  | [] => some []
  | .char c :: rest => (chars? rest).map (c :: ·)
  | .half _ :: _ => none

/-- What stands for a lone half where only characters can stand. -/
def replacement : Char := Char.ofNat 0xFFFD

def visible : Letter → Char
  | .char c => c
  | .half _ => replacement

/-- Whether a text comes before another, code by code. -/
def precedes : List Letter → List Letter → Bool
  | _, [] => false
  | [], _ :: _ => true
  | a :: as, b :: bs => a.code < b.code || (a.code == b.code && precedes as bs)

theorem chars?_ofChars (cs : List Char) : chars? (ofChars cs) = some cs := by
  induction cs with
  | nil => rfl
  | cons c rest ih => simp_all [ofChars, chars?]

end Letter

end EngineHost.Text
