import EngineHost.Value.Equality
import EngineHost.Decimal.Reader

/-!
Reading JSON. Beyond the standard, `NaN`, `Infinity` and `-Infinity` are numbers; a repeated key keeps
its first place and its last value; a half of a surrogate pair may stand alone.
-/
namespace EngineHost.Json

open Decimal Text

inductive ReadError where
  | malformed
  /-- A whole number with more digits than are read. -/
  | tooManyDigits
  deriving DecidableEq, Repr

abbrev Reading := Except ReadError

def malformed {α : Type} : Reading α :=
  .error .malformed

def isSpace (c : Char) : Bool :=
  c == ' ' || c == '\t' || c == '\n' || c == '\r'

def skipSpace (s : List Char) : List Char :=
  s.dropWhile isSpace

def hexValue? (c : Char) : Option Nat :=
  if '0' ≤ c && c ≤ '9' then some (c.toNat - '0'.toNat)
  else if 'a' ≤ c && c ≤ 'f' then some (c.toNat - 'a'.toNat + 10)
  else if 'A' ≤ c && c ≤ 'F' then some (c.toNat - 'A'.toNat + 10)
  else none

def isHexDigit (c : Char) : Bool :=
  (hexValue? c).isSome

def hexUnit? (a b c d : Char) : Option Nat := do
  let w ← hexValue? a
  let x ← hexValue? b
  let y ← hexValue? c
  let z ← hexValue? d
  return ((w * 16 + x) * 16 + y) * 16 + z

def simpleEscape? : Char → Option Char
  | '"' => some '"'
  | '\\' => some '\\'
  | '/' => some '/'
  | 'b' => some (Char.ofNat 8)
  | 'f' => some (Char.ofNat 12)
  | 'n' => some '\n'
  | 'r' => some '\r'
  | 't' => some '\t'
  | _ => none

/-- The rest of a text after its opening quote. -/
def readText (acc : List Letter) : List Char → Reading (Value × List Char)
  | [] => malformed
  | '"' :: rest => .ok (.ofLetters (Letter.joinHalves acc.reverse), rest)
  | '\\' :: 'u' :: a :: b :: c :: d :: rest =>
    match hexUnit? a b c d with
    | some n => readText (.ofCode n :: acc) rest
    | none => malformed
  | '\\' :: e :: rest =>
    match simpleEscape? e with
    | some c => readText (.char c :: acc) rest
    | none => malformed
  | c :: rest => if c.toNat < 0x20 || c == '\\' then malformed else readText (.char c :: acc) rest

def isDigit (c : Char) : Bool :=
  '0' ≤ c && c ≤ '9'

def spanDigits (s : List Char) : List Char × List Char :=
  (s.takeWhile isDigit, s.dropWhile isDigit)

def digitsValue (ds : List Char) : Nat :=
  ds.foldl (fun n d => 10 * n + (d.toNat - '0'.toNat)) 0

/-- The digits before the point; a zero at their front stands alone. -/
def takeWhole : List Char → List Char × List Char
  | '0' :: rest => (['0'], rest)
  | s => spanDigits s

/-- A fraction needs a digit after its point; without one the point is not part of the number. -/
def readFraction : List Char → List Char × List Char
  | '.' :: rest =>
    let (ds, tail) := spanDigits rest
    if ds.isEmpty then ([], '.' :: rest) else (ds, tail)
  | s => ([], s)

/-- Likewise an exponent. -/
def readExponent : List Char → Option Int × List Char
  | c :: rest =>
    if c == 'e' || c == 'E' then
      let (negative, body) := takeSign rest
      let (ds, tail) := spanDigits body
      if ds.isEmpty then (none, c :: rest) else (some (signedInt negative (digitsValue ds)), tail)
    else (none, c :: rest)
  | [] => (none, [])

def readUnsigned (negative : Bool) (s : List Char) : Reading (Value × List Char) :=
  let (whole, afterWhole) := takeWhole s
  if whole.isEmpty then malformed
  else
    let (part, afterPart) := readFraction afterWhole
    let (exponent, rest) := readExponent afterPart
    if part.isEmpty && exponent.isNone then
      if whole.length ≤ maxDigits then
        .ok (.int (signedInt negative (digitsValue whole)), rest)
      else .error .tooManyDigits
    else
      .ok (.float (floatOfDecimal negative (digitsValue (whole ++ part))
        (exponent.getD 0 - part.length)), rest)

def readNumber : List Char → Reading (Value × List Char)
  | '-' :: rest => readUnsigned true rest
  | s => readUnsigned false s

def words : List (String × Value) :=
  [ ("null", .null), ("true", .bool true), ("false", .bool false), ("NaN", .float (0.0 / 0.0)),
    ("Infinity", .float (signed false infiniteBits)),
    ("-Infinity", .float (signed true infiniteBits)) ]

def readWord? (s : List Char) : Option (Value × List Char) :=
  words.findSome? fun (word, v) =>
    if word.toList.isPrefixOf s then some (v, s.drop word.length) else none

def readScalar (s : List Char) : Reading (Value × List Char) :=
  match readWord? s with
  | some r => .ok r
  | none => readNumber s

mutual

def readValue : Nat → List Char → Reading (Value × List Char)
  | 0, _ => malformed
  | fuel + 1, s =>
    match s with
    | '"' :: rest => readText [] rest
    | '[' :: rest =>
      match skipSpace rest with
      | ']' :: rest => .ok (.list [], rest)
      | s => do
        let (items, rest) ← readItems fuel s
        return (.list items, rest)
    | '\x7b' :: rest =>
      match skipSpace rest with
      | '\x7d' :: rest => .ok (.mapping .plain [], rest)
      | s => do
        let (entries, rest) ← readMembers fuel s
        return (.mapping .plain (Value.collectEntries entries), rest)
    | s => readScalar s

/-- One item at least, up to the closing bracket. -/
def readItems : Nat → List Char → Reading (List Value × List Char)
  | 0, _ => malformed
  | fuel + 1, s => do
    let (v, rest) ← readValue fuel s
    match skipSpace rest with
    | ',' :: rest => do
      let (items, rest) ← readItems fuel (skipSpace rest)
      return (v :: items, rest)
    | ']' :: rest => return ([v], rest)
    | _ => malformed

def readMembers : Nat → List Char → Reading (List (Value × Value) × List Char)
  | 0, _ => malformed
  | fuel + 1, s =>
    match s with
    | '"' :: rest => do
      let (key, rest) ← readText [] rest
      match skipSpace rest with
      | ':' :: rest => do
        let (v, rest) ← readValue fuel (skipSpace rest)
        match skipSpace rest with
        | ',' :: rest => do
          let (entries, rest) ← readMembers fuel (skipSpace rest)
          return ((key, v) :: entries, rest)
        | '\x7d' :: rest => return ([(key, v)], rest)
        | _ => malformed
      | _ => malformed
    | _ => malformed

end

/-- A whole text. Every level of the reader takes at least one character for two steps. -/
def read (s : String) : Reading Value := do
  let chars := s.toList
  let (v, rest) ← readValue (2 * chars.length + 2) (skipSpace chars)
  if (skipSpace rest).isEmpty then pure v else .error .malformed

end EngineHost.Json
