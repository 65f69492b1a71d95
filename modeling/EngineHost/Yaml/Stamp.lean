import EngineHost.Decimal.Binary
import EngineHost.Yaml.Cursor

/-!
Dates and times as YAML writes them: a date, or a date with a time of day and perhaps an offset.
-/
namespace EngineHost.Yaml

open Calendar

/-- The digits of a time of day and the offset in seconds. -/
structure StampTime where
  hour : Nat
  minute : Nat
  second : Nat
  fraction : List Char
  offset : Option Int

structure Stamp where
  year : Nat
  month : Nat
  day : Nat
  time : Option StampTime

namespace Stamp

abbrev Scan (α : Type) := List Char → Option (α × List Char)

def isDigit (c : Char) : Bool :=
  '0' ≤ c && c ≤ '9'

def numberOf (ds : List Char) : Nat :=
  ds.foldl (fun n d => 10 * n + (d.toNat - '0'.toNat)) 0

/-- Between `least` and `most` digits, as many as there are. -/
def digits (least most : Nat) : Scan Nat := fun s =>
  let ds := (s.takeWhile isDigit).take most
  if least ≤ ds.length then some (numberOf ds, s.drop ds.length) else none

def sign (c : Char) : Scan Unit
  | d :: rest => if d == c then some ((), rest) else none
  | [] => none

/-- Hours and perhaps minutes, with a sign in front. -/
def signedOffset (negative : Bool) (s : List Char) : Option Int := do
  let (hours, rest) ← digits 1 2 s
  let minutes ←
    match rest with
    | [] => some 0
    | _ => do
      let (_, rest) ← sign ':' rest
      let (minutes, rest) ← digits 2 2 rest
      if rest.isEmpty then some minutes else none
  let seconds : Int := 3600 * hours + 60 * minutes
  return if negative then -seconds else seconds

/-- What follows a time of day, up to the end. -/
def zone? (s : List Char) : Option (Option Int) :=
  match s with
  | [] => some none
  | _ =>
    match s.dropWhile isGap with
    | ['Z'] => some (some 0)
    | '+' :: rest => (signedOffset false rest).map some
    | '-' :: rest => (signedOffset true rest).map some
    | _ => none

def fraction (s : List Char) : List Char × List Char :=
  match s with
  | '.' :: rest => (rest.takeWhile isDigit, rest.dropWhile isDigit)
  | _ => ([], s)

def timeOfDay? (s : List Char) : Option StampTime := do
  let (hour, s) ← digits 1 2 s
  let (_, s) ← sign ':' s
  let (minute, s) ← digits 2 2 s
  let (_, s) ← sign ':' s
  let (second, s) ← digits 2 2 s
  let (fraction, s) := fraction s
  return ⟨hour, minute, second, fraction, ← zone? s⟩

/-- The time of day after a date: behind the letter T, or behind gaps. -/
def afterDate? (s : List Char) : Option StampTime :=
  match s with
  | c :: rest =>
    if c == 'T' || c == 't' then timeOfDay? rest
    else if isGap c then timeOfDay? (rest.dropWhile isGap)
    else none
  | [] => none

def read? (s : List Char) : Option Stamp := do
  let (year, s) ← digits 4 4 s
  let (_, s) ← sign '-' s
  let (month, s) ← digits 1 2 s
  let (_, s) ← sign '-' s
  let (day, s) ← digits 1 2 s
  match s with
  | [] => return ⟨year, month, day, none⟩
  | _ => return ⟨year, month, day, some (← afterDate? s)⟩

/-- A text without one line break after it. -/
def withoutFinalBreak (s : List Char) : List Char :=
  if s.getLast? == some '\n' && s.length ≠ 1 then s.dropLast else s

/-- A plain text is taken for a date only if its month and day have two digits. -/
def isPlain (s : List Char) : Bool :=
  match read? s with
  | some stamp => stamp.time.isSome || s.length == 10
  | none => false

/-- Six digits; further ones are dropped. -/
def micros (fraction : List Char) : Nat :=
  let ds := fraction.take 6
  numberOf ds * Decimal.tenTo (6 - ds.length)

def moment (d : Date) (t : StampTime) : Moment :=
  ⟨d, t.hour, t.minute, t.second, micros t.fraction, t.offset⟩

/-- The value of a stamp whose parts are all in range. -/
def toValue? (stamp : Stamp) : Option Value :=
  let d : Date := ⟨stamp.year, stamp.month, stamp.day⟩
  match stamp.time with
  | none => if d.isValid then some (.date d) else none
  | some t => if (moment d t).isValid then some (.moment (moment d t)) else none

end Stamp

end EngineHost.Yaml
