import EngineHost.Calendar.Date
import EngineHost.Decimal.Binary

/-!
Moments: a date, a time of day to the microsecond and, if known, the offset from universal time. An
instant is a count of microseconds from the start of 1970, universal time.
-/
namespace EngineHost.Calendar

open Decimal

structure Moment where
  date : Date
  hour : Nat
  minute : Nat
  second : Nat
  micro : Nat
  /-- Seconds ahead of universal time; none when the moment does not say. -/
  offset : Option Int
  deriving DecidableEq, Repr, Inhabited

/-- A time of the day, and an offset of less than a day. -/
def Moment.isValid (m : Moment) : Bool :=
  m.date.isValid && m.hour < 24 && m.minute < 60 && m.second < 60 && m.micro < 1000000 &&
    m.offset.all (·.natAbs < 86400)

def epochOrdinal : Nat := (Date.mk 1970 1 1).ordinal

/-- A moment that does not say its offset is taken in universal time. -/
def Moment.instant (m : Moment) : Int :=
  let days : Int := (m.date.ordinal : Int) - epochOrdinal
  let seconds : Int := days * 86400 + (m.hour * 3600 + m.minute * 60 + m.second : Nat)
  (seconds - m.offset.getD 0) * 1000000 + m.micro

def Date.midnight (d : Date) : Moment :=
  ⟨d, 0, 0, 0, 0, some 0⟩

/-- The universal reading of an instant, if its year has four digits. -/
def Moment.ofInstant? (micros : Int) : Option Moment :=
  let seconds := micros / 1000000
  let days := seconds / 86400
  let ordinal := days + epochOrdinal
  if 1 ≤ ordinal && ordinal ≤ maxOrdinal then
    let ofDay := (seconds % 86400).toNat
    some ⟨Date.ofOrdinal ordinal.toNat, ofDay / 3600, ofDay / 60 % 60, ofDay % 60,
      (micros % 1000000).toNat, some 0⟩
  else none

/-- Whole milliseconds since 1970, rounded down. -/
def Moment.millis (m : Moment) : Int :=
  m.instant / 1000

def Moment.ofMillis? (millis : Int) : Option Moment :=
  Moment.ofInstant? (millis * 1000)

/-- A fractional count of milliseconds in microseconds: the whole part is exact, the rest is rounded
to the nearest microsecond, and a half makes the sum even. -/
def microsOfMillis (x : Float) (b : Binary) : Int :=
  let whole := b.truncate
  let rest := 1000.0 * (x - Float.ofInt whole)
  let (restWhole, left) :=
    match classify rest with
    | .finite r => (r.truncate, rest - Float.ofInt r.truncate)
    | _ => (0, 0.0)
  let base := whole * 1000 + restWhole
  let odd : Float := if base % 2 == 0 then 0.0 else 1.0
  let nearest := left.round
  let step := if (nearest - left).abs == 0.5 then 2.0 * ((left + odd) * 0.5).round - odd else nearest
  match classify step with
  | .finite s => base + s.truncate
  | _ => base

def offsetIso (offset : Int) : String :=
  let n := offset.natAbs
  (if offset < 0 then "-" else "+") ++ pad 2 (n / 3600) ++ ":" ++ pad 2 (n / 60 % 60) ++
    (if n % 60 = 0 then "" else ":" ++ pad 2 (n % 60))

/-- `2020-01-02`, the separator, then `03:04:05`, the microseconds if any and the offset if known. -/
def Moment.isoWith (separator : String) (m : Moment) : String :=
  m.date.iso ++ separator ++ pad 2 m.hour ++ ":" ++ pad 2 m.minute ++ ":" ++ pad 2 m.second ++
    (if m.micro = 0 then "" else "." ++ pad 6 m.micro) ++
    (match m.offset with
     | some o => offsetIso o
     | none => "")

def Moment.iso (m : Moment) : String :=
  m.isoWith "T"

end EngineHost.Calendar
