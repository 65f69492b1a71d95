import EngineHost.Yaml.Tag
import EngineHost.Decimal.Reader
import EngineHost.Json.Reader

/-!
Numbers of YAML: whole numbers in base two, eight, ten, sixteen and sixty, and floats in base ten and
sixty. Underscores are ignored.
-/
namespace EngineHost.Yaml.Number

open Text Decimal

/-- The value of a digit in bases up to sixteen. -/
def digit? (c : Char) : Option Nat :=
  match digitValue? c with
  | some d => some d
  | none => Json.hexValue? c

def readDigits? (base : Nat) (ds : List Char) : Option Nat :=
  ds.foldlM (fun n c => do
    let d ← digit? c
    if d < base then some (base * n + d) else none) 0

/-- The letter after a zero that announces a base. -/
def baseLetter (base : Nat) : Char :=
  if base = 2 then 'b' else if base = 8 then 'o' else 'x'

def dropBaseMark (base : Nat) (s : List Char) : List Char :=
  match s with
  | '0' :: c :: rest => if c.toLower == baseLetter base then rest else s
  | _ => s

/-- A whole number in a base other than ten; blanks around it and a sign are allowed. -/
def readBased? (base : Nat) (s : List Char) : Option Int :=
  let (negative, body) := takeSign (strip s)
  match dropBaseMark base body with
  | [] => none
  | ds => (readDigits? base ds).map (signedInt negative)

def orBad {α : Type} : Option α → Reading α
  | some a => .ok a
  | none => badScalar .badContent

def withoutUnderscores (s : List Char) : List Char :=
  s.filter (· != '_')

/-- The sign in front, and a body that is not empty. -/
def signAndBody (s : List Char) : Reading (Bool × List Char) :=
  match s with
  | [] => badScalar .emptySequence
  | _ => .ok (takeSign s)

def parts (s : List Char) : List (List Char) :=
  ((String.ofList s).splitOn ":").map String.toList

def sexagesimal (ds : List Int) : Int :=
  ds.foldl (fun n d => 60 * n + d) 0

def readBody (body : List Char) : Reading Int :=
  match body with
  | [] => badScalar .emptySequence
  | ['0'] => .ok 0
  | '0' :: 'b' :: rest => orBad (readBased? 2 rest)
  | '0' :: 'x' :: rest => orBad (readBased? 16 rest)
  | '0' :: _ => orBad (readBased? 8 body)
  | _ =>
    if body.contains ':' then return sexagesimal (← (parts body).mapM fun d => orBad (readInt? d))
    else orBad (readInt? body)

def readInt (text : List Char) : Reading Int := do
  let (negative, body) ← signAndBody (withoutUnderscores text)
  let n ← readBody body
  return if negative then -n else n

/-- A power of the base as a float, if it is in the range of floats. -/
def weight (base : Nat) : Reading Float :=
  if (Float.ofNat base).isInf then badScalar .outOfRange else .ok (Float.ofNat base)

/-- Places count from the last one, which comes first in the sum. -/
def sexagesimalFloat (ds : List Float) : Reading Float := do
  let (sum, _) ← ds.reverse.foldlM (fun (sum, base) d => do
    return (sum + d * (← weight base), base * 60)) (0.0, 1)
  return sum

def negateIf (negative : Bool) (x : Float) : Float :=
  if negative then -x else x

/-- The word for no number, perhaps after a sign. -/
def isNanWord (text : List Char) : Bool :=
  (takeSign (lowerAscii (withoutUnderscores text))).2 == ".nan".toList

def readFloat (text : List Char) : Reading Float := do
  let (negative, body) ← signAndBody (lowerAscii (withoutUnderscores text))
  if body == ".inf".toList then return signed negative infiniteBits
  else if body == ".nan".toList then return 0.0 / 0.0
  else if body.contains ':' then
    let ds ← (parts body).mapM fun d => orBad (readFloat? d)
    return negateIf negative (← sexagesimalFloat ds)
  else return negateIf negative (← orBad (readFloat? body))

end EngineHost.Yaml.Number
