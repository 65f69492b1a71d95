import EngineHost.Value.Basic

/-!
When two values are the same key or the same data. Numbers are compared by what they count, across
their kinds; mappings by their entries in any order, unless both are ordered; moments with an offset by
their instant.
-/
namespace EngineHost

open Decimal Calendar

/-- Whole numbers and floats on one scale. -/
inductive Number where
  | whole (i : Int)
  | float (x : Float)

def Value.number? : Value → Option Number
  | .bool b => some (.whole (if b then 1 else 0))
  | .int i => some (.whole i)
  | .float x => some (.float x)
  | _ => none

/-- Whether a float is exactly `i`. -/
def isExactly (x : Float) (i : Int) : Bool :=
  match classify x with
  | .finite b => b.isWhole && b.truncate == i
  | _ => false

def Number.equals : Number → Number → Bool
  | .whole i, .whole j => i == j
  | .whole i, .float y => isExactly y i
  | .float x, .whole j => isExactly x j
  | .float x, .float y => x == y

/-- A moment that says its offset equals none that does not. -/
def momentEquals (m n : Moment) : Bool :=
  m.offset.isSome == n.offset.isSome && m.instant == n.instant

def numberEquals (v w : Value) : Bool :=
  match v.number?, w.number? with
  | some a, some b => a.equals b
  | _, _ => false

mutual

def Value.equals : Value → Value → Bool
  | .null, .null => true
  | .str s, .str t => s == t
  | .letters s, .letters t => s == t
  | .moment m, .moment n => momentEquals m n
  | .date d, .date e => d == e
  | .list xs, .list ys => Value.equalsList xs ys
  | .tuple xs, .tuple ys => Value.equalsList xs ys
  | .mapping kind xs, .mapping kind' ys =>
    if kind = .ordered ∧ kind' = .ordered then Value.equalsEntries xs ys
    else xs.length == ys.length && Value.entriesWithin xs ys
  | .data name xs, .data name' ys => name == name' && Value.equalsFields xs ys
  | .foreign o, .foreign p => o == p
  | .object r, .object s => r == s
  | .type t, .type u => t.equals u
  | .listOf v, .listOf w => v.equals w
  | .variable v, .variable w => v.equals w
  | .blockOf ps r, .blockOf qs s => Value.equalsList ps qs && r.equals s
  | .fieldSpec v o, .fieldSpec w p => v.equals w && o == p
  | .recordOf xs e, .recordOf ys f => Value.equalsEntries xs ys && e.equals f
  | v, w => numberEquals v w

def Value.equalsList : List Value → List Value → Bool
  | [], [] => true
  | v :: vs, w :: ws => v.equals w && Value.equalsList vs ws
  | _, _ => false

/-- Entry by entry, in order. -/
def Value.equalsEntries : List (Value × Value) → List (Value × Value) → Bool
  | [], [] => true
  | (k, v) :: xs, (l, w) :: ys => k.equals l && v.equals w && Value.equalsEntries xs ys
  | _, _ => false

/-- Every entry of the first is an entry of the second. -/
def Value.entriesWithin : List (Value × Value) → List (Value × Value) → Bool
  | [], _ => true
  | (k, v) :: xs, ys => ys.any (fun (l, w) => k.equals l && v.equals w) && Value.entriesWithin xs ys

def Value.equalsFields : List (String × Value) → List (String × Value) → Bool
  | [], [] => true
  | (k, v) :: xs, (l, w) :: ys => k == l && v.equals w && Value.equalsFields xs ys
  | _, _ => false

def Ty.equals : Ty → Ty → Bool
  | .primitive p, .primitive q => p == q
  | .variable v, .variable w => v.equals w
  | .list t, .list u => t.equals u
  | .record xs e, .record ys f => Ty.equalsFields xs ys && e.equals f
  | .block ps r, .block qs s => Ty.equalsList ps qs && r.equals s
  | _, _ => false

def Ty.equalsList : List Ty → List Ty → Bool
  | [], [] => true
  | t :: ts, u :: us => t.equals u && Ty.equalsList ts us
  | _, _ => false

def Ty.equalsFields : List (Value × Field) → List (Value × Field) → Bool
  | [], [] => true
  | (k, f) :: xs, (l, g) :: ys => k.equals l && f.equals g && Ty.equalsFields xs ys
  | _, _ => false

def Field.equals : Field → Field → Bool
  | .mk t o, .mk u p => t.equals u && o.equals p

end

mutual

/-- Whether a value can be a key. Lists, mappings and instances that can change cannot. -/
def Value.isHashable : Value → Bool
  | .list _ | .mapping _ _ | .data _ _ => false
  | .tuple items => Value.allHashable items
  | .type t => t.isHashable
  | .listOf element => element.isHashable
  | .variable name => name.isHashable
  | .blockOf params returns => Value.allHashable params && returns.isHashable
  | .fieldSpec expr _ => expr.isHashable
  | .recordOf fields extensible => Value.entriesHashable fields && extensible.isHashable
  | _ => true

def Value.allHashable : List Value → Bool
  | [] => true
  | v :: rest => v.isHashable && Value.allHashable rest

def Value.entriesHashable : List (Value × Value) → Bool
  | [] => true
  | (k, v) :: rest => k.isHashable && v.isHashable && Value.entriesHashable rest

def Ty.isHashable : Ty → Bool
  | .primitive _ => true
  | .variable name => name.isHashable
  | .list element => element.isHashable
  | .record fields extensible => Ty.fieldsHashable fields && extensible.isHashable
  | .block params returns => Ty.allHashable params && returns.isHashable

def Ty.allHashable : List Ty → Bool
  | [] => true
  | t :: rest => t.isHashable && Ty.allHashable rest

def Ty.fieldsHashable : List (Value × Field) → Bool
  | [] => true
  | (k, .mk t o) :: rest => k.isHashable && t.isHashable && o.isHashable && Ty.fieldsHashable rest

end

/-- Writes an entry: an equal key keeps its place and its spelling. -/
def Value.insertEntry (key value : Value) : List (Value × Value) → List (Value × Value)
  | [] => [(key, value)]
  | (k, v) :: rest =>
    if k.equals key then (k, value) :: rest else (k, v) :: Value.insertEntry key value rest

/-- The entries of a mapping written one after the other. -/
def Value.collectEntries (pairs : List (Value × Value)) : List (Value × Value) :=
  pairs.foldl (fun entries (k, v) => Value.insertEntry k v entries) []

/-- The value under a key. -/
def Value.lookup? (key : Value) : List (Value × Value) → Option Value
  | [] => none
  | (k, v) :: rest => if k.equals key then some v else Value.lookup? key rest

end EngineHost
