import EngineHost.Text.Letter
import EngineHost.Value.Order

/-!
The data of a document. A sequence or a mapping may be part of itself, so data name their collections by
number, and a document keeps what each of them holds.
-/
namespace EngineHost.Yaml

open Text Calendar

inductive Datum where
  | null
  | bool (b : Bool)
  | int (i : Int)
  /-- A float that is no number equals only itself: `origin` is where it was made. -/
  | float (x : Float) (origin : Nat)
  | text (letters : List Letter)
  | bytes (values : List Nat)
  | date (d : Date)
  | moment (m : Moment)
  | collection (id : Nat)

/-- What a collection holds. -/
inductive Collection where
  | list (items : List Datum)
  | pairs (items : List (Datum × Datum))
  | set (items : List Datum)
  | mapping (entries : List (Datum × Datum))

namespace Datum

def number? : Datum → Option Number
  | .bool b => some (.whole (if b then 1 else 0))
  | .int i => some (.whole i)
  | .float x _ => some (.float x)
  | _ => none

/-- Whether two data are the same key. -/
def equals : Datum → Datum → Bool
  | .null, .null => true
  | .text s, .text t => s == t
  | .bytes s, .bytes t => s == t
  | .date d, .date e => d == e
  | .moment m, .moment n => momentEquals m n
  | .collection a, .collection b => a == b
  | .float x a, .float y b => x == y || (x.isNaN && y.isNaN && a == b)
  | v, w =>
    match v.number?, w.number? with
    | some a, some b => a.equals b
    | _, _ => false

/-- Collections can change, so they are no keys. -/
def isKey : Datum → Bool
  | .collection _ => false
  | _ => true

/-- Whether bytes come before others. -/
def bytesPrecede : List Nat → List Nat → Bool
  | _, [] => false
  | [], _ :: _ => true
  | a :: as, b :: bs => a < b || (a == b && bytesPrecede as bs)

/-- Whether the first comes before the second; nothing when the two have no order. -/
def less? : Datum → Datum → Option Bool
  | .text s, .text t => some (Letter.precedes s t)
  | .bytes s, .bytes t => some (bytesPrecede s t)
  | .date d, .date e => some (d.ordinal < e.ordinal)
  | .moment m, .moment n =>
    if m.offset.isSome == n.offset.isSome then some (m.instant < n.instant) else none
  | v, w =>
    match v.number?, w.number? with
    | some a, some b => some (a.less b)
    | _, _ => none

def ofString (s : String) : Datum :=
  .text (Letter.ofChars s.toList)

/-- Writes an entry: an equal key keeps its place and its spelling. -/
def insertEntry (key value : Datum) : List (Datum × Datum) → List (Datum × Datum)
  | [] => [(key, value)]
  | (k, v) :: rest =>
    if k.equals key then (k, value) :: rest else (k, v) :: insertEntry key value rest

end Datum

end EngineHost.Yaml
