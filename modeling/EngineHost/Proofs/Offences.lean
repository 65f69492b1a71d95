import EngineHost.Proofs.RoundTrip
import EngineHost.Proofs.Types

/-!
What keeps a value from crossing. A value is walked through from left to right, and every key is met just
before what it leads to. The first thing on this walk that cannot cross is the one that an error tells of,
with the way that leads to it.
-/
namespace EngineHost

/-- A computation that goes through some faults in their order and stops at the first. -/
def StopsAt {α : Type} (faults : List Failure) (c : Checked α) : Prop :=
  match faults with
  | [] => ∃ a, c = .ok a
  | f :: _ => c = .error f

namespace StopsAt

variable {α β : Type} {faults later : List Failure} {c : Checked α}

theorem pure (a : α) : StopsAt [] (.ok a : Checked α) :=
  ⟨a, rfl⟩

theorem bind_of_ok {k : α → Checked β} (hc : StopsAt faults c) (hk : ∀ a, c = .ok a → StopsAt later (k a)) :
    StopsAt (faults ++ later) (c >>= k) := by
  cases faults with
  | nil =>
    obtain ⟨a, rfl⟩ := hc
    exact hk a rfl
  | cons f rest =>
    have hfail : c = .error f := hc
    rw [hfail]
    rfl

theorem bind {k : α → Checked β} (hc : StopsAt faults c) (hk : ∀ a, StopsAt later (k a)) :
    StopsAt (faults ++ later) (c >>= k) :=
  hc.bind_of_ok fun a _ => hk a

theorem map {k : α → β} (hc : StopsAt faults c) : StopsAt faults (c >>= fun a => .ok (k a)) := by
  rw [← List.append_nil faults]
  exact hc.bind fun a => .pure (k a)

theorem ok_iff (h : StopsAt faults c) : (∃ a, c = .ok a) ↔ faults = [] := by
  cases faults with
  | nil => exact ⟨fun _ => rfl, fun _ => h⟩
  | cons f rest =>
    have hfail : c = .error f := h
    simp [hfail]

end StopsAt

/-- A step from a value to one inside it. -/
inductive Branch where
  | item (index : Nat)
  | entry (key : String)
  deriving DecidableEq, Repr

/-- What a walk through a value comes to: a value without parts, or a key of a record. -/
structure Landmark where
  /-- The way to it; the way to a key ends at its record. -/
  way : List Branch
  isKey : Bool
  value : Value

/-- The same things, seen from one step further out. -/
def behind (b : Branch) (xs : List Landmark) : List Landmark :=
  xs.map fun x => { x with way := b :: x.way }

namespace Value

mutual

/-- Everything that a walk through a value comes to, in its order. -/
def walk : Value → List Landmark
  | .list items => walkItems 0 items
  | .tuple items => walkItems 0 items
  | .mapping _ entries => walkEntries entries
  | .data _ fields => walkFields fields
  | .type t => walkType t
  | .listOf element => behind (.entry "element") (walk element)
  | .variable name => behind (.entry "var_name") (walk name)
  | .blockOf params returns =>
    behind (.entry "params") (walkItems 0 params) ++ behind (.entry "returns") (walk returns)
  | .fieldSpec expr isOptional =>
    behind (.entry "expr") (walk expr) ++ [⟨[.entry "optional"], false, .bool isOptional⟩]
  | .recordOf fields extensible =>
    behind (.entry "fields") (walkPairs 0 fields) ++ behind (.entry "extensible") (walk extensible)
  | v => [⟨[], false, v⟩]

def walkItems (index : Nat) : List Value → List Landmark
  | [] => []
  | v :: rest => behind (.item index) (walk v) ++ walkItems (index + 1) rest

def walkEntries : List (Value × Value) → List Landmark
  | [] => []
  | (key, v) :: rest => ⟨[], true, key⟩ :: behind (.entry key.text) (walk v) ++ walkEntries rest

def walkFields : List (String × Value) → List Landmark
  | [] => []
  | (name, v) :: rest => behind (.entry name) (walk v) ++ walkFields rest

/-- Pairs are lists of two. -/
def walkPairs (index : Nat) : List (Value × Value) → List Landmark
  | [] => []
  | (k, v) :: rest =>
    behind (.item index) (behind (.item 0) (walk k) ++ behind (.item 1) (walk v)) ++
      walkPairs (index + 1) rest

def walkType : Ty → List Landmark
  | .primitive p =>
    [⟨[.entry "_name"], false, .str p.name⟩, ⟨[.entry "tag"], false, .str p.tag⟩]
  | .variable name => behind (.entry "var_name") (walk name)
  | .list element => behind (.entry "element_type") (walkType element)
  | .record fields extensible =>
    behind (.entry "fields") (walkTypeFields 0 fields) ++ behind (.entry "extensible") (walk extensible)
  | .block params returns =>
    behind (.entry "param_types") (walkTypes 0 params) ++ behind (.entry "return_type") (walkType returns)

def walkTypes (index : Nat) : List Ty → List Landmark
  | [] => []
  | t :: rest => behind (.item index) (walkType t) ++ walkTypes (index + 1) rest

/-- Pairs of a name and of a record of its type and whether it may be left out. -/
def walkTypeFields (index : Nat) : List (Value × Field) → List Landmark
  | [] => []
  | (k, .mk t isOptional) :: rest =>
    behind (.item index) (behind (.item 0) (walk k) ++
      behind (.item 1) (behind (.entry "type") (walkType t) ++
        behind (.entry "optional") (walk isOptional))) ++
      walkTypeFields (index + 1) rest

end

/-- No data: nothing, or something that this library does not know. -/
def isOutsider : Value → Bool
  | .null | .foreign _ | .object _ => true
  | _ => false

end Value

/-- How a way is written after a path: indices in brackets, and keys after a point, unless the path is empty so
far. -/
def spell (path : String) (way : List Branch) : String :=
  way.foldl (fun path b => match b with
    | .item index => path ++ "[" ++ toString index ++ "]"
    | .entry key => if path.isEmpty then key else path ++ "." ++ key) path

namespace Landmark

/-- Whether it keeps a value from crossing: keys have to be texts, and all other things data. -/
def offends (x : Landmark) : Bool :=
  if x.isKey then !x.value.isText else x.value.isOutsider

/-- The error that tells of it, for a walk that starts at a path. -/
def error (path : String) (x : Landmark) : HostError :=
  if x.isKey then .invalidRecordKey x.value (.ofText (spell path x.way))
  else .invalidValue x.value (.ofText (spell path x.way))

/-- The place that a way leads to. -/
def place (p : Place) (way : List Branch) : Place :=
  way.foldl (fun p b => match b with
    | .item index => p.atIndex index
    | .entry key => p.atKey key) p

/-- What a walk that starts at a place stops for. -/
def fault? (p : Place) (x : Landmark) : Option Failure :=
  if x.offends then
    some (.host (if x.isKey then .invalidRecordKey x.value (place p x.way)
      else .invalidValue x.value (place p x.way)))
  else none

theorem fault?_eq_none (p : Place) (x : Landmark) : fault? p x = none ↔ x.offends = false := by
  cases hx : x.offends <;> simp [fault?, hx]

theorem faults_behind (p : Place) (b : Branch) (xs : List Landmark) :
    (behind b xs).filterMap (fault? p) = xs.filterMap (fault? (place p [b])) := by
  rw [behind, List.filterMap_map]
  exact List.filterMap_congr fun _ _ => rfl

end Landmark

open Landmark

namespace Wire

mutual

/-- Encoding stops at the first thing on the walk that cannot cross. -/
theorem stopsAt_encode (v : Value) : ∀ p, StopsAt (v.walk.filterMap (fault? p)) (encode p v) := by
  intro p
  cases v with
  | null | foreign _ | object _ => rfl
  | bool _ | int _ | float _ | str _ | letters _ | moment _ | date _ => exact .pure _
  | list items => exact (stopsAt_encodeList items p 0).map
  | tuple items => exact (stopsAt_encodeList items p 0).map
  | mapping kind entries => exact (stopsAt_encodeEntries entries p).map
  | data name fields => exact (stopsAt_encodeFields fields p).map
  | type t => exact stopsAt_encodeType t p
  | listOf part | «variable» part =>
    rw [Value.walk, faults_behind]
    exact (stopsAt_encode part _).map
  | blockOf params returns =>
    rw [Value.walk, List.filterMap_append, faults_behind, faults_behind]
    exact (stopsAt_encodeList params _ 0).bind fun _ => (stopsAt_encode returns _).map
  | fieldSpec expr isOptional =>
    rw [Value.walk, List.filterMap_append, faults_behind]
    exact (stopsAt_encode expr _).bind fun _ => .pure _
  | recordOf fields extensible =>
    rw [Value.walk, List.filterMap_append, faults_behind, faults_behind]
    exact (stopsAt_encodePairs fields _ 0).bind fun _ => (stopsAt_encode extensible _).map
termination_by structural v

theorem stopsAt_encodeList (vs : List Value) : ∀ p index,
    StopsAt ((Value.walkItems index vs).filterMap (fault? p)) (encodeList p index vs) := by
  intro p index
  cases vs with
  | nil => exact .pure _
  | cons v rest =>
    rw [Value.walkItems, List.filterMap_append, faults_behind]
    exact (stopsAt_encode v _).bind fun _ => (stopsAt_encodeList rest p (index + 1)).map
termination_by structural vs

theorem stopsAt_encodeEntries (vs : List (Value × Value)) : ∀ p,
    StopsAt ((Value.walkEntries vs).filterMap (fault? p)) (encodeEntries p vs) := by
  intro p
  match vs with
  | [] => exact .pure _
  | (key, v) :: rest =>
    rw [Value.walkEntries, encodeEntries]
    cases hkey : key.isText with
    | false =>
      have hfault : fault? p ⟨[], true, key⟩ = some (.host (.invalidRecordKey key p)) := by
        simp [fault?, offends, hkey, place]
      rw [List.cons_append, List.filterMap_cons_some hfault]
      rfl
    | true =>
      have hfault : fault? p ⟨[], true, key⟩ = none := by
        simp [fault?, offends, hkey]
      rw [List.cons_append, List.filterMap_cons_none hfault, List.filterMap_append, faults_behind]
      exact (stopsAt_encode v _).bind fun _ => (stopsAt_encodeEntries rest p).map
termination_by structural vs

theorem stopsAt_encodeFields (vs : List (String × Value)) : ∀ p,
    StopsAt ((Value.walkFields vs).filterMap (fault? p)) (encodeFields p vs) := by
  intro p
  match vs with
  | [] => exact .pure _
  | (name, v) :: rest =>
    rw [Value.walkFields, List.filterMap_append, faults_behind]
    exact (stopsAt_encode v _).bind fun _ => (stopsAt_encodeFields rest p).map
termination_by structural vs

theorem stopsAt_encodePairs (vs : List (Value × Value)) : ∀ p index,
    StopsAt ((Value.walkPairs index vs).filterMap (fault? p)) (encodePairs p index vs) := by
  intro p index
  match vs with
  | [] => exact .pure _
  | (k, v) :: rest =>
    rw [Value.walkPairs, List.filterMap_append, faults_behind, List.filterMap_append, faults_behind,
      faults_behind, List.append_assoc]
    exact (stopsAt_encode k _).bind fun _ => (stopsAt_encode v _).bind fun _ =>
      (stopsAt_encodePairs rest p (index + 1)).map
termination_by structural vs

theorem stopsAt_encodeType (t : Ty) : ∀ p,
    StopsAt ((Value.walkType t).filterMap (fault? p)) (encodeType p t) := by
  intro p
  cases t with
  | primitive _ => exact .pure _
  | «variable» name =>
    rw [Value.walkType, faults_behind]
    exact (stopsAt_encode name _).map
  | list element =>
    rw [Value.walkType, faults_behind]
    exact (stopsAt_encodeType element _).map
  | record fields extensible =>
    rw [Value.walkType, List.filterMap_append, faults_behind, faults_behind]
    exact (stopsAt_encodeTypeFields fields _ 0).bind fun _ => (stopsAt_encode extensible _).map
  | block params returns =>
    rw [Value.walkType, List.filterMap_append, faults_behind, faults_behind]
    exact (stopsAt_encodeTypes params _ 0).bind fun _ => (stopsAt_encodeType returns _).map
termination_by structural t

theorem stopsAt_encodeTypes (ts : List Ty) : ∀ p index,
    StopsAt ((Value.walkTypes index ts).filterMap (fault? p)) (encodeTypes p index ts) := by
  intro p index
  cases ts with
  | nil => exact .pure _
  | cons t rest =>
    rw [Value.walkTypes, List.filterMap_append, faults_behind]
    exact (stopsAt_encodeType t _).bind fun _ => (stopsAt_encodeTypes rest p (index + 1)).map
termination_by structural ts

theorem stopsAt_encodeTypeFields (fields : List (Value × Field)) : ∀ p index,
    StopsAt ((Value.walkTypeFields index fields).filterMap (fault? p)) (encodeTypeFields p index fields) := by
  intro p index
  match fields with
  | [] => exact .pure _
  | (k, .mk t isOptional) :: rest =>
    rw [Value.walkTypeFields, List.filterMap_append, faults_behind, List.filterMap_append, faults_behind,
      faults_behind, List.filterMap_append, faults_behind, faults_behind, List.append_assoc,
      List.append_assoc]
    exact (stopsAt_encode k _).bind fun _ => (stopsAt_encodeType t _).bind fun _ =>
      (stopsAt_encode isOptional _).bind fun _ => (stopsAt_encodeTypeFields rest p (index + 1)).map
termination_by structural fields

end

theorem encode_ok_iff (p : Place) (v : Value) :
    (∃ e, encode p v = .ok e) ↔ ∀ x ∈ v.walk, x.offends = false := by
  rw [(stopsAt_encode v p).ok_iff, List.filterMap_eq_nil_iff]
  exact forall₂_congr fun x _ => fault?_eq_none p x

/-- The second entry has two things that cannot cross, of which the key comes first. -/
example :
    encode (.ofText "in") (.mapping .plain
      [(.str "a", .int 1), (.str "b", .tuple [.str "x", .mapping .plain [(.int 5, .null)]])]) =
      .error (.host (.invalidRecordKey (.int 5) (.ofText "in.b[1]"))) := by cbv

end Wire

end EngineHost
