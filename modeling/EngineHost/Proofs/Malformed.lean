import EngineHost.Proofs.Instants
import EngineHost.Proofs.Offences

/-!
What becomes of any value that is read as a wire value. The reading goes through lists and records from left to
right. It ends at the first thing inside that is no wire value and at the first count that no moment has. What
stands under the other kinds is taken as it is, and keys of any kind are kept, so a value that was read may be
one that cannot cross.
-/
namespace EngineHost

open Calendar Decimal

namespace Value

instance (micros : Int) : Decidable (Representable micros) :=
  inferInstanceAs (Decidable (_ ∧ _))

/-- What keeps a value from counting the milliseconds from 1970 to a moment. -/
def countFault? : Value → Option ShapeFault
  | .bool _ => none
  | .int i => if Representable (i * 1000) then none else some .outOfRange
  | .float x =>
    match classify x with
    | .nan => some .badContent
    | .infinite _ => some .outOfRange
    | .finite b => if Representable (microsOfMillis x b) then none else some .outOfRange
  | _ => some .wrongKind

/-- Nothing on the walk through a value keeps it from crossing. -/
def passes (v : Value) : Bool :=
  v.walk.all fun x => !x.offends

end Value

namespace Wire

/-- What a reading comes to. -/
inductive Part where
  /-- Not a wire value. -/
  | malformed (w : Value)
  /-- Milliseconds since 1970. -/
  | count (millis : Value)
  | scalar (v : Value)
  | key (k : Value)

namespace Part

/-- What ends the reading there. -/
def fault? : Part → Option Failure
  | .malformed w => some (.host (.malformedWire w))
  | .count millis => millis.countFault?.map .shape
  | .scalar _ | .key _ => none

/-- What cannot cross again once it has been read. -/
def leaks : Part → Bool
  | .malformed _ | .count _ => false
  | .scalar v => !v.passes
  | .key k => !k.isText

/-- What stands under a kind; `whole` is what an error shows. -/
def ofKind (whole kind body : Value) : Part :=
  match kind with
  | .str "Time" => .count body
  | .str "Number" => .scalar body
  | .str "String" => .scalar body
  | .str "Boolean" => .scalar body
  | _ => .malformed whole

end Part

mutual

/-- What the reading of a value comes to, in its order, if nothing ends it. -/
def parts : Value → List Part
  | .mapping kind [(.str "Prim", body)] =>
    match body with
    | .mapping _ [(k, scalar)] => [.ofKind (.mapping kind [(.str "Prim", body)]) k scalar]
    | _ => [.malformed (.mapping kind [(.str "Prim", body)])]
  | .mapping kind [(.str "List", body)] =>
    match body with
    | .list items => partsOfList items
    | .tuple items => partsOfList items
    | _ => [.malformed (.mapping kind [(.str "List", body)])]
  | .mapping kind [(.str "Record", body)] =>
    match body with
    | .mapping _ entries => partsOfEntries entries
    | _ => [.malformed (.mapping kind [(.str "Record", body)])]
  | w => [.malformed w]

def partsOfList : List Value → List Part
  | [] => []
  | w :: rest => parts w ++ partsOfList rest

def partsOfEntries : List (Value × Value) → List Part
  | [] => []
  | (k, w) :: rest => .key k :: parts w ++ partsOfEntries rest

end

/-- Nothing among these keeps a value from crossing. -/
def Clean (xs : List Landmark) : Prop :=
  ∀ x ∈ xs, x.offends = false

theorem clean_walk (v : Value) : Clean v.walk ↔ v.passes = true := by
  simp [Clean, Value.passes]

/-- A reading that comes to these parts: it ends at the first that fails, and what it gives can cross if none of
them leaks. -/
structure Reads {α : Type} (marks : α → List Landmark) (ps : List Part) (c : Checked α) : Prop where
  stops : StopsAt (ps.filterMap Part.fault?) c
  crosses : ∀ a, c = .ok a → (Clean (marks a) ↔ ∀ p ∈ ps, p.leaks = false)

namespace Reads

variable {α β γ : Type} {marks : α → List Landmark} {marks' : β → List Landmark} {marks'' : γ → List Landmark}
  {ps later : List Part} {c : Checked α} {c' : Checked β}

theorem pure {a : α} (h : Clean (marks a)) : Reads marks [] (.ok a) where
  stops := .pure a
  crosses := by
    intro b hb
    obtain rfl := Except.ok.inj hb
    simp [h]

theorem malformed (w : Value) : Reads marks [.malformed w] (.error (.host (.malformedWire w))) where
  stops := rfl
  crosses := nofun

theorem map {k : α → β} (h : Reads marks ps c) (hk : ∀ a, Clean (marks' (k a)) ↔ Clean (marks a)) :
    Reads marks' ps (c >>= fun a => .ok (k a)) where
  stops := h.stops.map
  crosses := by
    intro b hb
    obtain ⟨a, ha, hb⟩ := Checked.bind_eq_ok hb
    obtain rfl := Except.ok.inj hb
    exact (hk a).trans (h.crosses a ha)

theorem scalar (v : Value) : Reads Value.walk [.scalar v] (.ok v) where
  stops := .pure v
  crosses := by
    intro a ha
    obtain rfl := Except.ok.inj ha
    simp [clean_walk, Part.leaks]

theorem instant (micros : Int) {millis : Value}
    (h : millis.countFault? = if Representable micros then none else some .outOfRange) :
    Reads Value.walk [.count millis] (momentOfMillis.fromInstant micros) := by
  rw [momentOfMillis.fromInstant]
  by_cases hrange : Representable micros
  · obtain ⟨m, hm⟩ := Moment.ofInstant?_isSome hrange
    rw [hm]
    rw [if_pos hrange] at h
    constructor
    · have hnone : Part.fault? (.count millis) = none := by simp [Part.fault?, h]
      rw [List.filterMap_cons_none hnone]
      exact .pure _
    · intro a ha
      obtain rfl := Except.ok.inj ha
      simp [Clean, Value.walk, Landmark.offends, Value.isOutsider, Part.leaks]
  · have hnone : Moment.ofInstant? micros = none := by
      rw [Option.eq_none_iff_forall_ne_some]
      intro m hm
      exact hrange ((Moment.ofInstant?_isSome_iff _).mp ⟨m, hm⟩)
    rw [hnone]
    rw [if_neg hrange] at h
    constructor
    · have hsome : Part.fault? (.count millis) = some (.shape .outOfRange) := by simp [Part.fault?, h]
      rw [List.filterMap_cons_some hsome]
      rfl
    · intro a ha
      cases ha

/-- What is no count, for a reason of its own. -/
theorem uncounted {millis : Value} {fault : ShapeFault} (h : millis.countFault? = some fault) :
    Reads Value.walk [.count millis] (.error (.shape fault)) := by
  constructor
  · have hsome : Part.fault? (.count millis) = some (.shape fault) := by simp [Part.fault?, h]
    rw [List.filterMap_cons_some hsome]
    rfl
  · intro a ha
    cases ha

theorem count (millis : Value) : Reads Value.walk [.count millis] (momentOfMillis millis) := by
  cases millis with
  | bool b =>
    have hrange : Representable ((if b then 1 else 0) * 1000) := by cases b <;> decide
    exact instant _ (if_pos hrange).symm
  | int i => exact instant _ rfl
  | float x =>
    rw [momentOfMillis]
    cases hclass : classify x with
    | nan => exact uncounted (by rw [Value.countFault?, hclass])
    | infinite negative => exact uncounted (by rw [Value.countFault?, hclass])
    | finite b => exact instant _ (by rw [Value.countFault?, hclass])
  | _ => exact uncounted rfl

theorem ofKind (whole kind body : Value) :
    Reads Value.walk [.ofKind whole kind body] (decodeScalar whole kind body) := by
  fun_cases decodeScalar whole kind body with
  | case1 => exact count body
  | case2 => exact scalar body
  | case3 => exact scalar body
  | case4 => exact scalar body
  | case5 =>
    rw [Part.ofKind]
    · exact malformed whole
    all_goals assumption

end Reads

end Wire

end EngineHost
