import EngineHost.Proofs.RoundTrip
import EngineHost.Proofs.Types

/-!
Which values come back. A moment crosses as a count of milliseconds of any size, and is read back as a date
of the years 1 to 9999, so what has crossed comes back exactly if all moments in it are at such instants.
-/
namespace EngineHost

namespace Calendar

/-- Counted in whole milliseconds, an instant stays within the years that can be read. -/
theorem Moment.representable_millis (m : Moment) : Representable (m.millis * 1000) ↔ Representable m.instant := by
  have hfirst : (Moment.mk ⟨1, 1, 1⟩ 0 0 0 0 (some 0)).instant = -62135596800000000 := by decide
  have hlast : (Moment.mk ⟨9999, 12, 31⟩ 23 59 59 999999 (some 0)).instant = 253402300799999999 := by decide
  rw [Representable, Representable, hfirst, hlast, Moment.millis]
  omega

theorem Moment.ofInstant?_isSome_iff (micros : Int) :
    (∃ m, Moment.ofInstant? micros = some m) ↔ Representable micros := by
  refine ⟨?_, Moment.ofInstant?_isSome⟩
  rintro ⟨m, hm⟩
  obtain ⟨hvalid, hoffset, hinstant⟩ := Moment.instant_ofInstant? hm
  have hfirst : (Moment.mk ⟨1, 1, 1⟩ 0 0 0 0 (some 0)).instant = -62135596800000000 := by decide
  have hlast : (Moment.mk ⟨9999, 12, 31⟩ 23 59 59 999999 (some 0)).instant = 253402300799999999 := by decide
  have hepoch : epochOrdinal = 719163 := by decide
  have hmax : maxOrdinal = 3652059 := by decide
  obtain ⟨hdate, hhour, hminute, hsecond, hmicro, -⟩ := (Moment.isValid_iff m).mp hvalid
  have hpos := Date.ordinal_pos hdate
  have hle := Date.ordinal_le hdate
  simp only [Moment.instant, hoffset, Option.getD_some] at hinstant
  rw [Representable, hfirst, hlast]
  omega

end Calendar

open Calendar

/-- What becomes of a reading that meets these instants: it ends well if all of them can be read, and with
an error of range otherwise. -/
def Fares {α : Type} (times : List Int) (c : Checked α) : Prop :=
  ((∀ t ∈ times, Representable t) ∧ ∃ a, c = .ok a) ∨
    ((∃ t ∈ times, ¬ Representable t) ∧ c = .error (.shape .outOfRange))

namespace Fares

variable {α β : Type} {times later : List Int} {c : Checked α}

theorem pure (a : α) : Fares [] (.ok a : Checked α) :=
  .inl ⟨nofun, a, rfl⟩

theorem bind {k : α → Checked β} (hc : Fares times c) (hk : ∀ a, Fares later (k a)) :
    Fares (times ++ later) (c >>= k) := by
  rcases hc with ⟨hall, a, rfl⟩ | ⟨⟨t, ht, hbad⟩, rfl⟩
  · rcases hk a with ⟨hlater, b, hb⟩ | ⟨⟨t, ht, hbad⟩, hb⟩
    · refine .inl ⟨fun t ht => ?_, b, hb⟩
      rcases List.mem_append.mp ht with ht | ht
      · exact hall t ht
      · exact hlater t ht
    · exact .inr ⟨⟨t, List.mem_append_right _ ht, hbad⟩, hb⟩
  · exact .inr ⟨⟨t, List.mem_append_left _ ht, hbad⟩, rfl⟩

theorem map {k : α → Checked β} (hc : Fares times c) (hk : ∀ a, Fares [] (k a)) : Fares times (c >>= k) := by
  rw [← List.append_nil times]
  exact hc.bind hk

theorem ok_iff (h : Fares times c) : (∃ a, c = .ok a) ↔ ∀ t ∈ times, Representable t := by
  rcases h with ⟨hall, hok⟩ | ⟨⟨t, ht, hbad⟩, rfl⟩
  · exact ⟨fun _ => hall, fun _ => hok⟩
  · exact ⟨nofun, fun hall => absurd (hall t ht) hbad⟩

end Fares

mutual

/-- The instants of the moments that cross with a value, in order; those of dates are at midnight. -/
def Value.instants : Value → List Int
  | .moment m => [m.instant]
  | .date d => [d.midnight.instant]
  | .list items => Value.instantsOfList items
  | .tuple items => Value.instantsOfList items
  | .mapping _ entries => Value.instantsOfEntries entries
  | .data _ fields => Value.instantsOfFields fields
  | .type t => t.instants
  | .listOf element => element.instants
  | .variable name => name.instants
  | .blockOf params returns => Value.instantsOfList params ++ returns.instants
  | .fieldSpec expr _ => expr.instants
  | .recordOf fields extensible => Value.instantsOfPairs fields ++ extensible.instants
  | _ => []

def Value.instantsOfList : List Value → List Int
  | [] => []
  | v :: rest => v.instants ++ Value.instantsOfList rest

def Value.instantsOfEntries : List (Value × Value) → List Int
  | [] => []
  | (_, v) :: rest => v.instants ++ Value.instantsOfEntries rest

def Value.instantsOfFields : List (String × Value) → List Int
  | [] => []
  | (_, v) :: rest => v.instants ++ Value.instantsOfFields rest

def Value.instantsOfPairs : List (Value × Value) → List Int
  | [] => []
  | (k, v) :: rest => k.instants ++ v.instants ++ Value.instantsOfPairs rest

def Ty.instants : Ty → List Int
  | .primitive _ => []
  | .variable name => name.instants
  | .list element => element.instants
  | .record fields extensible => Ty.instantsOfFields fields ++ extensible.instants
  | .block params returns => Ty.instantsOfList params ++ returns.instants

def Ty.instantsOfList : List Ty → List Int
  | [] => []
  | t :: rest => t.instants ++ Ty.instantsOfList rest

def Ty.instantsOfFields : List (Value × Field) → List Int
  | [] => []
  | (k, .mk t isOptional) :: rest =>
    k.instants ++ t.instants ++ isOptional.instants ++ Ty.instantsOfFields rest

end

namespace Wire

variable {e : Value} {es : List Value} {entries : List (Value × Value)} {times later : List Int}

theorem fares_time (m : Moment) : Fares [m.instant] (decode (prim "Time" (.int m.millis))) := by
  show Fares [m.instant] (momentOfMillis.fromInstant (m.millis * 1000))
  rw [momentOfMillis.fromInstant]
  by_cases h : Representable m.instant
  · obtain ⟨u, hu⟩ := Moment.ofInstant?_isSome (m.representable_millis.mpr h)
    rw [hu]
    exact .inl ⟨by simpa using h, _, rfl⟩
  · have hnone : Moment.ofInstant? (m.millis * 1000) = none := by
      rw [Option.eq_none_iff_forall_ne_some]
      intro u hu
      exact h (m.representable_millis.mp ((Moment.ofInstant?_isSome_iff _).mp ⟨u, hu⟩))
    rw [hnone]
    exact .inr ⟨⟨_, List.mem_cons_self, h⟩, rfl⟩

theorem fares_list (h : Fares times (decodeList es)) : Fares times (decode (list es)) :=
  h.map fun _ => .pure _

theorem fares_record (h : Fares times (decodeEntries entries)) : Fares times (decode (record entries)) :=
  h.map fun _ => .pure _

theorem fares_cons (h : Fares times (decode e)) (hrest : Fares later (decodeList es)) :
    Fares (times ++ later) (decodeList (e :: es)) :=
  h.bind fun _ => hrest.map fun _ => .pure _

theorem fares_entry {key : Value} (h : Fares times (decode e)) (hrest : Fares later (decodeEntries entries)) :
    Fares (times ++ later) (decodeEntries ((key, e) :: entries)) :=
  h.bind fun _ => hrest.map fun _ => .pure _

theorem fares_field {name : String} (h : Fares times (decode e)) :
    Fares times (decode (recordOfFields [(name, e)])) := by
  rw [← List.append_nil times]
  exact fares_record (fares_entry h (.pure []))

theorem fares_field₂ {name name' : String} {e' : Value} (h : Fares times (decode e))
    (h' : Fares later (decode e')) :
    Fares (times ++ later) (decode (recordOfFields [(name, e), (name', e')])) := by
  rw [← List.append_nil later]
  exact fares_record (fares_entry h (fares_entry h' (.pure [])))

mutual

/-- What is read of a value that has crossed. -/
theorem fares_encode (v : Value) : ∀ place e, encode place v = .ok e → Fares v.instants (decode e) := by
  intro place e h
  cases v with
  | null | foreign _ | object _ => cases h
  | bool _ | int _ | float _ | str _ | letters _ =>
    obtain rfl := Except.ok.inj h
    exact .pure _
  | moment m =>
    obtain rfl := Except.ok.inj h
    exact fares_time m
  | date d =>
    obtain rfl := Except.ok.inj h
    exact fares_time d.midnight
  | list items | tuple items =>
    obtain ⟨es, hes, h⟩ := Checked.bind_eq_ok h
    obtain rfl := Except.ok.inj h
    exact fares_list (fares_encodeList items _ _ es hes)
  | mapping kind entries =>
    obtain ⟨es, hes, h⟩ := Checked.bind_eq_ok h
    obtain rfl := Except.ok.inj h
    exact fares_record (fares_encodeEntries entries _ es hes)
  | data name fields =>
    obtain ⟨es, hes, h⟩ := Checked.bind_eq_ok h
    obtain rfl := Except.ok.inj h
    exact fares_record (fares_encodeFields fields _ es hes)
  | type t => exact fares_encodeType t _ e h
  | listOf part | «variable» part =>
    obtain ⟨inner, hinner, h⟩ := Checked.bind_eq_ok h
    obtain rfl := Except.ok.inj h
    exact fares_field (fares_encode part _ inner hinner)
  | blockOf params returns =>
    obtain ⟨es, hes, h⟩ := Checked.bind_eq_ok h
    obtain ⟨inner, hinner, h⟩ := Checked.bind_eq_ok h
    obtain rfl := Except.ok.inj h
    exact fares_field₂ (fares_list (fares_encodeList params _ _ es hes)) (fares_encode returns _ inner hinner)
  | fieldSpec expr isOptional =>
    obtain ⟨inner, hinner, h⟩ := Checked.bind_eq_ok h
    obtain rfl := Except.ok.inj h
    rw [Value.instants, ← List.append_nil expr.instants]
    exact fares_field₂ (fares_encode expr _ inner hinner) (.pure _)
  | recordOf fields extensible =>
    obtain ⟨es, hes, h⟩ := Checked.bind_eq_ok h
    obtain ⟨inner, hinner, h⟩ := Checked.bind_eq_ok h
    obtain rfl := Except.ok.inj h
    exact fares_field₂ (fares_list (fares_encodePairs fields _ _ es hes))
      (fares_encode extensible _ inner hinner)
termination_by structural v

theorem fares_encodeList (vs : List Value) : ∀ place index es, encodeList place index vs = .ok es →
    Fares (Value.instantsOfList vs) (decodeList es) := by
  intro place index es h
  cases vs with
  | nil =>
    obtain rfl := Except.ok.inj h
    exact .pure _
  | cons v rest =>
    obtain ⟨e, he, h⟩ := Checked.bind_eq_ok h
    obtain ⟨more, hmore, h⟩ := Checked.bind_eq_ok h
    obtain rfl := Except.ok.inj h
    exact fares_cons (fares_encode v _ e he) (fares_encodeList rest _ _ more hmore)
termination_by structural vs

theorem fares_encodeEntries (vs : List (Value × Value)) : ∀ place es, encodeEntries place vs = .ok es →
    Fares (Value.instantsOfEntries vs) (decodeEntries es) := by
  intro place es h
  match vs, h with
  | [], h =>
    obtain rfl := Except.ok.inj h
    exact .pure _
  | (key, v) :: rest, h =>
    rw [encodeEntries] at h
    split at h
    · obtain ⟨e, he, h⟩ := Checked.bind_eq_ok h
      obtain ⟨more, hmore, h⟩ := Checked.bind_eq_ok h
      obtain rfl := Except.ok.inj h
      exact fares_entry (fares_encode v _ e he) (fares_encodeEntries rest _ more hmore)
    · cases h
termination_by structural vs

theorem fares_encodeFields (vs : List (String × Value)) : ∀ place es, encodeFields place vs = .ok es →
    Fares (Value.instantsOfFields vs) (decodeEntries (es.map fun (k, e) => (.str k, e))) := by
  intro place es h
  match vs, h with
  | [], h =>
    obtain rfl := Except.ok.inj h
    exact .pure _
  | (key, v) :: rest, h =>
    obtain ⟨e, he, h⟩ := Checked.bind_eq_ok h
    obtain ⟨more, hmore, h⟩ := Checked.bind_eq_ok h
    obtain rfl := Except.ok.inj h
    exact fares_entry (fares_encode v _ e he) (fares_encodeFields rest _ more hmore)
termination_by structural vs

theorem fares_encodePairs (vs : List (Value × Value)) : ∀ place index es, encodePairs place index vs = .ok es →
    Fares (Value.instantsOfPairs vs) (decodeList es) := by
  intro place index es h
  match vs, h with
  | [], h =>
    obtain rfl := Except.ok.inj h
    exact .pure _
  | (k, v) :: rest, h =>
    obtain ⟨first, hfirst, h⟩ := Checked.bind_eq_ok h
    obtain ⟨second, hsecond, h⟩ := Checked.bind_eq_ok h
    obtain ⟨more, hmore, h⟩ := Checked.bind_eq_ok h
    obtain rfl := Except.ok.inj h
    have hsecond' : Fares v.instants (decodeList [second]) :=
      List.append_nil v.instants ▸ fares_cons (fares_encode v _ second hsecond) (.pure [])
    exact fares_cons (fares_list (fares_cons (fares_encode k _ first hfirst) hsecond'))
      (fares_encodePairs rest _ _ more hmore)
termination_by structural vs

theorem fares_encodeType (t : Ty) : ∀ place e, encodeType place t = .ok e → Fares t.instants (decode e) := by
  intro place e h
  cases t with
  | primitive p =>
    obtain rfl := Except.ok.inj h
    exact .pure _
  | «variable» name =>
    obtain ⟨inner, hinner, h⟩ := Checked.bind_eq_ok h
    obtain rfl := Except.ok.inj h
    exact fares_field (fares_encode name _ inner hinner)
  | list element =>
    obtain ⟨inner, hinner, h⟩ := Checked.bind_eq_ok h
    obtain rfl := Except.ok.inj h
    exact fares_field (fares_encodeType element _ inner hinner)
  | record fields extensible =>
    obtain ⟨es, hes, h⟩ := Checked.bind_eq_ok h
    obtain ⟨inner, hinner, h⟩ := Checked.bind_eq_ok h
    obtain rfl := Except.ok.inj h
    exact fares_field₂ (fares_list (fares_encodeTypeFields fields _ _ es hes))
      (fares_encode extensible _ inner hinner)
  | block params returns =>
    obtain ⟨es, hes, h⟩ := Checked.bind_eq_ok h
    obtain ⟨inner, hinner, h⟩ := Checked.bind_eq_ok h
    obtain rfl := Except.ok.inj h
    exact fares_field₂ (fares_list (fares_encodeTypes params _ _ es hes))
      (fares_encodeType returns _ inner hinner)
termination_by structural t

theorem fares_encodeTypes (ts : List Ty) : ∀ place index es, encodeTypes place index ts = .ok es →
    Fares (Ty.instantsOfList ts) (decodeList es) := by
  intro place index es h
  cases ts with
  | nil =>
    obtain rfl := Except.ok.inj h
    exact .pure _
  | cons t rest =>
    obtain ⟨e, he, h⟩ := Checked.bind_eq_ok h
    obtain ⟨more, hmore, h⟩ := Checked.bind_eq_ok h
    obtain rfl := Except.ok.inj h
    exact fares_cons (fares_encodeType t _ e he) (fares_encodeTypes rest _ _ more hmore)
termination_by structural ts

theorem fares_encodeTypeFields (fields : List (Value × Field)) : ∀ place index es,
    encodeTypeFields place index fields = .ok es → Fares (Ty.instantsOfFields fields) (decodeList es) := by
  intro place index es h
  match fields, h with
  | [], h =>
    obtain rfl := Except.ok.inj h
    exact .pure _
  | (k, .mk t isOptional) :: rest, h =>
    obtain ⟨key, hkey, h⟩ := Checked.bind_eq_ok h
    obtain ⟨type, htype, h⟩ := Checked.bind_eq_ok h
    obtain ⟨optional, hoptional, h⟩ := Checked.bind_eq_ok h
    obtain ⟨more, hmore, h⟩ := Checked.bind_eq_ok h
    obtain rfl := Except.ok.inj h
    have hfield : Fares (t.instants ++ isOptional.instants)
        (decodeList [recordOfFields [("type", type), ("optional", optional)]]) := by
      rw [← List.append_nil (_ ++ _)]
      exact fares_cons (fares_field₂ (fares_encodeType t _ type htype)
        (fares_encode isOptional _ optional hoptional)) (.pure [])
    rw [Ty.instantsOfFields, List.append_assoc k.instants]
    exact fares_cons (fares_list (fares_cons (fares_encode k _ key hkey) hfield))
      (fares_encodeTypeFields rest _ _ more hmore)
termination_by structural fields

end

end Wire

end EngineHost
