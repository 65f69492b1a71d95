import EngineHost.Proofs.Instants

/-!
Counts of milliseconds. Every count from the first to the last of the calendar is read as the moment it is
counted for, and no other count is read. Counting a moment rounds its instant down and keeps the order of
instants, in whatever offset they are written.
-/
namespace EngineHost.Calendar

variable {d : Date} {m n : Moment} {millis : Int}

/-! ### The days one after the other -/

/-- The date after this one. -/
def Date.next (d : Date) : Date :=
  if d.day < monthLength d.year d.month then ⟨d.year, d.month, d.day + 1⟩
  else if d.month < 12 then ⟨d.year, d.month + 1, 1⟩
  else ⟨d.year + 1, 1, 1⟩

theorem Date.ordinal_next (h : d.isValid) : d.next.ordinal = d.ordinal + 1 := by
  obtain ⟨hyear, -, hmonth, hmonth', -, hday⟩ := (Date.isValid_iff d).mp h
  rw [Date.next]
  split
  · simp only [Date.ordinal]
    omega
  · have hend : d.day = monthLength d.year d.month := by omega
    split
    · simp only [Date.ordinal, daysBeforeMonth_succ d.year hmonth]
      omega
    · have hlast : d.month = 12 := by omega
      have hlength := yearLength_eq d.year
      have hfirst : daysBeforeMonth (d.year + 1) 1 = 0 := rfl
      rw [hlast] at hend
      simp only [Date.ordinal, daysBeforeYear_succ hyear, hlast, hfirst]
      omega

/-- Microseconds from the start of 1970 to what a moment reads, in whatever offset. -/
def Moment.reading (m : Moment) : Int :=
  m.date.midnight.instant + (m.hour * 3600 + m.minute * 60 + m.second : Nat) * 1000000 + m.micro

theorem Moment.instant_eq (m : Moment) : m.instant = m.reading - m.offset.getD 0 * 1000000 := by
  simp only [Moment.reading, Moment.instant, Date.midnight, Option.getD_some]
  omega

theorem Date.midnight_next (h : d.isValid) :
    d.next.midnight.instant = d.midnight.instant + 24 * 3600 * 1000000 := by
  have hnext := Date.ordinal_next h
  simp only [Moment.instant, Date.midnight, hnext]
  omega

/-! ### Reading counts -/

/-- The start of the calendar. -/
def firstMillis : Int :=
  (Date.mk minYear 1 1).midnight.millis

/-- The last whole millisecond of the calendar. -/
def lastMillis : Int :=
  (Moment.mk ⟨maxYear, 12, 31⟩ 23 59 59 999000 (some 0)).millis

theorem firstMillis_eq : firstMillis = -62135596800000 := by
  decide

theorem lastMillis_eq : lastMillis = 253402300799999 := by
  decide

theorem representable_iff_millis : Representable (millis * 1000) ↔ firstMillis ≤ millis ∧ millis ≤ lastMillis := by
  have hfirst : (Moment.mk ⟨1, 1, 1⟩ 0 0 0 0 (some 0)).instant = -62135596800000000 := by decide
  have hlast : (Moment.mk ⟨9999, 12, 31⟩ 23 59 59 999999 (some 0)).instant = 253402300799999999 := by decide
  rw [Representable, hfirst, hlast, firstMillis_eq, lastMillis_eq]
  omega

theorem momentOfMillis_eq (millis : Int) :
    Wire.momentOfMillis (.int millis) =
      match Moment.ofMillis? millis with
      | some m => .ok (.moment m)
      | none => .error (.shape .outOfRange) := by
  rw [Wire.momentOfMillis, Wire.momentOfMillis.fromInstant, Moment.ofMillis?]
  cases Moment.ofInstant? (millis * 1000) <;> rfl

/-- A count within the calendar is read as a universal moment that is counted so. -/
theorem momentOfMillis_ok (h : firstMillis ≤ millis ∧ millis ≤ lastMillis) :
    ∃ m : Moment, Wire.momentOfMillis (.int millis) = .ok (.moment m) ∧ m.isValid ∧ m.offset = some 0 ∧
      m.millis = millis := by
  obtain ⟨m, hread, hcount⟩ := Moment.millis_ofMillis? (representable_iff_millis.mpr h)
  obtain ⟨hvalid, hoffset, -⟩ := Moment.instant_ofInstant? hread
  refine ⟨m, ?_, hvalid, hoffset, hcount⟩
  rw [momentOfMillis_eq, hread]

theorem momentOfMillis_error (h : ¬ (firstMillis ≤ millis ∧ millis ≤ lastMillis)) :
    Wire.momentOfMillis (.int millis) = .error (.shape .outOfRange) := by
  have hnone : Moment.ofMillis? millis = none := by
    rw [Option.eq_none_iff_forall_ne_some]
    intro m hm
    exact h (representable_iff_millis.mp ((Moment.ofInstant?_isSome_iff _).mp ⟨m, hm⟩))
  rw [momentOfMillis_eq, hnone]

/-! ### Counting moments -/

theorem Moment.millis_mono (h : m.instant ≤ n.instant) : m.millis ≤ n.millis :=
  Int.ediv_le_ediv (by omega) h

/-- What is counted of a moment is read as its universal reading without the part of a millisecond. -/
theorem momentOfMillis_millis (h : m.isValid) (hr : Representable m.instant) :
    Wire.momentOfMillis (.int m.millis) = .ok (.moment m.universal.floored) := by
  rw [momentOfMillis_eq, (Moment.ofMillis?_millis h hr).1]

/-- Counts of milliseconds and moments of the years 1 to 9999: a count is read exactly if it is one of the
calendar's, as a universal moment with this count; a moment that is counted and read again is the universal
reading of its instant with the microseconds rounded down to whole milliseconds; and later instants never have
smaller counts, nor does an offset make a difference. Instants are those of the calendar: the year 1970 starts
at zero, and each day starts a day after the one before. -/
theorem millis_exact :
    (∀ millis : Int, firstMillis ≤ millis ∧ millis ≤ lastMillis →
      ∃ m : Moment, Wire.momentOfMillis (.int millis) = .ok (.moment m) ∧ m.isValid ∧ m.offset = some 0 ∧
        m.millis = millis) ∧
    (∀ millis : Int, ¬ (firstMillis ≤ millis ∧ millis ≤ lastMillis) →
      ∃ f, Wire.momentOfMillis (.int millis) = .error f ∧ f.family = "OverflowError") ∧
    (∀ m : Moment, m.isValid → Representable m.instant →
      ∃ u : Moment, u.isValid ∧ u.offset = some 0 ∧ u.instant = m.instant ∧
        Wire.momentOfMillis (.int m.millis) = .ok (.moment { u with micro := u.micro / 1000 * 1000 })) ∧
    (∀ m n : Moment, m.instant ≤ n.instant → m.millis ≤ n.millis) ∧
    (∀ m n : Moment,
      m.reading - m.offset.getD 0 * 1000000 = n.reading - n.offset.getD 0 * 1000000 → m.millis = n.millis) ∧
    (Date.mk 1970 1 1).midnight.instant = 0 ∧
    (∀ d : Date, d.isValid → d.next.midnight.instant = d.midnight.instant + 24 * 3600 * 1000000) ∧
    ∀ m : Moment, m.instant = m.reading - m.offset.getD 0 * 1000000 := by
  refine ⟨fun _ => momentOfMillis_ok, fun _ h => ⟨_, momentOfMillis_error h, rfl⟩, fun m h hr => ?_,
    fun _ _ => Moment.millis_mono, fun m n h => ?_, by decide, fun _ => Date.midnight_next,
    Moment.instant_eq⟩
  · obtain ⟨hvalid, hoffset, hinstant⟩ := Moment.universal_spec h hr
    exact ⟨m.universal, hvalid, hoffset, hinstant, momentOfMillis_millis h hr⟩
  · rw [← m.instant_eq, ← n.instant_eq] at h
    exact le_antisymm (Moment.millis_mono h.le) (Moment.millis_mono h.ge)

/-- The end of the calendar, a moment that an hour's offset writes in the next year, and a century without a
leap day. -/
theorem millis_exact_century :
    let m : Moment := ⟨⟨1899, 12, 31⟩, 23, 59, 59, 999999, some 0⟩
    let n : Moment := ⟨⟨1900, 1, 1⟩, 0, 59, 59, 999999, some 3600⟩
    (∃ u : Moment, Wire.momentOfMillis (.int lastMillis) = .ok (.moment u) ∧ u.isValid ∧ u.offset = some 0 ∧
      u.millis = lastMillis) ∧
    (∃ f, Wire.momentOfMillis (.int (lastMillis + 1)) = .error f ∧ f.family = "OverflowError") ∧
    (∃ u : Moment, u.isValid ∧ u.offset = some 0 ∧ u.instant = n.instant ∧
      Wire.momentOfMillis (.int n.millis) = .ok (.moment { u with micro := u.micro / 1000 * 1000 })) ∧
    m.millis ≤ n.millis ∧ m.millis = n.millis ∧
    (Date.mk 1900 3 1).midnight.instant = (Date.mk 1900 2 28).midnight.instant + 24 * 3600 * 1000000 := by
  intro m n
  obtain ⟨hread, hrange, hagain, hmono, hsame, -, hnext, -⟩ := millis_exact
  exact ⟨hread lastMillis (by decide), hrange (lastMillis + 1) (by decide), hagain n (by decide) ⟨by decide, by decide⟩,
    hmono m n (by decide), hsame m n (by decide), hnext ⟨1900, 2, 28⟩ (by decide)⟩

end EngineHost.Calendar
