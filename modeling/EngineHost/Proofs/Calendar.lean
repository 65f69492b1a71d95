import EngineHost.Calendar.Moment
import Mathlib.Order.Monotone.Basic

/-!
Counting days and reading dates are inverse to each other, and so are counting microseconds and reading
moments.
-/
namespace EngineHost.Calendar

/-! ### Years -/

def yearLength (year : Nat) : Nat :=
  if isLeap year then 366 else 365

theorem isLeap_iff (year : Nat) :
    isLeap year = true ↔ year % 4 = 0 ∧ (year % 100 ≠ 0 ∨ year % 400 = 0) := by
  simp [isLeap]

theorem daysBeforeYear_succ {year : Nat} (h : 1 ≤ year) :
    daysBeforeYear (year + 1) = daysBeforeYear year + yearLength year := by
  obtain ⟨n, rfl⟩ : ∃ n, year = n + 1 := ⟨year - 1, by omega⟩
  have hcentury : n / 100 ≤ n / 4 := Nat.div_le_div_left (by omega) (by omega)
  have h100 : (n + 1) % 100 = 0 → (n + 1) % 4 = 0 := by omega
  have h400 : (n + 1) % 400 = 0 → (n + 1) % 100 = 0 := by omega
  simp only [daysBeforeYear, yearLength, isLeap_iff, Nat.add_sub_cancel, Nat.succ_div,
    Nat.dvd_iff_mod_eq_zero]
  generalize n / 4 = a at *
  generalize n / 100 = b at *
  split_ifs <;> omega

theorem daysBeforeYear_le {year year' : Nat} (h : 1 ≤ year) (hlt : year < year') :
    daysBeforeYear year + yearLength year ≤ daysBeforeYear year' := by
  induction year' with
  | zero => omega
  | succ last ih =>
    rcases Nat.lt_succ_iff_lt_or_eq.mp hlt with hlt | rfl
    · rw [daysBeforeYear_succ (by omega)]
      exact (ih hlt).trans (Nat.le_add_right _ _)
    · rw [daysBeforeYear_succ h]

theorem daysBeforeYear_mono {year year' : Nat} (h : 1 ≤ year) (hle : year ≤ year') :
    daysBeforeYear year ≤ daysBeforeYear year' := by
  rcases Nat.lt_or_eq_of_le hle with hlt | rfl
  · exact (Nat.le_add_right _ _).trans (daysBeforeYear_le h hlt)
  · exact Nat.le_refl _

/-- Whole periods of four hundred, a hundred, four and single years. -/
theorem daysBeforeYear_periods {a b c d : Nat} (hb : b ≤ 3) (hc : c ≤ 24) (hd : d ≤ 3) :
    daysBeforeYear (a * 400 + b * 100 + c * 4 + d + 1) =
      a * 146097 + b * 36524 + c * 1461 + d * 365 := by
  have h4 : (a * 400 + b * 100 + c * 4 + d) / 4 = a * 100 + b * 25 + c := by omega
  have h100 : (a * 400 + b * 100 + c * 4 + d) / 100 = a * 4 + b := by omega
  have h400 : (a * 400 + b * 100 + c * 4 + d) / 400 = a := by omega
  simp only [daysBeforeYear, Nat.add_sub_cancel, h4, h100, h400]
  omega

/-- The year of a day, and how far into it the day is. -/
theorem yearOfDay_spec (n : Nat) :
    1 ≤ (yearOfDay n).1 ∧ daysBeforeYear (yearOfDay n).1 + (yearOfDay n).2 = n ∧
      (yearOfDay n).2 < yearLength (yearOfDay n).1 := by
  let a := n / 146097
  let b := n % 146097 / 36524
  let c := n % 146097 % 36524 / 1461
  let d := n % 146097 % 36524 % 1461 / 365
  let u := n % 146097 % 36524 % 1461 % 365
  have hn : n = a * 146097 + b * 36524 + c * 1461 + d * 365 + u := by omega
  have hu : u < 365 := Nat.mod_lt _ (by omega)
  have hb : b ≤ 4 := by omega
  have hc : c ≤ 24 := by omega
  have hd : d ≤ 4 := by omega
  have hday : yearOfDay n = if d = 4 ∨ b = 4 then (a * 400 + b * 100 + c * 4 + d, 365)
      else (a * 400 + b * 100 + c * 4 + d + 1, u) := by
    simp [yearOfDay, a, b, c, d, u]
  rw [hday]
  split
  · rename_i hlast
    -- The last day of a leap year, before which the shorter periods count one year too many.
    have hpart : b = 4 ∧ c = 0 ∧ d = 0 ∧ u = 0 ∨ b ≤ 3 ∧ c ≤ 23 ∧ d = 4 ∧ u = 0 := by omega
    have hleap : isLeap (a * 400 + b * 100 + c * 4 + d) = true := by
      rw [isLeap_iff]
      omega
    have hlength : yearLength (a * 400 + b * 100 + c * 4 + d) = 366 := if_pos hleap
    dsimp only
    rw [hlength]
    rcases hpart with ⟨h₁, h₂, h₃, h₄⟩ | ⟨h₁, h₂, h₃, h₄⟩
    · have hbefore := daysBeforeYear_periods (a := a) (b := 3) (c := 24) (d := 3) (by omega)
        (by omega) (by omega)
      have hyear : a * 400 + b * 100 + c * 4 + d = a * 400 + 3 * 100 + 24 * 4 + 3 + 1 := by omega
      rw [hyear, hbefore]
      omega
    · have hbefore := daysBeforeYear_periods (a := a) (d := 3) h₁ hc (by omega)
      have hyear : a * 400 + b * 100 + c * 4 + d = a * 400 + b * 100 + c * 4 + 3 + 1 := by omega
      rw [hyear, hbefore]
      omega
  · rename_i hlast
    have hbefore := daysBeforeYear_periods (a := a) (b := b) (c := c) (d := d) (by omega) hc (by omega)
    dsimp only
    rw [hbefore]
    refine ⟨by omega, by omega, ?_⟩
    unfold yearLength
    split <;> omega

/-! ### Months -/

theorem daysBeforeMonth_succ (year : Nat) {month : Nat} (h : 1 ≤ month) :
    daysBeforeMonth year (month + 1) = daysBeforeMonth year month + monthLength year month := by
  rw [daysBeforeMonth, if_neg (by omega)]

theorem daysBeforeMonth_le (year : Nat) {month month' : Nat} (h : 1 ≤ month) (hlt : month < month') :
    daysBeforeMonth year month + monthLength year month ≤ daysBeforeMonth year month' := by
  induction month' with
  | zero => omega
  | succ last ih =>
    rcases Nat.lt_succ_iff_lt_or_eq.mp hlt with hlt | rfl
    · rw [daysBeforeMonth_succ year (by omega)]
      exact (ih hlt).trans (Nat.le_add_right _ _)
    · rw [daysBeforeMonth_succ year h]

/-- The months fill the year. -/
theorem yearLength_eq (year : Nat) :
    daysBeforeMonth year 12 + monthLength year 12 = yearLength year := by
  cases h : isLeap year <;> simp [daysBeforeMonth, monthLength, yearLength, h]

/-- The month of a day of the year, and the day of the month. -/
theorem monthOfDay_spec (year fuel month n : Nat) (hm : 1 ≤ month) (hfuel : month + fuel = 12)
    (hn : daysBeforeMonth year month + n < yearLength year) :
    1 ≤ (monthOfDay year fuel month n).1 ∧ (monthOfDay year fuel month n).1 ≤ 12 ∧
      1 ≤ (monthOfDay year fuel month n).2 ∧
      (monthOfDay year fuel month n).2 ≤ monthLength year (monthOfDay year fuel month n).1 ∧
      daysBeforeMonth year (monthOfDay year fuel month n).1 + (monthOfDay year fuel month n).2 =
        daysBeforeMonth year month + n + 1 := by
  induction fuel generalizing month n with
  | zero =>
    obtain rfl : month = 12 := by omega
    have hlength := yearLength_eq year
    simp only [monthOfDay]
    omega
  | succ fuel ih =>
    simp only [monthOfDay]
    split
    · dsimp only
      omega
    · have hnext := daysBeforeMonth_succ year hm
      have hrest := ih (month + 1) (n - monthLength year month) (by omega) (by omega) (by omega)
      omega

/-! ### Dates -/

theorem Date.isValid_iff (d : Date) :
    d.isValid = true ↔ 1 ≤ d.year ∧ d.year ≤ 9999 ∧ 1 ≤ d.month ∧ d.month ≤ 12 ∧ 1 ≤ d.day ∧
      d.day ≤ monthLength d.year d.month := by
  simp only [Date.isValid, Bool.and_eq_true, decide_eq_true_eq, and_assoc]
  exact Iff.rfl

/-- Within its year, a date is before the next one. -/
theorem Date.dayOfYear_le {d : Date} (h : d.isValid) :
    daysBeforeMonth d.year d.month + d.day ≤ yearLength d.year := by
  obtain ⟨-, -, hm, hm', -, hd⟩ := (Date.isValid_iff d).mp h
  have hlength := yearLength_eq d.year
  rcases Nat.lt_or_eq_of_le hm' with hlt | heq
  · have hbefore := daysBeforeMonth_le d.year hm hlt
    omega
  · rw [heq] at hd ⊢
    omega

theorem Date.year_eq {d e : Date} (hd : d.isValid) (he : e.isValid) (h : d.ordinal = e.ordinal) :
    d.year = e.year := by
  have hdle := Date.dayOfYear_le hd
  have hele := Date.dayOfYear_le he
  obtain ⟨hdy, -, -, -, hd1, -⟩ := (Date.isValid_iff d).mp hd
  obtain ⟨hey, -, -, -, he1, -⟩ := (Date.isValid_iff e).mp he
  simp only [Date.ordinal] at h
  rcases Nat.lt_trichotomy d.year e.year with hlt | heq | hlt
  · have hbefore := daysBeforeYear_le hdy hlt
    omega
  · exact heq
  · have hbefore := daysBeforeYear_le hey hlt
    omega

/-- No two dates have the same count. -/
theorem Date.ordinal_inj {d e : Date} (hd : d.isValid) (he : e.isValid) (h : d.ordinal = e.ordinal) :
    d = e := by
  have hyear := Date.year_eq hd he h
  obtain ⟨-, -, hdm, -, hd1, hdl⟩ := (Date.isValid_iff d).mp hd
  obtain ⟨-, -, hem, -, he1, hel⟩ := (Date.isValid_iff e).mp he
  obtain ⟨year, month, day⟩ := d
  obtain ⟨year', month', day'⟩ := e
  obtain rfl : year = year' := hyear
  simp only [Date.ordinal] at h
  dsimp only at *
  rcases Nat.lt_trichotomy month month' with hlt | rfl | hlt
  · have hbefore := daysBeforeMonth_le year hdm hlt
    omega
  · obtain rfl : day = day' := by omega
    rfl
  · have hbefore := daysBeforeMonth_le year hem hlt
    omega

theorem Date.ordinal_pos {d : Date} (h : d.isValid) : 1 ≤ d.ordinal := by
  obtain ⟨-, -, -, -, hd, -⟩ := (Date.isValid_iff d).mp h
  simp only [Date.ordinal]
  omega

theorem maxOrdinal_eq : maxOrdinal = daysBeforeYear 10000 := by
  decide

theorem Date.ordinal_le {d : Date} (h : d.isValid) : d.ordinal ≤ maxOrdinal := by
  obtain ⟨hy, hy', -, -, -, -⟩ := (Date.isValid_iff d).mp h
  have hle := Date.dayOfYear_le h
  have hbefore := daysBeforeYear_le hy (show d.year < 10000 by omega)
  rw [maxOrdinal_eq]
  simp only [Date.ordinal]
  omega

theorem Date.ofOrdinal_eq (ordinal : Nat) :
    Date.ofOrdinal ordinal = ⟨(yearOfDay (ordinal - 1)).1,
      (monthOfDay (yearOfDay (ordinal - 1)).1 11 1 (yearOfDay (ordinal - 1)).2).1,
      (monthOfDay (yearOfDay (ordinal - 1)).1 11 1 (yearOfDay (ordinal - 1)).2).2⟩ := rfl

/-- The date of a day has that day's count. -/
theorem Date.ordinal_ofOrdinal {ordinal : Nat} (h : 1 ≤ ordinal) (h' : ordinal ≤ maxOrdinal) :
    (Date.ofOrdinal ordinal).isValid ∧ (Date.ofOrdinal ordinal).ordinal = ordinal := by
  obtain ⟨hy, hbefore, hrest⟩ := yearOfDay_spec (ordinal - 1)
  have hmonth := monthOfDay_spec (yearOfDay (ordinal - 1)).1 11 1 (yearOfDay (ordinal - 1)).2
    (by omega) rfl (by simpa [daysBeforeMonth] using hrest)
  obtain ⟨hm, hm', hd, hd', hsum⟩ := hmonth
  have hzero : daysBeforeMonth (yearOfDay (ordinal - 1)).1 1 = 0 := rfl
  rw [hzero] at hsum
  have hyear : (yearOfDay (ordinal - 1)).1 ≤ 9999 := by
    by_contra hlate
    have hmono := daysBeforeYear_mono (by omega)
      (show 10000 ≤ (yearOfDay (ordinal - 1)).1 by omega)
    rw [maxOrdinal_eq] at h'
    omega
  rw [Date.ofOrdinal_eq, Date.isValid_iff]
  refine ⟨⟨hy, hyear, hm, hm', hd, hd'⟩, ?_⟩
  simp only [Date.ordinal]
  omega

theorem Date.ofOrdinal_ordinal {d : Date} (h : d.isValid) : Date.ofOrdinal d.ordinal = d := by
  obtain ⟨hvalid, hordinal⟩ := Date.ordinal_ofOrdinal (Date.ordinal_pos h) (Date.ordinal_le h)
  exact Date.ordinal_inj hvalid h hordinal

/-! ### Moments -/

theorem Moment.isValid_iff (m : Moment) :
    m.isValid = true ↔ m.date.isValid ∧ m.hour < 24 ∧ m.minute < 60 ∧ m.second < 60 ∧
      m.micro < 1000000 ∧ m.offset.all (·.natAbs < 86400) := by
  simp only [Moment.isValid, Bool.and_eq_true, decide_eq_true_eq, and_assoc]

theorem Moment.ofInstant?_eq (micros : Int) :
    Moment.ofInstant? micros =
      if 1 ≤ micros / 1000000 / 86400 + epochOrdinal ∧
          micros / 1000000 / 86400 + epochOrdinal ≤ maxOrdinal then
        some ⟨Date.ofOrdinal (micros / 1000000 / 86400 + epochOrdinal).toNat,
          (micros / 1000000 % 86400).toNat / 3600, (micros / 1000000 % 86400).toNat / 60 % 60,
          (micros / 1000000 % 86400).toNat % 60, (micros % 1000000).toNat, some 0⟩
      else none := by
  simp only [Moment.ofInstant?, Bool.and_eq_true, decide_eq_true_eq]

/-- The reading of an instant is a universal moment at that instant. -/
theorem Moment.instant_ofInstant? {micros : Int} {m : Moment} (h : Moment.ofInstant? micros = some m) :
    m.isValid ∧ m.offset = some 0 ∧ m.instant = micros := by
  rw [Moment.ofInstant?_eq] at h
  split at h
  · rename_i hrange
    obtain rfl := Option.some.inj h
    obtain ⟨hvalid, hordinal⟩ := Date.ordinal_ofOrdinal
      (show 1 ≤ (micros / 1000000 / 86400 + epochOrdinal).toNat by omega)
      (show (micros / 1000000 / 86400 + epochOrdinal).toNat ≤ maxOrdinal by omega)
    refine ⟨?_, rfl, ?_⟩
    · rw [Moment.isValid_iff]
      refine ⟨hvalid, ?_, ?_, ?_, ?_, rfl⟩
      all_goals dsimp only; omega
    · simp only [Moment.instant, hordinal, Option.getD_some]
      omega
  · cases h

/-- A universal moment is the reading of its instant. -/
theorem Moment.ofInstant?_instant {m : Moment} (h : m.isValid) (hoffset : m.offset = some 0) :
    Moment.ofInstant? m.instant = some m := by
  obtain ⟨hdate, hhour, hminute, hsecond, hmicro, -⟩ := (Moment.isValid_iff m).mp h
  have hpos := Date.ordinal_pos hdate
  have hmax := Date.ordinal_le hdate
  have hday : m.instant / 1000000 / 86400 + epochOrdinal = m.date.ordinal := by
    simp only [Moment.instant, hoffset, Option.getD_some]
    omega
  have htime : m.instant / 1000000 % 86400 = (m.hour * 3600 + m.minute * 60 + m.second : Nat) := by
    simp only [Moment.instant, hoffset, Option.getD_some]
    omega
  have hrest : m.instant % 1000000 = m.micro := by
    simp only [Moment.instant, hoffset, Option.getD_some]
    omega
  rw [Moment.ofInstant?_eq, hday, htime, hrest, if_pos (by omega)]
  obtain ⟨date, hour, minute, second, micro, offset⟩ := m
  obtain rfl : offset = some 0 := hoffset
  simp only [Int.toNat_natCast, Date.ofOrdinal_ordinal hdate, Option.some.injEq, Moment.mk.injEq,
    true_and, and_true]
  dsimp only at *
  omega

/-- Instants of the years 1 to 9999. -/
def Representable (micros : Int) : Prop :=
  (Moment.mk ⟨1, 1, 1⟩ 0 0 0 0 (some 0)).instant ≤ micros ∧
    micros ≤ (Moment.mk ⟨9999, 12, 31⟩ 23 59 59 999999 (some 0)).instant

theorem Moment.ofInstant?_isSome {micros : Int} (h : Representable micros) :
    ∃ m, Moment.ofInstant? micros = some m := by
  have hepoch : epochOrdinal = 719163 := by decide
  have hmax : maxOrdinal = 3652059 := by decide
  have hfirst : -62135596800000000 ≤ micros := h.1
  have hlast : micros ≤ 253402300799999999 := h.2
  rw [Moment.ofInstant?_eq, if_pos (by omega)]
  exact ⟨_, rfl⟩

/-- The reading in universal time. One that does not say its offset is taken to be such a reading. -/
def Moment.universal (m : Moment) : Moment :=
  match m.offset with
  | none => { m with offset := some 0 }
  | some _ => (Moment.ofInstant? m.instant).getD m

/-- Whole milliseconds of a moment. -/
def Moment.floored (m : Moment) : Moment :=
  { m with micro := m.micro / 1000 * 1000 }

/-- A universal reading is at the instant of the moment itself. -/
theorem Moment.universal_spec {m : Moment} (h : m.isValid) (hr : Representable m.instant) :
    m.universal.isValid ∧ m.universal.offset = some 0 ∧ m.universal.instant = m.instant := by
  cases hoffset : m.offset with
  | none =>
    obtain ⟨hdate, hhour, hminute, hsecond, hmicro, -⟩ := (Moment.isValid_iff m).mp h
    have huniversal : m.universal = { m with offset := some 0 } := by
      simp only [Moment.universal, hoffset]
    rw [huniversal]
    refine ⟨(Moment.isValid_iff _).mpr ⟨hdate, hhour, hminute, hsecond, hmicro, rfl⟩, rfl, ?_⟩
    simp only [Moment.instant, hoffset, Option.getD_none, Option.getD_some]
  | some offset =>
    obtain ⟨u, hu⟩ := Moment.ofInstant?_isSome hr
    have huniversal : m.universal = u := by
      simp only [Moment.universal, hoffset, hu, Option.getD_some]
    rw [huniversal]
    exact Moment.instant_ofInstant? hu

/-- It is the only one. -/
theorem Moment.universal_unique {m u : Moment} (h : m.isValid) (hr : Representable m.instant)
    (hu : u.isValid) (hoffset : u.offset = some 0) (hinstant : u.instant = m.instant) :
    u = m.universal := by
  obtain ⟨hv, hvo, hvi⟩ := Moment.universal_spec h hr
  have hread : some u = some m.universal := by
    rw [← Moment.ofInstant?_instant hu hoffset, ← Moment.ofInstant?_instant hv hvo, hinstant, hvi]
  exact Option.some.inj hread

example : Moment.universal ⟨⟨2020, 2, 29⟩, 0, 30, 0, 123456, some 3600⟩ =
    ⟨⟨2020, 2, 28⟩, 23, 30, 0, 123456, some 0⟩ := by
  decide

theorem Moment.floored_isValid {m : Moment} (h : m.isValid) : m.floored.isValid := by
  obtain ⟨hdate, hhour, hminute, hsecond, hmicro, hoffset⟩ := (Moment.isValid_iff m).mp h
  refine (Moment.isValid_iff _).mpr ⟨hdate, hhour, hminute, hsecond, ?_, hoffset⟩
  simp only [Moment.floored]
  omega

theorem Moment.floored_instant (m : Moment) : m.floored.instant = m.instant / 1000 * 1000 := by
  simp only [Moment.floored, Moment.instant]
  omega

/-- Milliseconds are read as the universal moment they were counted for. -/
theorem Moment.ofMillis?_millis {m : Moment} (h : m.isValid) (hr : Representable m.instant) :
    Moment.ofMillis? m.millis = some m.universal.floored ∧ m.universal.floored.millis = m.millis := by
  obtain ⟨hu, huo, hui⟩ := Moment.universal_spec h hr
  have hinstant : m.universal.floored.instant = m.millis * 1000 := by
    rw [Moment.floored_instant, hui, Moment.millis]
  constructor
  · rw [Moment.ofMillis?, ← hinstant]
    exact Moment.ofInstant?_instant (Moment.floored_isValid hu) huo
  · rw [Moment.millis, hinstant]
    omega

/-- Milliseconds of representable instants are counted again as they were. -/
theorem Moment.millis_ofMillis? {millis : Int} (h : Representable (millis * 1000)) :
    ∃ m, Moment.ofMillis? millis = some m ∧ m.millis = millis := by
  obtain ⟨m, hm⟩ := Moment.ofInstant?_isSome h
  obtain ⟨-, -, hinstant⟩ := Moment.instant_ofInstant? hm
  refine ⟨m, hm, ?_⟩
  rw [Moment.millis, hinstant]
  omega

theorem Date.midnight_isValid {d : Date} (h : d.isValid) : d.midnight.isValid :=
  (Moment.isValid_iff _).mpr ⟨h, by simp [Date.midnight], by simp [Date.midnight],
    by simp [Date.midnight], by simp [Date.midnight], rfl⟩

theorem Date.ofMillis?_midnight {d : Date} (h : d.isValid) :
    Moment.ofMillis? d.midnight.millis = some d.midnight := by
  have hinstant : d.midnight.millis * 1000 = d.midnight.instant := by
    simp only [Moment.millis, Moment.instant, Date.midnight]
    omega
  rw [Moment.ofMillis?, hinstant]
  exact Moment.ofInstant?_instant (Date.midnight_isValid h) rfl

end EngineHost.Calendar
