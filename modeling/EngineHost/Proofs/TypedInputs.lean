import Mathlib
import EngineHost.CommandLine.Param
import EngineHost.Proofs.JsonTexts

/-!
The inputs of the command line. A boolean in any letter case, a whole number in its decimal form, a text between
quotes and an array or object of JSON are each read as what they are: the readers that are tried before stop at the
first character. What none of the readers takes is a text of its own, with every character kept but the quotes
around it.
-/
namespace EngineHost.CommandLine.Param

open Text Decimal

/-! ### Names and blanks -/

/-- An input as it is typed: a name, an equals sign, and a text that may have blanks around it. -/
structure Line where
  name : String
  before : String
  after : String
  name_free : '=' ∉ name.toList
  before_blank : Blanks before.toList
  after_blank : Blanks after.toList

namespace Line

def typed (l : Line) (text : String) : String :=
  l.name ++ "=" ++ (l.before ++ text ++ l.after)

def key (l : Line) : String :=
  String.ofList (strip l.name.toList)

end Line

theorem splitName?_append {name : List Char} (h : '=' ∉ name) (value : List Char) :
    splitName? (name ++ '=' :: value) = some (name, value) := by
  induction name with
  | nil => rfl
  | cons c name ih =>
    have hc : c ≠ '=' := by
      rintro rfl
      simp at h
    have hname : '=' ∉ name := by
      intro hmem
      simp [hmem] at h
    rw [List.cons_append, splitName?, ih hname]
    · rfl
    · exact hc

theorem read_append {name value : String} {v : Value} (hname : '=' ∉ name.toList)
    (h : readValue (strip value.toList) = .ok v) :
    read (name ++ "=" ++ value) = .ok (String.ofList (strip name.toList), v) := by
  have hsplit : splitName? (name ++ "=" ++ value).toList = some (name.toList, value.toList) := by
    simpa using splitName?_append hname value.toList
  rw [read, hsplit]
  simp only [h]
  rfl

theorem read_append_error {name value : String} {failure : Failure} (hname : '=' ∉ name.toList)
    (h : readValue (strip value.toList) = .error failure) : read (name ++ "=" ++ value) = .error failure := by
  have hsplit : splitName? (name ++ "=" ++ value).toList = some (name.toList, value.toList) := by
    simpa using splitName?_append hname value.toList
  rw [read, hsplit]
  simp only [h]
  rfl

theorem Line.read_typed (l : Line) {text : String} {v : Value} (htext : Trimmed text.toList)
    (h : readValue text.toList = .ok v) : read (l.typed text) = .ok (l.key, v) := by
  have hstrip : strip (l.before ++ text ++ l.after).toList = text.toList := by
    simpa using strip_padded l.before_blank l.after_blank htext
  exact read_append l.name_free (by rw [hstrip]; exact h)

/-! ### Booleans -/

/-- The text spells the boolean, each letter in either case. -/
def Spells (s : List Char) (b : Bool) : Prop :=
  List.Forall₂ (fun c letter => c = letter ∨ c = letter.toUpper) s (if b then "true" else "false").toList

theorem toLower_eq_iff {c letter : Char} (h : letter.toLower = letter) :
    c.toLower = letter ↔ c = letter ∨ c = letter.toUpper := by
  constructor
  · intro hc
    by_cases hupper : c.isUpper
    · have hlower : ¬ c.isLower := by
        simp only [Char.isUpper, Char.isLower, Bool.and_eq_true, decide_eq_true_eq] at hupper ⊢
        intro hlower
        have hle := UInt32.le_trans hlower.1 hupper.2
        revert hle
        decide
      rw [← hc, Char.toUpper_toLower_eq_toUpper, Char.toUpper_eq_of_not_isLower (by simpa using hlower)]
      exact .inr rfl
    · rw [Char.toLower_eq_of_not_isUpper (by simpa using hupper)] at hc
      exact .inl hc
  · rintro (rfl | rfl)
    · exact h
    · rw [Char.toLower_toUpper_eq_toLower, h]

theorem forall₂_either_case {letters : List Char} (h : ∀ l ∈ letters, l.toLower = l) :
    ∀ s, List.Forall₂ (fun c letter => c = letter ∨ c = letter.toUpper) s letters ↔ lowerAscii s = letters := by
  induction letters with
  | nil => simp [lowerAscii]
  | cons l letters ih =>
    have hl : l.toLower = l := h l (by simp)
    have hletters := ih fun m hm => h m (by simp [hm])
    intro s
    cases s with
    | nil => simp [lowerAscii]
    | cons c s =>
      rw [List.forall₂_cons, hletters s]
      simp [lowerAscii, toLower_eq_iff hl]

theorem spells_iff {s : List Char} {b : Bool} : Spells s b ↔ lowerAscii s = (if b then "true" else "false").toList := by
  apply forall₂_either_case
  cases b <;> simp

theorem readBool?_eq_some_iff {s : List Char} {b : Bool} : readBool? s = some b ↔ Spells s b := by
  rw [spells_iff, ← String.ofList_inj, String.ofList_toList, readBool?]
  split
  · next heq => cases b <;> simp [heq]
  · next heq => cases b <;> simp [heq]
  · next htrue hfalse =>
    cases b
    · simpa using hfalse
    · simpa using htrue

/-- A boolean starts with one of its letters. -/
theorem Spells.head {c : Char} {s : List Char} {b : Bool} (h : Spells (c :: s) b) : c ∈ ['t', 'T', 'f', 'F'] := by
  cases b
  · simp [Spells] at h
    simp [h.1]
  · simp [Spells] at h
    rcases h.1 with rfl | rfl <;> simp

theorem readBool?_eq_none {c : Char} (hc : c ∉ ['t', 'T', 'f', 'F']) (s : List Char) : readBool? (c :: s) = none := by
  cases h : readBool? (c :: s) with
  | none => rfl
  | some b => exact absurd (readBool?_eq_some_iff.mp h).head hc

theorem not_blank_of_letter {c : Char} (h : c.toLower ∈ ['t', 'r', 'u', 'e', 'f', 'a', 'l', 's']) :
    isBlank c = false := by
  have hlower : c.toLower.toLower = c.toLower := Char.toLower_toLower_eq_toLower c
  have hblank : ∀ letter ∈ ['t', 'r', 'u', 'e', 'f', 'a', 'l', 's'],
      isBlank letter = false ∧ isBlank letter.toUpper = false := by
    intro letter hletter
    simp only [List.mem_cons, List.not_mem_nil, or_false] at hletter
    rcases hletter with rfl | rfl | rfl | rfl | rfl | rfl | rfl | rfl <;> decide
  rcases (toLower_eq_iff hlower).mp rfl with heq | heq
  · rw [heq]
    exact (hblank _ h).1
  · rw [heq]
    exact (hblank _ h).2

theorem Spells.trimmed {s : List Char} {b : Bool} (h : Spells s b) : Trimmed s := by
  apply trimmed_of_not_blank
  intro c hc
  have hmem : c.toLower ∈ lowerAscii s := List.mem_map_of_mem hc
  rw [spells_iff.mp h] at hmem
  apply not_blank_of_letter
  cases b
  · simp at hmem ⊢
    tauto
  · simp at hmem ⊢
    tauto

theorem not_blank_of_isDigit {c : Char} (h : Json.isDigit c = true) : isBlank c = false := by
  simp only [Json.isDigit, Bool.and_eq_true, decide_eq_true_eq, Char.le_def, UInt32.le_iff_toNat_le] at h
  have hlow : 48 ≤ c.toNat := h.1
  have hhigh : c.toNat ≤ 57 := h.2
  simp [isBlank, blankRanges]
  omega

/-! ### Texts that start with a mark -/

/-- A quote of either kind. -/
def IsQuote (c : Char) : Prop :=
  c = doubleQuote ∨ c = apostrophe

/-- What starts a text in quotes, an array or an object. -/
def marks : List Char :=
  [doubleQuote, apostrophe, '[', '\x7b']

/-- A character that is no blank and starts neither a boolean nor a number. -/
structure Apart (c : Char) : Prop where
  not_blank : isBlank c = false
  not_digit : digitValue? c = none
  not_sign : c ≠ '-' ∧ c ≠ '+' ∧ c ≠ '.'
  not_boolean : c ∉ ['t', 'T', 'f', 'F']
  not_float : c.toLower ∉ ['i', 'n']

theorem apart_of_mem_marks {c : Char} (hc : c ∈ marks) : Apart c := by
  simp only [marks, List.mem_cons, List.not_mem_nil, or_false] at hc
  rcases hc with rfl | rfl | rfl | rfl <;> constructor <;> decide

theorem Apart.takeDigits {c : Char} (h : Apart c) (s : List Char) : takeDigits (c :: s) = ([], c :: s) := by
  simp [Decimal.takeDigits, takeDigitsAfter, h.not_digit]

theorem Apart.takeSign {c : Char} (h : Apart c) (s : List Char) : takeSign (c :: s) = (false, c :: s) := by
  obtain ⟨hminus, hplus, -⟩ := h.not_sign
  exact takeSign_eq_self (by simpa using hminus) (by simpa using hplus)

theorem Apart.readInt? {c : Char} {s : List Char} (h : Apart c) (hs : Trimmed (c :: s)) :
    readInt? (c :: s) = none := by
  simp only [Decimal.readInt?, hs.strip_eq, h.takeSign, h.takeDigits]

theorem Apart.readDecimal? {c : Char} (h : Apart c) (negative : Bool) (s : List Char) :
    readDecimal? negative (c :: s) = none := by
  have hpoint : c ≠ '.' := h.not_sign.2.2
  simp [Decimal.readDecimal?, h.takeDigits, hpoint]

/-- A float starts with a digit, a sign, a point or the letter of its word. -/
theorem Apart.readFloat? {c : Char} {s : List Char} (h : Apart c) (hs : Trimmed (c :: s)) :
    readFloat? (c :: s) = none := by
  have hword : ∀ word : String, word ∈ ["inf", "infinity", "nan"] → String.ofList (lowerAscii (c :: s)) ≠ word := by
    intro word hword heq
    have hhead : (lowerAscii (c :: s)).head? = word.toList.head? := by
      rw [← heq, String.toList_ofList]
    have hnot := h.not_float
    simp only [List.mem_cons, List.not_mem_nil, or_false] at hword
    rcases hword with rfl | rfl | rfl <;> simp_all [lowerAscii]
  simp only [Decimal.readFloat?, hs.strip_eq, h.takeSign]
  split
  · next heq => exact absurd heq (hword _ (by simp))
  · next heq => exact absurd heq (hword _ (by simp))
  · next heq => exact absurd heq (hword _ (by simp))
  · exact h.readDecimal? false s

/-- A text that starts with a mark is data of JSON or a plain text. -/
theorem readValue_mark {c : Char} {s : List Char} (hc : c ∈ marks) (hs : Trimmed (c :: s)) :
    readValue (c :: s) = if startsData (c :: s) then readData (c :: s) else pure (plainText (c :: s)) := by
  have h := apart_of_mem_marks hc
  rw [readValue, readBool?_eq_none h.not_boolean, h.readInt? hs, h.readFloat? hs]

/-- What stays of a text: all of it, but for the quotes when it starts and ends with the same one. A lone quote
is both at once. -/
inductive Kept : List Char → List Char → Prop
  | lone {q : Char} (hq : IsQuote q) : Kept [q] []
  | quoted {q : Char} (hq : IsQuote q) (s : List Char) : Kept (q :: (s ++ [q])) s
  | whole {s : List Char} (h : ∀ q, IsQuote q → s.head? = some q → s.getLast? ≠ some q) : Kept s s

theorem beq_quote {q : Char} (hq : IsQuote q) : (q == doubleQuote || q == apostrophe) = true := by
  simpa [IsQuote] using hq

theorem unquote_quoted {q : Char} (hq : IsQuote q) (s : List Char) : unquote (q :: (s ++ [q])) = s := by
  have hlast : (q :: (s ++ [q])).getLast? = some q := by
    rw [← List.cons_append, List.getLast?_concat]
  simp [unquote, hlast, beq_quote hq]

theorem unquote_eq_self {s : List Char} (h : ∀ q, IsQuote q → s.head? = some q → s.getLast? ≠ some q) :
    unquote s = s := by
  rw [unquote]
  split
  · next a b ha hb =>
    split
    · next hquote =>
      simp only [Bool.and_eq_true, beq_iff_eq, Bool.or_eq_true] at hquote
      exact absurd (hquote.1 ▸ hb) (h a hquote.2 ha)
    · rfl
  · rfl

theorem kept_unquote (s : List Char) : Kept s (unquote s) := by
  by_cases h : ∀ q, IsQuote q → s.head? = some q → s.getLast? ≠ some q
  · rw [unquote_eq_self h]
    exact .whole h
  · push Not at h
    obtain ⟨q, hq, hhead, hlast⟩ := h
    obtain ⟨rest, rfl⟩ := List.head?_eq_some_iff.mp hhead
    rcases List.eq_nil_or_concat rest with rfl | ⟨front, d, rfl⟩
    · have hlone : unquote [q] = [] := by simp [unquote, beq_quote hq]
      rw [hlone]
      exact .lone hq
    · have hd : d = q := by
        simpa [List.getLast?_cons] using hlast
      rw [hd, List.concat_eq_append, unquote_quoted hq]
      exact .quoted hq front

/-! ### The readers -/

/-- The decimal form of a number starts with its sign or with a digit. -/
theorem toString_int_head (i : Int) :
    ∃ c rest, (toString i).toList = c :: rest ∧ c ∉ ['t', 'T', 'f', 'F'] := by
  obtain ⟨ds, hne, hlt, hdigits, -⟩ := exists_digits i.natAbs
  obtain ⟨d, more, rfl⟩ := List.exists_cons_of_ne_nil hne
  have hletter : ∀ d < 10, Nat.digitChar d ∉ ['t', 'T', 'f', 'F'] := by decide
  rw [toString_int, hdigits]
  by_cases hi : i < 0
  · exact ⟨'-', (d :: more).map Nat.digitChar, by simp [hi], by decide⟩
  · exact ⟨Nat.digitChar d, more.map Nat.digitChar, by simp [hi], hletter d (hlt d (by simp))⟩

theorem readValue_spells {s : List Char} {b : Bool} (h : Spells s b) : readValue s = .ok (.bool b) := by
  rw [readValue, readBool?_eq_some_iff.mpr h]
  rfl

theorem readValue_int (i : Int) (h : (toString i.natAbs).length ≤ maxDigits) :
    readValue (toString i).toList = .ok (.int i) := by
  have hbool : readBool? (toString i).toList = none := by
    obtain ⟨c, rest, hform, hc⟩ := toString_int_head i
    rw [hform]
    exact readBool?_eq_none hc rest
  rw [readValue, hbool, readInt?_toString i h]
  rfl

theorem mem_marks_of_isQuote {q : Char} (hq : IsQuote q) : q ∈ marks := by
  rcases hq with rfl | rfl <;> simp [marks]

theorem trimmed_quoted {q : Char} (hq : IsQuote q) (s : List Char) : Trimmed (q :: (s ++ [q])) := by
  have hblank := (apart_of_mem_marks (mem_marks_of_isQuote hq)).not_blank
  constructor
  · simpa using hblank
  · rw [← List.cons_append, List.getLast?_concat]
    simpa using hblank

theorem startsData_quote {q : Char} (hq : IsQuote q) (s : List Char) : startsData (q :: s) = false := by
  rcases hq with rfl | rfl <;> rfl

theorem readValue_quoted {q : Char} (hq : IsQuote q) (s : List Char) :
    readValue (q :: (s ++ [q])) = .ok (.str (String.ofList s)) := by
  rw [readValue_mark (mem_marks_of_isQuote hq) (trimmed_quoted hq s), startsData_quote hq, plainText,
    unquote_quoted hq]
  rfl

theorem trimmed_data {s : List Char} (h : Json.Data s) : Trimmed s := by
  obtain ⟨c, hc, front, rfl⟩ := h.closed
  constructor
  · intro d hd
    rcases h.head with hhead | hhead
    · cases hhead.symm.trans hd
      decide
    · cases hhead.symm.trans hd
      decide
  · intro d hd
    rw [List.getLast?_concat, Option.mem_some_iff] at hd
    subst hd
    rcases hc with rfl | rfl <;> decide

/-- Data of JSON is read as its own reader reads it. -/
theorem readValue_data {s : List Char} (h : Json.Data s) :
    ∃ v, Json.read (String.ofList s) = .ok v ∧ readValue s = .ok v := by
  obtain ⟨v, hv⟩ := Json.read_of_spelled h.spelled
  obtain ⟨c, rest, rfl, hc⟩ : ∃ c rest, s = c :: rest ∧ (c = '[' ∨ c = '\x7b') := by
    rcases h.head with hhead | hhead
    · obtain ⟨rest, rfl⟩ := List.head?_eq_some_iff.mp hhead
      exact ⟨_, rest, rfl, .inl rfl⟩
    · obtain ⟨rest, rfl⟩ := List.head?_eq_some_iff.mp hhead
      exact ⟨_, rest, rfl, .inr rfl⟩
  have hmark : c ∈ marks := by
    rcases hc with rfl | rfl <;> simp [marks]
  have hdata : startsData (c :: rest) = true := by
    rcases hc with rfl | rfl <;> rfl
  refine ⟨v, hv, ?_⟩
  rw [readValue_mark hmark (trimmed_data h), if_pos hdata, readData, hv]
  rfl

/-- A boolean, a whole number, a text in quotes and a text of JSON are read as themselves. -/
theorem typed_inputs (l : Line) :
    (∀ (text : String) (b : Bool), Spells text.toList b → read (l.typed text) = .ok (l.key, .bool b)) ∧
    (∀ i : Int, (toString i.natAbs).length ≤ maxDigits → read (l.typed (toString i)) = .ok (l.key, .int i)) ∧
    (∀ (q : Char) (s : String), IsQuote q →
      read (l.typed (String.singleton q ++ s ++ String.singleton q)) = .ok (l.key, .str s)) ∧
    ∀ text : String, Json.Data text.toList → ∃ v, Json.read text = .ok v ∧
      ((∃ items, v = .list items) ∨ ∃ entries, v = .mapping .plain entries) ∧
      read (l.typed text) = .ok (l.key, v) := by
  refine ⟨?_, ?_, ?_, ?_⟩
  · intro text b h
    exact l.read_typed h.trimmed (readValue_spells h)
  · intro i h
    exact l.read_typed (trimmed_of_not_blank (not_blank_toString i)) (readValue_int i h)
  · intro q s hq
    have hform : (String.singleton q ++ s ++ String.singleton q).toList = q :: (s.toList ++ [q]) := by simp
    have hread := readValue_quoted hq s.toList
    rw [String.ofList_toList, ← hform] at hread
    exact l.read_typed (hform ▸ trimmed_quoted hq s.toList) hread
  · intro text h
    obtain ⟨v, hv, hread⟩ := readValue_data h
    have hkind := Json.read_data h.head hv
    rw [String.ofList_toList] at hv
    exact ⟨v, hv, hkind, l.read_typed (trimmed_data h) hread⟩

theorem typed_inputs_padded :
    let l : Line := ⟨" x ", "\t", "\n", by decide, by simp [Blanks]; decide, by simp [Blanks]; decide⟩
    Spells "TRue".toList true ∧ read (l.typed "TRue") = .ok (l.key, .bool true) ∧
      (toString (-12 : Int).natAbs).length ≤ maxDigits ∧ read (l.typed (toString (-12 : Int))) = .ok (l.key, .int (-12)) ∧
      read (l.typed (String.singleton doubleQuote ++ " a=1" ++ String.singleton doubleQuote)) =
        .ok (l.key, .str " a=1") ∧
      Json.Data "[7]".toList ∧ ∃ v, read (l.typed "[7]") = .ok (l.key, v) := by
  intro l
  obtain ⟨hbool, hint, htext, hdata⟩ := typed_inputs l
  have hspells : Spells "TRue".toList true := by
    simp [Spells]
  have hlength : (toString (-12 : Int).natAbs).length ≤ maxDigits := by decide +kernel
  have hseven : Json.Data "[7]".toList := by
    have hdigits : Json.Digits ['7'] := ⟨by simp, by simp [Json.isDigit]⟩
    have hnumber : Json.Number ([] ++ (['7'] ++ ([] ++ []))) :=
      .of (.inl rfl) (.digits hdigits (by decide)) .none .none (by decide)
    have hnone : Json.Spaces [] := by simp [Json.Spaces]
    exact ⟨.array hnone (.lastItem (.number hnumber) hnone), .inl rfl⟩
  obtain ⟨v, -, -, hread⟩ := hdata "[7]" hseven
  exact ⟨hspells, hbool _ _ hspells, hlength, hint _ hlength, htext _ _ (.inl rfl), hseven, v, hread⟩

/-! ### Plain texts -/

/-- A text that none of the other readers takes. -/
structure Plain (s : List Char) : Prop where
  no_boolean : ∀ b, ¬ Spells s b
  no_int : readInt? s = none
  no_float : readFloat? s = none
  no_data : startsData s = true → ∀ v, Json.read (String.ofList s) ≠ .ok v

/-- A text that looks like data and has a number of too many digits before anything else is found wrong with it. -/
def Overlong (s : List Char) : Prop :=
  startsData s = true ∧ Json.read (String.ofList s) = .error .tooManyDigits

theorem Plain.readBool? {s : List Char} (h : Plain s) : readBool? s = none := by
  cases hbool : Param.readBool? s with
  | none => rfl
  | some b => exact absurd (readBool?_eq_some_iff.mp hbool) (h.no_boolean b)

theorem Plain.readValue {s : List Char} (h : Plain s) :
    readValue s = if startsData s then readData s else pure (plainText s) := by
  rw [Param.readValue, h.readBool?, h.no_int, h.no_float]

theorem Plain.readValue_overlong {s : List Char} (h : Plain s) (hlong : Overlong s) :
    Param.readValue s = .error (.shape .badContent) := by
  rw [h.readValue, if_pos hlong.1, readData, hlong.2]
  rfl

theorem Plain.readValue_plain {s : List Char} (h : Plain s) (hlong : ¬ Overlong s) :
    Param.readValue s = .ok (plainText s) := by
  rw [h.readValue]
  split
  · next hdata =>
    rw [readData]
    split
    · next v hv => exact absurd hv (h.no_data hdata v)
    · rfl
    · next herror => exact absurd ⟨hdata, herror⟩ hlong
  · rfl

/-- A text that starts with a mark is plain unless it is data. -/
theorem plain_of_mark {c : Char} (hc : c ∈ marks) {s : List Char} (hs : Trimmed (c :: s))
    (hdata : startsData (c :: s) = true → ∀ v, Json.read (String.ofList (c :: s)) ≠ .ok v) : Plain (c :: s) := by
  have hapart := apart_of_mem_marks hc
  constructor
  · intro b hspells
    exact hapart.not_boolean hspells.head
  · exact hapart.readInt? hs
  · exact hapart.readFloat? hs
  · exact hdata

theorem plain_of_isQuote {q : Char} (hq : IsQuote q) {s : List Char} (hs : Trimmed (q :: s)) :
    Plain (q :: s) ∧ ¬ Overlong (q :: s) := by
  have hdata := startsData_quote hq s
  constructor
  · exact plain_of_mark (mem_marks_of_isQuote hq) hs (by simp [hdata])
  · simp [Overlong, hdata]

/-- An unclosed array of one number is plain, and its number may be too long. -/
theorem overlong_of_digits {ds : List Char} (h : Json.Digits ds) (hzero : ds.head? ≠ some '0')
    (hlong : maxDigits < ds.length) : Plain ('[' :: ds) ∧ Overlong ('[' :: ds) := by
  have hread : Json.read (String.ofList ('[' :: (ds ++ []))) = .error .tooManyDigits :=
    Json.read_overlong h hzero hlong (by simp [Json.Ended])
  rw [List.append_nil] at hread
  have hs : Trimmed ('[' :: ds) := by
    apply trimmed_of_not_blank
    intro c hc
    rcases List.mem_cons.mp hc with rfl | hc
    · decide
    · exact not_blank_of_isDigit (h.all c hc)
  refine ⟨plain_of_mark (by simp [marks]) hs ?_, rfl, hread⟩
  intro _ v hv
  rw [hread] at hv
  cases hv

/-- A plain text is kept as it is but for the quotes around it, a lone quote included. The exception is what looks
like data and has a number that is too long: the fault of this number is reported. -/
theorem plain_inputs {name value : String} (hname : '=' ∉ name.toList) (h : Plain (strip value.toList)) :
    (Overlong (strip value.toList) → read (name ++ "=" ++ value) = .error (.shape .badContent)) ∧
    (¬ Overlong (strip value.toList) → ∃ kept, Kept (strip value.toList) kept ∧
      read (name ++ "=" ++ value) = .ok (String.ofList (strip name.toList), .str (String.ofList kept))) := by
  constructor
  · intro hlong
    exact read_append_error hname (h.readValue_overlong hlong)
  · intro hlong
    exact ⟨_, kept_unquote _, read_append hname (h.readValue_plain hlong)⟩

theorem plain_inputs_unbalanced :
    '=' ∉ "a".toList ∧ Plain (strip " \"x".toList) ∧ ¬ Overlong (strip " \"x".toList) ∧
      ∃ kept, Kept (strip " \"x".toList) kept ∧
        read ("a" ++ "=" ++ " \"x") = .ok (String.ofList (strip "a".toList), .str (String.ofList kept)) := by
  have hname : '=' ∉ "a".toList := by decide
  have hstrip : strip " \"x".toList = [doubleQuote, 'x'] := by decide
  have hs : Trimmed [doubleQuote, 'x'] := by
    apply trimmed_of_not_blank
    simp
    decide
  obtain ⟨hplain, hlong⟩ := plain_of_isQuote (.inl rfl) hs
  rw [← hstrip] at hplain hlong
  exact ⟨hname, hplain, hlong, (plain_inputs hname hplain).2 hlong⟩

/-- A lone quote is not kept. -/
theorem lone_quote_dropped :
    ¬ ∀ name value : String, '=' ∉ name.toList → Plain (strip value.toList) →
      (∀ q s, IsQuote q → strip value.toList ≠ q :: (s ++ [q])) →
      read (name ++ "=" ++ value) =
        .ok (String.ofList (strip name.toList), .str (String.ofList (strip value.toList))) := by
  intro h
  have hname : '=' ∉ "a".toList := by decide
  have hstrip : strip "\"".toList = [doubleQuote] := by decide
  have hs : Trimmed [doubleQuote] := by
    apply trimmed_of_not_blank
    simp
    decide
  have hpair : ∀ q s, IsQuote q → strip "\"".toList ≠ q :: (s ++ [q]) := by
    intro q s hq heq
    have hlength := congrArg List.length (hstrip.symm.trans heq)
    simp at hlength
  have hempty : unquote [doubleQuote] = [] := by decide
  obtain ⟨hplain, hlong⟩ := plain_of_isQuote (.inl rfl) hs
  rw [← hstrip] at hplain hlong
  have hread := read_append hname (hplain.readValue_plain hlong)
  rw [h "a" "\"" hname hplain hpair, hstrip, plainText, hempty] at hread
  simp at hread

end EngineHost.CommandLine.Param
