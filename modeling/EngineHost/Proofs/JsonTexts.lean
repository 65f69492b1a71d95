import Mathlib
import EngineHost.Json.Reader
import EngineHost.Proofs.Numerals

/-!
The texts of JSON, and that each of them is read. A text of a value may be followed by anything that cannot
continue a number. The fuel of the reader is twice the length of what is read, because an item of an array costs
two steps and takes at least the item and the mark after it.
-/
namespace EngineHost.Json

open Decimal Text

def Spaces (s : List Char) : Prop :=
  ∀ c ∈ s, isSpace c = true

/-- One digit at least, and digits only. -/
structure Digits (ds : List Char) : Prop where
  ne_nil : ds ≠ []
  all : ∀ c ∈ ds, isDigit c = true

/-- The digits before the point. A zero at their front stands alone. -/
inductive Whole : List Char → Prop
  | zero : Whole ['0']
  | digits {ds : List Char} (digits : Digits ds) (h : ds.head? ≠ some '0') : Whole ds

inductive Fraction : List Char → Prop
  | none : Fraction []
  | digits {ds : List Char} (digits : Digits ds) : Fraction ('.' :: ds)

inductive Exponent : List Char → Prop
  | none : Exponent []
  | digits {e : Char} {sign ds : List Char} (he : e = 'e' ∨ e = 'E')
      (hsign : sign = [] ∨ sign = ['+'] ∨ sign = ['-']) (digits : Digits ds) : Exponent (e :: (sign ++ ds))

/-- A whole number has no more digits than are read. -/
inductive Number : List Char → Prop
  | of {sign whole fraction exponent : List Char} (hsign : sign = [] ∨ sign = ['-']) (hwhole : Whole whole)
      (hfraction : Fraction fraction) (hexponent : Exponent exponent)
      (hdigits : fraction = [] → exponent = [] → whole.length ≤ maxDigits) :
    Number (sign ++ (whole ++ (fraction ++ exponent)))

/-- The characters of a text up to its closing quote. -/
inductive Quoted : List Char → Prop
  | close : Quoted ['"']
  | plain {c : Char} {s : List Char} (hcontrol : 0x20 ≤ c.toNat) (hquote : c ≠ '"') (hescape : c ≠ '\\')
      (h : Quoted s) : Quoted (c :: s)
  | escape {e : Char} {s : List Char} (he : (simpleEscape? e).isSome) (h : Quoted s) : Quoted ('\\' :: e :: s)
  | code {a b c d : Char} {s : List Char} (hcode : (hexUnit? a b c d).isSome) (h : Quoted s) :
    Quoted ('\\' :: 'u' :: a :: b :: c :: d :: s)

/-- What a text spells: a value, the items of an array up to its bracket, the members of an object up to its
brace. -/
inductive Part
  | value
  | items
  | members

inductive Spelled : Part → List Char → Prop
  | word {word : String} {v : Value} (h : (word, v) ∈ words) : Spelled .value word.toList
  | number {s : List Char} (h : Number s) : Spelled .value s
  | text {s : List Char} (h : Quoted s) : Spelled .value ('"' :: s)
  | emptyArray {space : List Char} (hspace : Spaces space) : Spelled .value ('[' :: (space ++ [']']))
  | array {space s : List Char} (hspace : Spaces space) (h : Spelled .items s) :
    Spelled .value ('[' :: (space ++ s))
  | emptyObject {space : List Char} (hspace : Spaces space) : Spelled .value ('\x7b' :: (space ++ ['\x7d']))
  | object {space s : List Char} (hspace : Spaces space) (h : Spelled .members s) :
    Spelled .value ('\x7b' :: (space ++ s))
  | lastItem {s space : List Char} (h : Spelled .value s) (hspace : Spaces space) :
    Spelled .items (s ++ (space ++ [']']))
  | item {s space space' more : List Char} (h : Spelled .value s) (hspace : Spaces space)
      (hspace' : Spaces space') (hmore : Spelled .items more) :
    Spelled .items (s ++ (space ++ ',' :: (space' ++ more)))
  | lastMember {key space space' s space'' : List Char} (hkey : Quoted key) (hspace : Spaces space)
      (hspace' : Spaces space') (h : Spelled .value s) (hspace'' : Spaces space'') :
    Spelled .members ('"' :: (key ++ (space ++ ':' :: (space' ++ (s ++ (space'' ++ ['\x7d']))))))
  | member {key space space' s space'' space₃ more : List Char} (hkey : Quoted key) (hspace : Spaces space)
      (hspace' : Spaces space') (h : Spelled .value s) (hspace'' : Spaces space'') (hspace₃ : Spaces space₃)
      (hmore : Spelled .members more) :
    Spelled .members ('"' :: (key ++ (space ++ ':' :: (space' ++ (s ++ (space'' ++ ',' :: (space₃ ++ more)))))))

/-- What may follow a value. -/
def Ended (rest : List Char) : Prop :=
  ∀ c ∈ rest.head?, isSpace c = true ∨ c = ',' ∨ c = ']' ∨ c = '\x7d'

theorem Ended.ne {rest : List Char} {c : Char} (h : Ended rest) (hspace : isSpace c = false)
    (hmark : c ≠ ',' ∧ c ≠ ']' ∧ c ≠ '\x7d') : rest.head? ≠ some c := by
  intro heq
  rcases h c heq with hc | hc | hc | hc
  · simp [hspace] at hc
  · exact hmark.1 hc
  · exact hmark.2.1 hc
  · exact hmark.2.2 hc

theorem not_isDigit_of_isSpace {c : Char} (h : isSpace c = true) : isDigit c = false := by
  simp only [isSpace, Bool.or_eq_true, beq_iff_eq] at h
  rcases h with ((rfl | rfl) | rfl) | rfl <;> decide

theorem Ended.not_isDigit {rest : List Char} (h : Ended rest) : ∀ c ∈ rest.head?, isDigit c = false := by
  intro c hc
  rcases h c hc with hspace | rfl | rfl | rfl
  · exact not_isDigit_of_isSpace hspace
  all_goals decide

/-- Spaces and then a mark end a value. -/
theorem ended_spaces {space rest : List Char} {c : Char} (hspace : Spaces space)
    (hc : c = ',' ∨ c = ']' ∨ c = '\x7d') : Ended (space ++ c :: rest) := by
  intro d hd
  cases space with
  | nil =>
    simp only [List.nil_append, List.head?_cons, Option.mem_some_iff] at hd
    exact .inr (hd ▸ hc)
  | cons e space =>
    simp only [List.cons_append, List.head?_cons, Option.mem_some_iff] at hd
    exact .inl (hd ▸ hspace e (by simp))

theorem skipSpace_spaces {space rest : List Char} (hspace : Spaces space)
    (hrest : ∀ c ∈ rest.head?, isSpace c = false) : skipSpace (space ++ rest) = rest :=
  dropWhile_span hspace hrest

/-! ### Numbers -/

theorem Digits.head {ds : List Char} (h : Digits ds) : ∃ d rest, ds = d :: rest ∧ isDigit d = true := by
  obtain ⟨d, rest, rfl⟩ := List.exists_cons_of_ne_nil h.ne_nil
  exact ⟨d, rest, rfl, h.all d (by simp)⟩

theorem Digits.ne {ds : List Char} {c : Char} (h : Digits ds) (hc : isDigit c = false) (rest : List Char) :
    (ds ++ rest).head? ≠ some c := by
  obtain ⟨d, more, rfl, hd⟩ := h.head
  intro heq
  have hdc : d = c := by simpa using heq
  rw [hdc, hc] at hd
  cases hd

theorem Digits.span {ds rest : List Char} (h : Digits ds) (hrest : ∀ c ∈ rest.head?, isDigit c = false) :
    spanDigits (ds ++ rest) = (ds, rest) := by
  rw [spanDigits, takeWhile_span h.all hrest, dropWhile_span h.all hrest]

theorem Exponent.not_isDigit {exponent rest : List Char} (h : Exponent exponent) (hrest : Ended rest) :
    ∀ c ∈ (exponent ++ rest).head?, isDigit c = false ∧ c ≠ '.' := by
  intro c hc
  cases h with
  | none =>
    have hpoint : c ≠ '.' := by
      rintro rfl
      exact hrest.ne rfl (by decide) hc
    exact ⟨hrest.not_isDigit c hc, hpoint⟩
  | digits he hsign digits =>
    simp only [List.cons_append, List.head?_cons, Option.mem_some_iff] at hc
    subst hc
    rcases he with rfl | rfl <;> decide

theorem readExponent_ended {rest : List Char} (hrest : Ended rest) : readExponent rest = (none, rest) := by
  cases rest with
  | nil => rfl
  | cons c rest =>
    have hlower : c ≠ 'e' := fun h => hrest.ne (c := 'e') rfl (by decide) (by simp [h])
    have hupper : c ≠ 'E' := fun h => hrest.ne (c := 'E') rfl (by decide) (by simp [h])
    simp [readExponent, hlower, hupper]

theorem readExponent_append {exponent rest : List Char} (h : Exponent exponent) (hrest : Ended rest) :
    ∃ e, readExponent (exponent ++ rest) = (e, rest) ∧ (e = none → exponent = []) := by
  cases h with
  | none => exact ⟨none, readExponent_ended hrest, fun _ => rfl⟩
  | @digits e sign ds he hsign digits =>
    have hmark : (e == 'e' || e == 'E') = true := by simpa using he
    have hempty : ds.isEmpty = false := by simpa using digits.ne_nil
    have htake : ∃ negative, takeSign (sign ++ ds ++ rest) = (negative, ds ++ rest) := by
      rcases hsign with rfl | rfl | rfl
      · exact ⟨false, takeSign_eq_self (digits.ne rfl rest) (digits.ne rfl rest)⟩
      · exact ⟨false, rfl⟩
      · exact ⟨true, rfl⟩
    obtain ⟨negative, htake⟩ := htake
    refine ⟨some (signedInt negative (digitsValue ds)), ?_, by simp⟩
    rw [List.cons_append, readExponent, if_pos hmark]
    simp only [htake, digits.span hrest.not_isDigit, hempty]
    rfl

theorem readFraction_eq_nil {rest : List Char} (hrest : rest.head? ≠ some '.') : readFraction rest = ([], rest) := by
  rw [readFraction.eq_def]
  split
  · exact absurd rfl hrest
  · rfl

theorem readFraction_append {fraction rest : List Char} (h : Fraction fraction)
    (hrest : ∀ c ∈ rest.head?, isDigit c = false ∧ c ≠ '.') :
    ∃ ds, readFraction (fraction ++ rest) = (ds, rest) ∧ (ds = [] → fraction = []) := by
  cases h with
  | none =>
    have hpoint : rest.head? ≠ some '.' := fun h => (hrest '.' h).2 rfl
    exact ⟨[], readFraction_eq_nil hpoint, fun _ => rfl⟩
  | @digits ds digits =>
    have hempty : ds.isEmpty = false := by simpa using digits.ne_nil
    refine ⟨ds, ?_, fun h => absurd h digits.ne_nil⟩
    rw [List.cons_append, readFraction]
    simp only [digits.span fun c hc => (hrest c hc).1, hempty]
    rfl

theorem Whole.take {whole rest : List Char} (h : Whole whole) (hrest : ∀ c ∈ rest.head?, isDigit c = false) :
    takeWhole (whole ++ rest) = (whole, rest) := by
  cases h with
  | zero => rfl
  | digits digits hzero =>
    obtain ⟨d, more, rfl, hd⟩ := digits.head
    have hne : d ≠ '0' := by simpa using hzero
    rw [takeWhole.eq_def]
    split
    · next heq =>
      simp only [List.cons_append, List.cons.injEq] at heq
      exact absurd heq.1 hne
    · exact digits.span hrest

theorem Whole.head {whole : List Char} (h : Whole whole) : ∃ d rest, whole = d :: rest ∧ isDigit d = true := by
  cases h with
  | zero => exact ⟨'0', [], rfl, rfl⟩
  | digits digits hzero => exact digits.head

theorem readUnsigned_append {whole fraction exponent rest : List Char} (negative : Bool) (hwhole : Whole whole)
    (hfraction : Fraction fraction) (hexponent : Exponent exponent)
    (hdigits : fraction = [] → exponent = [] → whole.length ≤ maxDigits) (hrest : Ended rest) :
    ∃ v, readUnsigned negative (whole ++ (fraction ++ (exponent ++ rest))) = .ok (v, rest) := by
  have hafter := hexponent.not_isDigit hrest
  obtain ⟨ds, hpart, hds⟩ := readFraction_append hfraction hafter
  obtain ⟨e, hpower, he⟩ := readExponent_append hexponent hrest
  have hpoint : ∀ c ∈ (fraction ++ (exponent ++ rest)).head?, isDigit c = false := by
    intro c hc
    cases hfraction with
    | none => exact (hafter c hc).1
    | digits digits =>
      simp only [List.cons_append, List.head?_cons, Option.mem_some_iff] at hc
      subst hc
      rfl
  have hempty : whole.isEmpty = false := by
    obtain ⟨d, more, rfl, -⟩ := hwhole.head
    rfl
  rw [readUnsigned]
  simp only [hwhole.take hpoint, hempty, hpart, hpower, Bool.false_eq_true, if_false]
  split
  · next hbare =>
    simp only [Bool.and_eq_true, List.isEmpty_iff, Option.isNone_iff_eq_none] at hbare
    rw [if_pos (hdigits (hds hbare.1) (he hbare.2))]
    exact ⟨_, rfl⟩
  · exact ⟨_, rfl⟩

/-- A number starts with a digit or with a minus before a digit. -/
theorem Number.cases {s : List Char} (h : Number s) :
    ∃ d rest, isDigit d = true ∧ (s = d :: rest ∨ s = '-' :: d :: rest) := by
  cases h with
  | of hsign hwhole hfraction hexponent hdigits =>
    obtain ⟨d, more, rfl, hd⟩ := hwhole.head
    rcases hsign with rfl | rfl
    · exact ⟨d, _, hd, .inl rfl⟩
    · exact ⟨d, _, hd, .inr rfl⟩

theorem readNumber_eq_readUnsigned {s : List Char} (h : s.head? ≠ some '-') : readNumber s = readUnsigned false s := by
  rw [readNumber.eq_def]
  split
  · exact absurd rfl h
  · rfl

theorem readNumber_append {s rest : List Char} (h : Number s) (hrest : Ended rest) :
    ∃ v, readNumber (s ++ rest) = .ok (v, rest) := by
  cases h with
  | @of sign whole fraction exponent hsign hwhole hfraction hexponent hdigits =>
    rcases hsign with rfl | rfl
    · have hminus : (whole ++ (fraction ++ (exponent ++ rest))).head? ≠ some '-' := by
        cases hwhole with
        | zero => simp
        | digits digits hzero => exact digits.ne rfl _
      simp only [List.nil_append, List.append_assoc, readNumber_eq_readUnsigned hminus]
      exact readUnsigned_append false hwhole hfraction hexponent hdigits hrest
    · simp only [List.append_assoc, List.cons_append, readNumber]
      exact readUnsigned_append true hwhole hfraction hexponent hdigits hrest

/-- No word starts like a number. -/
theorem readWord?_digit {d : Char} (hd : isDigit d = true) (s : List Char) :
    readWord? (d :: s) = none ∧ readWord? ('-' :: d :: s) = none := by
  have hne : ∀ c, isDigit c = false → c ≠ d := by
    rintro c hc rfl
    rw [hd] at hc
    cases hc
  have hn := hne 'n' rfl
  have ht := hne 't' rfl
  have hf := hne 'f' rfl
  have hN := hne 'N' rfl
  have hI := hne 'I' rfl
  have hminus := hne '-' rfl
  constructor
  · simp [readWord?, words, hn, ht, hf, hN, hI, hminus]
  · simp [readWord?, words, hI]

theorem readWord?_number {s : List Char} (h : Number s) (rest : List Char) : readWord? (s ++ rest) = none := by
  obtain ⟨d, more, hd, rfl | rfl⟩ := h.cases
  · exact (readWord?_digit hd (more ++ rest)).1
  · exact (readWord?_digit hd (more ++ rest)).2

theorem readScalar_number {s rest : List Char} (h : Number s) (hrest : Ended rest) :
    ∃ v, readScalar (s ++ rest) = .ok (v, rest) := by
  rw [readScalar, readWord?_number h rest]
  exact readNumber_append h hrest

/-- The words differ in their first characters. -/
theorem words_head_nodup : (words.map fun e => e.1.toList.head?).Nodup := by
  simp [words]

theorem words_head : ∀ e ∈ words, ∃ c rest, e.1.toList = c :: rest ∧ c ∈ ['n', 't', 'f', 'N', 'I', '-'] := by
  simp [words]

theorem readWord?_word {word : String} {v : Value} (h : (word, v) ∈ words) (rest : List Char) :
    readWord? (word.toList ++ rest) = some (v, rest) := by
  have honly : ∀ e ∈ words, e.1.toList.isPrefixOf (word.toList ++ rest) → e = (word, v) := by
    intro e he hfront
    apply List.inj_on_of_nodup_map words_head_nodup he h
    obtain ⟨c, more, hc, -⟩ := words_head e he
    obtain ⟨d, more', hd, -⟩ := words_head _ h
    dsimp only at hd
    rw [hc, hd, List.isPrefixOf_iff_prefix, List.cons_append, List.cons_prefix_cons] at hfront
    rw [hc, hd, hfront.1]
    rfl
  have hdrop : (word.toList ++ rest).drop word.length = rest := by
    rw [← String.length_toList, List.drop_left]
  have hfind : readWord? (word.toList ++ rest) ≠ none := by
    rw [readWord?, Ne, List.findSome?_eq_none_iff, not_forall]
    exact ⟨(word, v), by simp [h]⟩
  obtain ⟨found, hfound⟩ := Option.ne_none_iff_exists'.mp hfind
  obtain ⟨e, he, hresult⟩ := List.exists_of_findSome?_eq_some hfound
  dsimp only at hresult
  split at hresult
  · next hfront =>
    have heq := honly e he hfront
    subst heq
    rw [hfound, ← hresult, hdrop]
  · cases hresult

theorem readScalar_word {word : String} {v : Value} (h : (word, v) ∈ words) (rest : List Char) :
    readScalar (word.toList ++ rest) = .ok (v, rest) := by
  rw [readScalar, readWord?_word h rest]

/-! ### Texts -/

theorem readText_append {s : List Char} (h : Quoted s) (rest : List Char) :
    ∀ acc, ∃ v, readText acc (s ++ rest) = .ok (v, rest) := by
  induction h with
  | close =>
    intro acc
    exact ⟨.ofLetters (Letter.joinHalves acc.reverse), by simp [readText]⟩
  | @plain c s hcontrol hquote hescape h ih =>
    intro acc
    obtain ⟨v, hv⟩ := ih (.char c :: acc)
    refine ⟨v, ?_⟩
    have hlow : ¬ c.toNat < 0x20 := by omega
    rw [List.cons_append, readText]
    · simp [hlow, hescape, hv]
    · exact hquote
    · intro _ _ _ _ _ heq
      exact absurd heq hescape
    · intro _ _ heq
      exact absurd heq hescape
  | @escape e s he h ih =>
    intro acc
    obtain ⟨c, hc⟩ := Option.isSome_iff_exists.mp he
    obtain ⟨v, hv⟩ := ih (.char c :: acc)
    have hu : e ≠ 'u' := by
      rintro rfl
      cases hc
    exact ⟨v, by simp [readText, hu, hc, hv]⟩
  | @code a b c d s hcode h ih =>
    intro acc
    obtain ⟨n, hn⟩ := Option.isSome_iff_exists.mp hcode
    obtain ⟨v, hv⟩ := ih (.ofCode n :: acc)
    exact ⟨v, by simp [readText, hn, hv]⟩

/-! ### Values -/

/-- What starts a value or a member is neither a space nor a closing mark. -/
structure Opening (c : Char) : Prop where
  not_space : isSpace c = false
  ne_bracket : c ≠ ']'
  ne_brace : c ≠ '\x7d'

/-- What starts a word or a number starts neither a text nor an array nor an object. -/
structure ScalarHead (c : Char) : Prop extends Opening c where
  ne_quote : c ≠ '"'
  ne_openBracket : c ≠ '['
  ne_openBrace : c ≠ '\x7b'

theorem ScalarHead.of_isDigit {c : Char} (h : isDigit c = true) : ScalarHead c := by
  have hne : ∀ d, isDigit d = false → c ≠ d := by
    rintro d hd rfl
    rw [h] at hd
    cases hd
  have hspace : isSpace c = false := by
    rw [Bool.eq_false_iff]
    intro hspace
    rw [not_isDigit_of_isSpace hspace] at h
    cases h
  exact ⟨⟨hspace, hne _ rfl, hne _ rfl⟩, hne _ rfl, hne _ rfl, hne _ rfl⟩

theorem ScalarHead.of_word {word : String} {v : Value} (h : (word, v) ∈ words) :
    ∃ c rest, word.toList = c :: rest ∧ ScalarHead c := by
  obtain ⟨c, rest, hword, hc⟩ := words_head _ h
  refine ⟨c, rest, hword, ?_⟩
  simp only [List.mem_cons, List.not_mem_nil, or_false] at hc
  rcases hc with rfl | rfl | rfl | rfl | rfl | rfl <;> exact ⟨⟨rfl, by decide, by decide⟩, by decide, by decide, by decide⟩

theorem ScalarHead.of_number {s : List Char} (h : Number s) : ∃ c rest, s = c :: rest ∧ ScalarHead c := by
  obtain ⟨d, rest, hd, rfl | rfl⟩ := h.cases
  · exact ⟨d, rest, rfl, .of_isDigit hd⟩
  · exact ⟨'-', d :: rest, rfl, ⟨⟨rfl, by decide, by decide⟩, by decide, by decide, by decide⟩⟩

theorem Spelled.head {part : Part} {s : List Char} (h : Spelled part s) : ∃ c rest, s = c :: rest ∧ Opening c := by
  induction h with
  | word h =>
    obtain ⟨c, rest, hword, hc⟩ := ScalarHead.of_word h
    exact ⟨c, rest, hword, hc.toOpening⟩
  | number h =>
    obtain ⟨c, rest, hs, hc⟩ := ScalarHead.of_number h
    exact ⟨c, rest, hs, hc.toOpening⟩
  | text | lastMember | member => exact ⟨'"', _, rfl, rfl, by decide, by decide⟩
  | emptyArray | array => exact ⟨'[', _, rfl, rfl, by decide, by decide⟩
  | emptyObject | object => exact ⟨'\x7b', _, rfl, rfl, by decide, by decide⟩
  | lastItem h hspace ih =>
    obtain ⟨c, rest, rfl, hc⟩ := ih
    exact ⟨c, _, rfl, hc⟩
  | item h hspace hspace' hmore ih =>
    obtain ⟨c, rest, rfl, hc⟩ := ih
    exact ⟨c, _, rfl, hc⟩

theorem Spelled.skipSpace {part : Part} {space s : List Char} (h : Spelled part s) (hspace : Spaces space)
    (rest : List Char) : skipSpace (space ++ (s ++ rest)) = s ++ rest := by
  obtain ⟨c, more, rfl, hc⟩ := h.head
  apply skipSpace_spaces hspace
  intro d hd
  have hcd : c = d := by simpa using hd
  exact hcd ▸ hc.not_space

theorem Spelled.not_closed {part : Part} {s : List Char} (h : Spelled part s) (rest more : List Char) :
    s ++ rest ≠ ']' :: more ∧ s ++ rest ≠ '\x7d' :: more := by
  obtain ⟨c, t, rfl, hc⟩ := h.head
  constructor
  · intro heq
    exact hc.ne_bracket (List.cons.inj heq).1
  · intro heq
    exact hc.ne_brace (List.cons.inj heq).1

/-- A mark after spaces. -/
theorem skipSpace_mark {space : List Char} {c : Char} (hspace : Spaces space) (hc : isSpace c = false)
    (rest : List Char) : Json.skipSpace (space ++ c :: rest) = c :: rest := by
  apply skipSpace_spaces hspace
  intro d hd
  have hcd : c = d := by simpa using hd
  exact hcd ▸ hc

/-- What the reader does with a part of a text, whatever follows. -/
def Reads : Part → List Char → Prop
  | .value, s => ∀ rest, Ended rest → ∀ fuel, 2 * s.length ≤ fuel →
    ∃ v, readValue fuel (s ++ rest) = .ok (v, rest)
  | .items, s => ∀ rest fuel, 2 * s.length ≤ fuel + 1 → ∃ items, readItems fuel (s ++ rest) = .ok (items, rest)
  | .members, s => ∀ rest fuel, 2 * s.length ≤ fuel + 1 →
    ∃ entries, readMembers fuel (s ++ rest) = .ok (entries, rest)

theorem readValue_scalar {c : Char} (h : ScalarHead c) (fuel : Nat) (rest : List Char) :
    readValue (fuel + 1) (c :: rest) = readScalar (c :: rest) := by
  rw [readValue.eq_def]
  split
  · simp_all
  · split
    · simp_all [h.ne_quote]
    · simp_all [h.ne_openBracket]
    · simp_all [h.ne_openBrace]
    · simp_all

theorem succ_of_length {s : List Char} {fuel : Nat} (hs : s ≠ []) (h : 2 * s.length ≤ fuel + 1) :
    ∃ f, fuel = f + 1 := by
  have hlength := List.length_pos_of_ne_nil hs
  exact ⟨fuel - 1, by omega⟩

theorem Spelled.reads {part : Part} {s : List Char} (h : Spelled part s) : Reads part s := by
  induction h with
  | @word word v h =>
    intro rest hrest fuel hfuel
    obtain ⟨c, more, hword, hc⟩ := ScalarHead.of_word h
    have hread := readScalar_word h rest
    rw [hword] at hread hfuel ⊢
    obtain ⟨fuel, rfl⟩ := succ_of_length (by simp) (Nat.le_succ_of_le hfuel)
    rw [List.cons_append, readValue_scalar hc]
    exact ⟨v, hread⟩
  | number h =>
    intro rest hrest fuel hfuel
    obtain ⟨v, hread⟩ := readScalar_number h hrest
    obtain ⟨c, more, rfl, hc⟩ := ScalarHead.of_number h
    obtain ⟨fuel, rfl⟩ := succ_of_length (by simp) (Nat.le_succ_of_le hfuel)
    rw [List.cons_append, readValue_scalar hc]
    exact ⟨v, hread⟩
  | text h =>
    intro rest hrest fuel hfuel
    obtain ⟨fuel, rfl⟩ := succ_of_length (by simp) (Nat.le_succ_of_le hfuel)
    obtain ⟨v, hread⟩ := readText_append h rest []
    rw [List.cons_append, readValue]
    exact ⟨v, hread⟩
  | emptyArray hspace =>
    intro rest hrest fuel hfuel
    obtain ⟨fuel, rfl⟩ := succ_of_length (by simp) (Nat.le_succ_of_le hfuel)
    rw [List.cons_append, List.append_assoc, readValue, List.singleton_append, skipSpace_mark hspace rfl]
    exact ⟨_, rfl⟩
  | array hspace h ih =>
    intro rest hrest fuel hfuel
    obtain ⟨fuel, rfl⟩ := succ_of_length (by simp) (Nat.le_succ_of_le hfuel)
    simp only [List.length_cons, List.length_append] at hfuel
    obtain ⟨items, hitems⟩ := ih rest fuel (by omega)
    refine ⟨.list items, ?_⟩
    rw [List.cons_append, List.append_assoc, readValue, h.skipSpace hspace rest]
    split
    · next heq => exact absurd heq (h.not_closed rest _).1
    · rw [hitems]
      rfl
  | emptyObject hspace =>
    intro rest hrest fuel hfuel
    obtain ⟨fuel, rfl⟩ := succ_of_length (by simp) (Nat.le_succ_of_le hfuel)
    rw [List.cons_append, List.append_assoc, readValue, List.singleton_append, skipSpace_mark hspace rfl]
    exact ⟨_, rfl⟩
  | object hspace h ih =>
    intro rest hrest fuel hfuel
    obtain ⟨fuel, rfl⟩ := succ_of_length (by simp) (Nat.le_succ_of_le hfuel)
    simp only [List.length_cons, List.length_append] at hfuel
    obtain ⟨entries, hentries⟩ := ih rest fuel (by omega)
    refine ⟨.mapping .plain (Value.collectEntries entries), ?_⟩
    rw [List.cons_append, List.append_assoc, readValue, h.skipSpace hspace rest]
    split
    · next heq => exact absurd heq (h.not_closed rest _).2
    · rw [hentries]
      rfl
  | @lastItem s space h hspace ih =>
    intro rest fuel hfuel
    obtain ⟨fuel, rfl⟩ := succ_of_length (by simp) hfuel
    simp only [List.length_cons, List.length_append, List.length_nil] at hfuel
    have hended : Ended (space ++ ']' :: rest) := ended_spaces hspace (.inr (.inl rfl))
    obtain ⟨v, hv⟩ := ih _ hended fuel (by omega)
    refine ⟨[v], ?_⟩
    rw [List.append_assoc, List.append_assoc, List.singleton_append, readItems, hv]
    simp only [bind, Except.bind]
    rw [skipSpace_mark hspace rfl]
    rfl
  | @item s space space' more h hspace hspace' hmore ih ihmore =>
    intro rest fuel hfuel
    obtain ⟨fuel, rfl⟩ := succ_of_length (by simp) hfuel
    simp only [List.length_cons, List.length_append] at hfuel
    have hended : Ended (space ++ ',' :: (space' ++ (more ++ rest))) := ended_spaces hspace (.inl rfl)
    obtain ⟨v, hv⟩ := ih _ hended fuel (by omega)
    obtain ⟨items, hitems⟩ := ihmore rest fuel (by omega)
    refine ⟨v :: items, ?_⟩
    simp only [List.append_assoc, List.cons_append, readItems, hv, bind, Except.bind]
    rw [skipSpace_mark hspace rfl]
    simp only [hmore.skipSpace hspace' rest, hitems]
    rfl
  | @lastMember key space space' s space'' hkey hspace hspace' h hspace'' ih =>
    intro rest fuel hfuel
    obtain ⟨fuel, rfl⟩ := succ_of_length (by simp) hfuel
    simp only [List.length_cons, List.length_append, List.length_nil] at hfuel
    have hended : Ended (space'' ++ '\x7d' :: rest) := ended_spaces hspace'' (.inr (.inr rfl))
    obtain ⟨v, hv⟩ := ih _ hended fuel (by omega)
    obtain ⟨k, hk⟩ := readText_append hkey (space ++ ':' :: (space' ++ (s ++ (space'' ++ '\x7d' :: rest)))) []
    refine ⟨[(k, v)], ?_⟩
    simp only [List.append_assoc, List.cons_append, List.nil_append, readMembers, hk, bind, Except.bind]
    rw [skipSpace_mark hspace rfl]
    simp only [h.skipSpace hspace', hv]
    rw [skipSpace_mark hspace'' rfl]
    rfl
  | @member key space space' s space'' space₃ more hkey hspace hspace' h hspace'' hspace₃ hmore ih ihmore =>
    intro rest fuel hfuel
    obtain ⟨fuel, rfl⟩ := succ_of_length (by simp) hfuel
    simp only [List.length_cons, List.length_append] at hfuel
    have hended : Ended (space'' ++ ',' :: (space₃ ++ (more ++ rest))) := ended_spaces hspace'' (.inl rfl)
    obtain ⟨v, hv⟩ := ih _ hended fuel (by omega)
    obtain ⟨entries, hentries⟩ := ihmore rest fuel (by omega)
    obtain ⟨k, hk⟩ := readText_append hkey
      (space ++ ':' :: (space' ++ (s ++ (space'' ++ ',' :: (space₃ ++ (more ++ rest)))))) []
    refine ⟨(k, v) :: entries, ?_⟩
    simp only [List.append_assoc, List.cons_append, readMembers, hk, bind, Except.bind]
    rw [skipSpace_mark hspace rfl]
    simp only [h.skipSpace hspace', hv]
    rw [skipSpace_mark hspace'' rfl]
    simp only [hmore.skipSpace hspace₃ rest, hentries]
    rfl

/-! ### Whole texts -/

/-- The text of an array or of an object. -/
structure Data (s : List Char) : Prop where
  spelled : Spelled .value s
  head : s.head? = some '[' ∨ s.head? = some '\x7b'

/-- A text that ends with a closing mark. -/
def Closed (s : List Char) : Prop :=
  ∃ c, (c = ']' ∨ c = '\x7d') ∧ [c] <:+ s

theorem Closed.suffix {s t : List Char} (h : Closed s) (hst : s <:+ t) : Closed t := by
  obtain ⟨c, hc, hs⟩ := h
  exact ⟨c, hc, hs.trans hst⟩

/-- Items and members end with the mark that closes them. -/
theorem Spelled.closed {part : Part} {s : List Char} (h : Spelled part s) : part ≠ .value → Closed s := by
  induction h with
  | word | number | text | emptyArray | array | emptyObject | object => simp
  | @lastItem s space h hspace => exact fun _ => ⟨']', .inl rfl, s ++ space, by simp⟩
  | @item s space space' more h hspace hspace' hmore ih ihmore =>
    intro _
    exact (ihmore (by simp)).suffix ⟨s ++ space ++ ',' :: space', by simp⟩
  | @lastMember key space space' s space'' hkey hspace hspace' h hspace'' =>
    exact fun _ => ⟨'\x7d', .inr rfl, '"' :: (key ++ space ++ ':' :: (space' ++ s ++ space'')), by simp⟩
  | @member key space space' s space'' space₃ more hkey hspace hspace' h hspace'' hspace₃ hmore ih ihmore =>
    intro _
    exact (ihmore (by simp)).suffix
      ⟨'"' :: (key ++ space ++ ':' :: (space' ++ s ++ space'' ++ ',' :: space₃)), by simp⟩

theorem Data.closed {s : List Char} (h : Data s) : Closed s := by
  obtain ⟨hspelled, hhead⟩ := h
  cases hspelled with
  | word hword =>
    obtain ⟨c, rest, hs, hc⟩ := ScalarHead.of_word hword
    rw [hs] at hhead
    simp [hc.ne_openBracket, hc.ne_openBrace] at hhead
  | number hnumber =>
    obtain ⟨c, rest, rfl, hc⟩ := ScalarHead.of_number hnumber
    simp [hc.ne_openBracket, hc.ne_openBrace] at hhead
  | text => simp at hhead
  | @emptyArray space => exact ⟨']', .inl rfl, '[' :: space, by simp⟩
  | @array space items hspace hitems => exact (hitems.closed (by simp)).suffix ⟨'[' :: space, by simp⟩
  | @emptyObject space => exact ⟨'\x7d', .inr rfl, '\x7b' :: space, by simp⟩
  | @object space members hspace hmembers =>
    exact (hmembers.closed (by simp)).suffix ⟨'\x7b' :: space, by simp⟩

/-- Every text of a value is read. -/
theorem read_of_spelled {s : List Char} (h : Spelled .value s) : ∃ v, read (String.ofList s) = .ok v := by
  obtain ⟨v, hv⟩ := h.reads [] (by simp [Ended]) (2 * s.length + 2) (by omega)
  have hnone : Spaces [] := by simp [Spaces]
  have hskip := h.skipSpace hnone []
  refine ⟨v, ?_⟩
  rw [List.nil_append, List.append_nil] at hskip
  rw [List.append_nil] at hv
  simp only [read, String.toList_ofList, hskip, hv]
  rfl

theorem Reading.bind_eq_ok {α β : Type} {x : Reading α} {f : α → Reading β} {b : β} (h : (x >>= f) = .ok b) :
    ∃ a, x = .ok a ∧ f a = .ok b := by
  cases x with
  | ok a => exact ⟨a, rfl, h⟩
  | error e => cases h

theorem readValue_bracket {fuel : Nat} {s rest : List Char} {v : Value}
    (h : readValue fuel ('[' :: s) = .ok (v, rest)) : ∃ items, v = .list items := by
  cases fuel with
  | zero => cases h
  | succ fuel =>
    rw [readValue] at h
    split at h
    · cases h
      exact ⟨[], rfl⟩
    · obtain ⟨⟨items, rest⟩, -, h⟩ := Reading.bind_eq_ok h
      cases h
      exact ⟨items, rfl⟩

theorem readValue_brace {fuel : Nat} {s rest : List Char} {v : Value}
    (h : readValue fuel ('\x7b' :: s) = .ok (v, rest)) : ∃ entries, v = .mapping .plain entries := by
  cases fuel with
  | zero => cases h
  | succ fuel =>
    rw [readValue] at h
    split at h
    · cases h
      exact ⟨[], rfl⟩
    · obtain ⟨⟨entries, rest⟩, -, h⟩ := Reading.bind_eq_ok h
      cases h
      exact ⟨_, rfl⟩

/-- What is read from a text that starts like an array or an object is one. -/
theorem read_data {s : List Char} {v : Value} (hs : s.head? = some '[' ∨ s.head? = some '\x7b')
    (h : read (String.ofList s) = .ok v) : (∃ items, v = .list items) ∨ ∃ entries, v = .mapping .plain entries := by
  rw [read] at h
  obtain ⟨⟨w, rest⟩, hread, h⟩ := Reading.bind_eq_ok h
  rw [String.toList_ofList] at hread
  have hw : w = v := by
    dsimp only at h
    split at h
    · cases h
      rfl
    · cases h
  subst hw
  cases s with
  | nil => simp at hs
  | cons c s =>
    rcases hs with hs | hs
    · simp only [List.head?_cons, Option.some.injEq] at hs
      subst hs
      exact .inl (readValue_bracket hread)
    · simp only [List.head?_cons, Option.some.injEq] at hs
      subst hs
      exact .inr (readValue_brace hread)

/-- A number of too many digits ends the reading, whatever follows it. -/
theorem readScalar_overlong {ds rest : List Char} (h : Digits ds) (hzero : ds.head? ≠ some '0')
    (hlong : maxDigits < ds.length) (hrest : Ended rest) : readScalar (ds ++ rest) = .error .tooManyDigits := by
  have hword : readWord? (ds ++ rest) = none := by
    obtain ⟨d, more, rfl, hd⟩ := h.head
    exact (readWord?_digit hd (more ++ rest)).1
  have hwhole : takeWhole (ds ++ rest) = (ds, rest) := (Whole.digits h hzero).take hrest.not_isDigit
  have hfraction : readFraction rest = ([], rest) := readFraction_eq_nil (hrest.ne rfl (by decide))
  have hempty : ds.isEmpty = false := by simpa using h.ne_nil
  rw [readScalar, hword, readNumber_eq_readUnsigned (h.ne rfl rest), readUnsigned]
  simp only [hwhole, hempty, hfraction, readExponent_ended hrest]
  rw [if_neg Bool.false_ne_true]
  exact (if_pos rfl).trans (if_neg (Nat.not_le.mpr hlong))

/-- So an array that starts with one is not read, and nobody learns whether it is closed. -/
theorem read_overlong {ds rest : List Char} (h : Digits ds) (hzero : ds.head? ≠ some '0')
    (hlong : maxDigits < ds.length) (hrest : Ended rest) :
    read (String.ofList ('[' :: (ds ++ rest))) = .error .tooManyDigits := by
  have hscalar := readScalar_overlong h hzero hlong hrest
  obtain ⟨d, more, rfl, hd⟩ := h.head
  have hhead := ScalarHead.of_isDigit hd
  have hskip : skipSpace (d :: more ++ rest) = d :: more ++ rest := by
    simp [skipSpace, hhead.not_space]
  have hbracket : skipSpace ('[' :: (d :: more ++ rest)) = '[' :: (d :: more ++ rest) := rfl
  obtain ⟨fuel, hfuel⟩ : ∃ fuel, 2 * ('[' :: (d :: more ++ rest)).length + 2 = fuel + 3 :=
    ⟨2 * ('[' :: (d :: more ++ rest)).length - 1, by simp; omega⟩
  have hitems : readItems (fuel + 2) (d :: more ++ rest) = .error .tooManyDigits := by
    rw [readItems, List.cons_append, readValue_scalar hhead, ← List.cons_append, hscalar]
    rfl
  have hvalue : readValue (fuel + 3) ('[' :: (d :: more ++ rest)) = .error .tooManyDigits := by
    rw [readValue, hskip]
    split
    · next heq => exact absurd (List.cons.inj heq).1 hhead.ne_bracket
    · rw [hitems]
      rfl
  simp only [read, String.toList_ofList, hbracket, hfuel, hvalue]
  rfl

end EngineHost.Json
