import Mathlib
import EngineHost.Decimal.Reader

/-!
Blanks around a text, and whole numbers in their decimal form: the form of every number that is not too long is
read as this number.
-/
namespace EngineHost

namespace Text

/-- A span ends with the last element before the condition fails. -/
theorem dropWhile_span {α : Type} {p : α → Bool} {front rest : List α} (hfront : ∀ x ∈ front, p x = true)
    (hrest : ∀ x ∈ rest.head?, p x = false) : (front ++ rest).dropWhile p = rest := by
  rw [List.dropWhile_append_of_pos hfront]
  cases rest with
  | nil => rfl
  | cons x rest => simp [hrest x rfl]

theorem takeWhile_span {α : Type} {p : α → Bool} {front rest : List α} (hfront : ∀ x ∈ front, p x = true)
    (hrest : ∀ x ∈ rest.head?, p x = false) : (front ++ rest).takeWhile p = front := by
  rw [List.takeWhile_append_of_pos hfront]
  cases rest with
  | nil => simp
  | cons x rest => simp [hrest x rfl]

def Blanks (s : List Char) : Prop :=
  ∀ c ∈ s, isBlank c = true

/-- A text without blanks at its ends. -/
structure Trimmed (s : List Char) : Prop where
  head : ∀ c ∈ s.head?, isBlank c = false
  last : ∀ c ∈ s.getLast?, isBlank c = false

theorem trimmed_of_not_blank {s : List Char} (h : ∀ c ∈ s, isBlank c = false) : Trimmed s := by
  constructor
  · intro c hc
    exact h c (List.mem_of_mem_head? hc)
  · intro c hc
    exact h c (List.mem_of_getLast? hc)

/-- The blanks around a text are what stripping takes away. -/
theorem strip_padded {before s after : List Char} (hbefore : Blanks before) (hafter : Blanks after)
    (h : Trimmed s) : strip (before ++ (s ++ after)) = s := by
  have hreverse : Blanks after.reverse := by
    intro c hc
    exact hafter c (List.mem_reverse.mp hc)
  cases s with
  | nil =>
    have hblanks : ∀ c ∈ before ++ after, isBlank c = true := by
      intro c hc
      exact (List.mem_append.mp hc).elim (hbefore c) (hafter c)
    have hdrop : (before ++ after).dropWhile isBlank = [] := by
      simpa using hblanks
    simp [strip, hdrop]
  | cons c s =>
    have hfront : (before ++ (c :: s ++ after)).dropWhile isBlank = c :: s ++ after :=
      dropWhile_span hbefore (by simpa using h.head c rfl)
    have hback : (after.reverse ++ (c :: s).reverse).dropWhile isBlank = (c :: s).reverse :=
      dropWhile_span hreverse (by rw [List.head?_reverse]; exact h.last)
    rw [strip, hfront, List.reverse_append, hback, List.reverse_reverse]

theorem Trimmed.strip_eq {s : List Char} (h : Trimmed s) : strip s = s := by
  have hnone : Blanks [] := by simp [Blanks]
  simpa using strip_padded hnone hnone h

end Text

namespace Decimal

open Text

theorem takeSign_eq_self {s : List Char} (hminus : s.head? ≠ some '-') (hplus : s.head? ≠ some '+') :
    takeSign s = (false, s) := by
  rw [takeSign.eq_def]
  split
  · simp at hminus
  · simp at hplus
  · rfl

theorem digitValue?_digitChar : ∀ d < 10, digitValue? (Nat.digitChar d) = some d := by
  decide

theorem isBlank_digitChar : ∀ d < 10, isBlank (Nat.digitChar d) = false := by
  decide

theorem digitChar_ne_sign : ∀ d < 10, Nat.digitChar d ≠ '-' ∧ Nat.digitChar d ≠ '+' := by
  decide

/-- The digits of a number, from the highest on. -/
theorem exists_digits (n : Nat) :
    ∃ ds : List Nat, ds ≠ [] ∧ (∀ d ∈ ds, d < 10) ∧ Nat.toDigits 10 n = ds.map Nat.digitChar ∧ ofDigits ds = n := by
  induction n using Nat.strong_induction_on with
  | _ n ih =>
    by_cases hn : n < 10
    · exact ⟨[n], by simp, by simpa using hn, by simp [Nat.toDigits_of_lt_base hn], by simp [ofDigits]⟩
    · obtain ⟨ds, hne, hlt, hdigits, hvalue⟩ := ih (n / 10) (by omega)
      refine ⟨ds ++ [n % 10], by simp, ?_, ?_, ?_⟩
      · intro d hd
        rcases List.mem_append.mp hd with hd | hd
        · exact hlt d hd
        · rw [List.mem_singleton.mp hd]
          exact Nat.mod_lt n (by omega)
      · rw [Nat.toDigits_of_base_le (by omega) (by omega), hdigits]
        simp
      · have hsplit := Nat.div_add_mod n 10
        rw [ofDigits] at hvalue ⊢
        rw [List.foldl_append, hvalue]
        simpa using hsplit

theorem takeDigitsAfter_digits {ds : List Nat} (h : ∀ d ∈ ds, d < 10) :
    ∀ afterDigit, takeDigitsAfter afterDigit (ds.map Nat.digitChar) = (ds, []) := by
  induction ds with
  | nil => exact fun _ => rfl
  | cons d ds ih =>
    intro afterDigit
    have hd : digitValue? (Nat.digitChar d) = some d := digitValue?_digitChar d (h d (by simp))
    have hrest := ih (fun e he => h e (by simp [he])) true
    simp [takeDigitsAfter, hd, hrest]

/-- The decimal form of a number: its sign and its digits. -/
theorem toString_int (i : Int) :
    (toString i).toList = (if i < 0 then ['-'] else []) ++ Nat.toDigits 10 i.natAbs := by
  cases i with
  | ofNat n =>
    have hform : toString (Int.ofNat n) = Nat.repr n := rfl
    rw [hform, Nat.repr_eq_ofList_toDigits]
    simp
  | negSucc n =>
    have hform : toString (Int.negSucc n) = "-" ++ Nat.repr (n + 1) := rfl
    rw [hform, Nat.repr_eq_ofList_toDigits]
    simp [Int.negSucc_lt_zero]

theorem not_blank_toString (i : Int) : ∀ c ∈ (toString i).toList, isBlank c = false := by
  obtain ⟨ds, -, hlt, hdigits, -⟩ := exists_digits i.natAbs
  intro c hc
  rw [toString_int, hdigits] at hc
  rcases List.mem_append.mp hc with hc | hc
  · split at hc
    · rw [List.mem_singleton.mp hc]
      decide
    · simp at hc
  · obtain ⟨d, hd, rfl⟩ := List.mem_map.mp hc
    exact isBlank_digitChar d (hlt d hd)

/-- The decimal form of a number is read as this number, unless it is too long. -/
theorem readInt?_toString (i : Int) (h : (toString i.natAbs).length ≤ maxDigits) :
    readInt? (toString i).toList = some i := by
  have hstrip := (trimmed_of_not_blank (not_blank_toString i)).strip_eq
  obtain ⟨ds, hne, hlt, hdigits, hvalue⟩ := exists_digits i.natAbs
  have hlength : ds.length ≤ maxDigits := by
    have hform : toString i.natAbs = Nat.repr i.natAbs := rfl
    rw [hform, Nat.repr_eq_ofList_toDigits, hdigits] at h
    simpa using h
  have hread : takeDigits (ds.map Nat.digitChar) = (ds, []) := takeDigitsAfter_digits hlt false
  have htake : takeSign (toString i).toList = (decide (i < 0), ds.map Nat.digitChar) := by
    rw [toString_int, hdigits]
    by_cases hi : i < 0
    · simp [hi, takeSign]
    · obtain ⟨d, rest, rfl⟩ := List.exists_cons_of_ne_nil hne
      have hd := digitChar_ne_sign d (hlt d (by simp))
      have hsign : takeSign ((d :: rest).map Nat.digitChar) = (false, (d :: rest).map Nat.digitChar) :=
        takeSign_eq_self (by simp [hd.1]) (by simp [hd.2])
      simpa [hi] using hsign
  have hsigned : signedInt (decide (i < 0)) i.natAbs = i := by
    by_cases hi : i < 0
    · rw [signedInt, decide_eq_true hi, if_pos rfl]
      omega
    · rw [signedInt, decide_eq_false hi, if_neg Bool.false_ne_true]
      omega
  obtain ⟨d, rest, rfl⟩ := List.exists_cons_of_ne_nil hne
  simp only [readInt?, hstrip, htake, hread]
  rw [if_pos hlength, hvalue, hsigned]

end Decimal

end EngineHost
