import Mathlib
import EngineHost.Text.Letter

/-!
Texts cut at every occurrence of one character. A text is cut as the list of its characters is, whether or not
halves of surrogate pairs may stand alone in it.
-/
namespace EngineHost

open Text

theorem splitOnAux_singleton (s : String) (c : Char) (b i : String.Pos.Raw) (r : List String) :
    s.splitOnAux (String.singleton c) b i 0 r = s.splitAux (· == c) b i r := by
  have hget : String.Pos.Raw.get (String.singleton c) 0 = c := by
    simpa using String.get_of_valid [] [c]
  have hnext : String.Pos.Raw.next (String.singleton c) 0 = ⟨c.utf8Size⟩ := by
    simpa using String.next_of_valid [] c []
  have hend : String.Pos.Raw.atEnd (String.singleton c) ⟨c.utf8Size⟩ = true := by
    simpa using String.atEnd_of_valid [c] []
  fun_induction String.splitAux s (· == c) b i r with
  | case1 b i r hdone => rw [String.splitOnAux, if_pos hdone]
  | case2 b i r hmore _ hseparator i' ih =>
    have hback : i'.unoffsetBy ⟨c.utf8Size⟩ = i := by
      have hchar : String.Pos.Raw.get s i = c := eq_of_beq hseparator
      simp [i', String.Pos.Raw.next, hchar, String.Pos.Raw.unoffsetBy]
    rw [String.splitOnAux, if_neg hmore, hget, if_pos hseparator, hnext]
    dsimp only
    rw [if_pos hend, hback]
    exact ih
  | case3 b i r hmore _ hother ih =>
    rw [String.splitOnAux, if_neg hmore, hget, if_neg hother]
    exact ih

theorem splitOn_singleton (s : String) (c : Char) :
    s.splitOn (String.singleton c) = (s.toList.splitOn c).map String.ofList := by
  have hseparator : (String.singleton c == "") = false := by simp
  rw [String.splitOn, hseparator, List.splitOn_eq_splitOnP, ← String.splitToList_of_valid,
    String.splitToList, ← splitOnAux_singleton]
  rfl

theorem splitOn_ofChars (cs : List Char) (c : Char) :
    (Letter.ofChars cs).splitOn (.char c) = (cs.splitOn c).map Letter.ofChars := by
  induction cs with
  | nil => rfl
  | cons d rest ih =>
    simp only [List.splitOn_eq_splitOnP, Letter.ofChars, List.map_cons,
      List.splitOnP_cons_eq_if_modifyHead] at ih ⊢
    by_cases hsame : d = c
    · simp [hsame, ih, Letter.ofChars]
    · have hother : (Letter.char d == .char c) = false := by simp [hsame]
      have hother' : (d == c) = false := by simp [hsame]
      rw [hother, hother', ih]
      cases rest.splitOnP (· == c) <;> rfl

/-- What joined parts are, seen from one of them. -/
theorem intercalate_around {α : Type} (x : α) (above : List (List α)) (part : List α)
    (below : List (List α)) :
    [x].intercalate (above ++ part :: below) =
      above.flatMap (· ++ [x]) ++ (part ++ below.flatMap (x :: ·)) := by
  induction above with
  | nil =>
    induction below generalizing part with
    | nil => simp
    | cons b rest ih =>
      simp only [List.nil_append, List.flatMap_nil] at ih
      simp [ih]
  | cons a rest ih => cases rest <;> simp_all

end EngineHost
