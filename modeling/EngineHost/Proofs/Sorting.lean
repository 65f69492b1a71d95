import Mathlib.Data.List.Chain
import Mathlib.Data.List.Lex
import Mathlib.Order.Lattice
import EngineHost.Value.Order

/-!
Sorting where the comparison answers by the order of keys: what comes out is in order, nothing is lost,
and what was in order already comes out unchanged.
-/
namespace EngineHost

open Text

namespace Sorting

variable {α κ : Type} [LinearOrder κ]

/-- The comparison answers for all elements of a kind, by the order of their keys. -/
def Ranks (precedes : Comparison α) (key : α → κ) (kind : α → Prop) : Prop :=
  ∀ a b, kind a → kind b → precedes a b = some (decide (key a < key b))

def Ordered (key : α → κ) (xs : List α) : Prop :=
  xs.Pairwise fun a b => key a ≤ key b

variable {precedes : Comparison α} {key : α → κ} {kind : α → Prop}

/-- As far as a run goes, neighbours compare as wanted. -/
theorem runLength_spec (hr : Ranks precedes key kind) (wanted : Bool) (rest : List α) :
    ∀ previous, (∀ x ∈ previous :: rest, kind x) →
      ∃ n, runLength precedes wanted previous rest = some n ∧
        (previous :: rest.take n).IsChain fun a b => decide (key b < key a) = wanted := by
  induction rest with
  | nil =>
    intro previous _
    exact ⟨0, rfl, by simp⟩
  | cons x rest ih =>
    intro previous hkind
    have hprevious : kind previous := hkind previous (by simp)
    have hx : kind x := hkind x (by simp)
    by_cases hwanted : decide (key x < key previous) = wanted
    · obtain ⟨n, hn, hchain⟩ := ih x fun y hy => hkind y (List.mem_cons_of_mem _ hy)
      refine ⟨n + 1, ?_, ?_⟩
      · simp [runLength, hr x previous hx hprevious, hwanted, hn]
      · rw [List.take_succ_cons, List.isChain_cons_cons]
        exact ⟨hwanted, hchain⟩
    · refine ⟨0, ?_, by simp⟩
      simp [runLength, hr x previous hx hprevious, hwanted]

/-- A run that is in order goes on to the end. -/
theorem runLength_ordered (hr : Ranks precedes key kind) (rest : List α) :
    ∀ previous, (∀ x ∈ previous :: rest, kind x) → Ordered key (previous :: rest) →
      runLength precedes false previous rest = some rest.length := by
  induction rest with
  | nil =>
    intro previous _ _
    rfl
  | cons x rest ih =>
    intro previous hkind hordered
    have hprevious : kind previous := hkind previous (by simp)
    have hx : kind x := hkind x (by simp)
    obtain ⟨hle, hrest⟩ := List.pairwise_cons.mp hordered
    have hnot : decide (key x < key previous) = false := by
      simpa using hle x (by simp)
    simp [runLength, hr x previous hx hprevious, hnot,
      ih x (fun y hy => hkind y (List.mem_cons_of_mem _ hy)) hrest]

/-- The keys of neighbours that do not descend are in order throughout. -/
theorem ordered_of_chain {xs : List α}
    (h : xs.IsChain fun a b => decide (key b < key a) = false) : Ordered key xs := by
  have hkeys : (xs.map key).IsChain (· ≤ ·) := by
    rw [List.isChain_map]
    exact h.imp fun a b hab => by simpa using hab
  exact List.pairwise_map.mp hkeys.pairwise

theorem ordered_of_descending {xs : List α}
    (h : xs.IsChain fun a b => decide (key b < key a) = true) : Ordered key xs.reverse := by
  have hkeys : (xs.map key).IsChain (· > ·) := by
    rw [List.isChain_map]
    exact h.imp fun a b hab => by simpa using hab
  rw [Ordered, List.pairwise_reverse]
  exact (List.pairwise_map.mp hkeys.pairwise).imp fun hab => le_of_lt hab

theorem orderedFront_spec (hr : Ranks precedes key kind) (xs : List α) (hkind : ∀ x ∈ xs, kind x) :
    ∃ front rest, orderedFront precedes xs = some (front, rest) ∧ Ordered key front ∧
      (front ++ rest).Perm xs := by
  match xs, hkind with
  | [], _ => exact ⟨[], [], rfl, .nil, .refl _⟩
  | [x], _ => exact ⟨[x], [], rfl, List.pairwise_singleton _ _, .refl _⟩
  | x :: y :: rest, hkind =>
    have hy : kind y := hkind y (by simp)
    have hx : kind x := hkind x (by simp)
    obtain ⟨n, hn, hchain⟩ := runLength_spec hr (decide (key y < key x)) rest y
      fun z hz => hkind z (List.mem_cons_of_mem _ hz)
    have hfront : (x :: y :: rest.take n).IsChain
        fun a b => decide (key b < key a) = decide (key y < key x) := by
      rw [List.isChain_cons_cons]
      exact ⟨rfl, hchain⟩
    refine ⟨if decide (key y < key x) then (x :: y :: rest.take n).reverse else x :: y :: rest.take n,
      rest.drop n, ?_, ?_, ?_⟩
    · simp [orderedFront, hr y x hy hx, hn]
    · by_cases hdescending : decide (key y < key x) = true
      · rw [if_pos hdescending]
        rw [hdescending] at hfront
        exact ordered_of_descending hfront
      · rw [if_neg hdescending]
        rw [Bool.not_eq_true] at hdescending
        rw [hdescending] at hfront
        exact ordered_of_chain hfront
    · have hparts : (x :: y :: rest.take n) ++ rest.drop n = x :: y :: rest := by simp
      split
      · exact ((List.reverse_perm _).append_right _).trans (.of_eq hparts)
      · exact .of_eq hparts

/-- Halving ends at a place with no greater key before it and no other behind it. -/
theorem place_spec (hr : Ranks precedes key kind) {x : α} {sorted : List α} (hx : kind x)
    (hkind : ∀ y ∈ sorted, kind y) (hordered : Ordered key sorted) (fuel : Nat) :
    ∀ low high, low ≤ high → high ≤ sorted.length → high - low ≤ fuel →
      (∀ y ∈ sorted.take low, key y ≤ key x) → (∀ y ∈ sorted.drop high, key x < key y) →
      ∃ i, place precedes x sorted fuel low high = some i ∧ i ≤ sorted.length ∧
        (∀ y ∈ sorted.take i, key y ≤ key x) ∧ ∀ y ∈ sorted.drop i, key x < key y := by
  induction fuel with
  | zero =>
    intro low high hle hlength hfuel hbefore hbehind
    obtain rfl : low = high := by omega
    exact ⟨low, rfl, hlength, hbefore, hbehind⟩
  | succ fuel ih =>
    intro low high hle hlength hfuel hbefore hbehind
    by_cases hlt : low < high
    swap
    · obtain rfl : low = high := by omega
      exact ⟨low, by simp [place], hlength, hbefore, hbehind⟩
    have hmiddle : low + (high - low) / 2 < sorted.length := by omega
    generalize hm : low + (high - low) / 2 = middle at hmiddle
    have hsplit : sorted = sorted.take middle ++ sorted[middle] :: sorted.drop (middle + 1) := by
      rw [List.getElem_cons_drop, List.take_append_drop]
    have hparts := hordered
    rw [Ordered, hsplit, List.pairwise_append, List.pairwise_cons] at hparts
    have hprecedes := hr x sorted[middle] hx (hkind _ (List.getElem_mem hmiddle))
    have hstep : place precedes x sorted (fuel + 1) low high =
        if key x < key sorted[middle] then place precedes x sorted fuel low middle
        else place precedes x sorted fuel (middle + 1) high := by
      simp [place, hlt, hm, List.getElem?_eq_getElem hmiddle, hprecedes]
    rw [hstep]
    by_cases hless : key x < key sorted[middle]
    · rw [if_pos hless]
      refine ih low middle (by omega) (by omega) (by omega) hbefore ?_
      intro y hy
      rw [← List.getElem_cons_drop hmiddle] at hy
      rcases List.mem_cons.mp hy with rfl | hy
      · exact hless
      · exact lt_of_lt_of_le hless (hparts.2.1.1 y hy)
    · rw [if_neg hless]
      refine ih (middle + 1) high (by omega) hlength (by omega) ?_ hbehind
      intro y hy
      rw [← List.take_append_getElem hmiddle, List.mem_append, List.mem_singleton] at hy
      rcases hy with hy | rfl
      · exact (hparts.2.2 y hy _ List.mem_cons_self).trans (not_lt.mp hless)
      · exact not_lt.mp hless

theorem insertIdx_eq (x : α) (xs : List α) :
    ∀ i, i ≤ xs.length → xs.insertIdx i x = xs.take i ++ x :: xs.drop i := by
  induction xs with
  | nil =>
    intro i hi
    obtain rfl : i = 0 := Nat.le_zero.mp hi
    rfl
  | cons y xs ih =>
    intro i hi
    cases i with
    | zero => rfl
    | succ i =>
      rw [List.insertIdx_succ_cons, ih i (Nat.le_of_succ_le_succ hi)]
      rfl

theorem insertInto_spec (hr : Ranks precedes key kind) {x : α} {sorted : List α} (hx : kind x)
    (hkind : ∀ y ∈ sorted, kind y) (hordered : Ordered key sorted) :
    ∃ ys, insertInto precedes sorted x = some ys ∧ Ordered key ys ∧ ys.Perm (x :: sorted) := by
  obtain ⟨i, hi, hlength, hbefore, hbehind⟩ := place_spec hr hx hkind hordered (sorted.length + 1)
    0 sorted.length (by omega) le_rfl (by omega) (by simp) (by simp)
  refine ⟨sorted.insertIdx i x, by simp [insertInto, hi], ?_, List.perm_insertIdx x sorted hlength⟩
  rw [insertIdx_eq x sorted i hlength, Ordered, List.pairwise_append, List.pairwise_cons]
  refine ⟨hordered.sublist (List.take_sublist _ _),
    ⟨fun y hy => le_of_lt (hbehind y hy), hordered.sublist (List.drop_sublist _ _)⟩, ?_⟩
  intro y hy z hz
  rcases List.mem_cons.mp hz with rfl | hz
  · exact hbefore y hy
  · exact (hbefore y hy).trans (le_of_lt (hbehind z hz))

theorem foldlM_insertInto (hr : Ranks precedes key kind) (rest : List α) :
    ∀ sorted, (∀ x ∈ sorted ++ rest, kind x) → Ordered key sorted →
      ∃ ys, rest.foldlM (insertInto precedes) sorted = some ys ∧ Ordered key ys ∧
        ys.Perm (sorted ++ rest) := by
  induction rest with
  | nil =>
    intro sorted _ hordered
    exact ⟨sorted, rfl, hordered, by simp⟩
  | cons x rest ih =>
    intro sorted hkind hordered
    obtain ⟨ys, hys, hys_ordered, hperm⟩ := insertInto_spec hr (hkind x (by simp))
      (fun y hy => hkind y (List.mem_append_left _ hy)) hordered
    have hshift : (ys ++ rest).Perm (sorted ++ x :: rest) :=
      (hperm.append_right rest).trans List.perm_middle.symm
    obtain ⟨zs, hzs, hzs_ordered, hzs_perm⟩ := ih ys
      (fun y hy => hkind y (hshift.mem_iff.mp hy)) hys_ordered
    exact ⟨zs, by simp [hys, hzs], hzs_ordered, hzs_perm.trans hshift⟩

/-- Sorting succeeds, puts in order and keeps what it was given. -/
theorem sort?_spec (hr : Ranks precedes key kind) (xs : List α) (hkind : ∀ x ∈ xs, kind x) :
    ∃ ys, sort? precedes xs = some ys ∧ Ordered key ys ∧ ys.Perm xs := by
  obtain ⟨front, rest, hfront, hordered, hperm⟩ := orderedFront_spec hr xs hkind
  obtain ⟨ys, hys, hys_ordered, hys_perm⟩ := foldlM_insertInto hr rest front
    (fun x hx => hkind x (hperm.mem_iff.mp hx)) hordered
  exact ⟨ys, by simp [sort?, hfront, hys], hys_ordered, hys_perm.trans hperm⟩

/-- What is in order already stays as it is. -/
theorem sort?_ordered (hr : Ranks precedes key kind) (xs : List α) (hkind : ∀ x ∈ xs, kind x)
    (hordered : Ordered key xs) : sort? precedes xs = some xs := by
  match xs, hkind, hordered with
  | [], _, _ => rfl
  | [x], _, _ => rfl
  | x :: y :: rest, hkind, hordered =>
    have hnot : decide (key y < key x) = false := by
      simpa using (List.pairwise_cons.mp hordered).1 y (by simp)
    have hrun := runLength_ordered hr rest y (fun z hz => hkind z (List.mem_cons_of_mem _ hz))
      (List.pairwise_cons.mp hordered).2
    simp [sort?, orderedFront, hr y x (hkind y (by simp)) (hkind x (by simp)), hnot, hrun]

end Sorting

/-- The numbers of the letters of a text. -/
def Value.codes : Value → List Nat
  | .str s => s.toList.map Char.toNat
  | .letters s => s.map Letter.code
  | _ => []

theorem Letter.precedes_eq (s t : List Letter) :
    Letter.precedes s t = decide (s.map Letter.code < t.map Letter.code) := by
  induction s generalizing t with
  | nil => cases t <;> simp [Letter.precedes]
  | cons a s ih =>
    cases t with
    | nil => simp [Letter.precedes]
    | cons b t => simp [Letter.precedes, ih, List.cons_lt_cons_iff, beq_eq_decide]

theorem Letter.codes_ofChars (cs : List Char) :
    (Letter.ofChars cs).map Letter.code = cs.map Char.toNat := by
  rw [Letter.ofChars, List.map_map]
  rfl

theorem chars_lt_iff (s t : List Char) : s < t ↔ s.map Char.toNat < t.map Char.toNat := by
  induction s generalizing t with
  | nil => cases t <;> simp
  | cons a s ih =>
    cases t with
    | nil => simp
    | cons b t =>
      simp only [List.map_cons, List.cons_lt_cons_iff, ih, Char.toNat_inj]
      rfl

/-- Texts are compared letter by letter. -/
theorem Value.less?_text {v w : Value} (hv : v.isText) (hw : w.isText) :
    v.less? w = some (decide (v.codes < w.codes)) := by
  cases v with
  | str s =>
    cases w with
    | str t =>
      rw [Value.less?]
      exact congrArg some (decide_eq_decide.mpr (chars_lt_iff s.toList t.toList))
    | letters t =>
      rw [Value.less?, Letter.precedes_eq, Letter.codes_ofChars]
      rfl
    | _ => simp [Value.isText] at hw
  | letters s =>
    cases w with
    | str t =>
      rw [Value.less?, Letter.precedes_eq, Letter.codes_ofChars]
      rfl
    | letters t =>
      rw [Value.less?, Letter.precedes_eq]
      rfl
    | _ => simp [Value.isText] at hw
  | _ => simp [Value.isText] at hv

theorem ranks_names {α : Type} :
    Sorting.Ranks (fun a b : Value × α => a.1.less? b.1) (fun a => a.1.codes) fun a => a.1.isText := by
  intro a b ha hb
  simp only [Value.less?_text ha hb]
  congr

/-- Entries named by texts can be sorted; sorted again, they stay as they are. -/
theorem sortByKey?_text {α : Type} (fields : List (Value × α)) (h : ∀ f ∈ fields, f.1.isText) :
    ∃ sorted, sortByKey? fields = some sorted ∧ sorted.Perm fields ∧
      sortByKey? sorted = some sorted := by
  obtain ⟨sorted, hsorted, hordered, hperm⟩ := Sorting.sort?_spec ranks_names fields h
  have hkind : ∀ f ∈ sorted, f.1.isText := fun f hf => h f (hperm.mem_iff.mp hf)
  exact ⟨sorted, hsorted, hperm, Sorting.sort?_ordered ranks_names sorted hkind hordered⟩

end EngineHost
