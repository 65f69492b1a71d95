import Mathlib
import EngineHost.TypeInfo
import EngineHost.Proofs.Splitting

/-!
Where the carets of a diagnostic stand. The engine names a place by line, column and offset; the row with that
number is shown, and under it carets from the column on. The number of the row is set to three places, and so is
the margin of the carets: a longer number moves the row to the right, but not the carets.
-/
namespace EngineHost

open Text

/-- The letters of a text. -/
def Value.letters? : Value → Option (List Letter)
  | .str s => some (Letter.ofChars s.toList)
  | .letters text => some text
  | _ => none

/-- The rows of a text are what stands between its line breaks. -/
structure RowsOf (text : List Letter) (rows : List (List Letter)) : Prop where
  joined : [.char '\n'].intercalate rows = text
  unbroken : ∀ r ∈ rows, .char '\n' ∉ r

/-- Line, column and offset agree on the place after some rows and the beginning of one more. -/
structure SourceLocation.After (l : SourceLocation) (above : List (List Letter)) (before : List Letter) :
    Prop where
  line : l.line = above.length + 1
  column : l.column = before.length + 1
  offset : l.offset = ((above.map fun r => r.length + 1).sum + before.length : Nat)

section Letters

theorem ofLetters_ofChars (cs : List Char) :
    Value.ofLetters (Letter.ofChars cs) = .str (String.ofList cs) := by
  rw [Value.ofLetters, Letter.chars?_ofChars]

theorem ofChars_of_chars? {row : List Letter} {cs : List Char} (h : Letter.chars? row = some cs) :
    row = Letter.ofChars cs := by
  induction row generalizing cs with
  | nil =>
    obtain rfl := Option.some.inj h
    rfl
  | cons l rest ih =>
    cases l with
    | half _ => cases h
    | char c =>
      obtain ⟨ds, hds, rfl⟩ := Option.map_eq_some_iff.mp h
      rw [ih hds]
      rfl

theorem text_ofLetters (row : List Letter) :
    (Value.ofLetters row).text = String.ofList (row.map Letter.visible) := by
  unfold Value.ofLetters
  cases h : Letter.chars? row with
  | none => rfl
  | some cs =>
    rw [ofChars_of_chars? h]
    simp [Value.text, Letter.ofChars, Function.comp_def, Letter.visible]

theorem size?_ofLetters (row : List Letter) : (Value.ofLetters row).size? = some row.length := by
  unfold Value.ofLetters
  cases h : Letter.chars? row with
  | none => rfl
  | some cs =>
    rw [ofChars_of_chars? h]
    simp [Value.size?, Letter.ofChars]

/-- A row is shown in one row. -/
theorem newline_notMem_visible {row : List Letter} (h : .char '\n' ∉ row) :
    '\n' ∉ row.map Letter.visible := by
  intro hmem
  obtain ⟨l, hl, hvisible⟩ := List.mem_map.mp hmem
  cases l with
  | char c =>
    obtain rfl : c = '\n' := hvisible
    exact h hl
  | half _ =>
    have hother : Letter.replacement ≠ '\n' := by decide
    exact hother hvisible

end Letters

section Rows

variable {text : List Letter} {above below : List (List Letter)} {row before after : List Letter}

/-- The row that a number names is the one with that many rows up to it. -/
theorem sourceLine?_row {source : Value} (hsource : source.letters? = some text) (hne : text ≠ [])
    (hrows : RowsOf text (above ++ row :: below)) :
    sourceLine? source (above.length + 1) = .ok (some (.ofLetters row)) := by
  have hpositive : ¬ (above.length + 1 : Int) < 1 := by omega
  have hindex : (above.length + 1 - 1 : Int).toNat = above.length := by omega
  have hsplit : text.splitOn (.char '\n') = above ++ row :: below := by
    rw [← hrows.joined]
    exact List.splitOn_intercalate _ hrows.unbroken (by simp)
  cases source with
  | str s =>
    obtain rfl := Option.some.inj hsource
    have hfull : s.isEmpty = false := by
      by_contra hempty
      rw [Bool.not_eq_false, String.isEmpty_iff] at hempty
      exact hne (by simp [hempty, Letter.ofChars])
    have hget : (sourceLines s)[above.length]?.map Value.str = some (.ofLetters row) := by
      rw [splitOn_ofChars] at hsplit
      have hrow := congrArg (·[above.length]?) hsplit
      simp only [List.getElem?_map, List.getElem?_append_right (Nat.le_refl _), Nat.sub_self,
        List.getElem?_cons_zero, Option.map_eq_some_iff] at hrow
      obtain ⟨cs, hcs, rfl⟩ := hrow
      have hlines : sourceLines s = (s.toList.splitOn '\n').map String.ofList := splitOn_singleton s '\n'
      rw [hlines, List.getElem?_map, hcs, ofLetters_ofChars]
      rfl
    simp only [sourceLine?, hfull, hpositive, hindex, hget]
    rfl
  | letters l =>
    obtain rfl := Option.some.inj hsource
    have hget : (letterLines l)[above.length]? = some row := by
      rw [letterLines, hsplit, List.getElem?_append_right (Nat.le_refl _), Nat.sub_self]
      rfl
    simp only [sourceLine?, hpositive, hindex, hget]
    rfl
  | _ => cases hsource

/-- What stands at the offset of a place is what comes next in its row, or a line break or nothing where the row
ends. -/
theorem getElem?_offset (hrows : RowsOf text (above ++ (before ++ after) :: below)) :
    text[(above.map fun r => r.length + 1).sum + before.length]?.filter (· ≠ .char '\n') = after.head? := by
  have htext := hrows.joined
  rw [intercalate_around, List.append_assoc, ← List.append_assoc] at htext
  have hlength : (above.flatMap (· ++ [Letter.char '\n']) ++ before).length =
      (above.map fun r => r.length + 1).sum + before.length := by
    simp [List.length_flatMap]
  rw [← htext, ← hlength, List.getElem?_append_right (Nat.le_refl _), Nat.sub_self]
  have hafter : .char '\n' ∉ after := fun h => hrows.unbroken (before ++ after) (by simp) (by simp [h])
  cases after with
  | nil =>
    cases below <;> simp
  | cons l rest =>
    have hl : l ≠ .char '\n' := by
      rintro rfl
      exact hafter List.mem_cons_self
    simp [hl]

end Rows

namespace Diagnostic

section Margins

theorem toList_repeated (n : Int) (c : Char) : (repeated n c).toList = List.replicate n.toNat c := by
  simp [repeated]

/-- The number of a row takes three places or, if it has more digits, as many as these. -/
theorem length_gutter (line : Int) : (gutter line).length = max 3 (toString line).length := by
  simp only [gutter, repeated, String.length_append, String.length_ofList, List.length_replicate]
  omega

theorem length_toString_le_iff (n : Nat) : (toString (n + 1 : Int)).length ≤ 3 ↔ (n + 1 : Int) < 1000 := by
  have hdigits : toString (n + 1 : Int) = (n + 1).repr := rfl
  rw [hdigits, Nat.length_repr_le_iff (by decide)]
  omega

theorem newline_notMem_gutter (n : Nat) : '\n' ∉ (gutter (n + 1)).toList := by
  have hdigits : toString (n + 1 : Int) = (n + 1).repr := rfl
  rw [gutter, String.toList_append, toList_repeated, hdigits, List.mem_append, not_or]
  constructor
  · simp
  · rw [Nat.repr_eq_ofList_toDigits, String.toList_ofList]
    intro h
    exact absurd (Nat.isDigit_of_mem_toDigits (by decide) (by decide) h) (by decide)

end Margins

theorem sourceRows_eq (span : SourceSpan) (row : List Letter) :
    ∃ sourceRow caretRow, sourceRows span (.ofLetters row) = ["  |", sourceRow, caretRow] ∧
      sourceRow.toList = (gutter span.start.line).toList ++ [' ', '|', ' '] ++ row.map Letter.visible ∧
      caretRow.toList = [' ', ' ', ' ', ' ', '|', ' '] ++ List.replicate (span.start.column - 1).toNat ' ' ++
        List.replicate (caretCount span (.ofLetters row)).toNat '^' := by
  refine ⟨_, _, rfl, ?_, ?_⟩
  · rw [text_ofLetters, String.toList_append, String.toList_append, String.toList_ofList]
    simp
  · rw [String.toList_append, String.toList_append, toList_repeated, toList_repeated]
    rfl

/-- A diagnostic is made of any error with a span whose start is in the text, and shows the row of the start. -/
theorem ofWire_row {source : Value} {text : List Letter} {above below : List (List Letter)} {row : List Letter}
    {k : MappingKind} {entries : List (Value × Value)} {spanWire : Value} {span : SourceSpan}
    (hsource : source.letters? = some text) (hne : text ≠ []) (hrows : RowsOf text (above ++ row :: below))
    (hspan : Value.get? "span" entries = some spanWire) (hread : SourceSpan.ofWire spanWire = .ok span)
    (hline : span.start.line = above.length + 1) :
    ofWire source (.mapping k entries) = .ok
      ⟨((Value.get? "kind" entries).getD (.str "TypeError")).asText,
        ((Value.get? "description" entries).getD (.str "")).asText, .error, some span, some (.ofLetters row),
        []⟩ := by
  have htrue : spanWire.isTruthy := by
    cases spanWire with
    | mapping _ entries =>
      cases entries with
      | nil => cases hread
      | cons _ _ => rfl
    | _ => cases hread
  have hwire : (Value.mapping k entries).atKeyOr "span" .null = .ok spanWire := by
    simp [Value.atKeyOr, Value.entries, Value.entries?, hspan, pure, Except.pure, bind, Except.bind]
  have hrow : sourceLine? source span.start.line = .ok (some (.ofLetters row)) := by
    rw [hline]
    exact sourceLine?_row hsource hne hrows
  unfold ofWire
  rw [hwire]
  simp only [bind, Except.bind, htrue, if_true, hread, hrow, Functor.map, Except.map]
  rfl

/-- The carets under a row come after the margin and the blanks. -/
theorem idxOf_caret (blanks : Nat) {carets : Nat} (h : 0 < carets) :
    ([' ', ' ', ' ', ' ', '|', ' '] ++ List.replicate blanks ' ' ++ List.replicate carets '^').idxOf '^' =
      6 + blanks := by
  obtain ⟨n, rfl⟩ := Nat.exists_eq_succ_of_ne_zero h.ne'
  rw [List.idxOf_append_of_notMem (by simp), List.replicate_succ, List.idxOf_cons_self]
  simp only [List.length_append, List.length_replicate, List.length_cons, List.length_nil]
  omega

theorem count_caret (blanks carets : Nat) :
    ([' ', ' ', ' ', ' ', '|', ' '] ++ List.replicate blanks ' ' ++ List.replicate carets '^').count '^' =
      carets := by
  simp [List.count_append, List.count_replicate]

/-- For an error whose span starts in the text, the row of the start is shown. The first caret stands under the
letter at the offset, or under the end of the row, up to line 999; from there on it stands as many places to the
left as the number of the line has digits beyond three. There are as many carets as the span has columns, or
as the row has left if the span ends on another line, but at least one. -/
theorem carets_under_text {source : Value} {text : List Letter} {above below : List (List Letter)}
    {before after : List Letter} {k : MappingKind} {entries : List (Value × Value)} {spanWire : Value}
    {span : SourceSpan} (hsource : source.letters? = some text) (hne : text ≠ [])
    (hrows : RowsOf text (above ++ (before ++ after) :: below))
    (hspan : Value.get? "span" entries = some spanWire) (hread : SourceSpan.ofWire spanWire = .ok span)
    (hplace : span.start.After above before) :
    ∃ d sourceRow caretRow front,
      ofWire source (.mapping k entries) = .ok d ∧
      d.sourceLine = some (.ofLetters (before ++ after)) ∧
      d.format = "\n".intercalate [d.header, "  |", sourceRow, caretRow] ∧
      '\n' ∉ sourceRow.toList ∧ '\n' ∉ caretRow.toList ∧
      sourceRow.toList = front ++ (before ++ after).map Letter.visible ∧
      sourceRow.toList[front.length + before.length]? =
        (text[span.start.offset.toNat]?.filter (· ≠ .char '\n')).map Letter.visible ∧
      front.length + before.length =
        caretRow.toList.idxOf '^' + ((toString span.start.line).length - 3) ∧
      (caretRow.toList.idxOf '^' = front.length + before.length ↔ span.start.line < 1000) ∧
      caretRow.toList.count '^' =
        if span.start.line = span.stop.line then (max 1 (span.stop.column - span.start.column)).toNat
        else max 1 after.length := by
  obtain ⟨sourceRow, caretRow, hboth, hsourceRow, hcaretRow⟩ := sourceRows_eq span (before ++ after)
  have hblanks : (span.start.column - 1).toNat = before.length := by
    rw [hplace.column]
    omega
  have hcount : (caretCount span (.ofLetters (before ++ after))).toNat =
      if span.start.line = span.stop.line then (max 1 (span.stop.column - span.start.column)).toNat
      else max 1 after.length := by
    have hcolumn := hplace.column
    simp only [caretCount, stopColumn, isOneLine, beq_iff_eq, size?_ofLetters, Option.getD_some,
      List.length_append]
    split <;> omega
  have hpositive : 0 < (caretCount span (.ofLetters (before ++ after))).toNat := by
    rw [caretCount]
    omega
  rw [hblanks] at hcaretRow
  have hfirst : caretRow.toList.idxOf '^' = 6 + before.length := by
    rw [hcaretRow]
    exact idxOf_caret _ hpositive
  have hdigits := length_toString_le_iff above.length
  rw [← hplace.line] at hdigits
  have hfront : ((gutter span.start.line).toList ++ [' ', '|', ' ']).length =
      max 3 (toString span.start.line).length + 3 := by
    rw [List.length_append, String.length_toList, length_gutter]
    rfl
  refine ⟨_, sourceRow, caretRow, (gutter span.start.line).toList ++ [' ', '|', ' '],
    ofWire_row hsource hne hrows hspan hread hplace.line, rfl, ?_, ?_, ?_, hsourceRow, ?_, ?_, ?_, ?_⟩
  · simp only [format, formatWith, rows, if_true, hboth, List.map_nil, List.append_nil]
  · have hrow := newline_notMem_visible (hrows.unbroken (before ++ after) (by simp))
    have hgutter := newline_notMem_gutter above.length
    rw [← hplace.line] at hgutter
    simp only [hsourceRow, List.mem_append, not_or]
    exact ⟨⟨hgutter, by simp⟩, hrow⟩
  · simp [hcaretRow]
  · have hoffset : span.start.offset.toNat = (above.map fun r => r.length + 1).sum + before.length := by
      rw [hplace.offset]
      rfl
    rw [hsourceRow, List.getElem?_append_right (Nat.le_add_right _ _), Nat.add_sub_cancel_left, hoffset,
      getElem?_offset hrows, List.map_append, List.getElem?_append_right (by simp)]
    simp [List.head?_eq_getElem?]
  · rw [hfront, hfirst]
    omega
  · rw [hfront, hfirst, ← hdigits]
    omega
  · rw [hcaretRow, count_caret, hcount]

/-- An error from within the second row on. -/
theorem carets_under_text_second :
    let text := Letter.ofChars "first\nsecond line".toList
    let above := [Letter.ofChars "first".toList]
    let before := Letter.ofChars "se".toList
    let after := Letter.ofChars "cond line".toList
    let span : SourceSpan := ⟨⟨2, 3, 8⟩, ⟨3, 1, 18⟩⟩
    (Value.str "first\nsecond line").letters? = some text ∧ text ≠ [] ∧
    RowsOf text (above ++ (before ++ after) :: []) ∧ SourceSpan.ofWire span.toData = .ok span ∧
    span.start.After above before ∧
    ∃ d sourceRow caretRow, ∃ front : List Char,
      ofWire (.str "first\nsecond line") (.ofFields [("span", span.toData)]) = .ok d ∧
      d.format = "\n".intercalate [d.header, "  |", sourceRow, caretRow] ∧
      caretRow.toList.idxOf '^' = front.length + before.length ∧ caretRow.toList.count '^' = 9 := by
  intro text above before after span
  have hletters : (Value.str "first\nsecond line").letters? = some text := rfl
  have hne : text ≠ [] := by decide
  have hrows : RowsOf text (above ++ (before ++ after) :: []) := ⟨by decide, by decide⟩
  have hspan : Value.get? "span" [(.str "span", span.toData)] = some span.toData := rfl
  have hread : SourceSpan.ofWire span.toData = .ok span := rfl
  have hplace : span.start.After above before := ⟨by decide, by decide, by decide⟩
  obtain ⟨d, sourceRow, caretRow, front, hd, -, hformat, -, -, -, -, -, haligned, hcount⟩ :=
    carets_under_text (k := .plain) hletters hne hrows hspan hread hplace
  exact ⟨hletters, hne, hrows, hread, hplace, d, sourceRow, caretRow, front, hd, hformat,
    haligned.mpr (by decide), hcount⟩

/-- A letter after some empty rows. -/
theorem after_blank (n : Nat) :
    RowsOf (Letter.ofChars (List.replicate n '\n' ++ ['x'])) (List.replicate n [] ++ ([] ++ [.char 'x']) :: []) ∧
      (⟨n + 1, 1, n⟩ : SourceLocation).After (List.replicate n []) [] := by
  refine ⟨⟨?_, ?_⟩, ⟨?_, ?_, ?_⟩⟩
  · rw [intercalate_around]
    simp [Letter.ofChars, List.flatMap_replicate]
  · intro r hr
    rcases List.mem_append.mp hr with hr | hr
    · simp [List.eq_of_mem_replicate hr]
    · simp [List.mem_singleton.mp hr]
  · simp
  · simp
  · simp

/-- On line 1000 the caret stands under the blank before the letter. -/
theorem caret_left_of_text :
    let lines := List.replicate 999 '\n' ++ ['x']
    let span : SourceSpan := ⟨⟨1000, 1, 999⟩, ⟨1000, 2, 1000⟩⟩
    RowsOf (Letter.ofChars lines) (List.replicate 999 [] ++ ([] ++ [.char 'x']) :: []) ∧
    span.start.After (List.replicate 999 []) [] ∧
    ∃ d, ofWire (.str (String.ofList lines)) (.ofFields [("span", span.toData)]) = .ok d ∧
      d.format = "\n".intercalate ["1000:1: error[TypeError]: ", "  |", "1000 | x", "    | ^"] ∧
      "1000 | x".toList.idxOf 'x' = 7 ∧ "    | ^".toList.idxOf '^' = 6 := by
  intro lines span
  obtain ⟨hrows, hplace⟩ := after_blank 999
  have hletters : (Value.str (String.ofList lines)).letters? = some (Letter.ofChars lines) := by
    rw [Value.letters?, String.toList_ofList]
  have hne : Letter.ofChars lines ≠ [] := by
    rw [Letter.ofChars, List.map_append]
    exact List.append_ne_nil_of_right_ne_nil _ (by decide)
  have hspan : Value.get? "span" [(.str "span", span.toData)] = some span.toData := rfl
  have hread : SourceSpan.ofWire span.toData = .ok span := rfl
  refine ⟨hrows, hplace, _, ofWire_row hletters hne hrows hspan hread hplace.line, ?_, ?_, ?_⟩
  · decide
  · decide
  · decide

end Diagnostic

end EngineHost
