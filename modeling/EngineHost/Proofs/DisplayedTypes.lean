import Mathlib
import EngineHost.Proofs.CanonicalTypes
import EngineHost.Proofs.Legibility
import EngineHost.Proofs.Numerals

/-!
What the name of a type tells. A callback that is returned stands without parentheses, the same comma parts the
fields of a record and the parameters of a callback, and an open record ends in a bare mark. Still, types whose
variables and fields are named by words have the same name only if they are the same. The reason is that a text
starts with the name of one type at most, if only what can follow a type may come after it.
-/
namespace EngineHost

/-- Letters, digits and underscores. Beyond ASCII every character counts as a letter. -/
def isWordChar (c : Char) : Bool :=
  c.isAlphanum || c == '_' || 0x80 ≤ c.toNat

/-- A text of letters, digits and underscores, which may be empty. -/
def Value.isWord : Value → Bool
  | .str s => s.toList.all isWordChar
  | _ => false

mutual

/-- The names of the variables and of the record fields in a type. -/
def Ty.labels : Ty → List Value
  | .primitive _ => []
  | .variable name => [name]
  | .list element => element.labels
  | .record fields _ => Ty.labelsOfFields fields
  | .block params returns => Ty.labelsOfList params ++ returns.labels

def Ty.labelsOfList : List Ty → List Value
  | [] => []
  | t :: rest => t.labels ++ Ty.labelsOfList rest

def Ty.labelsOfFields : List (Value × Field) → List Value
  | [] => []
  | (name, .mk t _) :: rest => name :: (t.labels ++ Ty.labelsOfFields rest)

end

/-! ### Words -/

theorem Value.exists_of_isWord {v : Value} (h : v.isWord) :
    ∃ s : String, v = .str s ∧ ∀ c ∈ s.toList, isWordChar c = true := by
  cases v with
  | str s => exact ⟨s, rfl, List.all_eq_true.mp h⟩
  | _ => cases h

theorem Value.isText_of_isWord {v : Value} (h : v.isWord) : v.isText := by
  obtain ⟨s, rfl, -⟩ := exists_of_isWord h
  rfl

/-- Words that are followed by no character of a word can be told from what follows. -/
theorem word_split {v w : Value} {r s : List Char} (hv : v.isWord) (hw : w.isWord)
    (hr : ∀ c ∈ r.head?, isWordChar c = false) (hs : ∀ c ∈ s.head?, isWordChar c = false)
    (h : v.text.toList ++ r = w.text.toList ++ s) : v = w ∧ r = s := by
  obtain ⟨a, rfl, ha⟩ := Value.exists_of_isWord hv
  obtain ⟨b, rfl, hb⟩ := Value.exists_of_isWord hw
  have hword : a.toList = b.toList := by
    rw [← Text.takeWhile_span ha hr, ← Text.takeWhile_span hb hs]
    exact congrArg _ h
  have hrest : r = s := by
    rw [← Text.dropWhile_span ha hr, ← Text.dropWhile_span hb hs]
    exact congrArg _ h
  exact ⟨congrArg Value.str (String.toList_inj.mp hword), hrest⟩

/-! ### Enumerations -/

/-- What may follow a type or a part of one: nothing, or one of the marks that end it. -/
def Delimited (rest : List Char) : Prop :=
  ∀ c ∈ rest.head?, c = ',' ∨ c = '>' ∨ c = ')' ∨ c = '\x7d'

theorem Delimited.not_isWordChar {rest : List Char} (h : Delimited rest) : ∀ c ∈ rest.head?, isWordChar c = false := by
  intro c hc
  rcases h c hc with rfl | rfl | rfl | rfl <;> decide

theorem delimited_cons {c : Char} (hc : c = ',' ∨ c = '>' ∨ c = ')' ∨ c = '\x7d') (rest : List Char) :
    Delimited (c :: rest) := by
  intro d hd
  obtain rfl : c = d := by simpa using hd
  exact hc

section Enumerations

variable {α : Type} {write : α → String} {close : Char} {xs ys : List α} {r s : List Char}

/-- Neither of the two is taken for the other at the start of a text: whatever may follow them, a text starts with both
only if they are the same. -/
def Discernible (write : α → String) (x y : α) : Prop :=
  ∀ ⦃r s : List Char⦄, Delimited r → Delimited s →
    (write x).toList ++ r = (write y).toList ++ s → x = y ∧ r = s

theorem Discernible.symm {x y : α} (h : Discernible write x y) : Discernible write y x := by
  intro r s hr hs htext
  obtain ⟨heq, hrest⟩ := h hs hr htext.symm
  exact ⟨heq.symm, hrest.symm⟩

/-- A text that starts with some other character. -/
def OpensWithout (c : Char) (text : String) : Prop :=
  ∃ d rest, text.toList = d :: rest ∧ d ≠ c

/-- How an enumeration goes on after an item: with a comma and the next one, or with the mark that closes it. -/
def continued (write : α → String) (close : Char) (r : List Char) : List α → List Char
  | [] => close :: r
  | x :: rest => ',' :: ' ' :: ((write x).toList ++ continued write close r rest)

theorem commaSeparated_cons (x : α) (rest : List α) :
    (commaSeparated ((x :: rest).map write)).toList ++ close :: r =
      (write x).toList ++ continued write close r rest := by
  induction rest generalizing x with
  | nil => simp [commaSeparated, continued]
  | cons y rest ih =>
    rw [continued, ← ih y]
    simp [commaSeparated, String.intercalate_cons_cons]

theorem delimited_continued (hclose : close = ')' ∨ close = '\x7d') : Delimited (continued write close r xs) := by
  cases xs with
  | nil => exact delimited_cons (.inr (.inr hclose)) r
  | cons x rest => exact delimited_cons (.inl rfl) _

/-- From item to item: the first two are the same, and so is what follows them. -/
theorem following_inj {x y : α} (hclose : close = ')' ∨ close = '\x7d')
    (hitems : ∀ a ∈ x :: xs, ∀ b ∈ y :: ys, Discernible write a b)
    (h : (write x).toList ++ continued write close r xs = (write y).toList ++ continued write close s ys) :
    x :: xs = y :: ys ∧ r = s := by
  -- No closing mark is a comma, so neither of the two ends before the other.
  have hcomma : close ≠ ',' := by
    rcases hclose with rfl | rfl <;> decide
  induction xs generalizing x y ys with
  | nil =>
    obtain ⟨rfl, hrest⟩ := hitems x (by simp) y (by simp) (delimited_continued hclose) (delimited_continued hclose) h
    cases ys with
    | nil => exact ⟨rfl, (List.cons.inj hrest).2⟩
    | cons y' ys => exact absurd (List.cons.inj hrest).1 hcomma
  | cons x' xs ih =>
    obtain ⟨rfl, hrest⟩ := hitems x (by simp) y (by simp) (delimited_continued hclose) (delimited_continued hclose) h
    cases ys with
    | nil => exact absurd (List.cons.inj hrest).1.symm hcomma
    | cons y' ys =>
      have hlater : ∀ a ∈ x' :: xs, ∀ b ∈ y' :: ys, Discernible write a b := fun a ha b hb =>
        hitems a (List.mem_cons_of_mem _ ha) b (List.mem_cons_of_mem _ hb)
      have hnext : (write x').toList ++ continued write close r xs =
          (write y').toList ++ continued write close s ys := by
        simpa [continued] using hrest
      obtain ⟨heq, hends⟩ := ih hlater hnext
      exact ⟨congrArg (List.cons x) heq, hends⟩

/-- Whole enumerations can be told if their items can, and if none of these starts with the mark that closes them. -/
theorem enumeration_inj (hclose : close = ')' ∨ close = '\x7d')
    (hitems : ∀ x ∈ xs, ∀ y ∈ ys, Discernible write x y)
    (hxs : ∀ x ∈ xs, OpensWithout close (write x)) (hys : ∀ y ∈ ys, OpensWithout close (write y))
    (h : (commaSeparated (xs.map write)).toList ++ close :: r =
      (commaSeparated (ys.map write)).toList ++ close :: s) : xs = ys ∧ r = s := by
  cases xs with
  | nil =>
    cases ys with
    | nil => exact ⟨rfl, by simpa [commaSeparated] using h⟩
    | cons y ys =>
      obtain ⟨c, rest, hc, hne⟩ := hys y (by simp)
      rw [commaSeparated_cons, hc] at h
      have hfirst : close = c := by simpa [commaSeparated] using (List.cons.inj h).1
      exact absurd hfirst.symm hne
  | cons x xs =>
    cases ys with
    | nil =>
      obtain ⟨c, rest, hc, hne⟩ := hxs x (by simp)
      rw [commaSeparated_cons, hc] at h
      exact absurd (List.cons.inj h).1 hne
    | cons y ys =>
      rw [commaSeparated_cons, commaSeparated_cons] at h
      exact following_inj hclose hitems h

end Enumerations

namespace Ty

/-! ### What is known of a type that was read -/

theorem mem_labelsOfList {ts : List Ty} {label : Value} :
    label ∈ labelsOfList ts ↔ ∃ t ∈ ts, label ∈ t.labels := by
  induction ts with
  | nil => simp [labelsOfList]
  | cons t rest ih => simp [labelsOfList, ih]

theorem mem_labelsOfFields {fields : List (Value × Field)} {label : Value} :
    label ∈ labelsOfFields fields ↔ ∃ f ∈ fields, label = f.1 ∨ label ∈ f.2.type.labels := by
  induction fields with
  | nil => simp [labelsOfFields]
  | cons f rest ih =>
    obtain ⟨name, t, isOptional⟩ := f
    simp [labelsOfFields, ih, Field.type, or_assoc]

/-- Variables and fields are named by words. -/
def Worded (t : Ty) : Prop :=
  ∀ label ∈ t.labels, label.isWord

instance (t : Ty) : Decidable t.Worded :=
  inferInstanceAs (Decidable (∀ label ∈ t.labels, label.isWord = true))

theorem worded_fields {fields : List (Value × Field)} (h : ∀ label ∈ labelsOfFields fields, label.isWord) :
    ∀ f ∈ fields, f.1.isWord ∧ f.2.type.Worded := by
  intro f hf
  exact ⟨h f.1 (mem_labelsOfFields.mpr ⟨f, hf, .inl rfl⟩),
    fun label hlabel => h label (mem_labelsOfFields.mpr ⟨f, hf, .inr hlabel⟩)⟩

theorem worded_list {ts : List Ty} (h : ∀ label ∈ labelsOfList ts, label.isWord) : ∀ t ∈ ts, t.Worded :=
  fun t ht label hlabel => h label (mem_labelsOfList.mpr ⟨t, ht, hlabel⟩)

/-- What is read from a wire form is regular, if its names are words. -/
theorem regular_ofWire (w : Value) (t : Ty) (h : ofWire w = .ok t) (hwords : t.Worded) : t.Regular := by
  have inner : ∀ u, ReadInside w u → u.Worded → u.Regular := by
    intro u hread hu
    obtain ⟨part, hpart, hread⟩ := hread
    have := hpart.smaller
    exact regular_ofWire part u hread hu
  -- Reading puts the fields of a record in order. As their names are texts, that is the order they stay in.
  cases reading_ofWire h with
  | primitive hp => exact hp
  | «variable» hname => exact hname
  | @list element hread => exact inner element hread hwords
  | @record fields extensible _ _ hflags hfields hsorted =>
    obtain ⟨sorted, _, hperm, rfl⟩ := ofFields_eq_ok hsorted
    have hparts := worded_fields hwords
    refine regular_ofFields ((regularFields_iff fields).mpr fun f hf => ?_) hsorted
    obtain ⟨hname, htype⟩ := hparts f (hperm.symm.subset hf)
    exact ⟨Value.isText_of_isWord hname, inner _ (hfields f hf) htype, hflags f hf⟩
  | @block params returns hparams hreturns =>
    obtain ⟨hps, hr⟩ := List.forall_mem_append.mp hwords
    refine ⟨(regularList_iff params).mpr fun p hp => ?_, inner _ hreturns hr⟩
    exact inner p (hparams p hp) (worded_list hps p hp)
termination_by sizeOf w

/-- A regular type in which names are words. -/
structure Plain (t : Ty) : Prop where
  regular : t.Regular
  words : t.Worded

namespace Plain

variable {p : Primitive} {label extensible : Value} {element returns : Ty} {params : List Ty}
  {fields : List (Value × Field)}

theorem of_primitive (h : (Ty.primitive p).Plain) : p = .string ∨ p = .boolean ∨ p = .number ∨ p = .time := by
  have htag : Primitive.ofTag? p.tag = some p := h.regular
  unfold Primitive.ofTag? at htag
  split at htag <;> cases htag <;> simp

theorem of_variable (h : (Ty.variable label).Plain) : label.isWord :=
  h.words label (by simp [labels])

theorem of_list (h : (Ty.list element).Plain) : element.Plain :=
  ⟨h.regular, h.words⟩

theorem of_record (h : (Ty.record fields extensible).Plain) :
    ∀ f ∈ fields, f.1.isWord ∧ f.2.type.Plain ∧ ∃ b, f.2.isOptional = .bool b := by
  intro f hf
  obtain ⟨-, hregular, hflag⟩ := (regularFields_iff fields).mp h.regular.2.2 f hf
  obtain ⟨hname, htype⟩ := worded_fields h.words f hf
  exact ⟨hname, ⟨hregular, htype⟩, hflag⟩

theorem params_of_block (h : (Ty.block params returns).Plain) : ∀ p ∈ params, p.Plain := by
  intro p hp
  exact ⟨(regularList_iff params).mp h.regular.1 p hp,
    worded_list (List.forall_mem_append.mp h.words).1 p hp⟩

theorem returns_of_block (h : (Ty.block params returns).Plain) : returns.Plain :=
  ⟨h.regular.2, (List.forall_mem_append.mp h.words).2⟩

end Plain

/-! ### Names -/

/-- The first character of the name. -/
def initial : Ty → Char
  | .primitive p => p.name.toList.headD ' '
  | .variable _ => Text.apostrophe
  | .list _ => 'l'
  | .record _ _ => '\x7b'
  | .block _ _ => '('

/-- Built in the same way, and if they have no parts then the same. -/
def Alike : Ty → Ty → Prop
  | .primitive p, .primitive q => p = q
  | .variable _, .variable _ => True
  | .list _, .list _ => True
  | .record _ _, .record _ _ => True
  | .block _ _, .block _ _ => True
  | _, _ => False

/-- An item in the name of a record: a field, or nothing for the mark of an open one. -/
def itemText : Option (Value × Field) → String
  | none => "..."
  | some (label, .mk t isOptional) =>
    label.text ++ (if isOptional.isTruthy then "?" else "") ++ ": " ++ t.name

def items (fields : List (Value × Field)) (isOpen : Bool) : List (Option (Value × Field)) :=
  fields.map some ++ if isOpen then [none] else []

theorem names_eq_map (ts : List Ty) : names ts = ts.map name := by
  induction ts with
  | nil => rfl
  | cons t rest ih => simp [names, ih]

theorem fieldNames_eq_map (fields : List (Value × Field)) :
    fieldNames fields = fields.map fun f => itemText (some f) := by
  induction fields with
  | nil => rfl
  | cons f rest ih =>
    obtain ⟨label, t, isOptional⟩ := f
    rw [fieldNames, ih]
    rfl

theorem toList_name_variable (label : Value) :
    (Ty.variable label).name.toList = Text.apostrophe :: label.text.toList := by
  simp [name, Text.apostrophe]

theorem toList_name_list (element : Ty) :
    (Ty.list element).name.toList = 'l' :: 'i' :: 's' :: 't' :: '<' :: (element.name.toList ++ ['>']) := by
  simp [name]

theorem toList_name_record (fields : List (Value × Field)) (isOpen : Bool) :
    (Ty.record fields (.bool isOpen)).name.toList =
      '\x7b' :: ((commaSeparated ((items fields isOpen).map itemText)).toList ++ ['\x7d']) := by
  have hitems : (items fields isOpen).map itemText =
      fieldNames fields ++ if isOpen then ["..."] else [] := by
    rw [items, List.map_append, List.map_map, fieldNames_eq_map]
    cases isOpen <;> rfl
  rw [hitems]
  cases isOpen <;> simp [name, braced, Value.isTruthy]

theorem toList_name_block (params : List Ty) (returns : Ty) :
    (Ty.block params returns).name.toList =
      '(' :: ((commaSeparated (params.map name)).toList ++
        ')' :: ' ' :: '-' :: '>' :: ' ' :: returns.name.toList) := by
  simp [name, names_eq_map]

section

variable {t u : Ty}

theorem Plain.name_eq_cons (ht : t.Plain) : ∃ rest, t.name.toList = t.initial :: rest := by
  cases t with
  | primitive p => rcases ht.of_primitive with rfl | rfl | rfl | rfl <;> exact ⟨_, rfl⟩
  | «variable» label => exact ⟨_, toList_name_variable label⟩
  | list element => exact ⟨_, toList_name_list element⟩
  | record fields extensible =>
    obtain ⟨b, rfl⟩ := ht.regular.2.1
    exact ⟨_, toList_name_record fields b⟩
  | block params returns => exact ⟨_, toList_name_block params returns⟩

/-- The first character tells how a type is built, and which primitive it is. -/
theorem Plain.alike (ht : t.Plain) (hu : u.Plain) (h : t.initial = u.initial) : t.Alike u := by
  have hprimitive : ∀ {p : Primitive}, (Ty.primitive p).Plain →
      (Ty.primitive p).initial ∈ ['s', 'b', 'n', 't'] := by
    intro p hp
    rcases hp.of_primitive with rfl | rfl | rfl | rfl <;> decide
  cases t with
  | primitive p =>
    have hp := hprimitive ht
    cases u with
    | primitive q =>
      rcases ht.of_primitive with rfl | rfl | rfl | rfl <;>
        rcases hu.of_primitive with rfl | rfl | rfl | rfl <;> first | rfl | exact absurd h (by decide)
    | _ =>
      rw [h] at hp
      exact absurd hp (by simp [initial, Text.apostrophe])
  | _ =>
    cases u with
    | primitive q =>
      have hq := hprimitive hu
      rw [← h] at hq
      exact absurd hq (by simp [initial, Text.apostrophe])
    | _ => first | trivial | exact absurd h (by simp [initial, Text.apostrophe])

/-- No type starts with the parenthesis that closes the parameters of a callback. -/
theorem Plain.opensWithout (ht : t.Plain) : OpensWithout ')' t.name := by
  obtain ⟨rest, hrest⟩ := ht.name_eq_cons
  refine ⟨t.initial, rest, hrest, ?_⟩
  cases t with
  | primitive p => rcases ht.of_primitive with rfl | rfl | rfl | rfl <;> decide
  | _ => simp [initial, Text.apostrophe]

end

/-! ### Items of a record -/

section

variable {f g : Value × Field} {fields fields' : List (Value × Field)} {isOpen isOpen' : Bool}

theorem items_inj (h : items fields isOpen = items fields' isOpen') : fields = fields' ∧ isOpen = isOpen' := by
  have hfields : ∀ (fs : List (Value × Field)) b, (items fs b).reduceOption = fs := by
    intro fs b
    cases b <;> simp [items, List.reduceOption]
  have hmark : ∀ (fs : List (Value × Field)) b, none ∈ items fs b ↔ b = true := by
    intro fs b
    cases b <;> simp [items]
  refine ⟨?_, ?_⟩
  · rw [← hfields fields isOpen, h, hfields]
  · rw [Bool.eq_iff_iff, ← hmark fields, h, hmark]

theorem forall_mem_items {P : Option (Value × Field) → Prop} (hmark : P none) (hfields : ∀ f ∈ fields, P (some f)) :
    ∀ x ∈ items fields isOpen, P x := by
  intro x hx
  cases x with
  | none => exact hmark
  | some f =>
    have hf : f ∈ fields := by
      cases isOpen <;> simpa [items] using hx
    exact hfields f hf

/-- What follows the label of a field. -/
def afterLabel : Bool → List Char → List Char
  | true, rest => '?' :: ':' :: ' ' :: rest
  | false, rest => ':' :: ' ' :: rest

theorem toList_itemText (label : Value) (t : Ty) (isOptional : Value) (rest : List Char) :
    (itemText (some (label, .mk t isOptional))).toList ++ rest =
      label.text.toList ++ afterLabel isOptional.isTruthy (t.name.toList ++ rest) := by
  cases hflag : isOptional.isTruthy <;> simp [itemText, afterLabel, hflag]

theorem afterLabel_eq_cons (isOptional : Bool) (rest : List Char) :
    ∃ c more, afterLabel isOptional rest = c :: more ∧ (c = '?' ∨ c = ':') := by
  cases isOptional with
  | true => exact ⟨'?', _, rfl, .inl rfl⟩
  | false => exact ⟨':', _, rfl, .inr rfl⟩

theorem afterLabel_not_isWordChar (isOptional : Bool) (rest : List Char) :
    ∀ c ∈ (afterLabel isOptional rest).head?, isWordChar c = false := by
  obtain ⟨c, more, htext, hc⟩ := afterLabel_eq_cons isOptional rest
  rw [htext]
  intro d hd
  obtain rfl : c = d := by simpa using hd
  rcases hc with rfl | rfl <;> decide

theorem afterLabel_inj {b c : Bool} {r s : List Char} (h : afterLabel b r = afterLabel c s) : b = c ∧ r = s := by
  cases b with
  | true =>
    cases c with
    | true => exact ⟨rfl, by simpa [afterLabel] using h⟩
    | false => exact absurd h (by simp [afterLabel])
  | false =>
    cases c with
    | true => exact absurd h (by simp [afterLabel])
    | false => exact ⟨rfl, by simpa [afterLabel] using h⟩

/-- A field starts with a character of a word, or with one of the marks after its label. -/
theorem field_opensWithout {c : Char} (hf : f.1.isWord) (hword : isWordChar c = false) (hmark : c ≠ '?' ∧ c ≠ ':') :
    OpensWithout c (itemText (some f)) := by
  obtain ⟨label, t, isOptional⟩ := f
  obtain ⟨word, rfl, hchars⟩ := Value.exists_of_isWord hf
  have htext := toList_itemText (.str word) t isOptional []
  rw [List.append_nil, Value.text] at htext
  cases hcases : word.toList with
  | nil =>
    obtain ⟨d, more, hafter, hd⟩ := afterLabel_eq_cons isOptional.isTruthy (t.name.toList ++ [])
    rw [hcases, hafter, List.nil_append] at htext
    refine ⟨d, more, htext, ?_⟩
    rcases hd with rfl | rfl
    · exact hmark.1.symm
    · exact hmark.2.symm
  | cons d rest =>
    rw [hcases, List.cons_append] at htext
    refine ⟨d, _, htext, ?_⟩
    rintro rfl
    have hd := hchars d (by simp [hcases])
    rw [hword] at hd
    cases hd

/-- No item of a record starts with the brace that closes it. -/
theorem items_opensWithout (hfields : ∀ f ∈ fields, f.1.isWord) :
    ∀ x ∈ items fields isOpen, OpensWithout '\x7d' (itemText x) := by
  apply forall_mem_items
  · exact ⟨'.', _, rfl, by decide⟩
  · exact fun f hf => field_opensWithout (hfields f hf) (by decide) (by decide)

/-- Fields can be told if their types can: the label ends where the first mark is, and a question mark is no colon. -/
theorem field_discernible (hf : f.1.isWord) (hg : g.1.isWord) (hfflag : ∃ b, f.2.isOptional = .bool b)
    (hgflag : ∃ b, g.2.isOptional = .bool b) (htypes : Discernible name f.2.type g.2.type) :
    Discernible itemText (some f) (some g) := by
  obtain ⟨label, t, isOptional⟩ := f
  obtain ⟨label', u, isOptional'⟩ := g
  obtain ⟨b, rfl⟩ : ∃ b, isOptional = .bool b := hfflag
  obtain ⟨c, rfl⟩ : ∃ c, isOptional' = .bool c := hgflag
  intro r s hr hs h
  -- Label, mark and type, from the front.
  rw [toList_itemText, toList_itemText] at h
  obtain ⟨rfl, hafter⟩ := word_split hf hg (afterLabel_not_isWordChar _ _) (afterLabel_not_isWordChar _ _) h
  obtain ⟨hflag, hname⟩ := afterLabel_inj hafter
  obtain rfl : b = c := hflag
  obtain ⟨htype, hrest⟩ := htypes hr hs hname
  obtain rfl : t = u := htype
  exact ⟨rfl, hrest⟩

/-- The mark of an open record is no field: no word and no mark after a label starts with a point. -/
theorem mark_discernible (hg : g.1.isWord) : Discernible itemText none (some g) := by
  intro r s _ _ h
  obtain ⟨c, rest, htext, hne⟩ : OpensWithout '.' (itemText (some g)) := field_opensWithout hg (by decide) (by decide)
  rw [htext] at h
  exact absurd (List.cons.inj h).1.symm hne

theorem items_discernible (hfields : ∀ f ∈ fields, ∀ g ∈ fields', Discernible itemText (some f) (some g))
    (hwords : ∀ f ∈ fields, f.1.isWord) (hwords' : ∀ g ∈ fields', g.1.isWord) :
    ∀ x ∈ items fields isOpen, ∀ y ∈ items fields' isOpen', Discernible itemText x y := by
  apply forall_mem_items
  · apply forall_mem_items
    · intro r s _ _ h
      exact ⟨rfl, List.append_cancel_left h⟩
    · exact fun g hg => mark_discernible (hwords' g hg)
  · intro f hf
    apply forall_mem_items
    · exact (mark_discernible (hwords f hf)).symm
    · exact hfields f hf

end

/-! ### Types -/

section

variable {t u element element' returns returns' : Ty} {fields fields' : List (Value × Field)}
  {params params' : List Ty} {isOpen isOpen' : Bool}

/-- Types that are not alike differ in the first character. -/
theorem discernible_of_alike (ht : t.Plain) (hu : u.Plain) (h : t.Alike u → Discernible name t u) :
    Discernible name t u := by
  intro r s hr hs htext
  have halike : t.Alike u := by
    obtain ⟨rest, hrest⟩ := ht.name_eq_cons
    obtain ⟨rest', hrest'⟩ := hu.name_eq_cons
    rw [hrest, hrest'] at htext
    exact ht.alike hu (List.cons.inj htext).1
  exact h halike hr hs htext

theorem variable_discernible {label label' : Value} (hlabel : label.isWord) (hlabel' : label'.isWord) :
    Discernible name (.variable label) (.variable label') := by
  intro r s hr hs h
  rw [toList_name_variable, toList_name_variable] at h
  obtain ⟨rfl, hrest⟩ := word_split hlabel hlabel' hr.not_isWordChar hs.not_isWordChar (List.cons.inj h).2
  exact ⟨rfl, hrest⟩

theorem list_discernible (helement : Discernible name element element') :
    Discernible name (.list element) (.list element') := by
  intro r s _ _ h
  have hinner : element.name.toList ++ '>' :: r = element'.name.toList ++ '>' :: s := by
    simpa [toList_name_list] using h
  obtain ⟨rfl, hrest⟩ := helement (delimited_cons (by simp) r) (delimited_cons (by simp) s) hinner
  exact ⟨rfl, (List.cons.inj hrest).2⟩

theorem record_discernible (hwords : ∀ f ∈ fields, f.1.isWord) (hwords' : ∀ g ∈ fields', g.1.isWord)
    (hfields : ∀ f ∈ fields, ∀ g ∈ fields', Discernible itemText (some f) (some g)) :
    Discernible name (.record fields (.bool isOpen)) (.record fields' (.bool isOpen')) := by
  intro r s _ _ h
  have hinner : (commaSeparated ((items fields isOpen).map itemText)).toList ++ '\x7d' :: r =
      (commaSeparated ((items fields' isOpen').map itemText)).toList ++ '\x7d' :: s := by
    simpa [toList_name_record] using h
  obtain ⟨hitems, hrest⟩ := enumeration_inj (.inr rfl) (items_discernible hfields hwords hwords')
    (items_opensWithout hwords) (items_opensWithout hwords') hinner
  obtain ⟨rfl, rfl⟩ := items_inj hitems
  exact ⟨rfl, hrest⟩

/-- What is returned comes last, so what may follow it is what may follow the callback. -/
theorem block_discernible (hplain : ∀ p ∈ params, p.Plain) (hplain' : ∀ q ∈ params', q.Plain)
    (hparams : ∀ p ∈ params, ∀ q ∈ params', Discernible name p q) (hreturns : Discernible name returns returns') :
    Discernible name (.block params returns) (.block params' returns') := by
  intro r s hr hs h
  have hinner : (commaSeparated (params.map name)).toList ++
        ')' :: (' ' :: '-' :: '>' :: ' ' :: (returns.name.toList ++ r)) =
      (commaSeparated (params'.map name)).toList ++
        ')' :: (' ' :: '-' :: '>' :: ' ' :: (returns'.name.toList ++ s)) := by
    simpa [toList_name_block] using h
  obtain ⟨rfl, hrest⟩ := enumeration_inj (.inl rfl) hparams (fun p hp => (hplain p hp).opensWithout)
    (fun q hq => (hplain' q hq).opensWithout) hinner
  have hlast : returns.name.toList ++ r = returns'.name.toList ++ s := by
    simpa using hrest
  obtain ⟨rfl, hends⟩ := hreturns hr hs hlast
  exact ⟨rfl, hends⟩

end

theorem sizeOf_type_lt {f : Value × Field} {fields : List (Value × Field)} (hf : f ∈ fields) (extensible : Value) :
    sizeOf f.2.type < sizeOf (Ty.record fields extensible) := by
  have hsmaller := List.sizeOf_lt_of_mem hf
  obtain ⟨label, t, isOptional⟩ := f
  simp only [Prod.mk.sizeOf_spec, Field.mk.sizeOf_spec] at hsmaller
  simp only [Field.type, Ty.record.sizeOf_spec]
  omega

/-- The names of two types are not taken for each other. The induction is on the first type. -/
theorem discernible (t u : Ty) (ht : t.Plain) (hu : u.Plain) : Discernible name t u := by
  refine discernible_of_alike ht hu fun halike => ?_
  cases t with
  | primitive p =>
    cases u with
    | primitive q =>
      obtain rfl : p = q := halike
      intro r s _ _ h
      exact ⟨rfl, List.append_cancel_left h⟩
    | _ => exact halike.elim
  | «variable» label =>
    cases u with
    | «variable» label' => exact variable_discernible ht.of_variable hu.of_variable
    | _ => exact halike.elim
  | list element =>
    cases u with
    | list element' => exact list_discernible (discernible element element' ht.of_list hu.of_list)
    | _ => exact halike.elim
  | record fields extensible =>
    cases u with
    | record fields' extensible' =>
      obtain ⟨b, hb⟩ := ht.regular.2.1
      obtain ⟨c, hc⟩ := hu.regular.2.1
      rw [hb, hc]
      refine record_discernible (fun f hf => (ht.of_record f hf).1) (fun g hg => (hu.of_record g hg).1) ?_
      intro f hf g hg
      obtain ⟨hname, htype, hflag⟩ := ht.of_record f hf
      obtain ⟨hname', htype', hflag'⟩ := hu.of_record g hg
      -- For the recursion.
      have hsmaller := sizeOf_type_lt hf extensible
      exact field_discernible hname hname' hflag hflag' (discernible f.2.type g.2.type htype htype')
    | _ => exact halike.elim
  | block params returns =>
    cases u with
    | block params' returns' =>
      refine block_discernible ht.params_of_block hu.params_of_block ?_
        (discernible returns returns' ht.returns_of_block hu.returns_of_block)
      intro p hp q hq
      have hsmaller := List.sizeOf_lt_of_mem hp
      exact discernible p q (ht.params_of_block p hp) (hu.params_of_block q hq)
    | _ => exact halike.elim
termination_by sizeOf t

end Ty

/-- Types are shown without ambiguity. Types that are read from wire forms and in which variables and fields are
named by words have the same name exactly if they are equal, and then they are one and the same. -/
theorem name_eq_iff_equals {v w : Value} {t u : Ty} (ht : Ty.ofWire v = .ok t) (hu : Ty.ofWire w = .ok u)
    (htwords : t.Worded) (huwords : u.Worded) :
    (t.name = u.name ↔ t.equals u) ∧ (t.equals u ↔ t = u) := by
  have htplain : t.Plain := ⟨Ty.regular_ofWire v t ht htwords, htwords⟩
  have huplain : u.Plain := ⟨Ty.regular_ofWire w u hu huwords, huwords⟩
  have hequals : t.equals u ↔ t = u := Ty.equals_iff htplain.regular huplain.regular
  have hend : Delimited [] := by simp [Delimited]
  refine ⟨?_, hequals⟩
  rw [hequals]
  constructor
  · intro h
    have hnames : t.name.toList ++ [] = u.name.toList ++ [] := by rw [h]
    exact (Ty.discernible t u htplain huplain hend hend hnames).1
  · exact congrArg Ty.name

/-- The wire form of a callback that takes an open record and returns a callback. -/
def handlerWire (fields : List (Value × Value)) : Value :=
  Ty.tagged "Block" (.list
    [ .list [Ty.tagged "Record" (.list [.bool true, .mapping .plain fields]), .str "Time"],
      Ty.tagged "Block" (.list [.list [], Ty.tagged "List" (Ty.tagged "Var" (.str "größe"))]) ])

/-- A field that does not say that it is required, and an optional callback. -/
def looseFields : List (Value × Value) :=
  [ (.str "to_2", .ofFields [("output", .str "Str")]),
    (.str "on",
      .ofFields [("output", Ty.tagged "Block" (.list [.list [], .str "Num"])), ("optional", .bool true)]) ]

def strictFields : List (Value × Value) :=
  [ (.str "on",
      .ofFields [("optional", .bool true), ("output", Ty.tagged "Block" (.list [.list [], .str "Num"]))]),
    (.str "to_2", .ofFields [("optional", .bool false), ("output", .str "Str")]) ]

def handler : Ty :=
  .block
    [ .record
        [ (.str "on", .mk (.block [] (.primitive .number)) (.bool true)),
          (.str "to_2", .mk (.primitive .string) (.bool false)) ] (.bool true),
      .primitive .time ]
    (.block [] (.list (.variable (.str "größe"))))

theorem name_eq_iff_equals_handler :
    ∃ t u, Ty.ofWire (handlerWire looseFields) = .ok t ∧ Ty.ofWire (handlerWire strictFields) = .ok u ∧
      t.Worded ∧ u.Worded ∧
      t.name = "(\x7bon?: () -> number, to_2: string, ...\x7d, time) -> () -> list<'größe>" ∧
      u.name = t.name ∧ t.equals u ∧ t = u := by
  have hloose : Ty.ofWire (handlerWire looseFields) = .ok handler := by cbv
  have hstrict : Ty.ofWire (handlerWire strictFields) = .ok handler := by cbv
  have hwords : handler.Worded := by decide
  obtain ⟨hname, hsame⟩ := name_eq_iff_equals hloose hstrict hwords hwords
  exact ⟨handler, handler, hloose, hstrict, hwords, hwords, by cbv, rfl, hname.mp rfl, hsame.mp (hname.mp rfl)⟩

end EngineHost
