import Mathlib.Data.List.Nodup
import EngineHost.Proofs.Names

/-!
Types whose wire form can be read: their primitives are known, their variables are named by texts, and the
fields of every record stand in strict order. Whatever is read from a wire form is such a type, if the
names in it can be put in order at all.
-/
namespace EngineHost

open Text

namespace Sorting

variable {α : Type} {precedes : Comparison α}

theorem orderedFront_perm {xs front rest : List α}
    (h : orderedFront precedes xs = some (front, rest)) : (front ++ rest).Perm xs := by
  match xs, h with
  | [], h =>
    obtain ⟨rfl, rfl⟩ := Prod.mk.inj (Option.some.inj h)
    exact .refl _
  | [x], h =>
    obtain ⟨rfl, rfl⟩ := Prod.mk.inj (Option.some.inj h)
    exact .refl _
  | x :: y :: zs, h =>
    obtain ⟨descending, _, h⟩ := Option.bind_eq_some_iff.mp h
    obtain ⟨n, _, h⟩ := Option.bind_eq_some_iff.mp h
    obtain ⟨rfl, rfl⟩ := Prod.mk.inj (Option.some.inj h)
    have hparts : ((x :: y :: zs).take (n + 2) ++ (x :: y :: zs).drop (n + 2)).Perm (x :: y :: zs) :=
      .of_eq (List.take_append_drop _ _)
    split
    · exact ((List.reverse_perm _).append_right _).trans hparts
    · exact hparts

theorem place_le {x : α} {sorted : List α} (fuel : Nat) :
    ∀ low high i, place precedes x sorted fuel low high = some i → low ≤ high → i ≤ high := by
  induction fuel with
  | zero =>
    intro low high i h hle
    obtain rfl := Option.some.inj h
    exact hle
  | succ fuel ih =>
    intro low high i h hle
    rw [place] at h
    split at h
    · dsimp only at h
      split at h
      · obtain rfl := Option.some.inj h
        exact hle
      · obtain ⟨before, _, h⟩ := Option.bind_eq_some_iff.mp h
        split at h
        · have := ih _ _ _ h (by omega)
          omega
        · exact ih _ _ _ h (by omega)
    · obtain rfl := Option.some.inj h
      exact hle

theorem insertInto_perm {sorted ys : List α} {x : α} (h : insertInto precedes sorted x = some ys) :
    ys.Perm (x :: sorted) := by
  obtain ⟨i, hi, h⟩ := Option.bind_eq_some_iff.mp h
  obtain rfl := Option.some.inj h
  exact List.perm_insertIdx x sorted (place_le _ _ _ _ hi (Nat.zero_le _))

theorem foldlM_insertInto_perm (rest : List α) :
    ∀ sorted ys, rest.foldlM (insertInto precedes) sorted = some ys → ys.Perm (sorted ++ rest) := by
  induction rest with
  | nil =>
    intro sorted ys h
    obtain rfl := Option.some.inj h
    exact .of_eq (List.append_nil _).symm
  | cons x rest ih =>
    intro sorted ys h
    rw [List.foldlM_cons] at h
    obtain ⟨more, hmore, h⟩ := Option.bind_eq_some_iff.mp h
    exact (ih more ys h).trans
      (((insertInto_perm hmore).append_right rest).trans List.perm_middle.symm)

/-- Whatever the comparison answers, sorting loses nothing and adds nothing. -/
theorem sort?_perm {xs ys : List α} (h : sort? precedes xs = some ys) : ys.Perm xs := by
  obtain ⟨⟨front, rest⟩, hfront, h⟩ := Option.bind_eq_some_iff.mp h
  exact (foldlM_insertInto_perm rest front ys h).trans (orderedFront_perm hfront)

end Sorting

/-- The keys of one mapping: no two are equal, and no two texts have the same letters. -/
def Value.Distinct (keys : List Value) : Prop :=
  keys.Pairwise fun a b => ¬ a.equals b ∧ (a.isText → b.isText → a.codes ≠ b.codes)

/-- Names that compare like points on a line, as different texts do. -/
def Value.Lined (names : List Value) : Prop :=
  ∃ (κ : Type) (_ : LinearOrder κ) (rank : Value → κ), ∀ a ∈ names, ∀ b ∈ names,
    a.less? b = some (decide (rank a < rank b)) ∧ (a.equals b ↔ rank a = rank b)

/-- Every name comes before the later ones and equals none of them. -/
def Value.Ascending (names : List Value) : Prop :=
  names.Pairwise fun a b => a.less? b = some true ∧ ¬ a.equals b

section Names

variable {α : Type}

theorem Value.lined_texts {names : List Value} (htext : ∀ n ∈ names, n.isText)
    (hdistinct : Value.Distinct names) : Value.Lined names := by
  have hcodes : (names.map Value.codes).Nodup :=
    List.pairwise_map.mpr (hdistinct.imp_of_mem fun ha hb h => h.2 (htext _ ha) (htext _ hb))
  refine ⟨List Nat, inferInstance, Value.codes, ?_⟩
  intro a ha b hb
  constructor
  · rw [Value.less?_text (htext a ha) (htext b hb)]
    congr
  · rw [equals_text (htext a ha)]
    constructor
    · exact congrArg Value.codes
    · exact List.inj_on_of_nodup_map hcodes ha hb

theorem Value.Lined.refl {names : List Value} (h : Value.Lined names) {a : Value} (ha : a ∈ names) :
    a.equals a := by
  obtain ⟨κ, _, rank, hrank⟩ := h
  exact (hrank a ha a ha).2.mpr rfl

theorem Value.Lined.mono {names names' : List Value} (h : Value.Lined names') (hsub : names ⊆ names') :
    Value.Lined names := by
  obtain ⟨κ, hκ, rank, hrank⟩ := h
  exact ⟨κ, hκ, rank, fun a ha b hb => hrank a (hsub ha) b (hsub hb)⟩

/-- Fields in strict order stay as they are when they are put in order. -/
theorem sortByKey?_ascending {fields : List (Value × α)}
    (hlined : Value.Lined (fields.map Prod.fst)) (h : Value.Ascending (fields.map Prod.fst)) :
    sortByKey? fields = some fields := by
  obtain ⟨κ, _, rank, hrank⟩ := hlined
  have hranks : Sorting.Ranks (fun a b : Value × α => a.1.less? b.1) (fun f => rank f.1)
      fun f => f.1 ∈ fields.map Prod.fst := fun a b ha hb => (hrank a.1 ha b.1 hb).1
  have hmem : ∀ f ∈ fields, f.1 ∈ fields.map Prod.fst := fun f hf => List.mem_map_of_mem hf
  refine Sorting.sort?_ordered hranks fields hmem ?_
  refine (List.pairwise_map.mp h).imp_of_mem fun {a b} ha hb hab => ?_
  have hless := (hrank a.1 (hmem a ha) b.1 (hmem b hb)).1
  rw [hab.1] at hless
  exact le_of_lt (of_decide_eq_true (Option.some.inj hless).symm)

/-- Putting distinct fields in order puts them in strict order. -/
theorem ascending_sortByKey? {fields sorted : List (Value × α)}
    (hdistinct : Value.Distinct (fields.map Prod.fst)) (hlined : Value.Lined (fields.map Prod.fst))
    (h : sortByKey? fields = some sorted) : Value.Ascending (sorted.map Prod.fst) := by
  obtain ⟨κ, _, rank, hrank⟩ := hlined
  have hmem : ∀ f ∈ fields, f.1 ∈ fields.map Prod.fst := fun f hf => List.mem_map_of_mem hf
  have hranks : Sorting.Ranks (fun a b : Value × α => a.1.less? b.1) (fun f => rank f.1)
      fun f => f.1 ∈ fields.map Prod.fst := fun a b ha hb => (hrank a.1 ha b.1 hb).1
  obtain ⟨ys, hys, hordered, hperm⟩ := Sorting.sort?_spec hranks fields hmem
  obtain rfl := Option.some.inj (hys.symm.trans h)
  have hdiffer : ys.Pairwise fun a b => rank a.1 ≠ rank b.1 := by
    refine (hperm.pairwise_iff fun hab => Ne.symm hab).mpr ?_
    refine (List.pairwise_map.mp hdistinct).imp_of_mem fun {a b} ha hb hab => ?_
    exact mt (hrank a.1 (hmem a ha) b.1 (hmem b hb)).2.mpr hab.1
  refine List.pairwise_map.mpr ((hordered.and hdiffer).imp_of_mem fun {a b} ha hb hab => ?_)
  obtain ⟨hless, hequals⟩ :=
    hrank a.1 (hmem a (hperm.mem_iff.mp ha)) b.1 (hmem b (hperm.mem_iff.mp hb))
  constructor
  · rw [hless, decide_eq_true (lt_of_le_of_ne hab.1 hab.2)]
  · exact mt hequals.mp hab.2

end Names

mutual

/-- Every record inside a type: its fields and its extensible mark. -/
def Ty.records : Ty → List (List (Value × Field) × Value)
  | .primitive _ | .variable _ => []
  | .list element => element.records
  | .record fields extensible => (fields, extensible) :: Ty.recordsOfFields fields
  | .block params returns => Ty.recordsOfList params ++ returns.records

def Ty.recordsOfList : List Ty → List (List (Value × Field) × Value)
  | [] => []
  | t :: rest => t.records ++ Ty.recordsOfList rest

def Ty.recordsOfFields : List (Value × Field) → List (List (Value × Field) × Value)
  | [] => []
  | (_, .mk t _) :: rest => t.records ++ Ty.recordsOfFields rest

end

/-- A type whose wire form can be read: known primitives, texts as the names of variables, fields in
strict order and flags that are booleans, but any marks. -/
inductive Ty.Legible : Ty → Prop where
  | primitive {p : Primitive} (h : Primitive.ofTag? p.tag = some p) : Legible (.primitive p)
  | «variable» {name : Value} (h : name.isText) : Legible (.variable name)
  | list {element : Ty} (h : Legible element) : Legible (.list element)
  | record {fields : List (Value × Field)} {extensible : Value}
      (hlined : Value.Lined (fields.map Prod.fst)) (hascending : Value.Ascending (fields.map Prod.fst))
      (hflags : ∀ f ∈ fields, ∃ b, f.2.isOptional = .bool b)
      (htypes : ∀ f ∈ fields, Legible f.2.type) : Legible (.record fields extensible)
  | block {params : List Ty} {returns : Ty} (hparams : ∀ t ∈ params, Legible t)
      (hreturns : Legible returns) : Legible (.block params returns)

namespace Ty

theorem mem_recordsOfList {ts : List Ty} {x : List (Value × Field) × Value} :
    x ∈ recordsOfList ts ↔ ∃ t ∈ ts, x ∈ t.records := by
  induction ts with
  | nil => simp [recordsOfList]
  | cons t rest ih => simp [recordsOfList, ih]

theorem mem_recordsOfFields {fields : List (Value × Field)} {x : List (Value × Field) × Value} :
    x ∈ recordsOfFields fields ↔ ∃ f ∈ fields, x ∈ f.2.type.records := by
  induction fields with
  | nil => simp [recordsOfFields]
  | cons f rest ih =>
    obtain ⟨name, t, isOptional⟩ := f
    simp [recordsOfFields, ih, Field.type]

theorem Legible.ascending {t : Ty} (h : t.Legible) :
    ∀ r ∈ t.records, Value.Ascending (r.1.map Prod.fst) := by
  induction h with
  | primitive _ => simp [records]
  | «variable» _ => simp [records]
  | list _ ih => exact ih
  | record _ hascending _ _ ih =>
    rw [records, List.forall_mem_cons]
    refine ⟨hascending, ?_⟩
    intro r hr
    obtain ⟨f, hf, hr⟩ := mem_recordsOfFields.mp hr
    exact ih f hf r hr
  | block _ _ hparams hreturns =>
    rw [records, List.forall_mem_append]
    refine ⟨?_, hreturns⟩
    intro r hr
    obtain ⟨t, ht, hr⟩ := mem_recordsOfList.mp hr
    exact hparams t ht r hr

/-- What putting fields in order makes: the same fields, in strict order if their names can be lined up. -/
theorem ofFields_eq_ok {fields : List (Value × Field)} {extensible : Value} {t : Ty}
    (h : ofFields fields extensible = .ok t) : ∃ sorted, sortByKey? fields = some sorted ∧
      sorted.Perm fields ∧ t = .record sorted extensible := by
  unfold ofFields at h
  split at h
  · next sorted hsorted =>
    exact ⟨sorted, hsorted, Sorting.sort?_perm hsorted, (Except.ok.inj h).symm⟩
  · cases h

theorem legible_ofFields {fields : List (Value × Field)} {extensible : Value} {t : Ty}
    (hdistinct : Value.Distinct (fields.map Prod.fst)) (hlined : Value.Lined (fields.map Prod.fst))
    (hfields : ∀ f ∈ fields, f.2.type.Legible ∧ ∃ b, f.2.isOptional = .bool b)
    (h : ofFields fields extensible = .ok t) : t.Legible := by
  obtain ⟨sorted, hsorted, hperm, rfl⟩ := ofFields_eq_ok h
  have hnames : (sorted.map Prod.fst).Perm (fields.map Prod.fst) := hperm.map Prod.fst
  refine .record (hlined.mono hnames.subset) (ascending_sortByKey? hdistinct hlined hsorted) ?_ ?_
  · exact fun f hf => (hfields f (hperm.subset hf)).2
  · exact fun f hf => (hfields f (hperm.subset hf)).1

end Ty

mutual

/-- The keys of every mapping inside are distinct. -/
def Value.Keyed : Value → Prop
  | .list items | .tuple items => Value.KeyedList items
  | .mapping _ entries => Value.Distinct (entries.map Prod.fst) ∧ Value.KeyedEntries entries
  | _ => True

def Value.KeyedList : List Value → Prop
  | [] => True
  | v :: rest => v.Keyed ∧ Value.KeyedList rest

def Value.KeyedEntries : List (Value × Value) → Prop
  | [] => True
  | (k, v) :: rest => k.Keyed ∧ v.Keyed ∧ Value.KeyedEntries rest

end

namespace Value

theorem keyedList_iff {items : List Value} : KeyedList items ↔ ∀ v ∈ items, v.Keyed := by
  induction items with
  | nil => simp [KeyedList]
  | cons v rest ih => simp [KeyedList, ih]

theorem keyedEntries_iff {entries : List (Value × Value)} :
    KeyedEntries entries ↔ ∀ e ∈ entries, e.1.Keyed ∧ e.2.Keyed := by
  induction entries with
  | nil => simp [KeyedEntries]
  | cons e rest ih => simp [KeyedEntries, ih, and_assoc]

/-- A part of a value: it is smaller, and its mappings are among those of the whole. -/
structure Inside (v w : Value) : Prop where
  smaller : sizeOf v < sizeOf w
  keyed : w.Keyed → v.Keyed

namespace Inside

theorem trans {u v w : Value} (h : u.Inside v) (h' : v.Inside w) : u.Inside w :=
  ⟨h.smaller.trans h'.smaller, h.keyed ∘ h'.keyed⟩

theorem list {v : Value} {items : List Value} (h : v ∈ items) : v.Inside (.list items) where
  smaller := by
    have := List.sizeOf_lt_of_mem h
    simp only [Value.list.sizeOf_spec]
    omega
  keyed := fun hkeyed => keyedList_iff.mp hkeyed v h

theorem tuple {v : Value} {items : List Value} (h : v ∈ items) : v.Inside (.tuple items) where
  smaller := by
    have := List.sizeOf_lt_of_mem h
    simp only [Value.tuple.sizeOf_spec]
    omega
  keyed := fun hkeyed => keyedList_iff.mp hkeyed v h

theorem key {k v : Value} {kind : MappingKind} {entries : List (Value × Value)}
    (h : (k, v) ∈ entries) : k.Inside (.mapping kind entries) where
  smaller := by
    have := List.sizeOf_lt_of_mem h
    simp only [Value.mapping.sizeOf_spec, Prod.mk.sizeOf_spec] at *
    omega
  keyed := fun hkeyed => (keyedEntries_iff.mp hkeyed.2 _ h).1

theorem value {k v : Value} {kind : MappingKind} {entries : List (Value × Value)}
    (h : (k, v) ∈ entries) : v.Inside (.mapping kind entries) where
  smaller := by
    have := List.sizeOf_lt_of_mem h
    simp only [Value.mapping.sizeOf_spec, Prod.mk.sizeOf_spec] at *
    omega
  keyed := fun hkeyed => (keyedEntries_iff.mp hkeyed.2 _ h).2

end Inside

end Value

namespace Ty

/-- The type is read from a part of the value. -/
def ReadInside (w : Value) (t : Ty) : Prop :=
  ∃ part : Value, part.Inside w ∧ ofWire part = .ok t

/-- What reading a type takes: its parts are read from parts of the wire form, and the fields of a record
have been put in order. -/
inductive Reading (w : Value) : Ty → Prop where
  | primitive {p : Primitive} (h : Primitive.ofTag? p.tag = some p) : Reading w (.primitive p)
  | «variable» {name : Value} (h : name.isText) : Reading w (.variable name)
  | list {element : Ty} (h : ReadInside w element) : Reading w (.list element)
  | record {fields : List (Value × Field)} {extensible : Bool} {t : Ty}
      (hdistinct : w.Keyed → Value.Distinct (fields.map Prod.fst))
      (hflags : ∀ f ∈ fields, ∃ b, f.2.isOptional = .bool b)
      (hfields : ∀ f ∈ fields, ReadInside w f.2.type)
      (h : ofFields fields (.bool extensible) = .ok t) : Reading w t
  | block {params : List Ty} {returns : Ty} (hparams : ∀ t ∈ params, ReadInside w t)
      (hreturns : ReadInside w returns) : Reading w (.block params returns)

theorem ReadInside.trans {v w : Value} {t : Ty} (h : ReadInside v t) (hinside : v.Inside w) :
    ReadInside w t := by
  obtain ⟨part, hpart, h⟩ := h
  exact ⟨part, hpart.trans hinside, h⟩

theorem primitive_ofTag? {tag : String} {p : Primitive} (h : Primitive.ofTag? tag = some p) :
    Primitive.ofTag? p.tag = some p := by
  unfold Primitive.ofTag? at h
  split at h <;> cases h <;> rfl

theorem isText_asText (v : Value) : v.asText.isText := by
  unfold Value.asText
  split <;> rfl

theorem ofWireList_eq_ok {ws : List Value} : ∀ {ts : List Ty}, ofWireList ws = .ok ts →
    ∀ t ∈ ts, ∃ w ∈ ws, ofWire w = .ok t := by
  induction ws with
  | nil =>
    intro ts h
    obtain rfl := Except.ok.inj h
    simp
  | cons w rest ih =>
    intro ts h
    obtain ⟨t, ht, h⟩ := Checked.bind_eq_ok h
    obtain ⟨more, hmore, h⟩ := Checked.bind_eq_ok h
    obtain rfl := Except.ok.inj h
    refine List.forall_mem_cons.mpr ⟨⟨w, List.mem_cons_self, ht⟩, ?_⟩
    intro u hu
    obtain ⟨w', hw', hu⟩ := ih hmore u hu
    exact ⟨w', List.mem_cons_of_mem _ hw', hu⟩

theorem ofWireKeys_eq_ofWireList (entries : List (Value × Value)) :
    ofWireKeys entries = ofWireList (entries.map Prod.fst) := by
  induction entries with
  | nil => rfl
  | cons e rest ih => simp only [List.map_cons, ofWireKeys, ofWireList, ih]

theorem ofWireParams_eq_ok {params : Value} {ts : List Ty} (h : ofWireParams params = .ok ts) :
    ∀ t ∈ ts, ReadInside params t := by
  have ofCharacters_eq_ok : ∀ {s}, ofCharacters s = .ok ts → ts = [] := by
    intro s h
    cases s with
    | nil => exact (Except.ok.inj h).symm
    | cons c rest => cases h
  unfold ofWireParams at h
  intro t ht
  split at h
  · obtain ⟨w, hw, h⟩ := ofWireList_eq_ok h t ht
    exact ⟨w, .list hw, h⟩
  · obtain ⟨w, hw, h⟩ := ofWireList_eq_ok h t ht
    exact ⟨w, .tuple hw, h⟩
  · rw [ofWireKeys_eq_ofWireList] at h
    obtain ⟨w, hw, h⟩ := ofWireList_eq_ok h t ht
    obtain ⟨⟨k, v⟩, he, rfl⟩ := List.mem_map.mp hw
    exact ⟨k, .key he, h⟩
  · rw [ofCharacters_eq_ok h] at ht
    cases ht
  · rw [ofCharacters_eq_ok h] at ht
    cases ht
  · cases h

theorem ofWireOutput_eq_ok {parts : List (Value × Value)} {t : Ty} (h : ofWireOutput parts = .ok t) :
    ∃ k w, (k, w) ∈ parts ∧ ofWire w = .ok t := by
  induction parts with
  | nil => cases h
  | cons e rest ih =>
    unfold ofWireOutput at h
    split at h
    · next hnil => cases hnil
    · next w _ hcons =>
      obtain ⟨rfl, rfl⟩ := List.cons.inj hcons
      exact ⟨_, w, List.mem_cons_self, h⟩
    · next rest' _ hcons =>
      obtain ⟨rfl, rfl⟩ := List.cons.inj hcons
      obtain ⟨k, w, hw, h⟩ := ih h
      exact ⟨k, w, List.mem_cons_of_mem _ hw, h⟩

theorem ofWireFields_eq_ok {entries : List (Value × Value)} :
    ∀ {fields : List (Value × Field)}, ofWireFields entries = .ok fields →
      fields.map Prod.fst = entries.map Prod.fst ∧
      ∀ f ∈ fields, (∃ b, f.2.isOptional = .bool b) ∧
        ∃ k v, (k, v) ∈ entries ∧ ReadInside v f.2.type := by
  induction entries with
  | nil =>
    intro fields h
    obtain rfl := Except.ok.inj h
    simp
  | cons e rest ih =>
    intro fields h
    unfold ofWireFields at h
    split at h
    · next hnil => cases hnil
    · next name kind parts rest' hcons =>
      obtain ⟨rfl, rfl⟩ := List.cons.inj hcons
      obtain ⟨t, ht, h⟩ := Checked.bind_eq_ok h
      obtain ⟨more, hmore, h⟩ := Checked.bind_eq_ok h
      obtain rfl := Except.ok.inj h
      obtain ⟨hnames, hrest⟩ := ih hmore
      refine ⟨by simp [hnames], List.forall_mem_cons.mpr ⟨⟨⟨_, rfl⟩, ?_⟩, ?_⟩⟩
      · obtain ⟨k, w, hw, ht⟩ := ofWireOutput_eq_ok ht
        exact ⟨name, .mapping kind parts, List.mem_cons_self, w, .value hw, ht⟩
      · intro f hf
        obtain ⟨hflag, k, v, hv, hread⟩ := hrest f hf
        exact ⟨hflag, k, v, List.mem_cons_of_mem _ hv, hread⟩
    · cases h

theorem reading_ofWireRecord {extensible fields w : Value} {t : Ty} (hinside : fields.Inside w)
    (h : ofWireRecord extensible fields = .ok t) : Reading w t := by
  unfold ofWireRecord at h
  split at h
  · next kind entries =>
    obtain ⟨read, hread, h⟩ := Checked.bind_eq_ok h
    obtain ⟨hnames, hfields⟩ := ofWireFields_eq_ok hread
    refine .record ?_ (fun f hf => (hfields f hf).1) ?_ h
    · intro hkeyed
      rw [hnames]
      exact (hinside.keyed hkeyed).1
    · intro f hf
      obtain ⟨_, k, v, hv, hread⟩ := hfields f hf
      exact (hread.trans (.value hv)).trans hinside
  · cases h

theorem reading_block {params returns w : Value} {t : Ty} (hparams : params.Inside w)
    (hreturns : returns.Inside w)
    (h : (do return Ty.block (← ofWireParams params) (← ofWire returns) : Checked Ty) = .ok t) :
    Reading w t := by
  obtain ⟨ps, hps, h⟩ := Checked.bind_eq_ok h
  obtain ⟨u, hu, h⟩ := Checked.bind_eq_ok h
  obtain rfl := Except.ok.inj h
  exact .block (fun p hp => (ofWireParams_eq_ok hps p hp).trans hparams) ⟨returns, hreturns, hu⟩

theorem ofCharacterPair_ne_ok (s : List Text.Letter) (t : Ty) : ofCharacterPair s ≠ .ok t := by
  unfold ofCharacterPair
  split <;> exact nofun

theorem reading_ofWire {w : Value} {t : Ty} (h : ofWire w = .ok t) : Reading w t := by
  unfold ofWire at h
  split at h
  · next tag =>
    split at h
    · next p hp =>
      obtain rfl := Except.ok.inj h
      exact .primitive (primitive_ofTag? hp)
    · cases h
  · next kind body =>
    obtain rfl := Except.ok.inj h
    exact .variable (isText_asText body)
  · next kind body =>
    obtain ⟨u, hu, h⟩ := Checked.bind_eq_ok h
    obtain rfl := Except.ok.inj h
    exact .list ⟨body, .value List.mem_cons_self, hu⟩
  · next kind body =>
    have hbody : body.Inside (.mapping kind [(.str "Record", body)]) := .value List.mem_cons_self
    split at h
    · exact reading_ofWireRecord (.trans (.list (by simp)) hbody) h
    · exact reading_ofWireRecord (.trans (.tuple (by simp)) hbody) h
    all_goals cases h
  · next kind body =>
    have hbody : body.Inside (.mapping kind [(.str "Block", body)]) := .value List.mem_cons_self
    split at h
    · next params returns =>
      exact reading_block (.trans (.list (by simp)) hbody) (.trans (.list (by simp)) hbody) h
    · next params returns =>
      exact reading_block (.trans (.tuple (by simp)) hbody) (.trans (.tuple (by simp)) hbody) h
    · next kind params v returns v' =>
      exact reading_block (.trans (.key (v := v) (by simp)) hbody)
        (.trans (.key (v := v') (by simp)) hbody) h
    · exact absurd h (ofCharacterPair_ne_ok _ t)
    · exact absurd h (ofCharacterPair_ne_ok _ t)
    all_goals cases h
  · cases h

/-- The names of the fields of every record can be lined up. -/
def Lined (records : List (List (Value × Field) × Value)) : Prop :=
  ∀ r ∈ records, Value.Lined (r.1.map Prod.fst)

theorem lined_append {xs ys : List (List (Value × Field) × Value)} :
    Lined (xs ++ ys) ↔ Lined xs ∧ Lined ys :=
  List.forall_mem_append

/-- What is read from a wire form is legible, if the names in it can be lined up. -/
theorem legible_ofWire (w : Value) (hw : w.Keyed) (t : Ty) (h : ofWire w = .ok t)
    (hlined : Lined t.records) : t.Legible := by
  have inner : ∀ u, ReadInside w u → Lined u.records → u.Legible := by
    intro u hread hu
    obtain ⟨part, hpart, hread⟩ := hread
    have := hpart.smaller
    exact legible_ofWire part (hpart.keyed hw) u hread hu
  cases reading_ofWire h with
  | primitive hp => exact .primitive hp
  | «variable» hname => exact .variable hname
  | list hread => exact .list (inner _ hread hlined)
  | record hdistinct hflags hfields hsorted =>
    obtain ⟨sorted, _, hperm, rfl⟩ := ofFields_eq_ok hsorted
    obtain ⟨hnames, hparts⟩ := List.forall_mem_cons.mp hlined
    refine legible_ofFields (hdistinct hw) (hnames.mono (hperm.map Prod.fst).symm.subset) ?_ hsorted
    intro f hf
    refine ⟨inner _ (hfields f hf) ?_, hflags f hf⟩
    exact fun r hr => hparts r (mem_recordsOfFields.mpr ⟨f, hperm.symm.subset hf, hr⟩)
  | block hparams hreturns =>
    obtain ⟨hps, hr⟩ := lined_append.mp hlined
    refine .block ?_ (inner _ hreturns hr)
    exact fun p hp => inner p (hparams p hp) fun r hr => hps r (mem_recordsOfList.mpr ⟨p, hp, hr⟩)
termination_by sizeOf w

end Ty

end EngineHost
