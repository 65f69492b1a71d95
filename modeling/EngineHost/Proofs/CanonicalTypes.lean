import EngineHost.Proofs.Names
import EngineHost.Proofs.TypeWires
import EngineHost.Ty.Hash

/-!
A type is what wire forms that say the same have in common. Regular types are equal only if they are one
and the same, a wire form is read as a regular type, and written again that type is the arranged form.
-/
namespace EngineHost

theorem equals_bool_iff (b c : Bool) : (Value.bool b).equals (.bool c) ↔ b = c := by
  cases b <;> cases c <;> simp [Value.equals, numberEquals, Value.number?, Number.equals]

namespace Ty

mutual

/-- Regular types are equal only if they are the same. -/
theorem eq_of_equals (t u : Ty) (ht : t.Regular) (hu : u.Regular) (h : t.equals u) : t = u := by
  cases t with
  | primitive p =>
    cases u with
    | primitive q => simpa [Ty.equals] using h
    | _ => simp [Ty.equals] at h
  | «variable» name =>
    cases u with
    | «variable» name' =>
      rw [Ty.equals] at h
      rw [(equals_text ht).mp h]
    | _ => simp [Ty.equals] at h
  | list element =>
    cases u with
    | list element' =>
      rw [Ty.equals] at h
      rw [eq_of_equals element element' ht hu h]
    | _ => simp [Ty.equals] at h
  | record fields extensible =>
    cases u with
    | record fields' extensible' =>
      obtain ⟨-, ⟨b, rfl⟩, hfields⟩ := ht
      obtain ⟨-, ⟨c, rfl⟩, hfields'⟩ := hu
      rw [Ty.equals, Bool.and_eq_true] at h
      rw [eq_of_equalsFields fields fields' hfields hfields' h.1, (equals_bool_iff b c).mp h.2]
    | _ => simp [Ty.equals] at h
  | block params returns =>
    cases u with
    | block params' returns' =>
      rw [Ty.equals, Bool.and_eq_true] at h
      rw [eq_of_equalsList params params' ht.1 hu.1 h.1, eq_of_equals returns returns' ht.2 hu.2 h.2]
    | _ => simp [Ty.equals] at h

theorem eq_of_equalsList (ts us : List Ty) (hts : RegularList ts) (hus : RegularList us)
    (h : equalsList ts us) : ts = us := by
  match ts, us with
  | [], [] => rfl
  | [], _ :: _ => simp [equalsList] at h
  | _ :: _, [] => simp [equalsList] at h
  | t :: ts, u :: us =>
    rw [equalsList, Bool.and_eq_true] at h
    rw [eq_of_equals t u hts.1 hus.1 h.1, eq_of_equalsList ts us hts.2 hus.2 h.2]

theorem eq_of_equalsFields (xs ys : List (Value × Field)) (hxs : RegularFields xs)
    (hys : RegularFields ys) (h : equalsFields xs ys) : xs = ys := by
  match xs, ys with
  | [], [] => rfl
  | [], _ :: _ => simp [equalsFields] at h
  | _ :: _, [] => simp [equalsFields] at h
  | (k, .mk t o) :: xs, (l, .mk u p) :: ys =>
    obtain ⟨hk, ht, ⟨b, rfl⟩, hxs⟩ := hxs
    obtain ⟨hl, hu, ⟨c, rfl⟩, hys⟩ := hys
    simp only [equalsFields, Field.equals, Bool.and_eq_true] at h
    obtain ⟨⟨hname, htype, hflag⟩, hrest⟩ := h
    rw [(equals_text hk).mp hname, eq_of_equals t u ht hu htype, (equals_bool_iff b c).mp hflag,
      eq_of_equalsFields xs ys hxs hys hrest]

end

theorem equals_iff {t u : Ty} (ht : t.Regular) (hu : u.Regular) : t.equals u ↔ t = u :=
  ⟨eq_of_equals t u ht hu, fun h => h ▸ equals_self t ht⟩

theorem toWire_inj {t u : Ty} (ht : t.Regular) (hu : u.Regular) : t.toWire = u.toWire ↔ t = u := by
  constructor
  · intro h
    have hread : Except.ok t = Except.ok (ε := Failure) u := by
      rw [← ofWire_toWire t ht, ← ofWire_toWire u hu, h]
    exact Except.ok.inj hread
  · exact congrArg toWire

mutual

theorem isHashable_of_regular (t : Ty) (ht : t.Regular) : t.isHashable := by
  cases t with
  | primitive p => rfl
  | «variable» name =>
    rw [isHashable]
    exact naming_text.hashable name ht
  | list element =>
    rw [isHashable]
    exact isHashable_of_regular element ht
  | record fields extensible =>
    obtain ⟨-, ⟨b, rfl⟩, hfields⟩ := ht
    rw [isHashable, fieldsHashable_of_regular fields hfields]
    rfl
  | block params returns =>
    rw [isHashable, allHashable_of_regular params ht.1, isHashable_of_regular returns ht.2]
    rfl

theorem allHashable_of_regular (ts : List Ty) (hts : RegularList ts) : allHashable ts := by
  match ts, hts with
  | [], _ => rfl
  | t :: rest, hts =>
    rw [allHashable, isHashable_of_regular t hts.1, allHashable_of_regular rest hts.2]
    rfl

theorem fieldsHashable_of_regular (fields : List (Value × Field)) (h : RegularFields fields) :
    fieldsHashable fields := by
  match fields, h with
  | [], _ => rfl
  | (name, .mk t isOptional) :: rest, h =>
    obtain ⟨hname, ht, ⟨b, rfl⟩, hrest⟩ := h
    rw [fieldsHashable, naming_text.hashable name hname, isHashable_of_regular t ht,
      fieldsHashable_of_regular rest hrest]
    rfl

end

end Ty

namespace Ty

theorem ofWireList_eq_mapM (params : List Value) : ofWireList params = params.mapM ofWire := by
  induction params with
  | nil => rfl
  | cons v rest ih => rw [ofWireList, ih, List.mapM_cons]

/-- A field as it is read. -/
def readField (f : FieldForm) : Checked (Value × Field) := do
  return (f.name, .mk (← ofWire f.wire) (.bool f.isOptional))

theorem ofWireFields_cons {e : Value × Value} {f : FieldForm} (h : FieldForm.ofPair? e = some f)
    (rest : List (Value × Value)) :
    ofWireFields (e :: rest) = (do return (← readField f) :: (← ofWireFields rest)) := by
  obtain ⟨-, kind, parts, rfl, hparts⟩ := FieldForm.ofPair?_eq_some h
  obtain ⟨rfl, hflag⟩ | rfl | rfl := FieldForm.parts?_eq_some hparts
  · simp [ofWireFields, ofWireOutput, readField, Value.get?, Value.isTruthy, hflag]
  · simp [ofWireFields, ofWireOutput, readField, Value.get?, Value.isTruthy]
  · simp [ofWireFields, ofWireOutput, readField, Value.get?, Value.isTruthy]

theorem ofWireFields_eq_mapM {entries : List (Value × Value)} :
    ∀ {fields : List FieldForm}, entries.mapM FieldForm.ofPair? = some fields →
      (∀ f ∈ fields, f.name.isText) ∧ ofWireFields entries = fields.mapM readField := by
  induction entries with
  | nil =>
    intro fields h
    obtain rfl : [] = fields := by simpa using h
    exact ⟨by simp, rfl⟩
  | cons e rest ih =>
    intro fields h
    obtain ⟨f, hf, more, hmore, rfl⟩ :
        ∃ f, FieldForm.ofPair? e = some f ∧ ∃ more, rest.mapM FieldForm.ofPair? = some more ∧
          f :: more = fields := by
      simpa [List.mapM_cons, Option.bind_eq_some_iff] using h
    obtain ⟨htext, hrest⟩ := ih hmore
    refine ⟨List.forall_mem_cons.mpr ⟨(FieldForm.ofPair?_eq_some hf).1, htext⟩, ?_⟩
    rw [ofWireFields_cons hf, hrest, List.mapM_cons]

variable {w : Value}

theorem ofWire_primitive {tag : String} (h : w.form? = some (.primitive tag)) :
    ∃ p, Primitive.ofTag? tag = some p ∧ p.tag = tag ∧ ofWire w = .ok (.primitive p) := by
  obtain ⟨rfl, htag⟩ := Value.form?_eq_some h
  have hp : ∃ p, Primitive.ofTag? tag = some p ∧ p.tag = tag := by
    simp only [List.mem_cons, List.not_mem_nil, or_false] at htag
    rcases htag with rfl | rfl | rfl | rfl <;> exact ⟨_, rfl, rfl⟩
  obtain ⟨p, hp, rfl⟩ := hp
  refine ⟨p, hp, rfl, ?_⟩
  rw [ofWire, hp]
  rfl

theorem ofWire_variable {name : Value} (h : w.form? = some (.variable name)) :
    name.isText ∧ ofWire w = .ok (.variable name) := by
  obtain ⟨hname, kind, rfl⟩ := Value.form?_eq_some h
  refine ⟨hname, ?_⟩
  rw [ofWire, asText_of_isText hname]
  rfl

theorem ofWire_list {element : Value} (h : w.form? = some (.list element)) :
    ofWire w = (do return .list (← ofWire element)) := by
  obtain ⟨kind, rfl⟩ := Value.form?_eq_some h
  rw [ofWire]

theorem ofWire_record {extensible : Bool} {fields : List FieldForm}
    (h : w.form? = some (.record extensible fields)) :
    (∀ f ∈ fields, f.name.isText) ∧
      ofWire w = (do ofFields (← fields.mapM readField) (.bool extensible)) := by
  obtain ⟨kind, kind', entries, rfl, hfields⟩ := Value.form?_eq_some h
  obtain ⟨htext, hread⟩ := ofWireFields_eq_mapM hfields
  refine ⟨htext, ?_⟩
  rw [ofWire, ofWireRecord, hread]
  rfl

theorem ofWire_block {params : List Value} {returns : Value}
    (h : w.form? = some (.block params returns)) :
    ofWire w = (do return .block (← params.mapM ofWire) (← ofWire returns)) := by
  obtain ⟨kind, rfl⟩ := Value.form?_eq_some h
  rw [ofWire, ofWireParams, ofWireList_eq_mapM]

theorem mapM_eq_ok {α β : Type} {f : α → Checked β} {g : α → β} {xs : List α}
    (h : ∀ x ∈ xs, f x = .ok (g x)) : xs.mapM f = .ok (xs.map g) := by
  induction xs with
  | nil => rfl
  | cons x rest ih =>
    rw [List.mapM_cons, h x List.mem_cons_self, ih fun y hy => h y (List.mem_cons_of_mem _ hy)]
    rfl

/-- A field of a record type, from what a wire form says of it. -/
def field (typeOf : FieldForm → Ty) (f : FieldForm) : Value × Field :=
  (f.name, .mk (typeOf f) (.bool f.isOptional))

theorem fieldsToWire_map (typeOf : FieldForm → Ty) (fields : List FieldForm) :
    fieldsToWire (fields.map (field typeOf)) = fields.map (FieldForm.entry fun f => (typeOf f).toWire) := by
  induction fields with
  | nil => rfl
  | cons f rest ih => simp [field, fieldsToWire, FieldForm.entry, ← ih]

theorem listToWire_map {α : Type} (typeOf : α → Ty) (params : List α) :
    listToWire (params.map typeOf) = params.map fun p => (typeOf p).toWire := by
  induction params with
  | nil => rfl
  | cons p rest ih => simp [listToWire, ih]

theorem regularList_iff (ts : List Ty) : RegularList ts ↔ ∀ t ∈ ts, t.Regular := by
  induction ts with
  | nil => simp [RegularList]
  | cons t rest ih => simp [RegularList, ih]

/-- Fields read from a wire form, put in order. -/
theorem ofFields_read {fields : List FieldForm} (htext : ∀ f ∈ fields, f.name.isText)
    (hnames : (fields.map (·.name.codes)).Nodup) (typeOf : FieldForm → Ty) (extensible : Value) :
    ∃ order : List FieldForm, order.Perm fields ∧
      (order.Pairwise fun f g => f.name.codes < g.name.codes) ∧
      ofFields (fields.map (field typeOf)) extensible = .ok (.record (order.map (field typeOf)) extensible) := by
  have hkind : ∀ f ∈ fields.map (field typeOf), f.1.isText := by
    simpa [field] using htext
  obtain ⟨sorted, hsorted, hordered, hperm⟩ := Sorting.sort?_spec ranks_names _ hkind
  -- What comes out are the fields of some order, since sorting only moves them.
  obtain ⟨order, horder, hmap⟩ :=
    exists_perm_map_eq hperm (List.map_id (fields.map (field typeOf)))
  obtain rfl : sorted = order.map (field typeOf) := by simpa using hmap
  refine ⟨order, horder, ?_, ?_⟩
  · have hdiffer : order.Pairwise fun f g => f.name.codes ≠ g.name.codes :=
      List.pairwise_map.mp ((horder.map _).nodup_iff.mpr hnames)
    exact ((List.pairwise_map.mp hordered).and hdiffer).imp fun h => lt_of_le_of_ne h.1 h.2
  · rw [ofFields, sortByKey?, hsorted]
    rfl

/-- A wire form is read as a regular type, whose own wire form is the arranged one. -/
theorem exists_read (h : TypeWire w) :
    ∃ t, ofWire w = .ok t ∧ t.Regular ∧ Arranged w t.toWire := by
  have : Nonempty Ty := ⟨.primitive .string⟩
  induction h with
  | primitive hw =>
    obtain ⟨p, hp, rfl, hread⟩ := ofWire_primitive hw
    exact ⟨.primitive p, hread, hp, .primitive hw⟩
  | «variable» hw =>
    obtain ⟨hname, hread⟩ := ofWire_variable hw
    exact ⟨.variable _, hread, hname, .variable hw⟩
  | list hw _ ih =>
    obtain ⟨t, hread, hregular, harranged⟩ := ih
    refine ⟨.list t, ?_, hregular, .list hw harranged⟩
    rw [ofWire_list hw, hread]
    rfl
  | @record w extensible fields hw hnames _ ih =>
    choose! typeOf hread hregular harranged using ih
    obtain ⟨htext, hrecord⟩ := ofWire_record hw
    obtain ⟨order, hperm, hascending, hfields⟩ := ofFields_read htext hnames typeOf (.bool extensible)
    have hmap : fields.mapM readField = .ok (fields.map (field typeOf)) := by
      refine mapM_eq_ok fun f hf => ?_
      rw [readField, hread f hf]
      rfl
    have hregularFields : RegularFields (fields.map (field typeOf)) := by
      rw [regularFields_iff, List.forall_mem_map]
      exact fun f hf => ⟨htext f hf, hregular f hf, f.isOptional, rfl⟩
    refine ⟨.record (order.map (field typeOf)) (.bool extensible), ?_,
      regular_ofFields hregularFields hfields, ?_⟩
    · rwa [hrecord, hmap]
    · rw [toWire, fieldsToWire_map]
      exact .record hw hperm hascending harranged
  | @block w params returns hw _ _ ihp ihr =>
    choose! typeOf hread hregular harranged using ihp
    obtain ⟨t, hreadr, hregularr, harrangedr⟩ := ihr
    refine ⟨.block (params.map typeOf) t, ?_, ⟨?_, hregularr⟩, ?_⟩
    · rw [ofWire_block hw, mapM_eq_ok hread, hreadr]
      rfl
    · rw [regularList_iff, List.forall_mem_map]
      exact hregular
    · rw [toWire, listToWire_map]
      exact .block hw harranged harrangedr

end Ty

/-- Types are a canonical form of wire forms. Two wire forms are read as equal types exactly when they differ
in nothing but the order of record fields; equal types have the same number in every table, the same name
and the same wire form; and that wire form is what has been read, with the fields of every record in order
and all their parts written out. -/
theorem types_canonical {w₁ w₂ : Value} (h₁ : TypeWire w₁) (h₂ : TypeWire w₂) :
    ∃ t₁ t₂, Ty.ofWire w₁ = .ok t₁ ∧ Ty.ofWire w₂ = .ok t₂ ∧
      (t₁.equals t₂ ↔ SameWire w₁ w₂) ∧
      (t₁.equals t₂ → (∀ hashing, ∃ n, t₁.hash? hashing = some n ∧ t₂.hash? hashing = some n) ∧
        t₁.name = t₂.name ∧ t₁.toWire = t₂.toWire) ∧
      ∀ a, Arranged w₁ a ↔ a = t₁.toWire := by
  obtain ⟨t₁, hread₁, hregular₁, harranged₁⟩ := Ty.exists_read h₁
  obtain ⟨t₂, hread₂, hregular₂, harranged₂⟩ := Ty.exists_read h₂
  have hequals := Ty.equals_iff hregular₁ hregular₂
  refine ⟨t₁, t₂, hread₁, hread₂, ?_, ?_, ?_⟩
  · -- The types are the same as soon as they are written alike, and they are written arranged.
    rw [hequals, ← Ty.toWire_inj hregular₁ hregular₂]
    constructor
    · intro h
      exact harranged₁.same (h ▸ harranged₂)
    · intro h
      exact h.arranged_eq harranged₁ harranged₂
  · intro h
    obtain rfl := hequals.mp h
    refine ⟨fun hashing => ⟨t₁.hash hashing, ?_⟩, rfl, rfl⟩
    rw [Ty.hash?, if_pos (Ty.isHashable_of_regular t₁ hregular₁)]
    exact ⟨rfl, rfl⟩
  · intro a
    constructor
    · intro h
      exact (h.same h).arranged_eq h harranged₁
    · rintro rfl
      exact harranged₁

/-- The wire form of a callback that takes a point, an open record with the given fields. -/
def listenerWire (fields : List (Value × Value)) : Value :=
  Ty.tagged "Block"
    (.list [.list [Ty.tagged "Record" (.list [.bool true, .mapping .plain fields])],
      Ty.tagged "Var" (.str "t")])

/-- A required field, which does not say so, and an optional one. -/
def loosePoint : List (Value × Value) :=
  [ (.str "y", .ofFields [("output", .str "Num")]),
    (.str "x", .ofFields [("output", Ty.tagged "List" (.str "Str")), ("optional", .bool true)]) ]

def strictPoint : List (Value × Value) :=
  [ (.str "x", .ofFields [("optional", .bool true), ("output", Ty.tagged "List" (.str "Str"))]),
    (.str "y", .ofFields [("optional", .bool false), ("output", .str "Num")]) ]

def pointForms : List FieldForm :=
  [⟨.str "x", true, Ty.tagged "List" (.str "Str")⟩, ⟨.str "y", false, .str "Num"⟩]

theorem form?_point {fields : List (Value × Value)} {forms : List FieldForm}
    (h : fields.mapM FieldForm.ofPair? = some forms) :
    (Ty.tagged "Record" (.list [.bool true, .mapping .plain fields])).form? = some (.record true forms) :=
  congrArg (Option.map (Form.record true)) h

theorem typeWire_listener {fields : List (Value × Value)} {forms : List FieldForm}
    (h : fields.mapM FieldForm.ofPair? = some forms) (hforms : forms.Perm pointForms) :
    TypeWire (listenerWire fields) := by
  have hwires : ∀ f ∈ pointForms, TypeWire f.wire := by
    have hlist : TypeWire (Ty.tagged "List" (.str "Str")) := .list rfl (.primitive rfl)
    have hnum : TypeWire (.str "Num") := .primitive rfl
    simp [pointForms, hlist, hnum]
  have hpoint : TypeWire (Ty.tagged "Record" (.list [.bool true, .mapping .plain fields])) := by
    refine .record (form?_point h) ?_ fun f hf => hwires f (hforms.mem_iff.mp hf)
    exact (hforms.map _).nodup_iff.mpr (by decide)
  exact .block rfl (List.forall_mem_singleton.mpr hpoint) (.variable rfl)

theorem arranged_listener {fields : List (Value × Value)} {forms : List FieldForm}
    (h : fields.mapM FieldForm.ofPair? = some forms) (hforms : forms.Perm pointForms) :
    Arranged (listenerWire fields) (listenerWire strictPoint) := by
  have hwires : ∀ f ∈ pointForms, Arranged f.wire f.wire := by
    have hlist : Arranged (Ty.tagged "List" (.str "Str")) (Ty.tagged "List" (.str "Str")) :=
      .list rfl (.primitive rfl)
    have hnum : Arranged (.str "Num") (.str "Num") := .primitive rfl
    simp [pointForms, hlist, hnum]
  have hpoint : Arranged (Ty.tagged "Record" (.list [.bool true, .mapping .plain fields]))
      (Ty.tagged "Record" (.list [.bool true, .mapping .plain strictPoint])) :=
    @Arranged.record _ true forms pointForms FieldForm.wire (form?_point h) hforms.symm (by decide)
      fun f hf => hwires f (hforms.mem_iff.mp hf)
  exact @Arranged.block _ _ _ _
    (fun _ => Ty.tagged "Record" (.list [.bool true, .mapping .plain strictPoint]))
    rfl (List.forall_mem_singleton.mpr hpoint) (.variable rfl)

theorem types_canonical_points :
    TypeWire (listenerWire loosePoint) ∧ TypeWire (listenerWire strictPoint) ∧
      ∃ t₁ t₂, Ty.ofWire (listenerWire loosePoint) = .ok t₁ ∧
        Ty.ofWire (listenerWire strictPoint) = .ok t₂ ∧ t₁.equals t₂ ∧
        t₁.toWire = listenerWire strictPoint := by
  have hloose : loosePoint.mapM FieldForm.ofPair? = some pointForms.reverse := rfl
  have hstrict : strictPoint.mapM FieldForm.ofPair? = some pointForms := rfl
  have h₁ : TypeWire (listenerWire loosePoint) := typeWire_listener hloose (List.reverse_perm _)
  have h₂ : TypeWire (listenerWire strictPoint) := typeWire_listener hstrict (.refl _)
  obtain ⟨t₁, t₂, hread₁, hread₂, hsame, -, harranged⟩ := types_canonical h₁ h₂
  have harranged₁ := arranged_listener hloose (List.reverse_perm _)
  have harranged₂ := arranged_listener hstrict (.refl _)
  exact ⟨h₁, h₂, t₁, t₂, hread₁, hread₂, hsame.mpr (harranged₁.same harranged₂),
    ((harranged _).mp harranged₁).symm⟩

end EngineHost
