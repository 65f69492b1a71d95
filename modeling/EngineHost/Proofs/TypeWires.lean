import Mathlib.Data.List.Perm.Basic
import EngineHost.Proofs.Types

/-!
The wire forms of types, apart from any reading of them: which values are one, when two differ in nothing
but the order of record fields, and what putting the fields in order makes of one. The forms that become
the same are those that differ in nothing but that order.
-/
namespace EngineHost

/-- What a wire form says of one field of a record. -/
structure FieldForm where
  name : Value
  isOptional : Bool
  wire : Value

/-- The outermost layer of a wire form. -/
inductive Form where
  | primitive (tag : String)
  | variable (name : Value)
  | list (element : Value)
  | record (extensible : Bool) (fields : List FieldForm)
  | block (params : List Value) (returns : Value)

namespace FieldForm

/-- Whether a field may be left out, which it may not if nothing is said, and the wire form of its type. -/
def parts? : List (Value × Value) → Option (Bool × Value)
  | [(.str "output", wire)] => some (false, wire)
  | [(.str "optional", .bool isOptional), (.str "output", wire)] => some (isOptional, wire)
  | [(.str "output", wire), (.str "optional", .bool isOptional)] => some (isOptional, wire)
  | _ => none

def ofPair? : Value × Value → Option FieldForm
  | (name, .mapping _ parts) =>
    if name.isText then (parts? parts).map fun (isOptional, wire) => ⟨name, isOptional, wire⟩ else none
  | _ => none

/-- A field written out, its type in the given form. -/
def entry (arrange : FieldForm → Value) (f : FieldForm) : Value × Value :=
  (f.name, .ofFields [("optional", .bool f.isOptional), ("output", arrange f)])

def NamedAlike (f g : FieldForm) : Prop :=
  f.name = g.name ∧ f.isOptional = g.isOptional

end FieldForm

/-- The outermost layer of a value, if that of a wire form. Mappings may be of any kind and have their
entries in any order. -/
def Value.form? : Value → Option Form
  | .str tag => if tag ∈ ["Str", "Bool", "Num", "Time"] then some (.primitive tag) else none
  | .mapping _ [(.str "Var", name)] => if name.isText then some (.variable name) else none
  | .mapping _ [(.str "List", element)] => some (.list element)
  | .mapping _ [(.str "Record", .list [.bool extensible, .mapping _ entries])] =>
    (entries.mapM FieldForm.ofPair?).map (.record extensible)
  | .mapping _ [(.str "Block", .list [.list params, returns])] => some (.block params returns)
  | _ => none

theorem FieldForm.parts?_eq_some {parts : List (Value × Value)} {isOptional : Bool} {wire : Value}
    (h : parts? parts = some (isOptional, wire)) :
    (parts = [(.str "output", wire)] ∧ isOptional = false) ∨
      parts = [(.str "optional", .bool isOptional), (.str "output", wire)] ∨
      parts = [(.str "output", wire), (.str "optional", .bool isOptional)] := by
  unfold parts? at h
  split at h <;> simp_all

theorem FieldForm.ofPair?_eq_some {e : Value × Value} {f : FieldForm} (h : ofPair? e = some f) :
    f.name.isText ∧ ∃ kind parts, e = (f.name, .mapping kind parts) ∧
      parts? parts = some (f.isOptional, f.wire) := by
  obtain ⟨name, v⟩ := e
  cases v with
  | mapping kind parts =>
    rw [ofPair?] at h
    split at h
    · next hname =>
      obtain ⟨⟨isOptional, wire⟩, hparts, rfl⟩ := Option.map_eq_some_iff.mp h
      exact ⟨hname, kind, parts, rfl, hparts⟩
    · cases h
  | _ => simp [ofPair?] at h

/-- What a value is whose outermost layer is known. -/
theorem Value.form?_eq_some {w : Value} {form : Form} : w.form? = some form →
    match form with
    | .primitive tag => w = .str tag ∧ tag ∈ ["Str", "Bool", "Num", "Time"]
    | .variable name => name.isText ∧ ∃ kind, w = .mapping kind [(.str "Var", name)]
    | .list element => ∃ kind, w = .mapping kind [(.str "List", element)]
    | .record extensible fields => ∃ kind kind' entries,
        w = .mapping kind [(.str "Record", .list [.bool extensible, .mapping kind' entries])] ∧
        entries.mapM FieldForm.ofPair? = some fields
    | .block params returns => ∃ kind,
        w = .mapping kind [(.str "Block", .list [.list params, returns])] := by
  intro h
  unfold Value.form? at h
  split at h
  · next tag =>
    split at h
    · next htag =>
      obtain rfl := Option.some.inj h
      exact ⟨rfl, htag⟩
    · cases h
  · next kind name =>
    split at h
    · next hname =>
      obtain rfl := Option.some.inj h
      exact ⟨hname, kind, rfl⟩
    · cases h
  · next kind element =>
    obtain rfl := Option.some.inj h
    exact ⟨kind, rfl⟩
  · next kind extensible kind' entries =>
    obtain ⟨fields, hfields, rfl⟩ := Option.map_eq_some_iff.mp h
    exact ⟨kind, kind', entries, rfl, hfields⟩
  · next kind params returns =>
    obtain rfl := Option.some.inj h
    exact ⟨kind, rfl⟩
  · cases h

/-- The wire forms of types. No two fields of a record have the same name. -/
inductive TypeWire : Value → Prop
  | primitive {w : Value} {tag : String} (hw : w.form? = some (.primitive tag)) : TypeWire w
  | variable {w name : Value} (hw : w.form? = some (.variable name)) : TypeWire w
  | list {w element : Value} (hw : w.form? = some (.list element)) (h : TypeWire element) : TypeWire w
  | record {w : Value} {extensible : Bool} {fields : List FieldForm}
      (hw : w.form? = some (.record extensible fields)) (hnames : (fields.map (·.name.codes)).Nodup)
      (h : ∀ f ∈ fields, TypeWire f.wire) : TypeWire w
  | block {w : Value} {params : List Value} {returns : Value}
      (hw : w.form? = some (.block params returns)) (hparams : ∀ p ∈ params, TypeWire p)
      (hreturns : TypeWire returns) : TypeWire w

/-- Two wire forms say the same, their record fields in any order. In a record, the fields of the second
can be put in an order in which they are, one by one, those of the first. -/
inductive SameWire : Value → Value → Prop
  | primitive {v w : Value} {tag : String} (hv : v.form? = some (.primitive tag))
      (hw : w.form? = some (.primitive tag)) : SameWire v w
  | variable {v w name : Value} (hv : v.form? = some (.variable name))
      (hw : w.form? = some (.variable name)) : SameWire v w
  | list {v w x y : Value} (hv : v.form? = some (.list x)) (hw : w.form? = some (.list y))
      (h : SameWire x y) : SameWire v w
  | record {v w : Value} {extensible : Bool} {fields fields' order : List FieldForm}
      (hv : v.form? = some (.record extensible fields))
      (hw : w.form? = some (.record extensible fields')) (horder : order.Perm fields')
      (hlength : fields.length = order.length)
      (hnames : ∀ p ∈ fields.zip order, p.1.NamedAlike p.2)
      (h : ∀ p ∈ fields.zip order, SameWire p.1.wire p.2.wire) : SameWire v w
  | block {v w : Value} {params params' : List Value} {returns returns' : Value}
      (hv : v.form? = some (.block params returns)) (hw : w.form? = some (.block params' returns'))
      (hlength : params.length = params'.length)
      (hparams : ∀ p ∈ params.zip params', SameWire p.1 p.2) (hreturns : SameWire returns returns') :
      SameWire v w

/-- A wire form, and the same with the fields of every record in ascending order of their names and all
their parts written out. -/
inductive Arranged : Value → Value → Prop
  | primitive {w : Value} {tag : String} (hw : w.form? = some (.primitive tag)) : Arranged w (.str tag)
  | variable {w name : Value} (hw : w.form? = some (.variable name)) :
      Arranged w (Ty.tagged "Var" name)
  | list {w element arranged : Value} (hw : w.form? = some (.list element))
      (h : Arranged element arranged) : Arranged w (Ty.tagged "List" arranged)
  | record {w : Value} {extensible : Bool} {fields order : List FieldForm} {arrange : FieldForm → Value}
      (hw : w.form? = some (.record extensible fields)) (horder : order.Perm fields)
      (hascending : order.Pairwise fun f g => f.name.codes < g.name.codes)
      (h : ∀ f ∈ fields, Arranged f.wire (arrange f)) :
      Arranged w (Ty.tagged "Record"
        (.list [.bool extensible, .mapping .plain (order.map (FieldForm.entry arrange))]))
  | block {w : Value} {params : List Value} {returns arranged : Value} {arrange : Value → Value}
      (hw : w.form? = some (.block params returns)) (hparams : ∀ p ∈ params, Arranged p (arrange p))
      (hreturns : Arranged returns arranged) :
      Arranged w (Ty.tagged "Block" (.list [.list (params.map arrange), arranged]))

theorem map_eq_map_iff_zip {α β γ : Type} {f : α → γ} {g : β → γ} {xs : List α} {ys : List β} :
    xs.map f = ys.map g ↔ xs.length = ys.length ∧ ∀ p ∈ xs.zip ys, f p.1 = g p.2 := by
  have hzip : List.Forall₂ (fun x y => f x = g y) xs ys ↔ _ := List.forall₂_iff_zip
  rw [← List.forall₂_eq_eq_eq, List.forall₂_map_left_iff, List.forall₂_map_right_iff, hzip]
  constructor
  · exact fun ⟨hlength, h⟩ => ⟨hlength, fun p hp => h hp⟩
  · exact fun ⟨hlength, h⟩ => ⟨hlength, fun hp => h _ hp⟩

/-- Two lists with the same images have them still when the first is put in another order and the second
in one that fits. -/
theorem exists_perm_map_eq {α β γ : Type} {f : α → γ} {g : β → γ} {xs xs' : List α} {ys : List β}
    (hperm : xs'.Perm xs) (h : xs.map f = ys.map g) :
    ∃ ys' : List β, ys'.Perm ys ∧ xs'.map f = ys'.map g := by
  rw [← List.forall₂_eq_eq_eq, List.forall₂_map_left_iff, List.forall₂_map_right_iff] at h
  obtain ⟨ys', h', hperm'⟩ := List.perm_comp_forall₂ hperm h
  refine ⟨ys', hperm', ?_⟩
  rwa [← List.forall₂_eq_eq_eq, List.forall₂_map_left_iff, List.forall₂_map_right_iff]

/-- A list in strictly ascending order is determined by its members. -/
theorem eq_of_perm_of_ascending {α κ : Type} [LinearOrder κ] {key : α → κ} {xs ys : List α}
    (hxs : xs.Pairwise fun a b => key a < key b) (hys : ys.Pairwise fun a b => key a < key b)
    (h : xs.Perm ys) : xs = ys :=
  h.eq_of_pairwise (fun _ _ _ _ hab hba => absurd hba (lt_asymm hab)) hxs hys

namespace FieldForm

variable {arrange arrange' : FieldForm → Value}

theorem ascending_entry {order : List FieldForm}
    (h : order.Pairwise fun f g => f.name.codes < g.name.codes) :
    (order.map (entry arrange)).Pairwise fun a b => a.1.codes < b.1.codes :=
  List.pairwise_map.mpr h

theorem entry_eq_iff {f g : FieldForm} :
    f.entry arrange = g.entry arrange' ↔ f.NamedAlike g ∧ arrange f = arrange' g := by
  simp [entry, NamedAlike, Value.ofFields, and_assoc]

end FieldForm

theorem tagged_inj {tag tag' : String} {body body' : Value} :
    Ty.tagged tag body = Ty.tagged tag' body' ↔ tag = tag' ∧ body = body' := by
  simp [Ty.tagged, Value.ofFields]

section Inversion

variable {w a : Value}

theorem Arranged.of_primitive {tag : String} (h : Arranged w a) (hw : w.form? = some (.primitive tag)) :
    a = .str tag := by
  cases h <;> simp_all

theorem Arranged.of_variable {name : Value} (h : Arranged w a) (hw : w.form? = some (.variable name)) :
    a = Ty.tagged "Var" name := by
  cases h <;> simp_all

theorem Arranged.of_list {element : Value} (h : Arranged w a) (hw : w.form? = some (.list element)) :
    ∃ arranged, Arranged element arranged ∧ a = Ty.tagged "List" arranged := by
  cases h with
  | @list _ element' arranged hw' h =>
    obtain rfl : element = element' := by simpa using hw.symm.trans hw'
    exact ⟨arranged, h, rfl⟩
  | _ hw' => simp [hw] at hw'

theorem Arranged.of_record {extensible : Bool} {fields : List FieldForm} (h : Arranged w a)
    (hw : w.form? = some (.record extensible fields)) :
    ∃ (order : List FieldForm) (arrange : FieldForm → Value), order.Perm fields ∧
      (order.Pairwise fun f g => f.name.codes < g.name.codes) ∧
      (∀ f ∈ fields, Arranged f.wire (arrange f)) ∧
      a = Ty.tagged "Record"
        (.list [.bool extensible, .mapping .plain (order.map (FieldForm.entry arrange))]) := by
  cases h with
  | @record _ extensible' fields' order arrange hw' horder hascending h =>
    obtain ⟨rfl, rfl⟩ : extensible = extensible' ∧ fields = fields' := by simpa using hw.symm.trans hw'
    exact ⟨order, arrange, horder, hascending, h, rfl⟩
  | _ hw' => simp [hw] at hw'

theorem Arranged.of_block {params : List Value} {returns : Value} (h : Arranged w a)
    (hw : w.form? = some (.block params returns)) :
    ∃ (arrange : Value → Value) (arranged : Value), (∀ p ∈ params, Arranged p (arrange p)) ∧
      Arranged returns arranged ∧
      a = Ty.tagged "Block" (.list [.list (params.map arrange), arranged]) := by
  cases h with
  | @block _ params' returns' arranged arrange hw' hparams hreturns =>
    obtain ⟨rfl, rfl⟩ : params = params' ∧ returns = returns' := by simpa using hw.symm.trans hw'
    exact ⟨arrange, arranged, hparams, hreturns, rfl⟩
  | _ hw' => simp [hw] at hw'

end Inversion

/-- Wire forms that say the same are arranged alike. -/
theorem SameWire.arranged_eq {v w : Value} (h : SameWire v w) :
    ∀ {a b : Value}, Arranged v a → Arranged w b → a = b := by
  induction h with
  | primitive hv hw =>
    intro a b ha hb
    rw [ha.of_primitive hv, hb.of_primitive hw]
  | «variable» hv hw =>
    intro a b ha hb
    rw [ha.of_variable hv, hb.of_variable hw]
  | list hv hw h ih =>
    intro a b ha hb
    obtain ⟨x, hx, rfl⟩ := ha.of_list hv
    obtain ⟨y, hy, rfl⟩ := hb.of_list hw
    rw [ih hx hy]
  | @record v w extensible fields fields' order hv hw horder hlength hnames h ih =>
    intro a b ha hb
    obtain ⟨order₁, arrange₁, hperm₁, hascending₁, hwires₁, rfl⟩ := ha.of_record hv
    obtain ⟨order₂, arrange₂, hperm₂, hascending₂, hwires₂, rfl⟩ := hb.of_record hw
    have hentries : fields.map (FieldForm.entry arrange₁) = order.map (FieldForm.entry arrange₂) := by
      refine map_eq_map_iff_zip.mpr ⟨hlength, fun p hp => ?_⟩
      obtain ⟨hmem, hmem'⟩ := List.of_mem_zip hp
      exact FieldForm.entry_eq_iff.mpr ⟨hnames p hp,
        ih p hp (hwires₁ _ hmem) (hwires₂ _ (horder.mem_iff.mp hmem'))⟩
    -- The same entries, both times in ascending order.
    have hperm : (order₁.map (FieldForm.entry arrange₁)).Perm
        (order₂.map (FieldForm.entry arrange₂)) := by
      refine (hperm₁.map _).trans ?_
      rw [hentries]
      exact (horder.trans hperm₂.symm).map _
    rw [eq_of_perm_of_ascending (FieldForm.ascending_entry hascending₁)
      (FieldForm.ascending_entry hascending₂) hperm]
  | @block v w params params' returns returns' hv hw hlength hparams hreturns ihp ihr =>
    intro a b ha hb
    obtain ⟨arrange₁, x, hp₁, hx, rfl⟩ := ha.of_block hv
    obtain ⟨arrange₂, y, hp₂, hy, rfl⟩ := hb.of_block hw
    have hmap : params.map arrange₁ = params'.map arrange₂ := by
      refine map_eq_map_iff_zip.mpr ⟨hlength, fun p hp => ?_⟩
      obtain ⟨hmem, hmem'⟩ := List.of_mem_zip hp
      exact ihp p hp (hp₁ _ hmem) (hp₂ _ hmem')
    rw [hmap, ihr hx hy]

/-- Only wire forms that say the same are arranged alike. -/
theorem Arranged.same {v a : Value} (h : Arranged v a) :
    ∀ {w : Value}, Arranged w a → SameWire v w := by
  suffices hsame : ∀ {w b : Value}, Arranged w b → a = b → SameWire v w by
    intro w hw
    exact hsame hw rfl
  induction h with
  | @primitive v tag hv =>
    intro w b hb hab
    cases hb with
    | @primitive _ tag' hw =>
      obtain rfl : tag = tag' := by simpa using hab
      exact .primitive hv hw
    | _ => simp [Ty.tagged, Value.ofFields] at hab
  | «variable» hv =>
    intro w b hb hab
    cases hb with
    | «variable» hw =>
      obtain ⟨-, rfl⟩ := tagged_inj.mp hab
      exact .variable hv hw
    | _ => simp [Ty.tagged, Value.ofFields] at hab
  | list hv h ih =>
    intro w b hb hab
    cases hb with
    | list hw hb => exact .list hv hw (ih hb (tagged_inj.mp hab).2)
    | _ => simp [Ty.tagged, Value.ofFields] at hab
  | @record v extensible fields order₁ arrange₁ hv hperm₁ hascending₁ ha ih =>
    intro w b hb hab
    cases hb with
    | @record _ extensible' fields' order₂ arrange₂ hw hperm₂ hascending₂ hb =>
      obtain ⟨rfl, hentries⟩ : extensible = extensible' ∧
          order₁.map (FieldForm.entry arrange₁) = order₂.map (FieldForm.entry arrange₂) := by
        simpa [tagged_inj] using hab
      -- The order that sorts the first is undone in the second.
      obtain ⟨order, hperm, hboth⟩ := exists_perm_map_eq hperm₁.symm hentries
      obtain ⟨hlength, hzip⟩ := map_eq_map_iff_zip.mp hboth
      have hperm' : order.Perm fields' := hperm.trans hperm₂
      refine .record hv hw hperm' hlength (fun p hp => (FieldForm.entry_eq_iff.mp (hzip p hp)).1) ?_
      intro p hp
      obtain ⟨hmem, hmem'⟩ := List.of_mem_zip hp
      exact ih _ hmem (hb _ (hperm'.mem_iff.mp hmem')) (FieldForm.entry_eq_iff.mp (hzip p hp)).2
    | _ => simp [Ty.tagged, Value.ofFields] at hab
  | @block v params returns arranged₁ arrange₁ hv hparams hreturns ihp ihr =>
    intro w b hb hab
    cases hb with
    | @block _ params' returns' arranged₂ arrange₂ hw hp' hr' =>
      obtain ⟨hmap, harranged⟩ : params.map arrange₁ = params'.map arrange₂ ∧
          arranged₁ = arranged₂ := by
        simpa [tagged_inj] using hab
      obtain ⟨hlength, hzip⟩ := map_eq_map_iff_zip.mp hmap
      refine .block hv hw hlength (fun p hp => ?_) (ihr hr' harranged)
      obtain ⟨hmem, hmem'⟩ := List.of_mem_zip hp
      exact ihp _ hmem (hp' _ hmem') (hzip p hp)
    | _ => simp [Ty.tagged, Value.ofFields] at hab

end EngineHost
