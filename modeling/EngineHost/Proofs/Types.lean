import EngineHost.Proofs.Sorting
import EngineHost.Registry

/-!
Types as a registry makes them. Their flags are booleans, their names are texts and the fields of a record
are in order, so that they can be read back from their wire form. Resolving an expression makes nothing
else, whatever aliases it goes through.
-/
namespace EngineHost

mutual

def Ty.Regular : Ty → Prop
  | .primitive p => Primitive.ofTag? p.tag = some p
  | .variable name => name.isText
  | .list element => element.Regular
  | .record fields extensible =>
    sortByKey? fields = some fields ∧ (∃ b, extensible = .bool b) ∧ Ty.RegularFields fields
  | .block params returns => Ty.RegularList params ∧ returns.Regular

def Ty.RegularList : List Ty → Prop
  | [] => True
  | t :: rest => t.Regular ∧ Ty.RegularList rest

def Ty.RegularFields : List (Value × Field) → Prop
  | [] => True
  | (name, .mk t isOptional) :: rest =>
    name.isText ∧ t.Regular ∧ (∃ b, isOptional = .bool b) ∧ Ty.RegularFields rest

end

mutual

/-- An expression that holds only regular types and only texts and booleans where these belong. -/
def Value.Proper : Value → Prop
  | .type t => t.Regular
  | .variable name => name.isText
  | .listOf element => element.Proper
  | .blockOf params returns => Value.ProperList params ∧ returns.Proper
  | .fieldSpec expr _ => expr.Proper
  | .recordOf fields extensible => Value.ProperEntries fields ∧ ∃ b, extensible = .bool b
  | .mapping _ entries => Value.ProperEntries entries
  | _ => True

def Value.ProperList : List Value → Prop
  | [] => True
  | v :: rest => v.Proper ∧ Value.ProperList rest

def Value.ProperEntries : List (Value × Value) → Prop
  | [] => True
  | (_, v) :: rest => v.Proper ∧ Value.ProperEntries rest

end

namespace Ty

theorem regularFields_iff (fields : List (Value × Field)) :
    RegularFields fields ↔
      ∀ f ∈ fields, f.1.isText ∧ f.2.type.Regular ∧ ∃ b, f.2.isOptional = .bool b := by
  induction fields with
  | nil => simp [RegularFields]
  | cons f rest ih =>
    obtain ⟨name, t, isOptional⟩ := f
    simp [RegularFields, ih, Field.type, Field.isOptional, and_assoc]

theorem asText_of_isText {name : Value} (h : name.isText) : name.asText = name := by
  cases name with
  | str s => rfl
  | letters s => rfl
  | _ => simp [Value.isText] at h

theorem equals_self_of_isText {name : Value} (h : name.isText) : name.equals name := by
  cases name with
  | str s => simp [Value.equals]
  | letters s => simp [Value.equals]
  | _ => simp [Value.isText] at h

theorem equals_self_bool (b : Bool) : (Value.bool b).equals (.bool b) := by
  cases b <;> simp [Value.equals, numberEquals, Value.number?, Number.equals]

mutual

/-- A regular type equals itself. -/
theorem equals_self (t : Ty) (h : t.Regular) : t.equals t := by
  cases t with
  | primitive p => simp [Ty.equals]
  | «variable» name =>
    rw [Ty.equals]
    exact equals_self_of_isText h
  | list element =>
    rw [Ty.equals]
    exact equals_self element h
  | record fields extensible =>
    obtain ⟨_, ⟨b, rfl⟩, hfields⟩ := h
    rw [Ty.equals, equalsFields_self fields hfields, equals_self_bool]
    rfl
  | block params returns =>
    rw [Ty.equals, equalsList_self params h.1, equals_self returns h.2]
    rfl

theorem equalsList_self (ts : List Ty) (h : RegularList ts) : equalsList ts ts := by
  cases ts with
  | nil => rw [equalsList]
  | cons t rest =>
    rw [equalsList, equals_self t h.1, equalsList_self rest h.2]
    rfl

theorem equalsFields_self (fields : List (Value × Field)) (h : RegularFields fields) :
    equalsFields fields fields := by
  match fields, h with
  | [], _ => rw [equalsFields]
  | (name, .mk t isOptional) :: rest, h =>
    obtain ⟨hname, ht, ⟨b, rfl⟩, hrest⟩ := h
    rw [equalsFields, Field.equals, equals_self_of_isText hname, equals_self t ht, equals_self_bool,
      equalsFields_self rest hrest]
    rfl

end

mutual

/-- A regular type can be read back from its wire form. -/
theorem ofWire_toWire (t : Ty) (h : t.Regular) : ofWire t.toWire = .ok t := by
  cases t with
  | primitive p =>
    rw [Regular] at h
    simp only [toWire, ofWire, h]
    rfl
  | «variable» name =>
    rw [Regular] at h
    simp only [toWire, tagged, Value.ofFields, List.map_cons, List.map_nil, ofWire,
      asText_of_isText h]
    rfl
  | list element =>
    rw [Regular] at h
    simp only [toWire, tagged, Value.ofFields, List.map_cons, List.map_nil, ofWire,
      ofWire_toWire element h]
    rfl
  | record fields extensible =>
    rw [Regular] at h
    obtain ⟨hsorted, ⟨b, rfl⟩, hfields⟩ := h
    simp only [toWire, tagged, Value.ofFields, List.map_cons, List.map_nil, ofWire, ofWireRecord,
      ofWireFields_fieldsToWire fields hfields, Value.isTruthy]
    show ofFields fields (.bool b) = _
    rw [ofFields, hsorted]
    rfl
  | block params returns =>
    rw [Regular] at h
    simp only [toWire, tagged, Value.ofFields, List.map_cons, List.map_nil, ofWire, ofWireParams,
      ofWireList_listToWire params h.1, ofWire_toWire returns h.2]
    rfl

theorem ofWireList_listToWire (ts : List Ty) (h : RegularList ts) :
    ofWireList (listToWire ts) = .ok ts := by
  cases ts with
  | nil => rfl
  | cons t rest =>
    rw [RegularList] at h
    simp only [listToWire, ofWireList, ofWire_toWire t h.1, ofWireList_listToWire rest h.2]
    rfl

theorem ofWireFields_fieldsToWire (fields : List (Value × Field)) (h : RegularFields fields) :
    ofWireFields (fieldsToWire fields) = .ok fields := by
  match fields, h with
  | [], _ => rfl
  | (name, .mk t isOptional) :: rest, h =>
    rw [RegularFields] at h
    obtain ⟨_, ht, ⟨b, rfl⟩, hrest⟩ := h
    simp [fieldsToWire, Value.ofFields, ofWireFields, ofWireOutput, ofWire_toWire t ht, Value.get?,
      Value.isTruthy, ofWireFields_fieldsToWire rest hrest]
    rfl

end

/-- Putting fields in order makes a regular record of regular fields. -/
theorem regular_ofFields {fields : List (Value × Field)} {b : Bool} {t : Ty}
    (hfields : RegularFields fields) (h : ofFields fields (.bool b) = .ok t) : t.Regular := by
  have hregular := (regularFields_iff fields).mp hfields
  obtain ⟨sorted, hsorted, hperm, hagain⟩ :=
    sortByKey?_text fields fun f hf => (hregular f hf).1
  rw [ofFields, hsorted] at h
  have ht : t = .record sorted (.bool b) := (Except.ok.inj h).symm
  subst ht
  refine ⟨hagain, ⟨b, rfl⟩, (regularFields_iff sorted).mpr ?_⟩
  intro f hf
  exact hregular f (hperm.mem_iff.mp hf)

end Ty

theorem Checked.bind_eq_ok {α β : Type} {x : Checked α} {f : α → Checked β} {b : β}
    (h : (x >>= f) = .ok b) : ∃ a, x = .ok a ∧ f a = .ok b := by
  cases x with
  | ok a => exact ⟨a, rfl, h⟩
  | error e => cases h

namespace Registry

def Regular (r : Registry) : Prop := ∀ a ∈ r.aliases, a.2.Regular

variable {r : Registry}

theorem regular_primitive? {name : Value} {p : Primitive} (h : name.primitive? = some p) :
    Primitive.ofTag? p.tag = some p := by
  cases name with
  | str s =>
    have hs : Primitive.ofName? s = some p := h
    unfold Primitive.ofName? at hs
    split at hs <;> cases hs <;> rfl
  | _ => cases h

theorem regular_lookup? (hr : r.Regular) {name : Value} {t : Ty} (h : r.lookup? name = some t) :
    t.Regular := by
  obtain ⟨a, ha, rfl⟩ := Option.map_eq_some_iff.mp h
  exact hr a (List.mem_of_find?_eq_some ha)

theorem regular_resolveName (hr : r.Regular) {name : Value} {t : Ty}
    (h : r.resolveName name = .ok t) : t.Regular := by
  unfold resolveName at h
  cases hp : name.primitive? with
  | some p =>
    simp only [hp] at h
    obtain rfl := Except.ok.inj h
    exact regular_primitive? hp
  | none =>
    cases ht : r.lookup? name with
    | some u =>
      simp only [hp, ht] at h
      obtain rfl := Except.ok.inj h
      exact regular_lookup? hr ht
    | none =>
      simp only [hp, ht] at h
      cases h

/-- What resolving one field and then the others takes. -/
theorem resolveFields_cons {name expr : Value} {rest : List (Value × Value)}
    {fields : List (Value × Field)} (h : resolveFields r ((name, expr) :: rest) = .ok fields) :
    name.isText ∧ ∃ t b more, resolveFields r rest = .ok more ∧
      fields = (name, .mk t (.bool b)) :: more ∧
      ((∃ e, expr = .fieldSpec e b ∧ resolve r e = .ok t) ∨ resolve r expr = .ok t) := by
  unfold resolveFields at h
  split at h
  · next hnil => cases hnil
  · next name' e b rest' hcons =>
    cases hcons
    split at h
    · next hname =>
      obtain ⟨t, ht, h⟩ := Checked.bind_eq_ok h
      obtain ⟨more, hmore, h⟩ := Checked.bind_eq_ok h
      exact ⟨hname, t, b, more, hmore, (Except.ok.inj h).symm, .inl ⟨e, rfl, ht⟩⟩
    · cases h
  · next name' e rest' _ hcons =>
    cases hcons
    split at h
    · next hname =>
      obtain ⟨t, ht, h⟩ := Checked.bind_eq_ok h
      obtain ⟨more, hmore, h⟩ := Checked.bind_eq_ok h
      exact ⟨hname, t, false, more, hmore, (Except.ok.inj h).symm, .inr ht⟩
    · cases h

mutual

/-- Expressions resolve to regular types. -/
theorem regular_resolve (hr : r.Regular) (expr : Value) (hexpr : expr.Proper) (t : Ty)
    (h : resolve r expr = .ok t) : t.Regular := by
  cases expr with
  | type u =>
    obtain rfl := Except.ok.inj h
    exact hexpr
  | str name => exact regular_resolveName hr h
  | letters name => exact regular_resolveName hr h
  | listOf element =>
    obtain ⟨u, hu, h⟩ := Checked.bind_eq_ok h
    obtain rfl := Except.ok.inj h
    exact regular_resolve hr element hexpr u hu
  | «variable» name =>
    obtain rfl := Except.ok.inj h
    exact hexpr
  | blockOf params returns =>
    obtain ⟨ps, hps, h⟩ := Checked.bind_eq_ok h
    obtain ⟨u, hu, h⟩ := Checked.bind_eq_ok h
    obtain rfl := Except.ok.inj h
    exact ⟨regular_resolveList hr params hexpr.1 ps hps, regular_resolve hr returns hexpr.2 u hu⟩
  | recordOf fields extensible =>
    obtain ⟨hfields, b, rfl⟩ := hexpr
    obtain ⟨resolved, hresolved, h⟩ := Checked.bind_eq_ok h
    exact Ty.regular_ofFields (regular_resolveFields hr fields hfields resolved hresolved) h
  | mapping kind entries =>
    obtain ⟨resolved, hresolved, h⟩ := Checked.bind_eq_ok h
    exact Ty.regular_ofFields (regular_resolveFields hr entries hexpr resolved hresolved) h
  | _ => cases h

theorem regular_resolveList (hr : r.Regular) (exprs : List Value) (hexprs : Value.ProperList exprs)
    (ts : List Ty) (h : resolveList r exprs = .ok ts) : Ty.RegularList ts := by
  cases exprs with
  | nil =>
    obtain rfl := Except.ok.inj h
    trivial
  | cons expr rest =>
    obtain ⟨t, ht, h⟩ := Checked.bind_eq_ok h
    obtain ⟨more, hmore, h⟩ := Checked.bind_eq_ok h
    obtain rfl := Except.ok.inj h
    exact ⟨regular_resolve hr expr hexprs.1 t ht, regular_resolveList hr rest hexprs.2 more hmore⟩

theorem regular_resolveFields (hr : r.Regular) (entries : List (Value × Value))
    (hentries : Value.ProperEntries entries) (fields : List (Value × Field))
    (h : resolveFields r entries = .ok fields) : Ty.RegularFields fields := by
  match entries, hentries with
  | [], _ =>
    obtain rfl := Except.ok.inj h
    trivial
  | (name, expr) :: rest, hentries =>
    obtain ⟨hname, t, b, more, hmore, rfl, ht⟩ := resolveFields_cons h
    refine ⟨hname, ?_, ⟨b, rfl⟩, regular_resolveFields hr rest hentries.2 more hmore⟩
    rcases ht with ⟨e, rfl, ht⟩ | ht
    · exact regular_resolve hr e hentries.1 t ht
    · exact regular_resolve hr expr hentries.1 t ht

end

/-- Defining an alias adds a regular type and keeps the others. -/
theorem regular_define (hr : r.Regular) {name expr : Value} (hexpr : expr.Proper) {t : Ty}
    {r' : Registry} (h : r.define name expr = .ok (t, r')) : t.Regular ∧ r'.Regular := by
  unfold define at h
  split at h
  · cases h
  split at h
  · cases h
  obtain ⟨u, hu, h⟩ := Checked.bind_eq_ok h
  obtain ⟨rfl, rfl⟩ := Prod.mk.inj (Except.ok.inj h)
  have ht := regular_resolve hr expr hexpr u hu
  refine ⟨ht, ?_⟩
  intro a ha
  rcases List.mem_append.mp ha with ha | ha
  · exact hr a ha
  · obtain rfl := List.mem_singleton.mp ha
    exact ht

end Registry

end EngineHost
