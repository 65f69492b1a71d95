import Mathlib
import EngineHost.Proofs.Legibility

/-!
Types read back from their wire form. Reading replaces the extensible mark of every record by its truth
value and changes nothing else, so a type comes back equal exactly when its marks equal their truth values.
This goes for every type that a host program can hold: one that an expression resolves to, whatever
aliases it goes through, and one that was read before.
-/
namespace EngineHost

mutual

/-- The type that its wire form is read as: every mark is replaced by its truth value. -/
def Ty.settle : Ty → Ty
  | .primitive p => .primitive p
  | .variable name => .variable name
  | .list element => .list element.settle
  | .record fields extensible => .record (Ty.settleFields fields) (.bool extensible.isTruthy)
  | .block params returns => .block (Ty.settleList params) returns.settle

def Ty.settleList : List Ty → List Ty
  | [] => []
  | t :: rest => t.settle :: Ty.settleList rest

def Ty.settleFields : List (Value × Field) → List (Value × Field)
  | [] => []
  | (name, .mk t isOptional) :: rest => (name, .mk t.settle isOptional) :: Ty.settleFields rest

end

namespace Ty

theorem ofWireList_settle {ts : List Ty} (h : ∀ t ∈ ts, ofWire t.toWire = .ok t.settle) :
    ofWireList (listToWire ts) = .ok (settleList ts) := by
  induction ts with
  | nil => rfl
  | cons t rest ih =>
    simp only [listToWire, ofWireList, h t List.mem_cons_self,
      ih fun u hu => h u (List.mem_cons_of_mem _ hu)]
    rfl

theorem ofWireFields_settle {fields : List (Value × Field)}
    (hflags : ∀ f ∈ fields, ∃ b, f.2.isOptional = .bool b)
    (h : ∀ f ∈ fields, ofWire f.2.type.toWire = .ok f.2.type.settle) :
    ofWireFields (fieldsToWire fields) = .ok (settleFields fields) := by
  induction fields with
  | nil => rfl
  | cons f rest ih =>
    obtain ⟨name, t, isOptional⟩ := f
    obtain ⟨b, hb⟩ := hflags (name, .mk t isOptional) List.mem_cons_self
    obtain rfl : isOptional = .bool b := hb
    have ht : ofWire t.toWire = .ok t.settle := h (name, .mk t (.bool b)) List.mem_cons_self
    have hrest := ih (fun g hg => hflags g (List.mem_cons_of_mem _ hg))
      fun g hg => h g (List.mem_cons_of_mem _ hg)
    simp [fieldsToWire, Value.ofFields, ofWireFields, ofWireOutput, ht, Value.get?, Value.isTruthy,
      hrest, settleFields]
    rfl

theorem names_settleFields (fields : List (Value × Field)) :
    (settleFields fields).map Prod.fst = fields.map Prod.fst := by
  induction fields with
  | nil => rfl
  | cons f rest ih =>
    obtain ⟨name, t, isOptional⟩ := f
    simp [settleFields, ih]

/-- Reading the wire form of a legible type gives the type with its marks settled. -/
theorem Legible.ofWire_toWire {t : Ty} (h : t.Legible) : ofWire t.toWire = .ok t.settle := by
  induction h with
  | primitive h =>
    simp only [toWire, ofWire, h]
    rfl
  | «variable» h =>
    simp only [toWire, tagged, Value.ofFields, List.map_cons, List.map_nil, ofWire,
      asText_of_isText h]
    rfl
  | list h ih =>
    simp only [toWire, tagged, Value.ofFields, List.map_cons, List.map_nil, ofWire, ih]
    rfl
  | @record fields extensible hlined hascending hflags _ ih =>
    rw [← names_settleFields] at hlined hascending
    simp only [toWire, tagged, Value.ofFields, List.map_cons, List.map_nil, ofWire, ofWireRecord,
      ofWireFields_settle hflags ih]
    show ofFields (settleFields fields) (.bool extensible.isTruthy) = _
    rw [ofFields, sortByKey?_ascending hlined hascending]
    rfl
  | block _ _ hparams hreturns =>
    simp only [toWire, tagged, Value.ofFields, List.map_cons, List.map_nil, ofWire, ofWireParams,
      ofWireList_settle hparams, hreturns]
    rfl

/-- The mark of every record equals its truth value. -/
def Settled (records : List (List (Value × Field) × Value)) : Prop :=
  ∀ r ∈ records, (Value.bool r.2.isTruthy).equals r.2

theorem settled_append {xs ys : List (List (Value × Field) × Value)} :
    Settled (xs ++ ys) ↔ Settled xs ∧ Settled ys :=
  List.forall_mem_append

theorem settleList_equals {ts : List Ty} (h : ∀ t ∈ ts, t.settle.equals t ↔ Settled t.records) :
    equalsList (settleList ts) ts ↔ Settled (recordsOfList ts) := by
  induction ts with
  | nil => simp [settleList, equalsList, recordsOfList, Settled]
  | cons t rest ih =>
    have ht := h t List.mem_cons_self
    have hrest := ih fun u hu => h u (List.mem_cons_of_mem _ hu)
    simp only [settleList, equalsList, recordsOfList, Bool.and_eq_true, ht, hrest, settled_append]

theorem settleFields_equals {fields : List (Value × Field)}
    (hnames : ∀ f ∈ fields, f.1.equals f.1) (hflags : ∀ f ∈ fields, ∃ b, f.2.isOptional = .bool b)
    (h : ∀ f ∈ fields, f.2.type.settle.equals f.2.type ↔ Settled f.2.type.records) :
    equalsFields (settleFields fields) fields ↔ Settled (recordsOfFields fields) := by
  induction fields with
  | nil => simp [settleFields, equalsFields, recordsOfFields, Settled]
  | cons f rest ih =>
    obtain ⟨name, t, isOptional⟩ := f
    obtain ⟨b, hb⟩ := hflags (name, .mk t isOptional) List.mem_cons_self
    obtain rfl : isOptional = .bool b := hb
    have ht : t.settle.equals t ↔ Settled t.records :=
      h (name, .mk t (.bool b)) List.mem_cons_self
    have hname : name.equals name := hnames (name, .mk t (.bool b)) List.mem_cons_self
    have hrest := ih (fun g hg => hnames g (List.mem_cons_of_mem _ hg))
      (fun g hg => hflags g (List.mem_cons_of_mem _ hg)) fun g hg => h g (List.mem_cons_of_mem _ hg)
    simp only [settleFields, equalsFields, Field.equals, recordsOfFields, Bool.and_eq_true, ht, hrest,
      hname, equals_self_bool, true_and, and_true, settled_append]

/-- What is read equals what was written exactly when every mark equals its truth value. -/
theorem Legible.settle_equals {t : Ty} (h : t.Legible) : t.settle.equals t ↔ Settled t.records := by
  induction h with
  | primitive h => simp [settle, Ty.equals, records, Settled]
  | «variable» h => simp [settle, Ty.equals, records, Settled, equals_self_of_isText h]
  | list h ih => simpa only [settle, Ty.equals, records] using ih
  | @record fields extensible hlined _ hflags _ ih =>
    have hnames : ∀ f ∈ fields, f.1.equals f.1 := fun f hf => hlined.refl (List.mem_map_of_mem hf)
    simp only [settle, Ty.equals, Bool.and_eq_true, settleFields_equals hnames hflags ih, records,
      Settled, List.forall_mem_cons, and_comm]
  | block _ _ hparams hreturns =>
    simp only [settle, Ty.equals, Bool.and_eq_true, settleList_equals hparams, hreturns, records,
      settled_append]

end Ty

mutual

/-- A type that a host program can hold: an expression was resolved, or a wire form was read. -/
inductive Ty.Obtained : Ty → Prop where
  | resolved {r : Registry} {expr : Value} {t : Ty} (hr : r.Attained) (hexpr : expr.Expression)
      (h : r.resolve expr = .ok t) : Ty.Obtained t
  | read {w : Value} {t : Ty} (hw : w.Keyed) (h : Ty.ofWire w = .ok t) (hlined : Ty.Lined t.records) :
      Ty.Obtained t

/-- A type expression: its variables are named by texts, the names of the fields of a record are distinct
and the types inside were obtained before. Records may be marked by any value. -/
inductive Value.Expression : Value → Prop where
  | name {v : Value} (h : v.isText) : Value.Expression v
  | type {t : Ty} (h : t.Obtained) : Value.Expression (.type t)
  | «variable» {name : Value} (h : name.isText) : Value.Expression (.variable name)
  | listOf {element : Value} (h : element.Expression) : Value.Expression (.listOf element)
  | blockOf {params : List Value} {returns : Value} (hparams : ∀ p ∈ params, p.Expression)
      (hreturns : returns.Expression) : Value.Expression (.blockOf params returns)
  | fieldSpec {expr : Value} {isOptional : Bool} (h : expr.Expression) :
      Value.Expression (.fieldSpec expr isOptional)
  | recordOf {fields : List (Value × Value)} {extensible : Value}
      (hdistinct : Value.Distinct (fields.map Prod.fst)) (h : ∀ f ∈ fields, f.2.Expression) :
      Value.Expression (.recordOf fields extensible)
  | mapping {kind : MappingKind} {entries : List (Value × Value)}
      (hdistinct : Value.Distinct (entries.map Prod.fst)) (h : ∀ e ∈ entries, e.2.Expression) :
      Value.Expression (.mapping kind entries)

/-- The registries that definitions lead to. -/
inductive Registry.Attained : Registry → Prop where
  | empty : Registry.Attained .empty
  | define {r r' : Registry} {name expr : Value} {t : Ty} (hr : r.Attained) (hexpr : expr.Expression)
      (h : r.define name expr = .ok (t, r')) : r'.Attained

end

namespace Registry

variable {r : Registry}

def Legible (r : Registry) : Prop := ∀ a ∈ r.aliases, a.2.Legible

/-- What an expression means as the value of a field, where it may be marked. -/
def Means (r : Registry) (expr : Value) (t : Ty) : Prop :=
  r.resolve expr = .ok t ∨ ∃ inner b, expr = .fieldSpec inner b ∧ r.resolve inner = .ok t

theorem legible_resolveName (hr : r.Legible) {name : Value} {t : Ty}
    (h : r.resolveName name = .ok t) : t.Legible := by
  unfold resolveName at h
  split at h
  · next p hp =>
    obtain rfl := Except.ok.inj h
    exact .primitive (regular_primitive? hp)
  · next u _ hu =>
    obtain rfl := Except.ok.inj h
    obtain ⟨a, ha, rfl⟩ := Option.map_eq_some_iff.mp hu
    exact hr a (List.mem_of_find?_eq_some ha)
  · cases h

theorem resolveList_eq_ok {exprs : List Value} : ∀ {ts : List Ty}, resolveList r exprs = .ok ts →
    ∀ t ∈ ts, ∃ expr ∈ exprs, r.resolve expr = .ok t := by
  induction exprs with
  | nil =>
    intro ts h
    obtain rfl := Except.ok.inj h
    simp
  | cons expr rest ih =>
    intro ts h
    obtain ⟨t, ht, h⟩ := Checked.bind_eq_ok h
    obtain ⟨more, hmore, h⟩ := Checked.bind_eq_ok h
    obtain rfl := Except.ok.inj h
    refine List.forall_mem_cons.mpr ⟨⟨expr, List.mem_cons_self, ht⟩, ?_⟩
    intro u hu
    obtain ⟨expr', hexpr', hu⟩ := ih hmore u hu
    exact ⟨expr', List.mem_cons_of_mem _ hexpr', hu⟩

theorem resolveFields_eq_ok {entries : List (Value × Value)} :
    ∀ {fields : List (Value × Field)}, resolveFields r entries = .ok fields →
      fields.map Prod.fst = entries.map Prod.fst ∧
      ∀ f ∈ fields, f.1.isText ∧ (∃ b, f.2.isOptional = .bool b) ∧
        ∃ e ∈ entries, r.Means e.2 f.2.type := by
  induction entries with
  | nil =>
    intro fields h
    obtain rfl := Except.ok.inj h
    simp
  | cons e rest ih =>
    intro fields h
    obtain ⟨hname, t, b, more, hmore, rfl, ht⟩ := resolveFields_cons h
    obtain ⟨hnames, hrest⟩ := ih hmore
    refine ⟨by simp [hnames], List.forall_mem_cons.mpr ⟨⟨hname, ⟨b, rfl⟩, ?_⟩, ?_⟩⟩
    · refine ⟨e, List.mem_cons_self, ?_⟩
      rcases ht with ⟨inner, hinner, ht⟩ | ht
      · exact .inr ⟨inner, b, hinner, ht⟩
      · exact .inl ht
    · intro f hf
      obtain ⟨htext, hflag, e', he', hmeans⟩ := hrest f hf
      exact ⟨htext, hflag, e', List.mem_cons_of_mem _ he', hmeans⟩

/-- A record resolves to a legible type, if its fields do. -/
theorem legible_record {entries : List (Value × Value)} {extensible : Value} {t : Ty}
    (hdistinct : Value.Distinct (entries.map Prod.fst))
    (hentries : ∀ e ∈ entries, ∀ u, r.Means e.2 u → u.Legible)
    (h : (do Ty.ofFields (← resolveFields r entries) extensible : Checked Ty) = .ok t) :
    t.Legible := by
  obtain ⟨fields, hfields, h⟩ := Checked.bind_eq_ok h
  obtain ⟨hnames, hparts⟩ := resolveFields_eq_ok hfields
  rw [← hnames] at hdistinct
  have htext : ∀ n ∈ fields.map Prod.fst, n.isText := by
    intro n hn
    obtain ⟨f, hf, rfl⟩ := List.mem_map.mp hn
    exact (hparts f hf).1
  refine Ty.legible_ofFields hdistinct (Value.lined_texts htext hdistinct) ?_ h
  intro f hf
  obtain ⟨_, hflag, e, he, hmeans⟩ := hparts f hf
  exact ⟨hentries e he _ hmeans, hflag⟩

end Registry

mutual

theorem Ty.Obtained.legible {t : Ty} : t.Obtained → t.Legible
  | .resolved hr hexpr h => hexpr.legible hr.legible t (.inl h)
  | .read hw h hlined => Ty.legible_ofWire _ hw t h hlined

/-- An expression means a legible type, as the value of a field too. -/
theorem Value.Expression.legible {r : Registry} {expr : Value} (hexpr : expr.Expression)
    (hr : r.Legible) (t : Ty) (h : r.Means expr t) : t.Legible := by
  match expr, hexpr, h with
  | .str _, .name _, .inl h => exact Registry.legible_resolveName hr h
  | .letters _, .name _, .inl h => exact Registry.legible_resolveName hr h
  | _, .type ht, .inl h =>
    obtain rfl := Except.ok.inj h
    exact ht.legible
  | _, .variable hname, .inl h =>
    obtain rfl := Except.ok.inj h
    exact .variable hname
  | _, .listOf helement, .inl h =>
    obtain ⟨u, hu, h⟩ := Checked.bind_eq_ok h
    obtain rfl := Except.ok.inj h
    exact .list (helement.legible hr u (.inl hu))
  | _, .blockOf hparams hreturns, .inl h =>
    obtain ⟨ps, hps, h⟩ := Checked.bind_eq_ok h
    obtain ⟨u, hu, h⟩ := Checked.bind_eq_ok h
    obtain rfl := Except.ok.inj h
    refine .block ?_ (hreturns.legible hr u (.inl hu))
    intro p hp
    obtain ⟨param, hparam, hp⟩ := Registry.resolveList_eq_ok hps p hp
    exact (hparams param hparam).legible hr p (.inl hp)
  | _, .recordOf hdistinct hfields, .inl h =>
    exact Registry.legible_record hdistinct (fun e he => (hfields e he).legible hr) h
  | _, .mapping hdistinct hentries, .inl h =>
    exact Registry.legible_record hdistinct (fun e he => (hentries e he).legible hr) h
  | _, .fieldSpec hexpr, .inr ⟨_, _, rfl, h⟩ => exact hexpr.legible hr t (.inl h)

theorem Registry.Attained.legible {r : Registry} : r.Attained → r.Legible
  | .empty => nofun
  | .define hr hexpr h => by
    unfold Registry.define at h
    split at h
    · cases h
    split at h
    · cases h
    obtain ⟨u, hu, h⟩ := Checked.bind_eq_ok h
    obtain ⟨rfl, rfl⟩ := Prod.mk.inj (Except.ok.inj h)
    intro a ha
    rcases List.mem_append.mp ha with ha | ha
    · exact hr.legible a ha
    · obtain rfl := List.mem_singleton.mp ha
      exact hexpr.legible hr.legible u (.inl hu)

end

/-- Whatever an expression resolves to can be read back from its wire form, with its marks settled. It
comes back equal exactly when every mark equals its truth value, and the fields of every record in it are
sorted by name without duplicates. -/
theorem resolved_reread {r : Registry} {expr : Value} {t : Ty} (hr : r.Attained)
    (hexpr : expr.Expression) (h : r.resolve expr = .ok t) :
    Ty.ofWire t.toWire = .ok t.settle ∧ (t.settle.equals t ↔ Ty.Settled t.records) ∧
      ∀ record ∈ t.records, Value.Ascending (record.1.map Prod.fst) := by
  have hlegible : t.Legible := hexpr.legible hr.legible t (.inl h)
  exact ⟨hlegible.ofWire_toWire, hlegible.settle_equals, hlegible.ascending⟩

namespace Atlas

/-- An alias for a record whose fields were not declared in order. -/
def point : Value :=
  .mapping .plain [(.str "y", .fieldSpec (.str "number") true), (.str "x", .str "number")]

def pointType : Ty :=
  .record [(.str "x", .mk (.primitive .number) (.bool false)),
    (.str "y", .mk (.primitive .number) (.bool true))] (.bool false)

def registry : Registry :=
  ⟨[(.str "Point", pointType)]⟩

/-- The wire form of a record with whole numbers as names. -/
def legend : Value :=
  Ty.tagged "Record" (.list [.int 1, .mapping .plain
    [(.int 2, .ofFields [("output", .str "Str")]), (.int 1, .ofFields [("output", .str "Time")])]])

def legendType : Ty :=
  .record [(.int 1, .mk (.primitive .time) (.bool false)),
    (.int 2, .mk (.primitive .string) (.bool false))] (.bool true)

def route : Value :=
  .blockOf [.listOf (.str "Point"), .variable (.str "a")]
    (.recordOf [(.str "to", .str "Point"), (.str "legend", .fieldSpec (.type legendType) true)] (.int 1))

def routeType : Ty :=
  .block [.list pointType, .variable (.str "a")]
    (.record [(.str "legend", .mk legendType (.bool true)), (.str "to", .mk pointType (.bool false))]
      (.int 1))

theorem attained : registry.Attained := by
  have hdefine : Registry.empty.define (.str "Point") point = .ok (pointType, registry) := rfl
  have hpoint : point.Expression := by
    refine .mapping ?_ ?_
    · simp [Value.Distinct, Value.equals, Value.codes]
    · rw [List.forall_mem_cons, List.forall_mem_singleton]
      exact ⟨.fieldSpec (.name rfl), .name rfl⟩
  exact .define .empty hpoint hdefine

/-- Whole numbers compare like points on a line. -/
theorem lined_ints (is : List Int) : Value.Lined (is.map Value.int) := by
  refine ⟨Int, inferInstance, fun v => match v with | .int i => i | _ => 0, ?_⟩
  intro a ha b hb
  obtain ⟨i, _, rfl⟩ := List.mem_map.mp ha
  obtain ⟨j, _, rfl⟩ := List.mem_map.mp hb
  exact ⟨rfl, equals_int i j⟩

theorem obtained : legendType.Obtained := by
  refine .read (w := legend) ?_ rfl ?_
  · have hdiffer : ¬ (Value.int 2).equals (.int 1) := by simp [equals_int]
    simp [legend, Ty.tagged, Value.ofFields, Value.Keyed, Value.KeyedList, Value.KeyedEntries,
      Value.Distinct, Value.isText, hdiffer]
  · rw [legendType, Ty.records, Ty.Lined, List.forall_mem_cons]
    exact ⟨lined_ints [1, 2], by simp [Ty.recordsOfFields, Ty.records]⟩

theorem expression : route.Expression := by
  refine .blockOf ?_ (.recordOf ?_ ?_)
  · rw [List.forall_mem_cons, List.forall_mem_singleton]
    exact ⟨.listOf (.name rfl), .variable rfl⟩
  · simp [Value.Distinct, Value.equals, Value.codes]
  · rw [List.forall_mem_cons, List.forall_mem_singleton]
    exact ⟨.name rfl, .fieldSpec (.type obtained)⟩

theorem resolves : registry.resolve route = .ok routeType := by cbv

end Atlas

theorem resolved_reread_atlas :
    Atlas.registry.Attained ∧ Atlas.route.Expression ∧
      Atlas.registry.resolve Atlas.route = .ok Atlas.routeType ∧
      Ty.ofWire Atlas.routeType.toWire = .ok Atlas.routeType.settle ∧
      (Atlas.routeType.settle.equals Atlas.routeType ↔ Ty.Settled Atlas.routeType.records) ∧
      ∀ record ∈ Atlas.routeType.records, Value.Ascending (record.1.map Prod.fst) :=
  ⟨Atlas.attained, Atlas.expression, Atlas.resolves,
    resolved_reread Atlas.attained Atlas.expression Atlas.resolves⟩

/-- The record with one field that is marked as open by some value. -/
def Ty.markedBy (extensible : Value) : Ty :=
  .record [(.str "x", .mk (.primitive .number) (.bool false))] extensible

/-- A record that is marked by a text comes back marked by a boolean, and an alias for a variable that is
named by a number comes back named by a text. -/
theorem reread_differs :
    Registry.empty.resolve (.recordOf [(.str "x", .str "number")] (.str "yes")) =
        .ok (.markedBy (.str "yes")) ∧
      Ty.ofWire (Ty.markedBy (.str "yes")).toWire = .ok (.markedBy (.bool true)) ∧
      (Ty.markedBy (.bool true)).equals (.markedBy (.str "yes")) = false ∧
    Registry.empty.define (.str "A") (.variable (.int 5)) =
        .ok (.variable (.int 5), ⟨[(.str "A", .variable (.int 5))]⟩) ∧
      Registry.resolve ⟨[(.str "A", .variable (.int 5))]⟩ (.str "A") = .ok (.variable (.int 5)) ∧
      Ty.ofWire (Ty.variable (.int 5)).toWire = .ok (.variable (.str "5")) ∧
      (Ty.variable (.str "5")).equals (.variable (.int 5)) = false := by
  refine ⟨?_, ?_, ?_, ?_, ?_, ?_, ?_⟩ <;> cbv

end EngineHost
