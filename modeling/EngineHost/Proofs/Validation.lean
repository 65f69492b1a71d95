import Mathlib
import EngineHost.Proofs.Legibility
import EngineHost.TypeInfo

/-!
What an exported JSON Schema says. A validator reads the exported data by the meaning of its keywords; the
values that a type admits are described on their own. A type that is read from a wire form has a schema
unless a callback occurs in it, and the schema accepts exactly the values that the type admits.
-/
namespace EngineHost

namespace Value

/-- The JSON type of a value. -/
def jsonType : Value → String
  | .null => "null"
  | .bool _ => "boolean"
  | .int _ | .float _ => "number"
  | .str _ | .letters _ => "string"
  | .list _ => "array"
  | .mapping _ _ => "object"
  | _ => ""

/-- The elements of an array; nothing else has elements. -/
def jsonItems : Value → List Value
  | .list items => items
  | _ => []

/-- The members of an object; nothing else has members. -/
def jsonMembers : Value → List (Value × Value)
  | .mapping _ members => members
  | _ => []

/-- The names under the keyword `properties`. -/
def declaredNames (keywords : List (Value × Value)) : List Value :=
  match get? "properties" keywords with
  | some (.mapping _ schemas) => schemas.map Prod.fst
  | _ => []

mutual

/-- Whether a value is valid against a schema. -/
def validates : Value → Value → Bool
  | .bool accepts, _ => accepts
  | .mapping _ keywords, j => meets (declaredNames keywords) keywords j
  | _, _ => false

/-- Whether a value is valid against every keyword of a schema that declares some names. -/
def meets (declared : List Value) : List (Value × Value) → Value → Bool
  | [], _ => true
  | (key, body) :: rest, j => meetsKeyword declared key body j && meets declared rest j

/-- Keywords about arrays or objects say nothing about other values, and a keyword that is not known says
nothing at all. -/
def meetsKeyword (declared : List Value) : Value → Value → Value → Bool
  | .str "type", .list names, j => names.any fun name => name.equals (.str j.jsonType)
  | .str "type", name, j => name.equals (.str j.jsonType)
  | .str "items", schema, j => j.jsonItems.all fun v => validates schema v
  | .str "properties", .mapping _ schemas, j => meetsProperties schemas j.jsonMembers
  | .str "required", .list names, j =>
    j.jsonType != "object" || names.all fun name => j.jsonMembers.any fun m => m.1.equals name
  | .str "additionalProperties", schema, j =>
    j.jsonMembers.all fun m => declared.any (fun name => m.1.equals name) || validates schema m.2
  | _, _, _ => true

def meetsProperties : List (Value × Value) → List (Value × Value) → Bool
  | [], _ => true
  | (name, schema) :: rest, members =>
    (members.all fun m => !m.1.equals name || validates schema m.2) && meetsProperties rest members

end

end Value

/-- Numbers and times are sent as numbers. -/
def Primitive.admits (p : Primitive) (j : Value) : Bool :=
  if p = .string then j.jsonType == "string"
  else if p = .boolean then j.jsonType == "boolean"
  else j.jsonType == "number"

mutual

/-- Whether a type admits a JSON value. -/
def Ty.admits : Ty → Value → Bool
  | .primitive p, j => p.admits j
  | .variable _, j => j.jsonType == "string" || j.jsonType == "number" || j.jsonType == "boolean"
  | .list element, .list items => items.all fun v => element.admits v
  | .record fields extensible, .mapping _ members =>
    Ty.admitsFields fields members &&
      (extensible.isTruthy || members.all fun m => fields.any fun f => m.1.equals f.1)
  | _, _ => false

/-- Whether every required field is there and every field that is there is admitted. -/
def Ty.admitsFields : List (Value × Field) → List (Value × Value) → Bool
  | [], _ => true
  | (name, .mk t isOptional) :: rest, members =>
    (isOptional.isTruthy || members.any fun m => m.1.equals name) &&
      (members.all fun m => !m.1.equals name || t.admits m.2) && Ty.admitsFields rest members

end

mutual

/-- Whether a callback occurs anywhere in a type. -/
def Ty.hasBlock : Ty → Bool
  | .primitive _ | .variable _ => false
  | .list element => element.hasBlock
  | .record fields _ => Ty.fieldsHaveBlock fields
  | .block _ _ => true

def Ty.fieldsHaveBlock : List (Value × Field) → Bool
  | [] => false
  | (_, .mk t _) :: rest => t.hasBlock || Ty.fieldsHaveBlock rest

end

namespace Value

theorem meetsProperties_toData (properties : List (Value × Schema)) (members : List (Value × Value)) :
    meetsProperties (Schema.propertiesToData properties) members =
      properties.all fun p => members.all fun m => !m.1.equals p.1 || p.2.toData.validates m.2 := by
  induction properties with
  | nil => simp [Schema.propertiesToData, meetsProperties]
  | cons p rest ih =>
    obtain ⟨name, s⟩ := p
    rw [Schema.propertiesToData, meetsProperties, ih, List.all_cons]

theorem names_propertiesToData (properties : List (Value × Schema)) :
    (Schema.propertiesToData properties).map Prod.fst = properties.map Prod.fst := by
  induction properties with
  | nil => rfl
  | cons p rest ih =>
    obtain ⟨name, s⟩ := p
    rw [Schema.propertiesToData, List.map_cons, List.map_cons, ih]

theorem equals_str (s t : String) : (Value.str s).equals (.str t) = (t == s) := by
  rw [Value.equals, Bool.beq_comm]

end Value

namespace Schema

open Value

theorem validates_scalar (type : JsonType) (j : Value) :
    (Schema.scalar type).toData.validates j = (j.jsonType == type.text) := by
  simp [toData, ofFields, validates, meets, meetsKeyword, equals_str]

theorem validates_anyOf (types : List JsonType) (j : Value) :
    (Schema.anyOf types).toData.validates j = types.any fun type => j.jsonType == type.text := by
  simp [toData, ofFields, validates, meets, meetsKeyword, equals_str, Function.comp_def]

theorem validates_array (items : Schema) (j : Value) :
    (Schema.array items).toData.validates j =
      (j.jsonType == "array" && j.jsonItems.all fun v => items.toData.validates v) := by
  simp [toData, ofFields, validates, meets, meetsKeyword, equals_str]

theorem validates_object (required : List Value) (properties : List (Value × Schema)) (closed : Bool)
    (j : Value) :
    (Schema.object required properties closed).toData.validates j =
      (j.jsonType == "object" &&
        (required.all fun name => j.jsonMembers.any fun m => m.1.equals name) &&
        (properties.all fun p => j.jsonMembers.all fun m => !m.1.equals p.1 || p.2.toData.validates m.2) &&
        (!closed || j.jsonMembers.all fun m => properties.any fun p => m.1.equals p.1)) := by
  cases required <;> cases closed <;> cases hobject : j.jsonType == "object" <;>
    simp_all [toData, ofFields, validates, declaredNames, get?, names_propertiesToData, meets, meetsKeyword,
      meetsProperties_toData, equals_str, Bool.and_assoc, Function.comp_def]

theorem validates_input (s : InputSchema) (j : Value) :
    s.toData.validates j =
      (j.jsonType == "object" &&
        (s.properties.all fun p => j.jsonMembers.any fun m => m.1.equals p.1) &&
        s.properties.all fun p => j.jsonMembers.all fun m => !m.1.equals p.1 || p.2.toData.validates m.2) := by
  obtain ⟨title, properties⟩ := s
  cases properties <;> cases hobject : j.jsonType == "object" <;>
    simp_all [InputSchema.toData, ofFields, validates, meets, meetsKeyword, meetsProperties_toData,
      equals_str, Bool.and_comm, Function.comp_def]

end Schema

/-- How the export of a schema must end: for a type with a callback in it as a refusal, for any other type
with a schema that accepts what the type admits. -/
def Ty.Exports (t : Ty) : Checked Schema → Prop
  | .ok s => t.hasBlock = false ∧ ∀ j, s.toData.validates j = t.admits j
  | .error f => t.hasBlock = true ∧ f.family = "ValueError"

/-- The same for fields: the schemas of all, under their names, or a refusal. -/
def Ty.ExportsFields (fields : List (Value × Field)) : Checked (List (Value × Schema)) → Prop
  | .ok properties => Ty.fieldsHaveBlock fields = false ∧
      List.Forall₂ (fun f p => p.1 = f.1 ∧ ∀ j, p.2.toData.validates j = f.2.type.admits j) fields properties
  | .error f => Ty.fieldsHaveBlock fields = true ∧ f.family = "ValueError"

namespace Ty

theorem exports_primitive {p : Primitive} (h : Primitive.ofTag? p.tag = some p) :
    Exports (.primitive p) (Schema.ofType (.primitive p)) := by
  unfold Primitive.ofTag? at h
  split at h <;> cases h <;>
    exact ⟨rfl, fun j => Schema.validates_scalar _ j⟩

theorem exports_variable (name : Value) : Exports (.variable name) (Schema.ofType (.variable name)) := by
  refine ⟨rfl, fun j => ?_⟩
  rw [Schema.validates_anyOf]
  simp [JsonType.text, admits, Bool.or_assoc]

theorem exports_list {element : Ty} (h : Exports element (Schema.ofType element)) :
    Exports (.list element) (Schema.ofType (.list element)) := by
  rw [Schema.ofType]
  cases hs : Schema.ofType element with
  | error f =>
    rw [hs] at h
    exact h
  | ok s =>
    rw [hs] at h
    refine ⟨h.1, fun j => ?_⟩
    rw [Schema.validates_array]
    simp only [h.2]
    cases j <;> simp [Value.jsonType, Value.jsonItems, admits]

theorem exportsFields {fields : List (Value × Field)}
    (h : ∀ f ∈ fields, Exports f.2.type (Schema.ofType f.2.type)) :
    ExportsFields fields (Schema.ofTypeFields fields) := by
  induction fields with
  | nil => exact ⟨rfl, .nil⟩
  | cons f rest ih =>
    obtain ⟨name, t, isOptional⟩ := f
    have ht : Exports t (Schema.ofType t) := h (name, .mk t isOptional) List.mem_cons_self
    have hrest := ih fun g hg => h g (List.mem_cons_of_mem _ hg)
    rw [Schema.ofTypeFields]
    cases hs : Schema.ofType t with
    | error f =>
      rw [hs] at ht
      exact ⟨by simp [fieldsHaveBlock, ht.1], ht.2⟩
    | ok s =>
      rw [hs] at ht
      cases hproperties : Schema.ofTypeFields rest with
      | error f =>
        rw [hproperties] at hrest
        exact ⟨by simp [fieldsHaveBlock, hrest.1], hrest.2⟩
      | ok properties =>
        rw [hproperties] at hrest
        exact ⟨by simp [fieldsHaveBlock, ht.1, hrest.1], .cons ⟨rfl, ht.2⟩ hrest.2⟩

/-- What the properties of a schema ask for is what the fields ask for. -/
theorem properties_all {fields : List (Value × Field)} {properties : List (Value × Schema)}
    (h : List.Forall₂ (fun f p => p.1 = f.1 ∧ ∀ j, p.2.toData.validates j = f.2.type.admits j) fields
      properties) (members : List (Value × Value)) :
    (properties.all fun p => members.all fun m => !m.1.equals p.1 || p.2.toData.validates m.2) =
      fields.all fun f => members.all fun m => !m.1.equals f.1 || f.2.type.admits m.2 := by
  induction h with
  | nil => rfl
  | cons hp _ ih => simp only [List.all_cons, ih, hp.1, hp.2]

theorem names_eq {fields : List (Value × Field)} {properties : List (Value × Schema)}
    (h : List.Forall₂ (fun f p => p.1 = f.1 ∧ ∀ j, p.2.toData.validates j = f.2.type.admits j) fields
      properties) : properties.map Prod.fst = fields.map Prod.fst := by
  induction h with
  | nil => rfl
  | cons hp _ ih => rw [List.map_cons, List.map_cons, ih, hp.1]

theorem admitsFields_eq (fields : List (Value × Field)) (members : List (Value × Value)) :
    admitsFields fields members =
      (((Schema.requiredNames fields).all fun name => members.any fun m => m.1.equals name) &&
        fields.all fun f => members.all fun m => !m.1.equals f.1 || f.2.type.admits m.2) := by
  induction fields with
  | nil => rfl
  | cons f rest ih =>
    obtain ⟨name, t, isOptional⟩ := f
    rw [admitsFields, ih, Schema.requiredNames, Schema.requiredNames]
    cases hoptional : isOptional.isTruthy <;>
      simp [Field.isOptional, Field.type, hoptional, Bool.and_assoc, Bool.and_left_comm]

theorem exports_record {fields : List (Value × Field)} {extensible : Value}
    (h : ∀ f ∈ fields, Exports f.2.type (Schema.ofType f.2.type)) :
    Exports (.record fields extensible) (Schema.ofType (.record fields extensible)) := by
  have hfields := exportsFields h
  rw [Schema.ofType]
  cases hs : Schema.ofTypeFields fields with
  | error f =>
    rw [hs] at hfields
    exact hfields
  | ok properties =>
    rw [hs] at hfields
    refine ⟨hfields.1, fun j => ?_⟩
    have hclosed : ∀ name : Value, (properties.any fun p => name.equals p.1) =
        fields.any fun f => name.equals f.1 := by
      intro name
      simpa only [List.any_map, Function.comp_def] using congrArg (·.any fun n => name.equals n) (names_eq hfields.2)
    rw [Schema.validates_object, properties_all hfields.2]
    simp only [hclosed]
    cases j <;> simp [Value.jsonType, Value.jsonMembers, admits, admitsFields_eq]

/-- Reading a type leaves nothing that the export does not know. -/
theorem exports_ofWire (w : Value) (t : Ty) (h : ofWire w = .ok t) : Exports t (Schema.ofType t) := by
  have inner : ∀ u, ReadInside w u → Exports u (Schema.ofType u) := by
    intro u hread
    obtain ⟨part, hpart, hread⟩ := hread
    have := hpart.smaller
    exact exports_ofWire part u hread
  cases reading_ofWire h with
  | primitive hp => exact exports_primitive hp
  | «variable» _ => exact exports_variable _
  | list hread => exact exports_list (inner _ hread)
  | record _ _ hfields hsorted =>
    obtain ⟨sorted, _, hperm, rfl⟩ := ofFields_eq_ok hsorted
    exact exports_record fun f hf => inner _ (hfields f (hperm.subset hf))
  | block _ _ => exact ⟨rfl, rfl⟩
termination_by sizeOf w

end Ty

namespace TypeInfo

/-- Whether a value is an object in which every input is present and admitted. -/
def accepts (info : TypeInfo) : Value → Bool
  | .mapping _ members => info.inputs.all fun i =>
    (members.any fun m => m.1.equals i.1) && members.all fun m => !m.1.equals i.1 || i.2.admits m.2
  | _ => false

/-- The inputs of a script as the required fields of a record. -/
def fields (inputs : List (Value × Ty)) : List (Value × Field) :=
  inputs.map fun (name, t) => (name, .mk t (.bool false))

theorem fields_cons (name : Value) (t : Ty) (rest : List (Value × Ty)) :
    fields ((name, t) :: rest) = (name, .mk t (.bool false)) :: fields rest := rfl

theorem fieldsHaveBlock_fields (inputs : List (Value × Ty)) :
    Ty.fieldsHaveBlock (fields inputs) = inputs.any fun i => i.2.hasBlock := by
  induction inputs with
  | nil => rfl
  | cons i rest ih =>
    obtain ⟨name, t⟩ := i
    rw [fields_cons, Ty.fieldsHaveBlock, List.any_cons, ih]

theorem ofTypes_eq (title : Value) (inputs : List (Value × Ty)) :
    InputSchema.ofTypes title inputs =
      (fun properties => ⟨title, properties⟩) <$> Schema.ofTypeFields (fields inputs) := by
  induction inputs with
  | nil => rfl
  | cons i rest ih =>
    obtain ⟨name, t⟩ := i
    rw [InputSchema.ofTypes, ih, fields_cons, Schema.ofTypeFields]
    cases Schema.ofType t with
    | error f => rfl
    | ok s =>
      cases Schema.ofTypeFields (fields rest) with
      | error f => rfl
      | ok properties => rfl

/-- The schema of the inputs asks for what the inputs ask for. -/
theorem validates_inputSchema {info : TypeInfo} {title : Value} {properties : List (Value × Schema)}
    (h : List.Forall₂ (fun f p => p.1 = f.1 ∧ ∀ j, p.2.toData.validates j = f.2.type.admits j)
      (fields info.inputs) properties) (j : Value) :
    (InputSchema.mk title properties).toData.validates j = info.accepts j := by
  have hpresent : (properties.all fun p => j.jsonMembers.any fun m => m.1.equals p.1) =
      info.inputs.all fun i => j.jsonMembers.any fun m => m.1.equals i.1 := by
    have hnames := congrArg (·.all fun n => j.jsonMembers.any fun m => m.1.equals n) (Ty.names_eq h)
    simpa only [fields, List.map_map, List.all_map, Function.comp_def] using hnames
  rw [Schema.validates_input, Ty.properties_all h, hpresent, fields, List.all_map, Function.comp_def]
  cases j with
  | mapping kind members =>
    simp only [accepts, Value.jsonType, Value.jsonMembers, Field.type, beq_self_eq_true, Bool.true_and]
    rw [Bool.eq_iff_iff, Bool.and_eq_true, List.all_eq_true, List.all_eq_true, List.all_eq_true]
    simp only [Bool.and_eq_true]
    exact ⟨fun h i hi => ⟨h.1 i hi, h.2 i hi⟩, fun h => ⟨fun i hi => (h i hi).1, fun i hi => (h i hi).2⟩⟩
  | _ => simp [accepts, Value.jsonType]

/-- How the export of the inputs ends. -/
theorem exports_inputs {info : TypeInfo} (title : Value)
    (h : ∀ i ∈ info.inputs, ∃ w, Ty.ofWire w = .ok i.2) :
    (∃ s, info.inputSchema title = .ok s ∧ (∀ i ∈ info.inputs, i.2.hasBlock = false) ∧
        ∀ j, s.toData.validates j = info.accepts j) ∨
      ∃ f, info.inputSchema title = .error f ∧ f.family = "ValueError" ∧
        ∃ i ∈ info.inputs, i.2.hasBlock = true := by
  have hfields : Ty.ExportsFields (fields info.inputs) (Schema.ofTypeFields (fields info.inputs)) := by
    refine Ty.exportsFields fun f hf => ?_
    obtain ⟨i, hi, rfl⟩ := List.mem_map.mp hf
    obtain ⟨w, hw⟩ := h i hi
    exact Ty.exports_ofWire w i.2 hw
  rw [inputSchema, ofTypes_eq]
  cases hs : Schema.ofTypeFields (fields info.inputs) with
  | error f =>
    rw [hs] at hfields
    obtain ⟨hblock, hfamily⟩ := hfields
    rw [fieldsHaveBlock_fields, List.any_eq_true] at hblock
    exact .inr ⟨f, rfl, hfamily, hblock⟩
  | ok properties =>
    rw [hs] at hfields
    obtain ⟨hblock, hproperties⟩ := hfields
    rw [fieldsHaveBlock_fields, List.any_eq_false] at hblock
    exact .inl ⟨_, rfl, fun i hi => Bool.not_eq_true _ ▸ hblock i hi, validates_inputSchema hproperties⟩

end TypeInfo

/-- The exported schema means the type: for a type that is read from a wire form the export is refused
exactly when a callback occurs in the type, and otherwise the values that are valid against the schema are
the values that the type admits. Likewise for the inputs of a script, where other members are tolerated. -/
theorem schema_means_type :
    (∀ (w : Value) (t : Ty), Ty.ofWire w = .ok t →
      ((∃ f, Schema.ofType t = .error f ∧ f.family = "ValueError") ↔ t.hasBlock = true) ∧
      (t.hasBlock = false →
        ∃ s, Schema.ofType t = .ok s ∧ ∀ j, s.toData.validates j = t.admits j)) ∧
    ∀ (info : TypeInfo) (title : Value), (∀ i ∈ info.inputs, ∃ w, Ty.ofWire w = .ok i.2) →
      ((∃ f, info.inputSchema title = .error f ∧ f.family = "ValueError") ↔
        ∃ i ∈ info.inputs, i.2.hasBlock = true) ∧
      ((∀ i ∈ info.inputs, i.2.hasBlock = false) →
        ∃ s, info.inputSchema title = .ok s ∧ ∀ j, s.toData.validates j = info.accepts j) := by
  constructor
  · intro w t h
    have hexports := Ty.exports_ofWire w t h
    cases hs : Schema.ofType t with
    | error f =>
      rw [hs] at hexports
      refine ⟨⟨fun _ => hexports.1, fun _ => ⟨f, rfl, hexports.2⟩⟩, ?_⟩
      intro hnone
      rw [hexports.1] at hnone
      cases hnone
    | ok s =>
      rw [hs] at hexports
      refine ⟨⟨nofun, ?_⟩, fun _ => ⟨s, rfl, hexports.2⟩⟩
      intro hblock
      rw [hexports.1] at hblock
      cases hblock
  · intro info title hinputs
    rcases TypeInfo.exports_inputs title hinputs with ⟨s, hs, hnone, hvalid⟩ | ⟨f, hf, hfamily, hblock⟩
    · refine ⟨⟨?_, ?_⟩, fun _ => ⟨s, hs, hvalid⟩⟩
      · rintro ⟨f, hf, _⟩
        cases hs.symm.trans hf
      · rintro ⟨i, hi, hblock⟩
        cases (hnone i hi).symm.trans hblock
    · refine ⟨⟨fun _ => hblock, fun _ => ⟨f, hf, hfamily⟩⟩, ?_⟩
      intro hnone
      obtain ⟨i, hi, hblock⟩ := hblock
      cases (hnone i hi).symm.trans hblock

namespace Form

/-- The wire form of an open record with an optional field. -/
def wire : Value :=
  Ty.tagged "Record" (.list [.bool true, .ofFields
    [("size", .ofFields [("optional", .bool false), ("output", .str "Num")]),
      ("label", .ofFields [("optional", .bool true), ("output", Ty.tagged "List" (.str "Str"))])]])

def type : Ty :=
  .record [(.str "label", .mk (.list (.primitive .string)) (.bool true)),
    (.str "size", .mk (.primitive .number) (.bool false))] (.bool true)

/-- Inputs of which one is a callback. -/
def info : TypeInfo :=
  ⟨[(.str "form", type), (.str "done", .block [] (.primitive .boolean))], [], none⟩

theorem ofWire_wire : Ty.ofWire wire = .ok type := by cbv

theorem inputs_read : ∀ i ∈ info.inputs, ∃ w, Ty.ofWire w = .ok i.2 := by
  rw [info, List.forall_mem_cons, List.forall_mem_singleton]
  exact ⟨⟨wire, ofWire_wire⟩, ⟨Ty.toWire (.block [] (.primitive .boolean)), by cbv⟩⟩

end Form

theorem schema_means_type_form :
    (∃ s, Schema.ofType Form.type = .ok s ∧ ∀ j, s.toData.validates j = Form.type.admits j) ∧
      ∃ f, Form.info.inputSchema (.str "Inputs") = .error f ∧ f.family = "ValueError" :=
  ⟨(schema_means_type.1 Form.wire Form.type Form.ofWire_wire).2 rfl,
    (schema_means_type.2 Form.info (.str "Inputs") Form.inputs_read).1.mpr
      ⟨(.str "done", .block [] (.primitive .boolean)), by simp [Form.info], rfl⟩⟩

/-- A number is no text, and a required field is missed. -/
example : Form.type.admits (.ofFields [("size", .int 3), ("note", .null)]) = true ∧
    Form.type.admits (.ofFields [("size", .str "3")]) = false ∧
    Form.type.admits (.ofFields [("label", .list [])]) = false := by
  refine ⟨?_, ?_, ?_⟩ <;> cbv

end EngineHost
