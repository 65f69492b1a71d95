import EngineHost.Proofs.Calendar
import EngineHost.Wire.Decode
import EngineHost.Wire.Encode
import Mathlib.Data.List.Forall2

/-!
Values cross the boundary and come back. What comes back is a canonical form of the value, and crosses
in the same way again; wire values come back as they are.
-/
namespace EngineHost.Wire

open Calendar

mutual

/-- What comes back: sequences as lists, mappings and instances as plain mappings, moments universal and
in whole milliseconds. -/
def canon : Value → Value
  | .moment m => .moment m.universal.floored
  | .date d => .moment d.midnight
  | .list items => .list (canonList items)
  | .tuple items => .list (canonList items)
  | .mapping _ entries => .mapping .plain (canonEntries entries)
  | .data _ fields => .ofFields (canonFields fields)
  | .type t => canonType t
  | .listOf element => .ofFields [("element", canon element)]
  | .variable name => .ofFields [("var_name", canon name)]
  | .blockOf params returns =>
    .ofFields [("params", .list (canonList params)), ("returns", canon returns)]
  | .fieldSpec expr isOptional => .ofFields [("expr", canon expr), ("optional", .bool isOptional)]
  | .recordOf fields extensible =>
    .ofFields [("fields", .list (canonPairs fields)), ("extensible", canon extensible)]
  | v => v

def canonList : List Value → List Value
  | [] => []
  | v :: rest => canon v :: canonList rest

def canonEntries : List (Value × Value) → List (Value × Value)
  | [] => []
  | (key, v) :: rest => (key, canon v) :: canonEntries rest

def canonFields : List (String × Value) → List (String × Value)
  | [] => []
  | (key, v) :: rest => (key, canon v) :: canonFields rest

def canonPairs : List (Value × Value) → List Value
  | [] => []
  | (k, v) :: rest => .list [canon k, canon v] :: canonPairs rest

def canonType : Ty → Value
  | .primitive p => .ofFields [("_name", .str p.name), ("tag", .str p.tag)]
  | .variable name => .ofFields [("var_name", canon name)]
  | .list element => .ofFields [("element_type", canonType element)]
  | .record fields extensible =>
    .ofFields [("fields", .list (canonTypeFields fields)), ("extensible", canon extensible)]
  | .block params returns =>
    .ofFields [("param_types", .list (canonTypes params)), ("return_type", canonType returns)]

def canonTypes : List Ty → List Value
  | [] => []
  | t :: rest => canonType t :: canonTypes rest

def canonTypeFields : List (Value × Field) → List Value
  | [] => []
  | (k, .mk t isOptional) :: rest =>
    .list [canon k, .ofFields [("type", canonType t), ("optional", canon isOptional)]] ::
      canonTypeFields rest

end

mutual

/-- A value that can cross: no callback, no null and nothing foreign anywhere inside, its moments
representable and its keys texts. -/
def Native : Value → Prop
  | .null | .foreign _ | .object _ => False
  | .bool _ | .int _ | .float _ | .str _ | .letters _ => True
  | .moment m => m.isValid ∧ Representable m.instant
  | .date d => d.isValid
  | .list items | .tuple items => NativeList items
  | .mapping _ entries => NativeEntries entries
  | .data _ fields => NativeFields fields
  | .type t => NativeType t
  | .listOf element => Native element
  | .variable name => Native name
  | .blockOf params returns => NativeList params ∧ Native returns
  | .fieldSpec expr _ => Native expr
  | .recordOf fields extensible => NativePairs fields ∧ Native extensible

def NativeList : List Value → Prop
  | [] => True
  | v :: rest => Native v ∧ NativeList rest

def NativeEntries : List (Value × Value) → Prop
  | [] => True
  | (key, v) :: rest => key.isText ∧ Native v ∧ NativeEntries rest

def NativeFields : List (String × Value) → Prop
  | [] => True
  | (_, v) :: rest => Native v ∧ NativeFields rest

def NativePairs : List (Value × Value) → Prop
  | [] => True
  | (k, v) :: rest => Native k ∧ Native v ∧ NativePairs rest

def NativeType : Ty → Prop
  | .primitive _ => True
  | .variable name => Native name
  | .list element => NativeType element
  | .record fields extensible => NativeTypeFields fields ∧ Native extensible
  | .block params returns => NativeTypes params ∧ NativeType returns

def NativeTypes : List Ty → Prop
  | [] => True
  | t :: rest => NativeType t ∧ NativeTypes rest

def NativeTypeFields : List (Value × Field) → Prop
  | [] => True
  | (k, .mk t isOptional) :: rest =>
    Native k ∧ NativeType t ∧ Native isOptional ∧ NativeTypeFields rest

end

/-- A wire value and the value that crosses as it and is read from it. -/
structure Wires (e v : Value) : Prop where
  decode : decode e = .ok v
  encode : ∀ place, encode place v = .ok e

namespace Wires

variable {e v : Value} {es vs : List Value}

theorem decodeList (h : List.Forall₂ Wires es vs) : Wire.decodeList es = .ok vs := by
  induction h with
  | nil => rfl
  | cons hev _ ih =>
    rw [Wire.decodeList, hev.decode, ih]
    rfl

theorem encodeList (h : List.Forall₂ Wires es vs) (place : Place) (index : Nat) :
    Wire.encodeList place index vs = .ok es := by
  induction h generalizing index with
  | nil => rfl
  | cons hev _ ih =>
    rw [Wire.encodeList, hev.encode, ih]
    rfl

theorem list (h : List.Forall₂ Wires es vs) : Wires (Wire.list es) (.list vs) where
  decode := by
    simp only [Wire.list, Value.ofFields, List.map_cons, List.map_nil, Wire.decode, decodeList h]
    rfl
  encode := by
    intro place
    rw [Wire.encode, encodeList h]
    rfl

/-- Entries under texts. -/
theorem record {entries entries' : List (Value × Value)}
    (h : List.Forall₂ (fun a b => a.1 = b.1 ∧ b.1.isText ∧ Wires a.2 b.2) entries entries') :
    Wires (Wire.record entries) (.mapping .plain entries') := by
  have hdecode : decodeEntries entries = .ok entries' := by
    induction h with
    | nil => rfl
    | @cons a b _ _ hab _ ih =>
      obtain ⟨key, e⟩ := a
      obtain ⟨key', v⟩ := b
      obtain ⟨rfl, -, hev⟩ := hab
      rw [decodeEntries, hev.decode, ih]
      rfl
  have hencode : ∀ place, encodeEntries place entries' = .ok entries := by
    intro place
    clear hdecode
    induction h with
    | nil => rfl
    | @cons a b _ _ hab _ ih =>
      obtain ⟨key, e⟩ := a
      obtain ⟨key', v⟩ := b
      obtain ⟨rfl, htext, hev⟩ := hab
      rw [encodeEntries, if_pos htext, hev.encode, ih]
      rfl
  constructor
  · simp only [Wire.record, Value.ofFields, List.map_cons, List.map_nil, Wire.decode, hdecode]
    rfl
  · intro place
    rw [Wire.encode, hencode]
    rfl

/-- Entries under the names of fields. -/
theorem fields {fields fields' : List (String × Value)}
    (h : List.Forall₂ (fun a b => a.1 = b.1 ∧ Wires a.2 b.2) fields fields') :
    Wires (recordOfFields fields) (.ofFields fields') := by
  refine record (List.forall₂_map_left_iff.mpr (List.forall₂_map_right_iff.mpr (h.imp ?_)))
  intro a b hab
  exact ⟨congrArg Value.str hab.1, rfl, hab.2⟩

theorem field {name : String} (h : Wires e v) :
    Wires (recordOfFields [(name, e)]) (.ofFields [(name, v)]) :=
  fields (.cons ⟨rfl, h⟩ .nil)

theorem field₂ {name name' : String} {e' v' : Value} (h : Wires e v) (h' : Wires e' v') :
    Wires (recordOfFields [(name, e), (name', e')]) (.ofFields [(name, v), (name', v')]) :=
  fields (.cons ⟨rfl, h⟩ (.cons ⟨rfl, h'⟩ .nil))

theorem str (s : String) : Wires (prim "String" (.str s)) (.str s) :=
  ⟨rfl, fun _ => rfl⟩

theorem bool (b : Bool) : Wires (prim "Boolean" (.bool b)) (.bool b) :=
  ⟨rfl, fun _ => rfl⟩

end Wires

/-- A value crosses as the same wire value from every place, and comes back as another. -/
def Crosses (v c : Value) : Prop :=
  ∃ e, (∀ place, encode place v = .ok e) ∧ Wires e c

namespace Crosses

variable {v c : Value}

/-- What crosses as it is comes back so. -/
theorem scalar {kind : String} {scalar : Value} (hdecode : decode (prim kind scalar) = .ok c)
    (hv : ∀ place, encode place v = .ok (prim kind scalar))
    (hc : ∀ place, encode place c = .ok (prim kind scalar)) : Crosses v c :=
  ⟨_, hv, hdecode, hc⟩

theorem time {millis : Int} {m : Moment} (hread : Moment.ofMillis? millis = some m)
    (hcount : m.millis = millis) (hv : ∀ place, encode place v = .ok (prim "Time" (.int millis))) :
    Crosses v (.moment m) := by
  refine scalar ?_ hv fun place => ?_
  · rw [Moment.ofMillis?] at hread
    simp only [prim, Value.ofFields, List.map_cons, List.map_nil, decode, decodeScalar, momentOfMillis,
      momentOfMillis.fromInstant, hread]
    rfl
  · rw [encode, hcount]
    rfl

end Crosses

mutual

/-- Native values cross, and come back in canonical form. -/
theorem crosses (v : Value) (h : Native v) : Crosses v (canon v) := by
  cases v with
  | null => exact h.elim
  | foreign o => exact h.elim
  | object ref => exact h.elim
  | bool b => exact .scalar rfl (fun _ => rfl) (fun _ => rfl)
  | int i => exact .scalar rfl (fun _ => rfl) (fun _ => rfl)
  | float x => exact .scalar rfl (fun _ => rfl) (fun _ => rfl)
  | str s => exact .scalar rfl (fun _ => rfl) (fun _ => rfl)
  | letters s => exact .scalar rfl (fun _ => rfl) (fun _ => rfl)
  | moment m =>
    obtain ⟨hread, hcount⟩ := Moment.ofMillis?_millis h.1 h.2
    exact .time hread hcount fun _ => rfl
  | date d => exact .time (Date.ofMillis?_midnight h) rfl fun _ => rfl
  | list items =>
    obtain ⟨es, hes, hwires⟩ := crossesList items h
    refine ⟨_, fun place => ?_, .list hwires⟩
    rw [encode, hes]
    rfl
  | tuple items =>
    obtain ⟨es, hes, hwires⟩ := crossesList items h
    refine ⟨_, fun place => ?_, .list hwires⟩
    rw [encode, hes]
    rfl
  | mapping kind entries =>
    obtain ⟨es, hes, hwires⟩ := crossesEntries entries h
    refine ⟨_, fun place => ?_, .record hwires⟩
    rw [encode, hes]
    rfl
  | data name fields =>
    obtain ⟨es, hes, hwires⟩ := crossesFields fields h
    refine ⟨_, fun place => ?_, .fields hwires⟩
    rw [encode, hes]
    rfl
  | type t => exact crossesType t h
  | listOf element =>
    obtain ⟨e, he, hwires⟩ := crosses element h
    refine ⟨_, fun place => ?_, .field hwires⟩
    rw [encode, he]
    rfl
  | «variable» name =>
    obtain ⟨e, he, hwires⟩ := crosses name h
    refine ⟨_, fun place => ?_, .field hwires⟩
    rw [encode, he]
    rfl
  | blockOf params returns =>
    obtain ⟨es, hes, hparams⟩ := crossesList params h.1
    obtain ⟨e, he, hreturns⟩ := crosses returns h.2
    refine ⟨_, fun place => ?_, .field₂ (.list hparams) hreturns⟩
    rw [encode, hes, he]
    rfl
  | fieldSpec expr isOptional =>
    obtain ⟨e, he, hexpr⟩ := crosses expr h
    refine ⟨_, fun place => ?_, .field₂ hexpr (.bool isOptional)⟩
    rw [encode, he]
    rfl
  | recordOf fields extensible =>
    obtain ⟨es, hes, hfields⟩ := crossesPairs fields h.1
    obtain ⟨e, he, hextensible⟩ := crosses extensible h.2
    refine ⟨_, fun place => ?_, .field₂ (.list hfields) hextensible⟩
    rw [encode, hes, he]
    rfl

theorem crossesList (vs : List Value) (h : NativeList vs) :
    ∃ es, (∀ place index, encodeList place index vs = .ok es) ∧
      List.Forall₂ Wires es (canonList vs) := by
  cases vs with
  | nil => exact ⟨[], fun _ _ => rfl, .nil⟩
  | cons v rest =>
    obtain ⟨e, he, hwires⟩ := crosses v h.1
    obtain ⟨es, hes, hall⟩ := crossesList rest h.2
    refine ⟨e :: es, fun place index => ?_, .cons hwires hall⟩
    rw [encodeList, he, hes]
    rfl

theorem crossesEntries (entries : List (Value × Value)) (h : NativeEntries entries) :
    ∃ es, (∀ place, encodeEntries place entries = .ok es) ∧
      List.Forall₂ (fun a b => a.1 = b.1 ∧ b.1.isText ∧ Wires a.2 b.2) es (canonEntries entries) := by
  match entries with
  | [] => exact ⟨[], fun _ => rfl, .nil⟩
  | (key, v) :: rest =>
    obtain ⟨htext, hv, hrest⟩ := h
    obtain ⟨e, he, hwires⟩ := crosses v hv
    obtain ⟨es, hes, hall⟩ := crossesEntries rest hrest
    refine ⟨(key, e) :: es, fun place => ?_, .cons ⟨rfl, htext, hwires⟩ hall⟩
    rw [encodeEntries, if_pos htext, he, hes]
    rfl

theorem crossesFields (fields : List (String × Value)) (h : NativeFields fields) :
    ∃ es, (∀ place, encodeFields place fields = .ok es) ∧
      List.Forall₂ (fun a b => a.1 = b.1 ∧ Wires a.2 b.2) es (canonFields fields) := by
  match fields with
  | [] => exact ⟨[], fun _ => rfl, .nil⟩
  | (key, v) :: rest =>
    obtain ⟨e, he, hwires⟩ := crosses v h.1
    obtain ⟨es, hes, hall⟩ := crossesFields rest h.2
    refine ⟨(key, e) :: es, fun place => ?_, .cons ⟨rfl, hwires⟩ hall⟩
    rw [encodeFields, he, hes]
    rfl

theorem crossesPairs (pairs : List (Value × Value)) (h : NativePairs pairs) :
    ∃ es, (∀ place index, encodePairs place index pairs = .ok es) ∧
      List.Forall₂ Wires es (canonPairs pairs) := by
  match pairs with
  | [] => exact ⟨[], fun _ _ => rfl, .nil⟩
  | (k, v) :: rest =>
    obtain ⟨hk, hv, hrest⟩ := h
    obtain ⟨first, hfirst, hwires⟩ := crosses k hk
    obtain ⟨second, hsecond, hwires'⟩ := crosses v hv
    obtain ⟨es, hes, hall⟩ := crossesPairs rest hrest
    refine ⟨list [first, second] :: es, fun place index => ?_,
      .cons (.list (.cons hwires (.cons hwires' .nil))) hall⟩
    rw [encodePairs, hfirst, hsecond, hes]
    rfl

theorem crossesType (t : Ty) (h : NativeType t) :
    ∃ e, (∀ place, encodeType place t = .ok e) ∧ Wires e (canonType t) := by
  cases t with
  | primitive p =>
    exact ⟨_, fun _ => rfl, .field₂ (.str p.name) (.str p.tag)⟩
  | «variable» name =>
    obtain ⟨e, he, hwires⟩ := crosses name h
    refine ⟨_, fun place => ?_, .field hwires⟩
    rw [encodeType, he]
    rfl
  | list element =>
    obtain ⟨e, he, hwires⟩ := crossesType element h
    refine ⟨_, fun place => ?_, .field hwires⟩
    rw [encodeType, he]
    rfl
  | record fields extensible =>
    obtain ⟨es, hes, hfields⟩ := crossesTypeFields fields h.1
    obtain ⟨e, he, hextensible⟩ := crosses extensible h.2
    refine ⟨_, fun place => ?_, .field₂ (.list hfields) hextensible⟩
    rw [encodeType, hes, he]
    rfl
  | block params returns =>
    obtain ⟨es, hes, hparams⟩ := crossesTypes params h.1
    obtain ⟨e, he, hreturns⟩ := crossesType returns h.2
    refine ⟨_, fun place => ?_, .field₂ (.list hparams) hreturns⟩
    rw [encodeType, hes, he]
    rfl

theorem crossesTypes (ts : List Ty) (h : NativeTypes ts) :
    ∃ es, (∀ place index, encodeTypes place index ts = .ok es) ∧
      List.Forall₂ Wires es (canonTypes ts) := by
  cases ts with
  | nil => exact ⟨[], fun _ _ => rfl, .nil⟩
  | cons t rest =>
    obtain ⟨e, he, hwires⟩ := crossesType t h.1
    obtain ⟨es, hes, hall⟩ := crossesTypes rest h.2
    refine ⟨e :: es, fun place index => ?_, .cons hwires hall⟩
    rw [encodeTypes, he, hes]
    rfl

theorem crossesTypeFields (fields : List (Value × Field)) (h : NativeTypeFields fields) :
    ∃ es, (∀ place index, encodeTypeFields place index fields = .ok es) ∧
      List.Forall₂ Wires es (canonTypeFields fields) := by
  match fields with
  | [] => exact ⟨[], fun _ _ => rfl, .nil⟩
  | (k, .mk t isOptional) :: rest =>
    obtain ⟨hk, ht, hoptional, hrest⟩ := h
    obtain ⟨key, hkey, hwires⟩ := crosses k hk
    obtain ⟨type, htype, hwires'⟩ := crossesType t ht
    obtain ⟨optional, ho, hwires''⟩ := crosses isOptional hoptional
    obtain ⟨es, hes, hall⟩ := crossesTypeFields rest hrest
    refine ⟨_, fun place index => ?_,
      .cons (.list (.cons hwires (.cons (.field₂ hwires' hwires'') .nil))) hall⟩
    rw [encodeTypeFields, hkey, htype, ho, hes]
    rfl

end

/-- What the engine sends: one tag over a scalar of its kind, over a list or over entries under texts.
The mappings may be of any kind. -/
inductive WireForm : Value → Prop where
  | int (kind kind' : MappingKind) (i : Int) :
    WireForm (.mapping kind [(.str "Prim", .mapping kind' [(.str "Number", .int i)])])
  | float (kind kind' : MappingKind) (x : Float) :
    WireForm (.mapping kind [(.str "Prim", .mapping kind' [(.str "Number", .float x)])])
  | str (kind kind' : MappingKind) (s : String) :
    WireForm (.mapping kind [(.str "Prim", .mapping kind' [(.str "String", .str s)])])
  | letters (kind kind' : MappingKind) (text : List Text.Letter) :
    WireForm (.mapping kind [(.str "Prim", .mapping kind' [(.str "String", .letters text)])])
  | bool (kind kind' : MappingKind) (b : Bool) :
    WireForm (.mapping kind [(.str "Prim", .mapping kind' [(.str "Boolean", .bool b)])])
  | time (kind kind' : MappingKind) {millis : Int} (h : Representable (millis * 1000)) :
    WireForm (.mapping kind [(.str "Prim", .mapping kind' [(.str "Time", .int millis)])])
  | list (kind : MappingKind) {items : List Value} (h : ∀ w ∈ items, WireForm w) :
    WireForm (.mapping kind [(.str "List", .list items)])
  | record (kind kind' : MappingKind) {entries : List (Value × Value)}
    (htext : ∀ p ∈ entries, p.1.isText) (h : ∀ p ∈ entries, WireForm p.2) :
    WireForm (.mapping kind [(.str "Record", .mapping kind' entries)])

mutual

/-- The same with plain mappings, their entries in the same order. -/
def plain : Value → Value
  | .mapping _ entries => .mapping .plain (plainEntries entries)
  | .list items => .list (plainList items)
  | v => v

def plainList : List Value → List Value
  | [] => []
  | v :: rest => plain v :: plainList rest

def plainEntries : List (Value × Value) → List (Value × Value)
  | [] => []
  | (key, v) :: rest => (key, plain v) :: plainEntries rest

end

/-- A wire value is read as something that crosses as it. -/
def Returns (w : Value) : Prop :=
  ∃ v, decode w = .ok v ∧ ∀ place, encode place v = .ok (plain w)

theorem returns_list (items : List Value) (h : ∀ w ∈ items, Returns w) :
    ∃ vs, decodeList items = .ok vs ∧
      ∀ place index, encodeList place index vs = .ok (plainList items) := by
  induction items with
  | nil => exact ⟨[], rfl, fun _ _ => rfl⟩
  | cons w rest ih =>
    obtain ⟨v, hdecode, hencode⟩ := h w (List.mem_cons_self ..)
    obtain ⟨vs, hdecodes, hencodes⟩ := ih fun u hu => h u (List.mem_cons_of_mem _ hu)
    refine ⟨v :: vs, ?_, fun place index => ?_⟩
    · rw [decodeList, hdecode, hdecodes]
      rfl
    · rw [encodeList, hencode, hencodes]
      rfl

theorem returns_entries (entries : List (Value × Value)) (htext : ∀ p ∈ entries, p.1.isText)
    (h : ∀ p ∈ entries, Returns p.2) :
    ∃ vs, decodeEntries entries = .ok vs ∧
      ∀ place, encodeEntries place vs = .ok (plainEntries entries) := by
  induction entries with
  | nil => exact ⟨[], rfl, fun _ => rfl⟩
  | cons p rest ih =>
    obtain ⟨key, w⟩ := p
    have hkey : key.isText = true := htext (key, w) (List.mem_cons_self ..)
    obtain ⟨v, hdecode, hencode⟩ := h (key, w) (List.mem_cons_self ..)
    obtain ⟨vs, hdecodes, hencodes⟩ := ih (fun u hu => htext u (List.mem_cons_of_mem _ hu))
      fun u hu => h u (List.mem_cons_of_mem _ hu)
    refine ⟨(key, v) :: vs, ?_, fun place => ?_⟩
    · rw [decodeEntries, hdecode, hdecodes]
      rfl
    · rw [encodeEntries, if_pos hkey, hencode, hencodes]
      rfl

/-- Wire values are read, and cross as they came. -/
theorem WireForm.returns {w : Value} (h : WireForm w) : Returns w := by
  induction h with
  | int kind kind' i => exact ⟨.int i, rfl, fun _ => rfl⟩
  | float kind kind' x => exact ⟨.float x, rfl, fun _ => rfl⟩
  | str kind kind' s => exact ⟨.str s, rfl, fun _ => rfl⟩
  | letters kind kind' text => exact ⟨.letters text, rfl, fun _ => rfl⟩
  | bool kind kind' b => exact ⟨.bool b, rfl, fun _ => rfl⟩
  | @time kind kind' millis h =>
    obtain ⟨m, hread, hcount⟩ := Moment.millis_ofMillis? h
    rw [Moment.ofMillis?] at hread
    refine ⟨.moment m, ?_, fun place => ?_⟩
    · simp only [decode, decodeScalar, momentOfMillis, momentOfMillis.fromInstant, hread]
      rfl
    · rw [encode, hcount]
      rfl
  | @list kind items _ ih =>
    obtain ⟨vs, hdecode, hencode⟩ := returns_list items ih
    refine ⟨.list vs, ?_, fun place => ?_⟩
    · rw [decode, hdecode]
      rfl
    · rw [encode, hencode]
      rfl
  | @record kind kind' entries htext _ ih =>
    obtain ⟨vs, hdecode, hencode⟩ := returns_entries entries htext ih
    refine ⟨.mapping .plain vs, ?_, fun place => ?_⟩
    · rw [decode, hdecode]
      rfl
    · rw [encode, hencode]
      rfl

/-- The codec loses nothing but what the canonical form leaves out, in either direction. -/
theorem codec_round_trip :
    (∀ v, Native v → ∃ e, (∀ place, encode place v = .ok e) ∧ decode e = .ok (canon v) ∧
      ∀ place, encode place (canon v) = .ok e) ∧
    ∀ w, WireForm w → ∃ v, decode w = .ok v ∧ ∀ place, encode place v = .ok (plain w) := by
  constructor
  · intro v hv
    obtain ⟨e, he, hwires⟩ := crosses v hv
    exact ⟨e, he, hwires.decode, hwires.encode⟩
  · intro w hw
    exact hw.returns

/-- A mapping with a leap day read an hour ahead, and a sequence in a record. -/
theorem codec_round_trip_nested :
    let v : Value := .mapping .ordered
      [(.str "when", .moment ⟨⟨2020, 2, 29⟩, 0, 30, 0, 123456, some 3600⟩),
        (.str "points", .tuple [.data "Point" [("x", .int 1)], .date ⟨9999, 12, 31⟩, .bool true])]
    let w : Value := .mapping .view [(.str "Record", .mapping .ordered
      [(.str "at", .mapping .plain [(.str "Prim", .mapping .plain [(.str "Time", .int (-1))])])])]
    (Native v ∧ ∃ e, (∀ place, encode place v = .ok e) ∧ decode e = .ok (canon v) ∧
      ∀ place, encode place (canon v) = .ok e) ∧
    WireForm w ∧ ∃ v, decode w = .ok v ∧ ∀ place, encode place v = .ok (plain w) := by
  intro v w
  have hmoment : Native (.moment ⟨⟨2020, 2, 29⟩, 0, 30, 0, 123456, some 3600⟩) :=
    ⟨by decide, by decide, by decide⟩
  have hdate : Native (.date ⟨9999, 12, 31⟩) := by
    change Date.isValid _ = true
    decide
  have hv : Native v := ⟨rfl, hmoment, rfl, ⟨⟨trivial, trivial⟩, hdate, trivial, trivial⟩, trivial⟩
  have hw : WireForm w := by
    refine .record .view .ordered ?_ ?_
    · intro p hp
      obtain rfl := List.mem_singleton.mp hp
      rfl
    · intro p hp
      obtain rfl := List.mem_singleton.mp hp
      exact .time .plain .plain ⟨by decide, by decide⟩
  exact ⟨⟨hv, codec_round_trip.1 v hv⟩, hw, codec_round_trip.2 w hw⟩

end EngineHost.Wire
