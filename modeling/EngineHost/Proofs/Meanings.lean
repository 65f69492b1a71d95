import EngineHost.Proofs.Rereading
import Mathlib.Data.List.Flatten

/-!
What a type expression stands for in a registry. It is put together from what its parts stand for, so it
only depends on the names in it that stand where a type is expected.
-/
namespace EngineHost

namespace Value

/-- A type expression that another one is made of. -/
inductive PartOf : Value → Value → Prop where
  | element {e : Value} : PartOf e (.listOf e)
  | param {p returns : Value} {params : List Value} (h : p ∈ params) : PartOf p (.blockOf params returns)
  | returns {params : List Value} {returns : Value} : PartOf returns (.blockOf params returns)
  | marked {e : Value} {isOptional : Bool} : PartOf e (.fieldSpec e isOptional)
  | field {f : Value × Value} {fields : List (Value × Value)} {extensible : Value} (h : f ∈ fields) :
    PartOf f.2 (.recordOf fields extensible)
  | entry {kind : MappingKind} {f : Value × Value} {entries : List (Value × Value)} (h : f ∈ entries) :
    PartOf f.2 (.mapping kind entries)

theorem sizeOf_entry_lt {f : Value × Value} {fields : List (Value × Value)} (h : f ∈ fields) :
    sizeOf f.2 < sizeOf fields := by
  have hsize := List.sizeOf_lt_of_mem h
  have hpair : sizeOf f = 1 + sizeOf f.1 + sizeOf f.2 := rfl
  omega

theorem PartOf.smaller {part e : Value} (h : PartOf part e) : sizeOf part < sizeOf e := by
  cases h with
  | element => simp only [listOf.sizeOf_spec]; omega
  | param h =>
    have hsize := List.sizeOf_lt_of_mem h
    simp only [blockOf.sizeOf_spec]
    omega
  | returns => simp only [blockOf.sizeOf_spec]; omega
  | marked => simp only [fieldSpec.sizeOf_spec]; omega
  | field h =>
    have hsize := sizeOf_entry_lt h
    simp only [recordOf.sizeOf_spec]
    omega
  | entry h =>
    have hsize := sizeOf_entry_lt h
    simp only [mapping.sizeOf_spec]
    omega

/-- What holds of an expression if it holds of its parts holds of every expression. -/
theorem part_induction {motive : Value → Prop} (step : ∀ e, (∀ part, PartOf part e → motive part) → motive e)
    (e : Value) : motive e := by
  induction hn : sizeOf e using Nat.strong_induction_on generalizing e with
  | _ n ih =>
    refine step e fun part hpart => ih (sizeOf part) ?_ part rfl
    rw [← hn]
    exact hpart.smaller

mutual

/-- The names that stand where a type is expected: not those of fields and variables, and none inside
a type that is ready. -/
def typeNames : Value → List Value
  | .str name => [.str name]
  | .letters name => [.letters name]
  | .listOf element => typeNames element
  | .blockOf params returns => typeNamesOfList params ++ typeNames returns
  | .fieldSpec expr _ => typeNames expr
  | .recordOf fields _ => typeNamesOfEntries fields
  | .mapping _ entries => typeNamesOfEntries entries
  | _ => []

def typeNamesOfList : List Value → List Value
  | [] => []
  | v :: rest => typeNames v ++ typeNamesOfList rest

def typeNamesOfEntries : List (Value × Value) → List Value
  | [] => []
  | (_, v) :: rest => typeNames v ++ typeNamesOfEntries rest

end

theorem typeNamesOfList_eq (vs : List Value) : typeNamesOfList vs = vs.flatMap typeNames := by
  induction vs with
  | nil => rfl
  | cons v rest ih => rw [typeNamesOfList, ih, List.flatMap_cons]

theorem typeNamesOfEntries_eq (entries : List (Value × Value)) :
    typeNamesOfEntries entries = entries.flatMap fun e => e.2.typeNames := by
  induction entries with
  | nil => rfl
  | cons e rest ih => rw [typeNamesOfEntries, ih, List.flatMap_cons]

theorem typeNames_of_isText {name : Value} (h : name.isText) : name.typeNames = [name] := by
  cases name with
  | str s => rfl
  | letters s => rfl
  | _ => simp [isText] at h

theorem PartOf.typeNames_subset {part e : Value} (h : PartOf part e) : part.typeNames ⊆ e.typeNames := by
  intro n hn
  cases h with
  | element => rwa [typeNames]
  | param h =>
    rw [typeNames, typeNamesOfList_eq]
    exact List.mem_append_left _ (List.mem_flatMap.mpr ⟨_, h, hn⟩)
  | returns =>
    rw [typeNames]
    exact List.mem_append_right _ hn
  | marked => rwa [typeNames]
  | field h =>
    rw [typeNames, typeNamesOfEntries_eq]
    exact List.mem_flatMap.mpr ⟨_, h, hn⟩
  | entry h =>
    rw [typeNames, typeNamesOfEntries_eq]
    exact List.mem_flatMap.mpr ⟨_, h, hn⟩

/-- A name in an expression is the expression itself or in one of its parts. -/
theorem mem_typeNames {n e : Value} (h : n ∈ e.typeNames) :
    (e.isText ∧ n = e) ∨ ∃ part, PartOf part e ∧ n ∈ part.typeNames := by
  cases e with
  | str s => exact .inl ⟨rfl, List.mem_singleton.mp h⟩
  | letters s => exact .inl ⟨rfl, List.mem_singleton.mp h⟩
  | listOf element => exact .inr ⟨element, .element, h⟩
  | blockOf params returns =>
    rw [typeNames, typeNamesOfList_eq] at h
    rcases List.mem_append.mp h with h | h
    · obtain ⟨p, hp, hn⟩ := List.mem_flatMap.mp h
      exact .inr ⟨p, .param hp, hn⟩
    · exact .inr ⟨returns, .returns, h⟩
  | fieldSpec expr isOptional => exact .inr ⟨expr, .marked, h⟩
  | recordOf fields extensible =>
    rw [typeNames, typeNamesOfEntries_eq] at h
    obtain ⟨f, hf, hn⟩ := List.mem_flatMap.mp h
    exact .inr ⟨f.2, .field hf, hn⟩
  | mapping kind entries =>
    rw [typeNames, typeNamesOfEntries_eq] at h
    obtain ⟨f, hf, hn⟩ := List.mem_flatMap.mp h
    exact .inr ⟨f.2, .entry hf, hn⟩
  | _ => simp [typeNames] at h

theorem isText_of_mem_typeNames {n : Value} (e : Value) : n ∈ e.typeNames → n.isText := by
  induction e using part_induction with
  | step e ih =>
    intro h
    rcases mem_typeNames h with ⟨htext, rfl⟩ | ⟨part, hpart, hn⟩
    · exact htext
    · exact ih part hpart hn

/-- The value of a field without its mark. -/
def unmarked : Value → Value
  | .fieldSpec expr _ => expr
  | expr => expr

/-- Whether the value of a field is marked as optional. -/
def isMarkedOptional : Value → Bool
  | .fieldSpec _ isOptional => isOptional
  | _ => false

end Value

section Results

variable {α β : Type}

theorem Checked.toOption_bind (c : Checked α) (k : α → Checked β) :
    (c >>= k).toOption = c.toOption.bind fun a => (k a).toOption := by
  cases c <;> rfl

theorem Checked.toOption_eq_some {c : Checked α} {a : α} : c.toOption = some a ↔ c = .ok a := by
  cases c <;> simp [Except.toOption]

theorem mapM_congr {f g : α → Option β} {xs : List α} (h : ∀ x ∈ xs, f x = g x) : xs.mapM f = xs.mapM g := by
  induction xs with
  | nil => rfl
  | cons x rest ih =>
    rw [List.mapM_cons, List.mapM_cons, h x List.mem_cons_self,
      ih fun y hy => h y (List.mem_cons_of_mem _ hy)]

theorem isSome_of_mapM {f : α → Option β} {xs : List α} (h : (xs.mapM f).isSome) : ∀ x ∈ xs, (f x).isSome := by
  induction xs with
  | nil => simp
  | cons x rest ih =>
    rw [List.mapM_cons] at h
    cases hx : f x with
    | none => simp [hx] at h
    | some y =>
      cases hrest : rest.mapM f with
      | none => simp [hx, hrest] at h
      | some ys =>
        rw [List.forall_mem_cons, hx]
        exact ⟨rfl, ih (by rw [hrest]; rfl)⟩

end Results

namespace Registry

variable {r r' : Registry}

/-- The type that an expression stands for, if it stands for one. -/
def resolve? (r : Registry) (e : Value) : Option Ty :=
  (r.resolve e).toOption

/-- What the entry of a record expression declares. -/
def resolveField? (r : Registry) (f : Value × Value) : Option (Value × Field) :=
  if f.1.isText then (r.resolve? f.2.unmarked).map fun t => (f.1, .mk t (.bool f.2.isMarkedOptional))
  else none

theorem resolve?_eq_some {e : Value} {t : Ty} : r.resolve? e = some t ↔ r.resolve e = .ok t :=
  Checked.toOption_eq_some

theorem resolveList_toOption (es : List Value) : (resolveList r es).toOption = es.mapM r.resolve? := by
  induction es with
  | nil => rfl
  | cons e rest ih =>
    rw [resolveList, Checked.toOption_bind, List.mapM_cons, ← ih]
    change (r.resolve? e).bind _ = (r.resolve? e).bind _
    congr 1
    funext t
    rw [Checked.toOption_bind]
    rfl

/-- A field is resolved without its mark, which only says whether it may be left out. -/
theorem resolveFields_field (name e : Value) (rest : List (Value × Value)) :
    resolveFields r ((name, e) :: rest) =
      if name.isText then do
        let t ← r.resolve e.unmarked
        return (name, .mk t (.bool e.isMarkedOptional)) :: (← resolveFields r rest)
      else throw (.host (.unknownType name)) := by
  cases e <;> rfl

theorem resolveFields_toOption (fields : List (Value × Value)) :
    (resolveFields r fields).toOption = fields.mapM r.resolveField? := by
  induction fields with
  | nil => rfl
  | cons f rest ih =>
    obtain ⟨name, e⟩ := f
    rw [resolveFields_field, List.mapM_cons, ← ih, resolveField?]
    split
    · rw [Checked.toOption_bind]
      change (r.resolve? e.unmarked).bind _ = _
      cases r.resolve? e.unmarked with
      | none => rfl
      | some t =>
        change ((resolveFields r rest >>= _ : Checked _)).toOption = _
        rw [Checked.toOption_bind]
        rfl
    · rfl

/-! ### An expression and its parts -/

theorem resolve?_listOf (e : Value) : r.resolve? (.listOf e) = (r.resolve? e).map .list := by
  rw [resolve?, resolve, Checked.toOption_bind]
  cases h : r.resolve e <;> simp [resolve?, h] <;> rfl

theorem resolve?_blockOf (params : List Value) (returns : Value) :
    r.resolve? (.blockOf params returns) =
      (params.mapM r.resolve?).bind fun ps => (r.resolve? returns).map (.block ps) := by
  rw [resolve?, resolve, Checked.toOption_bind, resolveList_toOption]
  congr 1
  funext ps
  rw [Checked.toOption_bind]
  cases h : r.resolve returns <;> simp [resolve?, h] <;> rfl

theorem resolve?_recordOf (fields : List (Value × Value)) (extensible : Value) :
    r.resolve? (.recordOf fields extensible) =
      (fields.mapM r.resolveField?).bind fun fs => (Ty.ofFields fs extensible).toOption := by
  rw [resolve?, resolve, Checked.toOption_bind, resolveFields_toOption]

theorem resolve?_mapping (kind : MappingKind) (entries : List (Value × Value)) :
    r.resolve? (.mapping kind entries) =
      (entries.mapM r.resolveField?).bind fun fs => (Ty.ofFields fs (.bool false)).toOption := by
  rw [resolve?, resolve, Checked.toOption_bind, resolveFields_toOption]

theorem resolve?_name {name : Value} (h : name.isText) : r.resolve? name = (r.resolveName name).toOption := by
  cases name with
  | str s => rfl
  | letters s => rfl
  | _ => simp [Value.isText] at h

theorem resolveField?_congr {f f' : Value × Value} (hname : f.1 = f'.1)
    (hmark : f.2.isMarkedOptional = f'.2.isMarkedOptional)
    (h : r.resolve? f.2.unmarked = r'.resolve? f'.2.unmarked) : r.resolveField? f = r'.resolveField? f' := by
  rw [resolveField?, resolveField?, hname, hmark, h]

/-- Registries that agree on the names in an expression agree on the expression, also as the value of a
field. -/
theorem resolve?_congr (e : Value) : (∀ n ∈ e.typeNames, r.resolve? n = r'.resolve? n) →
    r.resolve? e = r'.resolve? e ∧ r.resolve? e.unmarked = r'.resolve? e.unmarked := by
  induction e using Value.part_induction with
  | step e ih =>
    intro h
    have hpart : ∀ part, Value.PartOf part e → r.resolve? part = r'.resolve? part ∧
        r.resolve? part.unmarked = r'.resolve? part.unmarked :=
      fun part hp => ih part hp fun n hn => h n (hp.typeNames_subset hn)
    cases e with
    | str s => exact ⟨h _ List.mem_cons_self, h _ List.mem_cons_self⟩
    | letters s => exact ⟨h _ List.mem_cons_self, h _ List.mem_cons_self⟩
    | listOf element =>
      have heq : r.resolve? (.listOf element) = r'.resolve? (.listOf element) := by
        rw [resolve?_listOf, resolve?_listOf, (hpart element .element).1]
      exact ⟨heq, heq⟩
    | blockOf params returns =>
      have hparams : params.mapM r.resolve? = params.mapM r'.resolve? :=
        mapM_congr fun p hp => (hpart p (.param hp)).1
      have heq : r.resolve? (.blockOf params returns) = r'.resolve? (.blockOf params returns) := by
        rw [resolve?_blockOf, resolve?_blockOf, hparams, (hpart returns .returns).1]
      exact ⟨heq, heq⟩
    | fieldSpec inner isOptional => exact ⟨rfl, (hpart inner .marked).1⟩
    | recordOf fields extensible =>
      have hfields : fields.mapM r.resolveField? = fields.mapM r'.resolveField? :=
        mapM_congr fun f hf => resolveField?_congr rfl rfl (hpart f.2 (.field hf)).2
      have heq : r.resolve? (.recordOf fields extensible) = r'.resolve? (.recordOf fields extensible) := by
        rw [resolve?_recordOf, resolve?_recordOf, hfields]
      exact ⟨heq, heq⟩
    | mapping kind entries =>
      have hentries : entries.mapM r.resolveField? = entries.mapM r'.resolveField? :=
        mapM_congr fun f hf => resolveField?_congr rfl rfl (hpart f.2 (.entry hf)).2
      have heq : r.resolve? (.mapping kind entries) = r'.resolve? (.mapping kind entries) := by
        rw [resolve?_mapping, resolve?_mapping, hentries]
      exact ⟨heq, heq⟩
    | _ => exact ⟨rfl, rfl⟩

theorem isSome_of_resolveField? {f : Value × Value} (h : (r.resolveField? f).isSome) :
    (r.resolve? f.2.unmarked).isSome := by
  unfold resolveField? at h
  split at h
  · simpa using h
  · cases h

/-- An expression that stands for a type has no name that stands for none. -/
theorem isSome_of_mem_typeNames (e : Value) : ∀ n ∈ e.typeNames,
    ((r.resolve? e).isSome → (r.resolve? n).isSome) ∧
      ((r.resolve? e.unmarked).isSome → (r.resolve? n).isSome) := by
  induction e using Value.part_induction with
  | step e ih =>
    intro n hn
    rcases Value.mem_typeNames hn with ⟨htext, rfl⟩ | ⟨part, hpart, hn'⟩
    · cases n with
      | str s => exact ⟨id, id⟩
      | letters s => exact ⟨id, id⟩
      | _ => simp [Value.isText] at htext
    obtain ⟨hplain, hfield⟩ := ih part hpart n hn'
    cases hpart with
    | element =>
      have hsome : (r.resolve? (.listOf part)).isSome → (r.resolve? n).isSome := by
        intro h
        rw [resolve?_listOf, Option.isSome_map] at h
        exact hplain h
      exact ⟨hsome, hsome⟩
    | @param _ returns params hp =>
      have hsome : (r.resolve? (.blockOf params returns)).isSome → (r.resolve? n).isSome := by
        intro h
        rw [resolve?_blockOf] at h
        exact hplain (isSome_of_mapM (Option.isSome_of_isSome_bind h) part hp)
      exact ⟨hsome, hsome⟩
    | @returns params _ =>
      have hsome : (r.resolve? (.blockOf params part)).isSome → (r.resolve? n).isSome := by
        intro h
        rw [resolve?_blockOf] at h
        cases hparams : params.mapM r.resolve? with
        | none => simp [hparams] at h
        | some ps =>
          rw [hparams, Option.bind_some, Option.isSome_map] at h
          exact hplain h
      exact ⟨hsome, hsome⟩
    | marked =>
      refine ⟨fun h => ?_, hplain⟩
      cases h
    | @field f fields extensible hf =>
      have hsome : (r.resolve? (.recordOf fields extensible)).isSome → (r.resolve? n).isSome := by
        intro h
        rw [resolve?_recordOf] at h
        exact hfield (isSome_of_resolveField? (isSome_of_mapM (Option.isSome_of_isSome_bind h) f hf))
      exact ⟨hsome, hsome⟩
    | @entry kind f entries hf =>
      have hsome : (r.resolve? (.mapping kind entries)).isSome → (r.resolve? n).isSome := by
        intro h
        rw [resolve?_mapping] at h
        exact hfield (isSome_of_resolveField? (isSome_of_mapM (Option.isSome_of_isSome_bind h) f hf))
      exact ⟨hsome, hsome⟩

end Registry

end EngineHost
