import EngineHost.Proofs.Aliases
import Mathlib.Logic.Function.Basic
import Mathlib.Logic.Relation

/-!
Aliases are expanded when they are defined. To replace each alias in an expression by the expression it was
defined with, again and again until none is left, leads to the same type: an alias only mentions aliases
defined before it, so this ends, and each replacement keeps what the expression stands for.
-/
namespace EngineHost

namespace Value

/-- One replacement: a name that stands where a type is expected, is not a primitive one and has an entry
gives way to the expression of its entry. -/
inductive Replaces (entries : List (Value × Value)) : Value → Value → Prop where
  | name {n body : Value} (htext : n.isText) (hprimitive : n.primitive? = none) (h : (n, body) ∈ entries) :
    Replaces entries n body
  | element {e e' : Value} (h : Replaces entries e e') : Replaces entries (.listOf e) (.listOf e')
  | param {p p' returns : Value} (before after : List Value) (h : Replaces entries p p') :
    Replaces entries (.blockOf (before ++ p :: after) returns) (.blockOf (before ++ p' :: after) returns)
  | returns {params : List Value} {e e' : Value} (h : Replaces entries e e') :
    Replaces entries (.blockOf params e) (.blockOf params e')
  | marked {e e' : Value} {isOptional : Bool} (h : Replaces entries e e') :
    Replaces entries (.fieldSpec e isOptional) (.fieldSpec e' isOptional)
  | field {name e e' extensible : Value} (before after : List (Value × Value)) (h : Replaces entries e e') :
    Replaces entries (.recordOf (before ++ (name, e) :: after) extensible)
      (.recordOf (before ++ (name, e') :: after) extensible)
  | entry {kind : MappingKind} {name e e' : Value} (before after : List (Value × Value))
      (h : Replaces entries e e') :
    Replaces entries (.mapping kind (before ++ (name, e) :: after))
      (.mapping kind (before ++ (name, e') :: after))

mutual

/-- The expression with every name that stands where a type is expected replaced at once. -/
def substitute (σ : Value → Value) : Value → Value
  | .str name => σ (.str name)
  | .letters name => σ (.letters name)
  | .listOf element => .listOf (substitute σ element)
  | .blockOf params returns => .blockOf (substituteList σ params) (substitute σ returns)
  | .fieldSpec expr isOptional => .fieldSpec (substitute σ expr) isOptional
  | .recordOf fields extensible => .recordOf (substituteEntries σ fields) extensible
  | .mapping kind entries => .mapping kind (substituteEntries σ entries)
  | v => v

def substituteList (σ : Value → Value) : List Value → List Value
  | [] => []
  | v :: rest => substitute σ v :: substituteList σ rest

def substituteEntries (σ : Value → Value) : List (Value × Value) → List (Value × Value)
  | [] => []
  | (name, v) :: rest => (name, substitute σ v) :: substituteEntries σ rest

end

variable {σ τ : Value → Value} {entries : List (Value × Value)} {e e' : Value}

theorem substituteList_eq (vs : List Value) : substituteList σ vs = vs.map (substitute σ) := by
  induction vs with
  | nil => rfl
  | cons v rest ih => rw [substituteList, ih, List.map_cons]

theorem substituteEntries_eq (fields : List (Value × Value)) :
    substituteEntries σ fields = fields.map fun f => (f.1, f.2.substitute σ) := by
  induction fields with
  | nil => rfl
  | cons f rest ih => rw [substituteEntries, ih, List.map_cons]

theorem substitute_of_isText {name : Value} (h : name.isText) : name.substitute σ = σ name := by
  cases name with
  | str s => rfl
  | letters s => rfl
  | _ => simp [isText] at h

/-- Only the names where a type is expected count. -/
theorem substitute_congr (e : Value) : (∀ n ∈ e.typeNames, σ n = τ n) → e.substitute σ = e.substitute τ := by
  induction e using part_induction with
  | step e ih =>
    intro h
    have hpart : ∀ part, PartOf part e → part.substitute σ = part.substitute τ :=
      fun part hp => ih part hp fun n hn => h n (hp.typeNames_subset hn)
    cases e with
    | str s => exact h _ List.mem_cons_self
    | letters s => exact h _ List.mem_cons_self
    | listOf element => rw [substitute, substitute, hpart element .element]
    | blockOf params returns =>
      have hparams : params.map (substitute σ) = params.map (substitute τ) :=
        List.map_congr_left fun p hp => hpart p (.param hp)
      rw [substitute, substitute, substituteList_eq, substituteList_eq, hparams, hpart returns .returns]
    | fieldSpec inner isOptional => rw [substitute, substitute, hpart inner .marked]
    | recordOf fields extensible =>
      have hfields : (fields.map fun f => (f.1, f.2.substitute σ)) =
          fields.map fun f => (f.1, f.2.substitute τ) :=
        List.map_congr_left fun f hf => by rw [hpart f.2 (.field hf)]
      rw [substitute, substitute, substituteEntries_eq, substituteEntries_eq, hfields]
    | mapping kind fields =>
      have hfields : (fields.map fun f => (f.1, f.2.substitute σ)) =
          fields.map fun f => (f.1, f.2.substitute τ) :=
        List.map_congr_left fun f hf => by rw [hpart f.2 (.entry hf)]
      rw [substitute, substitute, substituteEntries_eq, substituteEntries_eq, hfields]
    | _ => rfl

theorem substitute_id (e : Value) : e.substitute id = e := by
  induction e using part_induction with
  | step e ih =>
    cases e with
    | listOf element => rw [substitute, ih element .element]
    | blockOf params returns =>
      have hparams : params.map (substitute id) = params.map id :=
        List.map_congr_left fun p hp => ih p (.param hp)
      rw [substitute, substituteList_eq, hparams, List.map_id, ih returns .returns]
    | fieldSpec inner isOptional => rw [substitute, ih inner .marked]
    | recordOf fields extensible =>
      have hfields : (fields.map fun f => (f.1, f.2.substitute id)) = fields.map id :=
        List.map_congr_left fun f hf => by rw [ih f.2 (.field hf), id]
      rw [substitute, substituteEntries_eq, hfields, List.map_id]
    | mapping kind fields =>
      have hfields : (fields.map fun f => (f.1, f.2.substitute id)) = fields.map id :=
        List.map_congr_left fun f hf => by rw [ih f.2 (.entry hf), id]
      rw [substitute, substituteEntries_eq, hfields, List.map_id]
    | _ => rfl

/-! ### What a replacement changes -/

/-- A replacement takes one name out and puts the names of the body in its place. -/
theorem Replaces.typeNames (h : Replaces entries e e') : ∃ left right n body, n.isText ∧
    (n, body) ∈ entries ∧ e.typeNames = left ++ n :: right ∧
      e'.typeNames = left ++ body.typeNames ++ right := by
  induction h with
  | @name n body htext _ h =>
    refine ⟨[], [], n, body, htext, h, ?_, ?_⟩
    · rw [typeNames_of_isText htext]
      rfl
    · simp
  | element _ ih => exact ih
  | @param p p' returns before after _ ih =>
    obtain ⟨left, right, n, body, htext, h, hp, hp'⟩ := ih
    refine ⟨before.flatMap Value.typeNames ++ left,
      right ++ (after.flatMap Value.typeNames ++ returns.typeNames), n, body, htext, h, ?_, ?_⟩
    · simp [Value.typeNames, typeNamesOfList_eq, hp]
    · simp [Value.typeNames, typeNamesOfList_eq, hp']
  | @returns params e e' _ ih =>
    obtain ⟨left, right, n, body, htext, h, he, he'⟩ := ih
    refine ⟨params.flatMap Value.typeNames ++ left, right, n, body, htext, h, ?_, ?_⟩
    · simp [Value.typeNames, typeNamesOfList_eq, he]
    · simp [Value.typeNames, typeNamesOfList_eq, he']
  | marked _ ih => exact ih
  | @field name e e' extensible before after _ ih =>
    obtain ⟨left, right, n, body, htext, h, he, he'⟩ := ih
    refine ⟨(before.flatMap fun f => f.2.typeNames) ++ left,
      right ++ after.flatMap fun f => f.2.typeNames, n, body, htext, h, ?_, ?_⟩
    · simp [Value.typeNames, typeNamesOfEntries_eq, he]
    · simp [Value.typeNames, typeNamesOfEntries_eq, he']
  | @entry kind name e e' before after _ ih =>
    obtain ⟨left, right, n, body, htext, h, he, he'⟩ := ih
    refine ⟨(before.flatMap fun f => f.2.typeNames) ++ left,
      right ++ after.flatMap fun f => f.2.typeNames, n, body, htext, h, ?_, ?_⟩
    · simp [Value.typeNames, typeNamesOfEntries_eq, he]
    · simp [Value.typeNames, typeNamesOfEntries_eq, he']

/-- A substitution that already expands every entry does not see a replacement. -/
theorem Replaces.substitute (hσ : ∀ a ∈ entries, a.1.isText → σ a.1 = a.2.substitute σ)
    (h : Replaces entries e e') : e.substitute σ = e'.substitute σ := by
  induction h with
  | name htext _ h => rw [substitute_of_isText htext, hσ _ h htext]
  | element _ ih => rw [Value.substitute, Value.substitute, ih]
  | param before after _ ih => simp [Value.substitute, substituteList_eq, ih]
  | returns _ ih => rw [Value.substitute, Value.substitute, ih]
  | marked _ ih => rw [Value.substitute, Value.substitute, ih]
  | field before after _ ih => simp [Value.substitute, substituteEntries_eq, ih]
  | entry before after _ ih => simp [Value.substitute, substituteEntries_eq, ih]

theorem Replaces.substitute_run (hσ : ∀ a ∈ entries, a.1.isText → σ a.1 = a.2.substitute σ)
    (h : Relation.ReflTransGen (Replaces entries) e e') : e.substitute σ = e'.substitute σ := by
  induction h with
  | refl => rfl
  | tail _ hstep ih => exact ih.trans (hstep.substitute hσ)

/-- As long as an expression has a name with an entry, it can be replaced. -/
theorem exists_replaces {n body : Value} (hprimitive : n.primitive? = none) (h : (n, body) ∈ entries)
    (e : Value) : n ∈ e.typeNames → ∃ e', Replaces entries e e' := by
  induction e using part_induction with
  | step e ih =>
    intro hn
    rcases mem_typeNames hn with ⟨htext, rfl⟩ | ⟨part, hpart, hn'⟩
    · exact ⟨body, .name htext hprimitive h⟩
    obtain ⟨part', hpart'⟩ := ih part hpart hn'
    cases hpart with
    | element => exact ⟨_, .element hpart'⟩
    | param hp =>
      obtain ⟨before, after, rfl⟩ := List.append_of_mem hp
      exact ⟨_, .param before after hpart'⟩
    | returns => exact ⟨_, .returns hpart'⟩
    | marked => exact ⟨_, .marked hpart'⟩
    | @field f _ _ hf =>
      obtain ⟨name, part⟩ := f
      obtain ⟨before, after, rfl⟩ := List.append_of_mem hf
      exact ⟨_, .field before after hpart'⟩
    | @entry _ f _ hf =>
      obtain ⟨name, part⟩ := f
      obtain ⟨before, after, rfl⟩ := List.append_of_mem hf
      exact ⟨_, .entry before after hpart'⟩

end Value

theorem mapM_replaced {α β : Type} {f : α → Option β} {x x' : α} (before after : List α) (h : f x = f x') :
    (before ++ x :: after).mapM f = (before ++ x' :: after).mapM f := by
  rw [List.mapM_append, List.mapM_append, List.mapM_cons, List.mapM_cons, h]

theorem equals_text_right {v w : Value} (hw : w.isText) : v.equals w ↔ v = w := by
  cases w with
  | str s => cases v <;> simp [Value.equals, numberEquals, Value.number?]
  | letters s => cases v <;> simp [Value.equals, numberEquals, Value.number?]
  | _ => simp [Value.isText] at hw

/-! ### The order of definitions -/

/-- Each entry is for a new name: one that is in no expression before it and not in its own. -/
structure Ordered (entries : List (Value × Value)) : Prop where
  later : entries.Pairwise fun a b => a.1.isText → b.1.isText → b.1 ≠ a.1 ∧ b.1 ∉ a.2.typeNames
  own : ∀ a ∈ entries, a.1.isText → a.1 ∉ a.2.typeNames

/-- What is given for each entry in terms of the names in its expression, and for the other names, is there
for all of them at once. -/
theorem Ordered.exists_solution {α : Type} (f : (Value → α) → Value → α) (rest : Value → α)
    (hf : ∀ σ τ e, (∀ n ∈ Value.typeNames e, σ n = τ n) → f σ e = f τ e) {entries : List (Value × Value)}
    (h : Ordered entries) : ∃ σ, (∀ a ∈ entries, a.1.isText → σ a.1 = f σ a.2) ∧
      ∀ n, (∀ a ∈ entries, a.1 ≠ n) → σ n = rest n := by
  classical
  induction entries using List.reverseRecOn with
  | nil => exact ⟨rest, nofun, fun _ _ => rfl⟩
  | append_singleton entries b ih =>
    obtain ⟨hlater, -, hnew⟩ := List.pairwise_append.mp h.later
    obtain ⟨σ, hσ, hrest⟩ := ih ⟨hlater, fun a ha => h.own a (List.mem_append_left _ ha)⟩
    by_cases hb : b.1.isText
    · -- the names that were there before do not see the new one
      have hsame : ∀ e, b.1 ∉ Value.typeNames e → f (Function.update σ b.1 (f σ b.2)) e = f σ e := by
        intro e he
        refine hf _ _ e fun n hn => Function.update_of_ne ?_ _ _
        rintro rfl
        exact he hn
      refine ⟨Function.update σ b.1 (f σ b.2), ?_, ?_⟩
      · intro a ha htext
        rcases List.mem_append.mp ha with ha | ha
        · obtain ⟨hne, hnot⟩ := hnew a ha b List.mem_cons_self htext hb
          rw [Function.update_of_ne hne.symm, hσ a ha htext, hsame a.2 hnot]
        · obtain rfl := List.mem_singleton.mp ha
          rw [Function.update_self, hsame a.2 (h.own a (List.mem_append_right _ ha) hb)]
      · intro n hn
        have hne : b.1 ≠ n := hn b (List.mem_append_right _ List.mem_cons_self)
        rw [Function.update_of_ne hne.symm]
        exact hrest n fun a ha => hn a (List.mem_append_left _ ha)
    · refine ⟨σ, ?_, fun n hn => hrest n fun a ha => hn a (List.mem_append_left _ ha)⟩
      intro a ha htext
      rcases List.mem_append.mp ha with ha | ha
      · exact hσ a ha htext
      · obtain rfl := List.mem_singleton.mp ha
        exact absurd htext hb

/-- A registry with the expressions that its aliases were defined with. -/
structure Glossary where
  registry : Registry
  entries : List (Value × Value)

namespace Glossary

/-- A definition that fails leaves no trace. -/
def define (g : Glossary) (definition : Value × Value) : Glossary :=
  match g.registry.define definition.1 definition.2 with
  | .ok (_, r) => ⟨r, g.entries ++ [definition]⟩
  | .error _ => g

/-- One definition after the other, in a registry of their own. -/
def ofDefinitions (definitions : List (Value × Value)) : Glossary :=
  definitions.foldl define ⟨.empty, []⟩

/-- Each entry stands for what its expression stands for, and no alias is without one. -/
structure Sound (g : Glossary) : Prop where
  primitives : ∀ a ∈ g.entries, a.1.primitive? = none
  means : ∀ a ∈ g.entries, a.1.isText → ∃ t, g.registry.resolve? a.1 = some t ∧ g.registry.resolve? a.2 = some t
  covered : ∀ name t, name.isText → g.registry.lookup? name = some t → ∃ body, (name, body) ∈ g.entries
  ordered : Ordered g.entries

variable {g : Glossary} {e e' : Value}

theorem sound_empty : Sound ⟨.empty, []⟩ where
  primitives := nofun
  means := nofun
  covered := by
    intro name t _ h
    cases h
  ordered := ⟨.nil, nofun⟩

/-- A name that stands for no type is in no expression that has been defined. -/
theorem Sound.fresh (hg : g.Sound) {n : Value} (hn : g.registry.resolve? n = none) :
    ∀ a ∈ g.entries, a.1.isText → n ≠ a.1 ∧ n ∉ a.2.typeNames := by
  intro a ha htext
  obtain ⟨t, hname, hbody⟩ := hg.means a ha htext
  constructor
  · rintro rfl
    rw [hname] at hn
    cases hn
  · intro hmem
    have hsome := (Registry.isSome_of_mem_typeNames a.2 n hmem).1 (by rw [hbody]; rfl)
    rw [hn] at hsome
    cases hsome

theorem Sound.define (hg : g.Sound) (definition : Value × Value) : (g.define definition).Sound := by
  obtain ⟨name, expr⟩ := definition
  unfold Glossary.define
  cases hdefine : g.registry.define name expr with
  | error f => exact hg
  | ok done =>
    obtain ⟨t, r'⟩ := done
    have hextends := Registry.define_extends hdefine
    obtain ⟨hfree, hexpr, -⟩ := Registry.define_eq_ok hdefine
    obtain ⟨hlookup, hprimitive⟩ := Registry.isTaken_eq_false.mp hfree
    -- the name stood for nothing until now
    have hnone : name.isText → g.registry.resolve? name = none := by
      intro htext
      rw [Registry.resolve?_name htext, Registry.resolveName, hprimitive, hlookup]
      rfl
    have hkeep : ∀ e u, g.registry.resolve? e = some u → r'.resolve? e = some u := by
      intro e u hu
      rw [Registry.resolve?_eq_some] at hu ⊢
      exact hextends.resolve hu
    constructor
    · intro a ha
      rcases List.mem_append.mp ha with ha | ha
      · exact hg.primitives a ha
      · obtain rfl := List.mem_singleton.mp ha
        exact hprimitive
    · intro a ha htext
      rcases List.mem_append.mp ha with ha | ha
      · obtain ⟨u, hname, hbody⟩ := hg.means a ha htext
        exact ⟨u, hkeep _ _ hname, hkeep _ _ hbody⟩
      · obtain rfl := List.mem_singleton.mp ha
        refine ⟨t, ?_, hkeep _ _ (Registry.resolve?_eq_some.mpr hexpr)⟩
        have hfound := Registry.lookup?_define ((equals_text htext).mpr rfl) hdefine
        rw [Registry.resolve?_name htext, Registry.resolveName, hprimitive, hfound]
        rfl
    · intro other u hother hu
      rcases Registry.lookup?_define_cases hdefine hu with hold | hnew
      · obtain ⟨body, hbody⟩ := hg.covered other u hother hold
        exact ⟨body, List.mem_append_left _ hbody⟩
      · obtain rfl := (equals_text_right hother).mp hnew
        exact ⟨expr, List.mem_append_right _ List.mem_cons_self⟩
    · constructor
      · refine List.pairwise_append.mpr ⟨hg.ordered.later, List.pairwise_singleton _ _, ?_⟩
        intro a ha b hb htext hnew
        obtain rfl := List.mem_singleton.mp hb
        exact hg.fresh (hnone hnew) a ha htext
      · intro a ha htext hmem
        rcases List.mem_append.mp ha with ha | ha
        · exact hg.ordered.own a ha htext hmem
        · obtain rfl := List.mem_singleton.mp ha
          have hresolves : (g.registry.resolve? expr).isSome := by
            rw [Registry.resolve?_eq_some.mpr hexpr]
            rfl
          have hsome := (Registry.isSome_of_mem_typeNames expr name hmem).1 hresolves
          rw [hnone htext] at hsome
          cases hsome

theorem sound_ofDefinitions (definitions : List (Value × Value)) : (ofDefinitions definitions).Sound := by
  have hrun : ∀ g : Glossary, g.Sound → (definitions.foldl Glossary.define g).Sound := by
    induction definitions with
    | nil => exact fun g hg => hg
    | cons d rest ih => exact fun g hg => ih _ (hg.define d)
  exact hrun _ sound_empty

/-! ### Replacing until nothing is left -/

/-- A replacement keeps what an expression stands for, also as the value of a field. -/
theorem Sound.replaces (hg : g.Sound) (h : Value.Replaces g.entries e e') :
    g.registry.resolve? e = g.registry.resolve? e' ∧
      g.registry.resolve? e.unmarked = g.registry.resolve? e'.unmarked ∧
      e.isMarkedOptional = e'.isMarkedOptional := by
  induction h with
  | @name n body htext _ h =>
    obtain ⟨t, hname, hbody⟩ := hg.means _ h htext
    have hplain : ∀ v, g.registry.resolve? v = some t → v.unmarked = v ∧ v.isMarkedOptional = false := by
      intro v hv
      cases v with
      | fieldSpec inner isOptional => cases hv
      | _ => exact ⟨rfl, rfl⟩
    obtain ⟨hn, hnmark⟩ := hplain n hname
    obtain ⟨hb, hbmark⟩ := hplain body hbody
    rw [hn, hb, hnmark, hbmark, hname, hbody]
    exact ⟨rfl, rfl, rfl⟩
  | @element e e' _ ih =>
    have heq : g.registry.resolve? (.listOf e) = g.registry.resolve? (.listOf e') := by
      rw [Registry.resolve?_listOf, Registry.resolve?_listOf, ih.1]
    exact ⟨heq, heq, rfl⟩
  | @param p p' returns before after _ ih =>
    have heq : g.registry.resolve? (.blockOf (before ++ p :: after) returns) =
        g.registry.resolve? (.blockOf (before ++ p' :: after) returns) := by
      rw [Registry.resolve?_blockOf, Registry.resolve?_blockOf, mapM_replaced before after ih.1]
    exact ⟨heq, heq, rfl⟩
  | @returns params e e' _ ih =>
    have heq : g.registry.resolve? (.blockOf params e) = g.registry.resolve? (.blockOf params e') := by
      rw [Registry.resolve?_blockOf, Registry.resolve?_blockOf, ih.1]
    exact ⟨heq, heq, rfl⟩
  | marked _ ih => exact ⟨rfl, ih.1, rfl⟩
  | @field name e e' extensible before after _ ih =>
    have hfield : g.registry.resolveField? (name, e) = g.registry.resolveField? (name, e') :=
      Registry.resolveField?_congr rfl ih.2.2 ih.2.1
    have heq : g.registry.resolve? (.recordOf (before ++ (name, e) :: after) extensible) =
        g.registry.resolve? (.recordOf (before ++ (name, e') :: after) extensible) := by
      rw [Registry.resolve?_recordOf, Registry.resolve?_recordOf, mapM_replaced before after hfield]
    exact ⟨heq, heq, rfl⟩
  | @entry kind name e e' before after _ ih =>
    have hfield : g.registry.resolveField? (name, e) = g.registry.resolveField? (name, e') :=
      Registry.resolveField?_congr rfl ih.2.2 ih.2.1
    have heq : g.registry.resolve? (.mapping kind (before ++ (name, e) :: after)) =
        g.registry.resolve? (.mapping kind (before ++ (name, e') :: after)) := by
      rw [Registry.resolve?_mapping, Registry.resolve?_mapping, mapM_replaced before after hfield]
    exact ⟨heq, heq, rfl⟩

theorem Sound.replaces_run (hg : g.Sound) (h : Relation.ReflTransGen (Value.Replaces g.entries) e e') :
    g.registry.resolve? e = g.registry.resolve? e' := by
  induction h with
  | refl => rfl
  | tail _ hstep ih => exact ih.trans (hg.replaces hstep).1

/-- No expression can be replaced for ever: each name weighs more than all that it is replaced by. -/
theorem Sound.terminates (hg : g.Sound) : WellFounded fun e' e => Value.Replaces g.entries e e' := by
  obtain ⟨weight, hweight, -⟩ := hg.ordered.exists_solution
    (fun w e => 1 + (e.typeNames.map w).sum) (fun _ => 0) fun v w e h => by
      rw [List.map_congr_left h]
  have hless : ∀ e e', Value.Replaces g.entries e e' →
      (e'.typeNames.map weight).sum < (e.typeNames.map weight).sum := by
    intro e e' h
    obtain ⟨left, right, n, body, htext, hmem, he, he'⟩ := h.typeNames
    have hn : weight n = 1 + (body.typeNames.map weight).sum := hweight _ hmem htext
    rw [he, he']
    simp only [List.map_append, List.map_cons, List.sum_append, List.sum_cons, hn]
    omega
  exact Subrelation.wf (fun h => hless _ _ h)
    (InvImage.wf (fun e : Value => (e.typeNames.map weight).sum) wellFounded_lt)

theorem Sound.exists_full (hg : g.Sound) (e : Value) :
    ∃ full, Relation.ReflTransGen (Value.Replaces g.entries) e full ∧
      ∀ e', ¬ Value.Replaces g.entries full e' := by
  induction e using hg.terminates.induction with
  | _ e ih =>
    by_cases h : ∃ e', Value.Replaces g.entries e e'
    · obtain ⟨e', he'⟩ := h
      obtain ⟨full, hreach, hdone⟩ := ih e' he'
      exact ⟨full, .head he' hreach, hdone⟩
    · exact ⟨e, .refl, fun e' he' => h ⟨e', he'⟩⟩

/-- Whatever is replaced first, the end is the same: the expression with all its names expanded at once. -/
theorem Sound.exists_expand (hg : g.Sound) : ∃ expand : Value → Value, ∀ e full,
    Relation.ReflTransGen (Value.Replaces g.entries) e full → (∀ e', ¬ Value.Replaces g.entries full e') →
      full = expand e := by
  obtain ⟨σ, hσ, hrest⟩ := hg.ordered.exists_solution Value.substitute id
    fun σ τ e h => Value.substitute_congr e h
  refine ⟨Value.substitute σ, fun e full hreach hdone => ?_⟩
  have hnames : ∀ n ∈ full.typeNames, σ n = id n := by
    intro n hn
    refine hrest n fun a ha => ?_
    rintro rfl
    obtain ⟨e', he'⟩ := Value.exists_replaces (hg.primitives a ha) ha full hn
    exact hdone e' he'
  calc full = full.substitute id := (Value.substitute_id full).symm
    _ = full.substitute σ := (Value.substitute_congr full hnames).symm
    _ = e.substitute σ := (Value.Replaces.substitute_run hσ hreach).symm

/-- An expression without aliases stands for the same in a registry without aliases. -/
theorem Sound.resolve?_full (hg : g.Sound) {full : Value} (hdone : ∀ e', ¬ Value.Replaces g.entries full e') :
    g.registry.resolve? full = Registry.empty.resolve? full := by
  refine (Registry.resolve?_congr full fun n hn => ?_).1
  have htext := Value.isText_of_mem_typeNames full hn
  rw [Registry.resolve?_name htext, Registry.resolve?_name htext, Registry.resolveName, Registry.resolveName]
  cases hprimitive : n.primitive? with
  | some p => rfl
  | none =>
    cases hlookup : g.registry.lookup? n with
    | none => rfl
    | some t =>
      obtain ⟨body, hbody⟩ := hg.covered n t htext hlookup
      obtain ⟨e', he'⟩ := Value.exists_replaces hprimitive hbody full hn
      exact absurd he' (hdone e')

end Glossary

/-! ### What is never replaced -/

namespace Value

variable {entries fields : List (Value × Value)} {e' : Value}

theorem Replaces.of_recordOf {extensible : Value} (h : Replaces entries (.recordOf fields extensible) e') :
    ∃ fields', e' = .recordOf fields' extensible ∧ fields'.map Prod.fst = fields.map Prod.fst := by
  generalize he : Value.recordOf fields extensible = e at h
  cases h with
  | field before after _ =>
    cases he
    exact ⟨_, rfl, by simp⟩
  | name htext _ _ =>
    subst he
    simp [isText] at htext
  | _ => cases he

theorem Replaces.of_mapping {kind : MappingKind} (h : Replaces entries (.mapping kind fields) e') :
    ∃ fields', e' = .mapping kind fields' ∧ fields'.map Prod.fst = fields.map Prod.fst := by
  generalize he : Value.mapping kind fields = e at h
  cases h with
  | entry before after _ =>
    cases he
    exact ⟨_, rfl, by simp⟩
  | name htext _ _ =>
    subst he
    simp [isText] at htext
  | _ => cases he

theorem not_replaces_type (t : Ty) : ¬ Replaces entries (.type t) e' := by
  intro h
  cases h with
  | name htext _ _ => simp [isText] at htext

theorem not_replaces_variable (name : Value) : ¬ Replaces entries (.variable name) e' := by
  intro h
  cases h with
  | name htext _ _ => simp [isText] at htext

end Value

/-- The fields of a resolved record have the names that were written, in order. -/
theorem Registry.names_record {r : Registry} {fields : List (Value × Value)} {extensible : Value} {t : Ty}
    (h : (resolveFields r fields >>= fun fs => Ty.ofFields fs extensible) = .ok t) :
    ∃ fs, t = .record fs extensible ∧ (fs.map Prod.fst).Perm (fields.map Prod.fst) := by
  obtain ⟨fs, hfs, h⟩ := Checked.bind_eq_ok h
  obtain ⟨hnames, hparts⟩ := resolveFields_eq_ok hfs
  obtain ⟨sorted, hsorted, hperm, -⟩ := sortByKey?_text fs fun f hf => (hparts f hf).1
  rw [Ty.ofFields, hsorted] at h
  refine ⟨sorted, (Except.ok.inj h).symm, ?_⟩
  rw [← hnames]
  exact hperm.map Prod.fst

namespace Glossary

/-- After any definitions, some of them failing: replacing aliases by what they were defined with comes to an
end, at one expression for each. This stands for a type in a registry without aliases exactly if the expression
does in the registry with them, and for the same one. Names of fields and of variables and types that are
ready are neither replaced nor resolved to something else. -/
theorem resolve_expanded (definitions : List (Value × Value)) :
    let g := ofDefinitions definitions
    (WellFounded fun e' e => Value.Replaces g.entries e e') ∧
    (∃ expand : Value → Value, ∀ e,
      Relation.ReflTransGen (Value.Replaces g.entries) e (expand e) ∧
      (∀ e', ¬ Value.Replaces g.entries (expand e) e') ∧
      (∀ full, Relation.ReflTransGen (Value.Replaces g.entries) e full →
        (∀ e', ¬ Value.Replaces g.entries full e') → full = expand e) ∧
      ∀ t, g.registry.resolve e = .ok t ↔ Registry.empty.resolve (expand e) = .ok t) ∧
    (∀ t e', ¬ Value.Replaces g.entries (.type t) e') ∧
    (∀ name e', ¬ Value.Replaces g.entries (.variable name) e') ∧
    (∀ fields extensible e', Value.Replaces g.entries (.recordOf fields extensible) e' →
      ∃ fields', e' = .recordOf fields' extensible ∧ fields'.map Prod.fst = fields.map Prod.fst) ∧
    (∀ kind fields e', Value.Replaces g.entries (.mapping kind fields) e' →
      ∃ fields', e' = .mapping kind fields' ∧ fields'.map Prod.fst = fields.map Prod.fst) ∧
    (∀ t, g.registry.resolve (.type t) = .ok t) ∧
    (∀ name, g.registry.resolve (.variable name) = .ok (.variable name)) ∧
    (∀ fields extensible t, g.registry.resolve (.recordOf fields extensible) = .ok t →
      ∃ fs, t = .record fs extensible ∧ (fs.map Prod.fst).Perm (fields.map Prod.fst)) ∧
    ∀ kind fields t, g.registry.resolve (.mapping kind fields) = .ok t →
      ∃ fs, t = .record fs (.bool false) ∧ (fs.map Prod.fst).Perm (fields.map Prod.fst) := by
  intro g
  have hg : g.Sound := sound_ofDefinitions definitions
  obtain ⟨expand, hexpand⟩ := hg.exists_expand
  refine ⟨hg.terminates, ⟨expand, fun e => ?_⟩, fun t _ => Value.not_replaces_type t,
    fun name _ => Value.not_replaces_variable name, fun _ _ _ => Value.Replaces.of_recordOf,
    fun _ _ _ => Value.Replaces.of_mapping, fun _ => rfl, fun _ => rfl,
    fun _ _ _ => Registry.names_record, fun _ _ _ => Registry.names_record⟩
  obtain ⟨full, hreach, hdone⟩ := hg.exists_full e
  obtain rfl := hexpand e full hreach hdone
  refine ⟨hreach, hdone, hexpand e, fun t => ?_⟩
  rw [← Registry.resolve?_eq_some, ← Registry.resolve?_eq_some, hg.replaces_run hreach, hg.resolve?_full hdone]

/-- Aliases named like a field and a variable, one that goes through others, and two that fail: a name that is
taken, and one that is used before it is there. -/
def pointDefinitions : List (Value × Value) :=
  [(.str "x", .str "number"),
    (.str "point", .mapping .plain [(.str "x", .str "x"), (.str "y", .fieldSpec (.str "x") true)]),
    (.str "point", .str "string"), (.str "loop", .listOf (.str "loop")),
    (.str "points", .listOf (.str "point"))]

theorem resolve_expanded_points :
    let g := ofDefinitions pointDefinitions
    let e := Value.blockOf [.str "points"] (.variable (.str "x"))
    let full := Value.blockOf [.listOf (.mapping .plain
      [(.str "x", .str "number"), (.str "y", .fieldSpec (.str "number") true)])] (.variable (.str "x"))
    let t := Ty.block [.list (.record [(.str "x", .mk (.primitive .number) (.bool false)),
      (.str "y", .mk (.primitive .number) (.bool true))] (.bool false))] (.variable (.str "x"))
    Relation.ReflTransGen (Value.Replaces g.entries) e full ∧ (∀ e', ¬ Value.Replaces g.entries full e') ∧
      g.registry.resolve e = .ok t ∧ Registry.empty.resolve full = .ok t := by
  intro g e full t
  have hentries : g.entries = [(.str "x", .str "number"),
      (.str "point", .mapping .plain [(.str "x", .str "x"), (.str "y", .fieldSpec (.str "x") true)]),
      (.str "points", .listOf (.str "point"))] := by
    simp only [g]
    cbv
  have hfull : Registry.empty.resolve full = .ok t := by
    simp only [full, t]
    cbv
  have hx : Value.Replaces g.entries (.str "x") (.str "number") :=
    .name rfl (by cbv) (by rw [hentries]; simp)
  have hpoint : Value.Replaces g.entries (.str "point")
      (.mapping .plain [(.str "x", .str "x"), (.str "y", .fieldSpec (.str "x") true)]) :=
    .name rfl (by cbv) (by rw [hentries]; simp)
  have hpoints : Value.Replaces g.entries (.str "points") (.listOf (.str "point")) :=
    .name rfl (by cbv) (by rw [hentries]; simp)
  have hreach : Relation.ReflTransGen (Value.Replaces g.entries) e full :=
    .head (.param [] [] hpoints) <| .head (.param [] [] (.element hpoint)) <|
      .head (.param [] [] (.element (.entry [] [_] hx))) <|
        .head (.param [] [] (.element (.entry [_] [] (.marked hx)))) .refl
  obtain ⟨-, ⟨expand, hexpand⟩, -⟩ := resolve_expanded pointDefinitions
  obtain ⟨-, -, hunique, hresolve⟩ := hexpand e
  have hirreducible : ∀ e', ¬ Value.Replaces g.entries full e' := by
    intro e' h
    obtain ⟨left, right, n, body, -, hmem, hnames, -⟩ := h.typeNames
    have hn : n ∈ full.typeNames := by
      rw [hnames]
      simp
    have hnumber : n = .str "number" := by simpa [full, Value.typeNames, Value.typeNamesOfList,
      Value.typeNamesOfEntries] using hn
    rw [hentries, hnumber] at hmem
    simp at hmem
  have heq : full = expand e := hunique full hreach hirreducible
  exact ⟨hreach, hirreducible, (hresolve t).mpr (heq ▸ hfull), hfull⟩

end Glossary

end EngineHost
