import EngineHost.Proofs.Files
import EngineHost.Signature.Builder

/-!
Declarations of functions and their wire form. What a builder accepts has names and types that can be read
back; on the wire every argument is named by a symbol that denotes its name.
-/
namespace EngineHost

variable {isName : Value → Prop} {gave gave' : Value → Value → Prop} {β : Type}

def ArgSpec.Regular (isName : Value → Prop) (a : ArgSpec) : Prop :=
  isName a.name ∧ a.type.Regular

structure Signature.Regular (isName : Value → Prop) (s : Signature) : Prop where
  args : ∀ a ∈ s.args, a.Regular isName
  returns : s.returns.Regular

/-- A declaration, complete or not. -/
structure Builder.Regular (isName : Value → Prop) (b : Builder β) : Prop where
  args : ∀ a ∈ b.args, a.Regular isName
  returns : ∀ t, b.returns? = some t → t.Regular

def BuildStep.Proper (isName : Value → Prop) : BuildStep β → Prop
  | .declare name expr _ _ => isName name ∧ expr.Proper
  | .returns expr => expr.Proper
  | _ => True

namespace Builder

theorem regular_empty : (Builder.empty : Builder β).Regular isName where
  args := fun _ ha => by cases ha
  returns := fun _ ht => by cases ht

/-- Every step of a declaration keeps it regular. -/
theorem Regular.step {r : Registry} (hr : r.Regular) {b b' : Builder β} (hb : b.Regular isName)
    {step : BuildStep β} (hstep : step.Proper isName) (h : b.step r step = .ok b') :
    b'.Regular isName := by
  cases step with
  | declare name expr required variadic =>
    obtain ⟨t, ht, h⟩ := Checked.bind_eq_ok h
    obtain rfl := Except.ok.inj h
    have htype : t.Regular := Registry.regular_resolve hr expr hstep.2 t ht
    refine ⟨?_, hb.returns⟩
    intro a ha
    rcases List.mem_append.mp ha with ha | ha
    · exact hb.args a ha
    · obtain rfl := List.mem_singleton.mp ha
      exact ⟨hstep.1, htype⟩
  | setTotal total =>
    obtain rfl := Except.ok.inj h
    exact ⟨hb.args, hb.returns⟩
  | returns expr =>
    obtain ⟨t, ht, h⟩ := Checked.bind_eq_ok h
    obtain rfl := Except.ok.inj h
    refine ⟨hb.args, ?_⟩
    intro u hu
    obtain rfl := Option.some.inj hu
    exact Registry.regular_resolve hr expr hstep t ht
  | implement callee =>
    obtain rfl := Except.ok.inj h
    exact ⟨hb.args, hb.returns⟩

/-- A declaration that is accepted has arguments, and is the signature. -/
theorem validate_ok {b : Builder β} {d : Definition β} (h : b.validate = .ok d) :
    b.args ≠ [] ∧ d.signature.args = b.args ∧ b.returns? = some d.signature.returns := by
  unfold Builder.validate at h
  cases hargs : b.args with
  | nil =>
    simp only [hargs, List.isEmpty_nil, if_true] at h
    cases h
  | cons a rest =>
    simp only [hargs, List.isEmpty_cons, Bool.false_eq_true, if_false] at h
    obtain ⟨repeated, _, h⟩ := Checked.bind_eq_ok h
    cases repeated with
    | some name => cases h
    | none =>
      cases hreturns : b.returns? with
      | none =>
        simp only [hreturns] at h
        cases h
      | some returns =>
        cases hcallee : b.implementation? with
        | none =>
          simp only [hreturns, hcallee] at h
          cases h
        | some callee =>
          simp only [hreturns, hcallee] at h
          split at h
          · obtain rfl := Except.ok.inj h
            exact ⟨by simp, rfl, rfl⟩
          · cases h

/-- Its signature is regular. -/
theorem Regular.validate {b : Builder β} (hb : b.Regular isName) {d : Definition β}
    (h : b.validate = .ok d) : d.signature.Regular isName ∧ d.signature.args ≠ [] := by
  obtain ⟨hne, hargs, hreturns⟩ := validate_ok h
  exact ⟨⟨hargs ▸ hb.args, hb.returns _ hreturns⟩, hargs ▸ hne⟩

end Builder

/-- An argument with a symbol in the place of its name. -/
def ArgSpec.wire (symbol : Value) (a : ArgSpec) : Value :=
  .ofFields
    [("name", symbol), ("ty", a.type.toWire), ("required", .bool a.required),
     ("variadic", .bool a.variadic)]

def Signature.wire (args : List Value) (s : Signature) : Value :=
  .ofFields [("total", .bool s.total), ("args", .list args), ("returns", s.returns.toWire)]

/-- The wire form of an argument, under a symbol of its name. -/
def ArgSpec.Writes (isName : Value → Prop) (gave : Value → Value → Prop) (a : ArgSpec)
    (wire : Value) : Prop :=
  ∃ symbol, Denotes isName gave a.name symbol ∧ wire = a.wire symbol

def Signature.Writes (isName : Value → Prop) (gave : Value → Value → Prop) (s : Signature)
    (wire : Value) : Prop :=
  ∃ args, List.Forall₂ (ArgSpec.Writes isName gave) s.args args ∧ wire = s.wire args

theorem ArgSpec.Writes.mono {a : ArgSpec} {wire : Value} (h : a.Writes isName gave wire)
    (hmore : ∀ n y, gave n y → gave' n y) : a.Writes isName gave' wire := by
  obtain ⟨symbol, hdenotes, rfl⟩ := h
  exact ⟨symbol, hdenotes.mono hmore, rfl⟩

theorem Signature.Writes.mono {s : Signature} {wire : Value} (h : s.Writes isName gave wire)
    (hmore : ∀ n y, gave n y → gave' n y) : s.Writes isName gave' wire := by
  obtain ⟨args, hargs, rfl⟩ := h
  exact ⟨args, hargs.imp fun _ _ ha => ha.mono hmore, rfl⟩

/-- A signature on the wire is filed under a symbol of its own name. -/
theorem Signature.Writes.firstSymbol? {s : Signature} {wire : Value} (h : s.Writes isName gave wire)
    {a : ArgSpec} {rest : List ArgSpec} (hargs : s.args = a :: rest) :
    ∃ symbol, EngineHost.firstSymbol? wire = some symbol ∧ Denotes isName gave a.name symbol := by
  obtain ⟨args, hforall, rfl⟩ := h
  rw [hargs] at hforall
  cases hforall with
  | cons hfirst _ =>
    obtain ⟨symbol, hdenotes, rfl⟩ := hfirst
    exact ⟨symbol, rfl, hdenotes⟩

/-- The same argument, but for the spelling of its name. -/
structure ArgSpec.Same (a b : ArgSpec) : Prop where
  name : a.name.equals b.name
  type : a.type = b.type
  required : a.required = b.required
  variadic : a.variadic = b.variadic

structure Signature.Same (s t : Signature) : Prop where
  args : List.Forall₂ ArgSpec.Same s.args t.args
  returns : s.returns = t.returns
  total : s.total = t.total

theorem equalArgs_of_same {as bs : List ArgSpec} (h : List.Forall₂ ArgSpec.Same as bs)
    (hbs : ∀ b ∈ bs, b.type.Regular) : Signature.equalArgs as bs := by
  induction h with
  | nil => rfl
  | @cons a b as bs hab _ ih =>
    have htype : a.type.equals b.type := by
      rw [hab.type]
      exact Ty.equals_self b.type (hbs b List.mem_cons_self)
    have hrest := ih fun c hc => hbs c (List.mem_cons_of_mem _ hc)
    simp [Signature.equalArgs, ArgSpec.equals, hab.name, htype, hab.required, hab.variadic, hrest]

/-- Signatures that are the same are equal. -/
theorem Signature.Same.equals {s t : Signature} (h : s.Same t) (ht : t.Regular isName) :
    s.equals t := by
  have hargs := equalArgs_of_same h.args fun b hb => (ht.args b hb).2
  have hreturns : s.returns.equals t.returns := by
    rw [h.returns]
    exact Ty.equals_self t.returns ht.returns
  simp [Signature.equals, hargs, hreturns, h.total]

end EngineHost
