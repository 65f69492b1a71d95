import EngineHost.Engine.Interface

/-!
An engine that keeps its functions and symbols per scope. Its state has a part for every scope, and a call
about a scope reads and changes that part alone.
-/
namespace EngineHost

variable {σ P K : Type} {α : Type}

/-- How an engine works in one scope, over what it keeps for it. The functions themselves are opaque to it;
`K` is what scripts go by within the scope. -/
structure Compartment (P K : Type) where
  blank : P
  internSymbol (name : Value) : EngineM P Value
  lookupSymbol (symbol : Value) : EngineM P Value
  define (signature : Value) : EngineM P Unit
  getSignature (name : Value) : EngineM P Value
  compile (source : Value) : EngineM P K
  dropScript (script : K) : EngineM P Unit
  drop : EngineM P Unit

/-- Where the parts are in an engine's state. -/
structure Compartments (σ P K : Type) where
  /-- States that the engine can be in. -/
  valid : σ → Prop
  /-- Scopes that have been given out and not been dropped. -/
  live : σ → Value → Prop
  part : σ → Value → P
  /-- The scope of a script, and what the script goes by in it. -/
  script? : σ → Value → Option (Value × K)

namespace Compartments

variable (L : Compartments σ P K)

/-- Only one scope is affected. -/
structure Aside (scope : Value) (s s' : σ) : Prop where
  valid : L.valid s'
  live : ∀ other, other ≠ scope → L.live s other → L.live s' other
  part : ∀ other, other ≠ scope → L.part s' other = L.part s other
  scripts : ∀ script other k, other ≠ scope → L.script? s script = some (other, k) →
    L.script? s' script = some (other, k)

/-- The part of a scope has become another, and of its scripts none but `lost` is forgotten. -/
structure Becomes (scope : Value) (lost : Value → Prop) (p : P) (s s' : σ) : Prop
    extends Aside L scope s s' where
  own : L.part s' scope = p
  kept : ∀ script k, ¬ lost script → L.script? s script = some (scope, k) →
    L.script? s' script = some (scope, k)

/-- A call does in a scope what it would do there by itself. -/
structure Does (scope : Value) (lost : Value → Prop) (s : σ) (r : Except Failure α × σ)
    (within : Except Failure α × P) : Prop extends Becomes L scope lost within.2 s r.2 where
  outcome : r.1 = within.1

/-- A call about a scope does just that, and the scope stays. -/
def Serves (scope : Value) (call : EngineM σ α) (within : EngineM P α) : Prop :=
  ∀ s, L.valid s → L.live s scope →
    let r := call.run.run s
    L.live r.2 scope ∧ L.Does scope (fun _ => False) s r (within.run.run (L.part s scope))

variable {L} {scope : Value} {s s' s'' : σ}

theorem Aside.refl (h : L.valid s) : L.Aside scope s s :=
  ⟨h, fun _ _ h => h, fun _ _ => rfl, fun _ _ _ _ h => h⟩

theorem Aside.trans (h : L.Aside scope s s') (h' : L.Aside scope s' s'') : L.Aside scope s s'' where
  valid := h'.valid
  live := fun other hne hlive => h'.live other hne (h.live other hne hlive)
  part := fun other hne => (h'.part other hne).trans (h.part other hne)
  scripts := fun script other k hne hk => h'.scripts script other k hne (h.scripts script other k hne hk)

end Compartments

/-- An engine whose scopes are compartments. -/
structure Compartmented (E : Engine σ) (C : Compartment P K) (L : Compartments σ P K) : Prop where
  /-- A new scope is blank. -/
  allocScope : ∀ s, L.valid s →
    let (outcome, s') := E.allocScope.run.run s
    ∀ scope, outcome = .ok scope → scope ≠ .null ∧ ¬ L.live s scope ∧ L.live s' scope ∧
      L.part s' scope = C.blank ∧ L.Aside scope s s'
  internSymbol : ∀ scope name, L.Serves scope (E.internSymbol scope name) (C.internSymbol name)
  lookupSymbol : ∀ scope symbol, L.Serves scope (E.lookupSymbol scope symbol) (C.lookupSymbol symbol)
  define : ∀ scope signature function,
    L.Serves scope (E.define scope signature function) (C.define signature)
  getSignature : ∀ scope name, L.Serves scope (E.getSignature scope name) (C.getSignature name)
  /-- A script has a new handle, and a name of its own in its scope. -/
  compile : ∀ s scope source, L.valid s → L.live s scope →
    let (outcome, s') := (E.compile scope source).run.run s
    let (outcome', p) := (C.compile source).run.run (L.part s scope)
    L.live s' scope ∧ L.Becomes scope (fun _ => False) p s s' ∧
      outcome.map (L.script? s') = outcome'.map (fun k => some (scope, k)) ∧
      ∀ script, outcome = .ok script → script ≠ .null ∧ L.script? s script = none
  dropScript : ∀ s script scope k, L.valid s → L.script? s script = some (scope, k) →
    let r := (E.dropScript script).run.run s
    (L.live s scope → L.live r.2 scope) ∧
      L.Does scope (· = script) s r ((C.dropScript k).run.run (L.part s scope))
  /-- The scripts of a scope are not dropped with it. -/
  dropScope : ∀ s scope, L.valid s → L.live s scope →
    L.Does scope (fun _ => False) s ((E.dropScope scope).run.run s) (C.drop.run.run (L.part s scope))

end EngineHost
