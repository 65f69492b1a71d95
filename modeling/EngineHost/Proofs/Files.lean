import EngineHost.Proofs.Execution
import EngineHost.Proofs.Names

/-!
An engine that files signatures: a defined one is stored under the name of its first argument and given
back as it was, and every symbol belongs to one name.
-/
namespace EngineHost

variable {σ : Type} {isName : Value → Prop}

/-- What the laws of filing speak of, in a state of the engine. -/
structure Files (σ : Type) where
  /-- States that the engine can be in. -/
  valid : σ → Prop
  live : σ → Value → Prop
  /-- In a scope, the engine has given this name this symbol. -/
  gave : σ → Value → Value → Value → Prop
  /-- In a scope, the signature that is stored under a name. -/
  stored : σ → Value → Value → Option Value

namespace Files

variable (F : Files σ)

/-- Nothing that was given out is taken back. -/
structure Keeps (s s' : σ) : Prop where
  valid : F.valid s'
  live : ∀ scope, F.live s scope → F.live s' scope
  gave : ∀ scope name symbol, F.gave s scope name symbol → F.gave s' scope name symbol

/-- Nor is anything stored. -/
structure Quiet (s s' : σ) : Prop extends Files.Keeps F s s' where
  stored : ∀ scope name, F.stored s' scope name = F.stored s scope name

variable {F} {s s' s'' : σ}

theorem Keeps.refl (h : F.valid s) : F.Keeps s s :=
  ⟨h, fun _ h => h, fun _ _ _ h => h⟩

theorem Keeps.trans (h : F.Keeps s s') (h' : F.Keeps s' s'') : F.Keeps s s'' where
  valid := h'.valid
  live := fun scope hlive => h'.live scope (h.live scope hlive)
  gave := fun scope name symbol hgave => h'.gave scope name symbol (h.gave scope name symbol hgave)

theorem Quiet.refl (h : F.valid s) : F.Quiet s s :=
  ⟨.refl h, fun _ _ => rfl⟩

end Files

/-- The symbol of the first argument of a signature on the wire. -/
def firstSymbol? (wire : Value) : Option Value :=
  match wire.atKey "args" >>= Value.elements with
  | .ok (arg :: _) => (arg.atKey "name").toOption
  | _ => none

structure Filing (E : Engine σ) (F : Files σ) (isName : Value → Prop) : Prop where
  /-- A new scope stores nothing. -/
  allocScope : ∀ s, F.valid s →
    let (outcome, s') := E.allocScope.run.run s
    F.Keeps s s' ∧ ∀ scope, outcome = .ok scope → F.live s' scope ∧ ∀ name, F.stored s' scope name = none
  internSymbol : ∀ s scope name, F.valid s → F.live s scope → isName name →
    let (outcome, s') := (E.internSymbol scope name).run.run s
    F.Quiet s s' ∧ ∀ symbol, outcome = .ok symbol → IsSymbol symbol ∧ F.gave s' scope name symbol
  one_name : ∀ s scope m n symbol, F.valid s → isName m → isName n →
    F.gave s scope m symbol → F.gave s scope n symbol → m.equals n
  lookupSymbol : ∀ s scope name symbol, F.valid s → F.live s scope → isName name →
    F.gave s scope name symbol →
    ∃ n s', (E.lookupSymbol scope symbol).run.run s = (.ok n, s') ∧ F.Quiet s s' ∧ isName n ∧
      n.equals name
  /-- A definition that fails stores nothing. -/
  define : ∀ s scope wire function, F.valid s → F.live s scope →
    let (outcome, s') := (E.define scope wire function).run.run s
    F.Keeps s s' ∧
      match outcome with
      | .error _ => ∀ name, F.stored s' scope name = F.stored s scope name
      | .ok () => ∀ symbol first, firstSymbol? wire = some symbol → isName first →
          F.gave s scope first symbol → ∀ name, isName name →
            F.stored s' scope name = if first.equals name then some wire else F.stored s scope name
  getSignature : ∀ s scope name, F.valid s → F.live s scope → isName name →
    ∃ s', (E.getSignature scope name).run.run s = (.ok ((F.stored s scope name).getD .null), s') ∧
      F.Quiet s s'

end EngineHost
