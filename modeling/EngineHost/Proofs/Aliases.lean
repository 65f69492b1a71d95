import EngineHost.Proofs.Meanings
import EngineHost.Symbols

/-!
The aliases of a registry over its life. The table only grows at its end, a request that fails leaves it
as it was, and what an expression stands for stays the same for ever.
-/
namespace EngineHost

section Failures

variable {α β : Type}

/-- A result that is missing only because of a type that is not known. -/
def OnlyUnknown (c : Checked α) : Prop :=
  ∀ f, c = .error f → ∃ expr, f = .host (.unknownType expr)

namespace OnlyUnknown

theorem ok (a : α) : OnlyUnknown (.ok a : Checked α) :=
  nofun

theorem unknown (expr : Value) : OnlyUnknown (.error (.host (.unknownType expr)) : Checked α) := by
  intro f hf
  exact ⟨expr, (Except.error.inj hf).symm⟩

theorem bind {c : Checked α} {k : α → Checked β} (hc : OnlyUnknown c)
    (hk : ∀ a, c = .ok a → OnlyUnknown (k a)) : OnlyUnknown (c >>= k) := by
  cases c with
  | error f =>
    intro g hg
    obtain rfl := Except.error.inj hg
    exact hc f rfl
  | ok a => exact hk a rfl

end OnlyUnknown

end Failures

namespace Registry

variable {r r' r'' : Registry} {name expr : Value} {t : Ty}

/-! ### How resolving fails -/

/-- The table of `r'` is the one of `r` with aliases added at its end. -/
def Extends (r r' : Registry) : Prop :=
  r.aliases <+: r'.aliases

theorem Extends.refl (r : Registry) : r.Extends r :=
  List.prefix_refl _

theorem Extends.trans (h : r.Extends r') (h' : r'.Extends r'') : r.Extends r'' :=
  List.IsPrefix.trans h h'

theorem Extends.lookup? (h : r.Extends r') (ht : r.lookup? name = some t) : r'.lookup? name = some t := by
  obtain ⟨added, hadded⟩ := h
  obtain ⟨a, ha, rfl⟩ := Option.map_eq_some_iff.mp ht
  rw [Registry.lookup?, ← hadded, List.find?_append, ha]
  rfl

/-- A name that stands for a type goes on standing for it. -/
theorem Extends.resolveName (h : r.Extends r') (ht : r.resolveName name = .ok t) :
    r'.resolveName name = .ok t := by
  unfold Registry.resolveName at ht ⊢
  cases hprimitive : name.primitive? with
  | some p => simpa [hprimitive] using ht
  | none =>
    cases hlookup : r.lookup? name with
    | none =>
      rw [hprimitive, hlookup] at ht
      cases ht
    | some u =>
      rw [hprimitive, hlookup] at ht
      rw [h.lookup? hlookup]
      exact ht

/-- So does every expression: each of its names stands for a type already. -/
theorem Extends.resolve (h : r.Extends r') (ht : r.resolve expr = .ok t) : r'.resolve expr = .ok t := by
  rw [← resolve?_eq_some] at ht ⊢
  have hnames : ∀ n ∈ expr.typeNames, r.resolve? n = r'.resolve? n := by
    intro n hn
    have htext := Value.isText_of_mem_typeNames expr hn
    have hsome : (r.resolve? n).isSome := (isSome_of_mem_typeNames expr n hn).1 (by rw [ht]; rfl)
    obtain ⟨u, hu⟩ := Option.isSome_iff_exists.mp hsome
    rw [hu, eq_comm]
    rw [resolve?_name htext, Checked.toOption_eq_some] at hu ⊢
    exact h.resolveName hu
  rw [← (resolve?_congr expr hnames).1]
  exact ht

/-! ### Defining -/

/-- What defining an alias takes, and what it leaves. -/
theorem define_eq_ok (h : r.define name expr = .ok (t, r')) :
    r.isTaken name = false ∧ r.resolve expr = .ok t ∧ r' = ⟨r.aliases ++ [(name, t)]⟩ := by
  unfold define at h
  split at h
  · cases h
  split at h
  · cases h
  next hfree =>
    obtain ⟨u, hu, h⟩ := Checked.bind_eq_ok h
    obtain ⟨rfl, rfl⟩ := Prod.mk.inj (Except.ok.inj h)
    exact ⟨Bool.eq_false_iff.mpr hfree, hu, rfl⟩

theorem isTaken_eq_false : r.isTaken name = false ↔ r.lookup? name = none ∧ name.primitive? = none := by
  simp [isTaken, contains]

theorem define_extends (h : r.define name expr = .ok (t, r')) : r.Extends r' := by
  obtain ⟨-, -, rfl⟩ := define_eq_ok h
  exact List.prefix_append _ _

/-- A name that was free is found with its type, if it equals itself. -/
theorem lookup?_define (hself : name.equals name) (h : r.define name expr = .ok (t, r')) :
    r'.lookup? name = some t := by
  obtain ⟨hfree, -, rfl⟩ := define_eq_ok h
  have hnone : (r.aliases.find? fun a => a.1.equals name) = none :=
    Option.map_eq_none_iff.mp (isTaken_eq_false.mp hfree).1
  rw [lookup?, List.find?_append, hnone]
  simp [hself]

/-- What is found after a definition was there before, or is the new alias. -/
theorem lookup?_define_cases {other : Value} {u : Ty} (h : r.define name expr = .ok (t, r'))
    (hu : r'.lookup? other = some u) : r.lookup? other = some u ∨ name.equals other := by
  obtain ⟨-, -, rfl⟩ := define_eq_ok h
  rw [lookup?, List.find?_append] at hu
  obtain ⟨a, ha, rfl⟩ := Option.map_eq_some_iff.mp hu
  rcases Option.or_eq_some_iff.mp ha with hold | ⟨-, hnew⟩
  · left
    rw [lookup?, hold]
    rfl
  · right
    have hequals := List.find?_some hnew
    obtain rfl := List.mem_singleton.mp (List.mem_of_find?_eq_some hnew)
    exact hequals

/-- What a host program asks a registry for. -/
inductive Request
  | define (name expr : Value)
  | resolve (expr : Value)
  | lookup (name : Value)
  | contains (name : Value)

/-- What it is told. -/
inductive Reply
  | type (t : Ty)
  | alias (found : Option Ty)
  | known (isKnown : Bool)

/-- The answer to a request, and the registry after it. -/
def serve (r : Registry) : Request → Checked Reply × Registry
  | .define name expr =>
    match r.define name expr with
    | .ok (t, r') => (.ok (.type t), r')
    | .error f => (.error f, r)
  | .resolve expr => (Reply.type <$> r.resolve expr, r)
  | .lookup name => ((fun _ => .alias (r.lookup? name)) <$> SymbolTable.checkKey name, r)
  | .contains name => ((fun _ => .known (r.contains name)) <$> SymbolTable.checkKey name, r)

end Registry

end EngineHost
