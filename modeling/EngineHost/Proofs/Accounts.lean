import EngineHost.Proofs.Teardown

/-!
The accounts between a host program and its engine. From some object on, every live handle is held at one
place: by the resource it belongs to, by the arguments of a call that nobody has read yet, or it is on
its way from the engine. Older objects belong to others and are left alone.
-/
namespace EngineHost

namespace Host

/-- A role without what may change while its object lives. -/
def fixedRole : Role → Role
  | .scope issued _ _ => .scope issued .empty .empty
  | .script home _ => .script home .null
  | .args call => .args { call with decoded := [], released := false }
  | role => role

/-- What may own a resource: a namespace its scripts, and everything that is handed callbacks these. -/
def MayOwn (owner owned : Role) : Prop :=
  match owned with
  | .script _ _ => owner.kind = .scope
  | .block _ => owner.kind = .script ∨ owner.kind = .evaluator ∨ owner.kind = .args
  | _ => False

/-- A node holds a handle itself, or at an unread position of a call that has not been released. -/
def Holds (n : Node) (t : Token) : Option Nat → Prop
  | none => n.role.kind = t.1 ∧ n.handle = some t.2
  | some i => ∃ call entry, n.role = .args call ∧ call.released = false ∧
      call.decoded.lookup i = none ∧ call.entries[i]? = some entry ∧ entry.block ≠ .null ∧
      t = (.block, entry.block)

/-- The place of a handle: a node, and the position if it is among arguments. -/
abbrev Place := Nat × Option Nat

def Held (base : Nat) (nodes : List Node) (t : Token) (p : Place) : Prop :=
  base ≤ p.1 ∧ ∃ n, nodes[p.1]? = some n ∧ Holds n t p.2

/-- Who releases what a node holds at a place: the owner of a resource, and a call its own entries. -/
def keeper (id : Nat) (n : Node) : Option Nat → Option Nat
  | none => n.role.parent?
  | some _ => some id

/-- The handle is held where `a` releases it. -/
def OwnedBy (base : Nat) (nodes : List Node) (t : Token) (a : Nat) : Prop :=
  ∃ id q n, base ≤ id ∧ nodes[id]? = some n ∧ Holds n t q ∧ keeper id n q = some a

/-- A call whose arguments have not been released. -/
def IsOpen (n : Node) : Prop :=
  ∃ call, n.role = .args call ∧ call.released = false

/-- Live handles belong to others, are on their way, or are held at one place. -/
structure Ledger (live others : Token → Prop) (flying : List Token)
    (held : Token → Place → Prop) : Prop where
  live_iff : ∀ t, live t ↔ others t ∨ t ∈ flying ∨ ∃ p, held t p
  sole : ∀ t p q, held t p → held t q → p = q
  flying_nodup : flying.Nodup
  flying_apart : ∀ t ∈ flying, ¬ others t ∧ ∀ p, ¬ held t p
  others_apart : ∀ t, others t → ∀ p, ¬ held t p

end Host

open Host

variable {S : Embedding}

/-- The accounts balance: `flying` lists the handles on their way, `others` are live for someone else.
Besides callbacks and arguments, the objects are of kinds that the program may make. -/
structure Accounts (B : Books S.State) (base : Nat) (may : ResourceKind → Prop)
    (others : Token → Prop) (flying : List Token) (w : World S) : Prop where
  base_le : base ≤ w.nodes.length
  valid : B.valid w.engine
  dropped_issued : ∀ t ∈ B.dropped w.engine, t ∈ B.issued w.engine
  ledger : Ledger (B.Live w.engine) others flying (Held base w.nodes)
  forest : Forest base w.nodes
  /-- A resource that holds a handle is in the list of its owner, which is live. -/
  owner : ∀ (id p : Nat) (n : Node), base ≤ id → w.nodes[id]? = some n → n.handle.isSome →
    n.role.parent? = some p → base ≤ p ∧ ∃ m, w.nodes[p]? = some m ∧ m.isLive ∧
      MayOwn m.role n.role ∧ refOf id n.role.kind ∈ m.owned
  args : ∀ (id : Nat) (n : Node), base ≤ id → w.nodes[id]? = some n → n.role.kind = .args →
    n.handle = none
  scopes : ∀ (id : Nat) (n : Node) (issued : Value) (types : Registry) (symbols : SymbolTable),
    base ≤ id → w.nodes[id]? = some n → n.role = .scope issued types symbols →
    n.handle = none ∨ n.handle = some issued
  made : ∀ (id : Nat) (n : Node), base ≤ id → w.nodes[id]? = some n →
    n.role.kind = .block ∨ n.role.kind = .args ∨ may n.role.kind
  /-- The engine calls only functions that the program has defined in the scope it knows them by. -/
  homes : ∀ (f : FunctionId) (scope : Value), B.home w.engine f scope →
    ∃ fn n types symbols, w.functions[f]? = some fn ∧ w.nodes[fn.scope]? = some n ∧
      n.role = .scope scope types symbols

namespace Host

/-- What a call for `mine` may end: its arguments, and the resources that they own. -/
def MayEnd (base : Nat) (mine : Option Nat) (id : Nat) (n : Node) : Prop :=
  base ≤ id ∧ ∃ a, mine = some a ∧ (id = a ∨ n.role.parent? = some a)

/-- A node some time later. -/
structure Continues (mayEnd : Prop) (n n' : Node) : Prop where
  role : fixedRole n'.role = fixedRole n.role
  handle : n'.handle = n.handle ∨ mayEnd ∧ n'.handle = none
  live : n.isLive → n'.isLive ∨ mayEnd

end Host

/-- What a computation leaves as it was: objects live on and keep their handles, except for what belongs
to the call `mine`, and every other call that was opened is closed. -/
structure Follows (B : Books S.State) (base : Nat) (mine : Option Nat) (w w' : World S) : Prop where
  later : B.Later w.engine w'.engine
  nodes : ∀ (id : Nat) (n : Node), w.nodes[id]? = some n →
    ∃ n', w'.nodes[id]? = some n' ∧ Continues (MayEnd base mine id n) n n'
  functions : w.functions <+: w'.functions
  owners : ∀ (t : Token) (a : Nat), t ∈ B.issued w.engine → OwnedBy base w'.nodes t a →
    OwnedBy base w.nodes t a
  stays : ∀ t, B.Live w.engine t → (∀ a, mine = some a → ¬ OwnedBy base w.nodes t a) →
    B.Live w'.engine t
  calls : ∀ (id : Nat) (n' : Node), w'.nodes[id]? = some n' → IsOpen n' →
    mine = some id ∨ ∃ n, w.nodes[id]? = some n ∧ IsOpen n

namespace Host

variable {base : Nat} {mine : Option Nat} {B : Books S.State} {w w' w'' : World S}

theorem kind_fixedRole (r : Role) : (fixedRole r).kind = r.kind := by
  cases r <;> rfl

theorem parent?_fixedRole (r : Role) : (fixedRole r).parent? = r.parent? := by
  cases r <;> rfl

theorem Continues.kind {mayEnd : Prop} {n n' : Node} (h : Continues mayEnd n n') :
    n'.role.kind = n.role.kind := by
  rw [← kind_fixedRole, h.role, kind_fixedRole]

theorem Continues.parent? {mayEnd : Prop} {n n' : Node} (h : Continues mayEnd n n') :
    n'.role.parent? = n.role.parent? := by
  rw [← parent?_fixedRole, h.role, parent?_fixedRole]

theorem Continues.refl (mayEnd : Prop) (n : Node) : Continues mayEnd n n :=
  ⟨rfl, .inl rfl, fun h => .inl h⟩

theorem Continues.trans {mayEnd : Prop} {n n' n'' : Node} (h : Continues mayEnd n n')
    (h' : Continues mayEnd n' n'') : Continues mayEnd n n'' := by
  refine ⟨h'.role.trans h.role, ?_, ?_⟩
  · rcases h'.handle with h₂ | h₂
    · rw [h₂]
      exact h.handle
    · exact .inr h₂
  · intro hlive
    rcases h.live hlive with hlive | hend
    · exact h'.live hlive
    · exact .inr hend

theorem MayEnd.congr {mine : Option Nat} {id : Nat} {n n' : Node}
    (h : n'.role.parent? = n.role.parent?) : MayEnd base mine id n' = MayEnd base mine id n := by
  simp only [MayEnd, h]

end Host

namespace Follows

variable {base : Nat} {mine : Option Nat} {B : Books S.State} {w w' w'' : World S}

theorem refl (hvalid : B.valid w.engine) : Follows B base mine w w :=
  ⟨.refl hvalid, fun _ n hn => ⟨n, hn, .refl _ n⟩, List.prefix_refl _, fun _ _ _ h => h,
    fun _ h _ => h, fun _ n hn ho => .inr ⟨n, hn, ho⟩⟩

theorem trans (h : Follows B base mine w w') (h' : Follows B base mine w' w'') :
    Follows B base mine w w'' where
  later := h.later.trans h'.later
  nodes := by
    intro id n hn
    obtain ⟨n', hn', hc⟩ := h.nodes id n hn
    obtain ⟨n'', hn'', hc'⟩ := h'.nodes id n' hn'
    rw [MayEnd.congr hc.parent?] at hc'
    exact ⟨n'', hn'', hc.trans hc'⟩
  functions := h.functions.trans h'.functions
  owners := fun t a ht ho => h.owners t a ht (h'.owners t a (h.later.mem_issued ht) ho)
  stays := by
    intro t ht hmine
    refine h'.stays t (h.stays t ht hmine) ?_
    intro a ha ho
    exact hmine a ha (h.owners t a ht.1 ho)
  calls := by
    intro id n'' hn'' ho
    rcases h'.calls id n'' hn'' ho with hmine | ⟨n', hn', ho'⟩
    · exact .inl hmine
    · exact h.calls id n' hn' ho'

/-- What ends nothing also ends nothing but what a call owns. -/
theorem widen (h : Follows B base none w w') : Follows B base mine w w' where
  later := h.later
  nodes := by
    intro id n hn
    obtain ⟨n', hn', hc⟩ := h.nodes id n hn
    have hnot : ¬ MayEnd base none id n := by simp [MayEnd]
    refine ⟨n', hn', hc.role, ?_, ?_⟩
    · rcases hc.handle with hh | hh
      · exact .inl hh
      · exact absurd hh.1 hnot
    · intro hlive
      rcases hc.live hlive with hl | hl
      · exact .inl hl
      · exact absurd hl hnot
  functions := h.functions
  owners := h.owners
  stays := fun t ht _ => h.stays t ht (by simp)
  calls := fun id n' hn' ho => .inr ((h.calls id n' hn' ho).resolve_left (by simp))

/-- An object that such a computation may not end is as live after it. -/
theorem isLive_of (h : Follows B base none w w') {id : Nat} {n : Node} (hn : w.nodes[id]? = some n)
    (hlive : n.isLive) : ∃ n', w'.nodes[id]? = some n' ∧ n'.isLive ∧
      fixedRole n'.role = fixedRole n.role ∧ n'.handle = n.handle := by
  obtain ⟨n', hn', hc⟩ := h.nodes id n hn
  have hnot : ¬ MayEnd base none id n := by simp [MayEnd]
  refine ⟨n', hn', (hc.live hlive).resolve_right hnot, hc.role, ?_⟩
  exact hc.handle.resolve_right fun hh => hnot hh.1

end Follows

end EngineHost
