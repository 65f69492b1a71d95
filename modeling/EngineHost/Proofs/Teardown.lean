import EngineHost.Proofs.Books
import Mathlib.Data.List.Nodup

/-!
Tearing a resource down. Owners and what they own form a forest, in which an owner is older than what it
owns. `teardown` lists the resources below one in the order they go; destroying it takes back exactly
their handles, in that order, and changes no other object but the owner that forgets it.
-/
namespace EngineHost.Host

/-- The objects that a node owns, in the order of adoption. -/
def childIds (n : Node) : List Nat :=
  n.owned.filterMap fun v =>
    match v with
    | .object ref => some ref.id
    | _ => none

/-- The value that stands for the object with a number. -/
def refAt (nodes : List Node) (id : Nat) : Value :=
  (nodes[id]?.map fun n => refOf id n.role.kind).getD .null

/-- Everything that a node from `base` on owns is a younger resource that knows its owner. -/
structure Thicket (base : Nat) (nodes : List Node) : Prop where
  owned : ∀ (p : Nat) (m : Node), base ≤ p → nodes[p]? = some m → ∀ v ∈ m.owned,
    ∃ (id : Nat) (n : Node), v = refOf id n.role.kind ∧ nodes[id]? = some n ∧
      n.role.parent? = some p ∧ p < id
  nodup : ∀ (p : Nat) (m : Node), base ≤ p → nodes[p]? = some m → m.owned.Nodup

/-- A thicket in whose lists every resource holds a handle. -/
structure Forest (base : Nat) (nodes : List Node) : Prop where
  owned : ∀ (p : Nat) (m : Node), base ≤ p → nodes[p]? = some m → ∀ v ∈ m.owned,
    ∃ (id : Nat) (n : Node), v = refOf id n.role.kind ∧ nodes[id]? = some n ∧ n.handle.isSome ∧
      n.role.parent? = some p ∧ p < id
  nodup : ∀ (p : Nat) (m : Node), base ≤ p → nodes[p]? = some m → m.owned.Nodup

/-- The resources that go when one is destroyed, in their order: the last adopted first, an owner after
what it owns. -/
def teardown (nodes : List Node) : Nat → Nat → List Nat
  | 0, _ => []
  | fuel + 1, id =>
    ((nodes[id]?.map childIds).getD []).reverse.flatMap (teardown nodes fuel) ++ [id]

/-- What goes when a node releases what it owns. -/
def below (nodes : List Node) (fuel : Nat) (m : Node) : List Nat :=
  (childIds m).reverse.flatMap (teardown nodes fuel)

/-- Nodes after some of them have been destroyed. -/
def fell (gone : List Nat) (nodes : List Node) : List Node :=
  nodes.mapIdx fun id n => if id ∈ gone then { n with handle := none, owned := [] } else n

/-- The handle that an object holds. -/
def tokenAt (nodes : List Node) (id : Nat) : Option Token :=
  nodes[id]?.bind fun n => n.handle.map fun h => (n.role.kind, h)

/-- The handles of objects, in their order. -/
def tokensOf (nodes : List Node) (ids : List Nat) : List Token :=
  ids.filterMap (tokenAt nodes)

/-- Nodes after an owner, if there is one, has forgotten a value. -/
def forgotten (owner : Option Nat) (v : Value) (nodes : List Node) : List Node :=
  match owner with
  | some p => nodes.modify p fun n => { n with owned := withoutFirst v n.owned }
  | none => nodes

section Lists

variable {base : Nat} {nodes : List Node}

theorem mem_childIds {n : Node} {id : Nat} (h : id ∈ childIds n) :
    ∃ ref, Value.object ref ∈ n.owned ∧ ref.id = id := by
  obtain ⟨v, hv, hid⟩ := List.mem_filterMap.mp h
  split at hid
  · rename_i ref
    exact ⟨ref, hv, by simpa using hid⟩
  · simp at hid

theorem refOf_inj {id id' : Nat} {kind kind' : ResourceKind} (h : refOf id kind = refOf id' kind') :
    id = id' := by
  simp only [refOf, Value.object.injEq, ObjectRef.mk.injEq] at h
  exact h.1

theorem mem_childIds_of_refOf {n : Node} {id : Nat} {kind : ResourceKind}
    (h : refOf id kind ∈ n.owned) : id ∈ childIds n :=
  List.mem_filterMap.mpr ⟨_, h, rfl⟩

theorem Thicket.child (hT : Thicket base nodes) {p c : Nat} {m : Node} (hp : base ≤ p)
    (hm : nodes[p]? = some m) (hc : c ∈ childIds m) :
    ∃ n, nodes[c]? = some n ∧ refOf c n.role.kind ∈ m.owned ∧ n.role.parent? = some p ∧ p < c := by
  obtain ⟨ref, href, hid⟩ := mem_childIds hc
  obtain ⟨id, n, hv, hn, hparent, hlt⟩ := hT.owned p m hp hm _ href
  have hids : ref.id = id := congrArg ObjectRef.id (Value.object.inj hv)
  have hcid : c = id := hid.symm.trans hids
  subst hcid
  exact ⟨n, hn, hv ▸ href, hparent, hlt⟩

theorem Thicket.owned_eq (hT : Thicket base nodes) {p : Nat} {m : Node} (hp : base ≤ p)
    (hm : nodes[p]? = some m) : m.owned = (childIds m).map (refAt nodes) := by
  have hall := hT.owned p m hp hm
  unfold childIds
  generalize m.owned = vs at hall ⊢
  induction vs with
  | nil => rfl
  | cons v rest ih =>
    obtain ⟨id, n, hv, hn, -⟩ := hall v (List.mem_cons_self ..)
    have htail := ih fun u hu => hall u (List.mem_cons_of_mem _ hu)
    subst hv
    simp only [refOf, List.filterMap_cons, List.map_cons, refAt, hn] at htail ⊢
    rw [← htail]
    rfl

theorem Thicket.childIds_nodup (hT : Thicket base nodes) {p : Nat} {m : Node} (hp : base ≤ p)
    (hm : nodes[p]? = some m) : (childIds m).Nodup := by
  have h := hT.nodup p m hp hm
  rw [hT.owned_eq hp hm] at h
  exact List.Nodup.of_map _ h

theorem Forest.thicket (hF : Forest base nodes) : Thicket base nodes where
  owned := by
    intro p m hp hm v hv
    obtain ⟨id, n, hid, hn, -, hrest⟩ := hF.owned p m hp hm v hv
    exact ⟨id, n, hid, hn, hrest⟩
  nodup := hF.nodup

theorem Forest.child (hF : Forest base nodes) {p c : Nat} {m : Node} (hp : base ≤ p)
    (hm : nodes[p]? = some m) (hc : c ∈ childIds m) :
    ∃ n, nodes[c]? = some n ∧ refOf c n.role.kind ∈ m.owned ∧ n.handle.isSome ∧
      n.role.parent? = some p ∧ p < c := by
  obtain ⟨n, hn, hmem, -⟩ := hF.thicket.child hp hm hc
  obtain ⟨id, n', hv, hn', hlive, hrest⟩ := hF.owned p m hp hm _ hmem
  obtain rfl := refOf_inj hv
  obtain rfl := Option.some.inj (hn.symm.trans hn')
  exact ⟨n, hn, hmem, hlive, hrest⟩

theorem fell_length (gone : List Nat) (nodes : List Node) :
    (fell gone nodes).length = nodes.length := by
  simp [fell]

theorem fell_getElem? (gone : List Nat) (nodes : List Node) (id : Nat) :
    (fell gone nodes)[id]? =
      nodes[id]?.map fun n => if id ∈ gone then { n with handle := none, owned := [] } else n := by
  simp [fell, List.getElem?_mapIdx]

theorem fell_nil (nodes : List Node) : fell [] nodes = nodes := by
  apply List.ext_getElem?
  intro id
  simp [fell_getElem?]

theorem fell_fell (gone gone' : List Nat) (nodes : List Node) :
    fell gone' (fell gone nodes) = fell (gone ++ gone') nodes := by
  apply List.ext_getElem?
  intro id
  simp only [fell_getElem?, Option.map_map, List.mem_append]
  congr 1
  funext n
  by_cases h : id ∈ gone <;> by_cases h' : id ∈ gone' <;> simp [h, h']

/-- A change of a node that stays may come first or last. -/
theorem fell_modify {gone : List Nat} {id : Nat} (nodes : List Node) (f : Node → Node)
    (hout : id ∉ gone) : fell gone (nodes.modify id f) = (fell gone nodes).modify id f := by
  apply List.ext_getElem?
  intro j
  by_cases hj : id = j
  · subst hj
    simp [fell_getElem?, hout, Function.comp_def]
  · simp [fell_getElem?, hj]

theorem teardown_succ {fuel id : Nat} {m : Node} (hm : nodes[id]? = some m) :
    teardown nodes (fuel + 1) id = below nodes fuel m ++ [id] := by
  simp [teardown, below, hm]

theorem mem_teardown_succ {fuel id j : Nat} :
    j ∈ teardown nodes (fuel + 1) id ↔
      j = id ∨ ∃ m c, nodes[id]? = some m ∧ c ∈ childIds m ∧ j ∈ teardown nodes fuel c := by
  simp only [teardown, List.mem_append, List.mem_flatMap, List.mem_reverse, List.mem_singleton]
  constructor
  · rintro (⟨c, hc, hj⟩ | hj)
    · cases hm : nodes[id]? with
      | none => simp [hm] at hc
      | some m => exact .inr ⟨m, c, rfl, by simpa [hm] using hc, hj⟩
    · exact .inl hj
  · rintro (hj | ⟨m, c, hm, hc, hj⟩)
    · exact .inr hj
    · exact .inl ⟨c, by simpa [hm] using hc, hj⟩

theorem le_of_mem_teardown (hF : Forest base nodes) {fuel id j : Nat} (hb : base ≤ id)
    (hj : j ∈ teardown nodes fuel id) : id ≤ j := by
  induction fuel generalizing id with
  | zero => simp [teardown] at hj
  | succ fuel ih =>
    rcases mem_teardown_succ.mp hj with rfl | ⟨m, c, hm, hc, hj⟩
    · exact Nat.le_refl _
    · obtain ⟨n, -, -, -, -, hlt⟩ := hF.child hb hm hc
      have hle := ih (by omega) hj
      omega

/-- Below the first, every resource that goes holds a handle and its owner goes too. -/
theorem parent_of_mem_teardown (hF : Forest base nodes) {fuel id j : Nat}
    (hb : base ≤ id) (hj : j ∈ teardown nodes fuel id) :
    j = id ∨ ∃ n p, nodes[j]? = some n ∧ n.handle.isSome ∧ n.role.parent? = some p ∧ p < j ∧
      p ∈ teardown nodes fuel id := by
  induction fuel generalizing id with
  | zero => simp [teardown] at hj
  | succ fuel ih =>
    rcases mem_teardown_succ.mp hj with rfl | ⟨m, c, hm, hc, hj⟩
    · exact .inl rfl
    · obtain ⟨n, hn, -, hlive, hparent, hlt⟩ := hF.child hb hm hc
      rcases ih (by omega) hj with rfl | ⟨n', p, hn', hlive', hparent', hlt', hp⟩
      · exact .inr ⟨n, id, hn, hlive, hparent, hlt, mem_teardown_succ.mpr (.inl rfl)⟩
      · exact .inr ⟨n', p, hn', hlive', hparent', hlt', mem_teardown_succ.mpr (.inr ⟨m, c, hm, hc, hp⟩)⟩

/-- What is below one owned resource is not below another. -/
theorem disjoint_teardown (hF : Forest base nodes) {fuel : Nat} {p c c' : Nat} {m : Node}
    (hp : base ≤ p) (hm : nodes[p]? = some m) (hc : c ∈ childIds m) (hc' : c' ∈ childIds m)
    (hne : c ≠ c') : (teardown nodes fuel c).Disjoint (teardown nodes fuel c') := by
  obtain ⟨n, hn, -, -, hparent, hlt⟩ := hF.child hp hm hc
  obtain ⟨n', hn', -, -, hparent', hlt'⟩ := hF.child hp hm hc'
  have hbc : base ≤ c := by omega
  have hbc' : base ≤ c' := by omega
  intro j
  -- The owner of a shared resource would be shared as well, down to one of the two.
  induction j using Nat.strongRecOn with
  | _ j ih =>
    intro hj hj'
    rcases parent_of_mem_teardown hF hbc hj with rfl | ⟨k, q, hk, -, hq, hqlt, hqmem⟩
    · rcases parent_of_mem_teardown hF hbc' hj' with rfl | ⟨k', q', hk', -, hq', -, hqmem'⟩
      · exact hne rfl
      · obtain rfl : n = k' := Option.some.inj (hn.symm.trans hk')
        obtain rfl : p = q' := Option.some.inj (hparent.symm.trans hq')
        have hle := le_of_mem_teardown hF hbc' hqmem'
        omega
    · rcases parent_of_mem_teardown hF hbc' hj' with rfl | ⟨k', q', hk', -, hq', -, hqmem'⟩
      · obtain rfl : n' = k := Option.some.inj (hn'.symm.trans hk)
        obtain rfl : p = q := Option.some.inj (hparent'.symm.trans hq)
        have hle := le_of_mem_teardown hF hbc hqmem
        omega
      · obtain rfl : k = k' := Option.some.inj (hk.symm.trans hk')
        obtain rfl : q = q' := Option.some.inj (hq.symm.trans hq')
        exact ih q hqlt hqmem hqmem'

theorem flatMap_teardown_nodup (hF : Forest base nodes) {fuel : Nat} {p : Nat} {m : Node}
    (hp : base ≤ p) (hm : nodes[p]? = some m)
    (ih : ∀ c, base ≤ c → (teardown nodes fuel c).Nodup) {ids : List Nat}
    (hids : ∀ c ∈ ids, c ∈ childIds m) (hnodup : ids.Nodup) :
    (ids.flatMap (teardown nodes fuel)).Nodup := by
  refine List.nodup_flatMap.mpr ⟨?_, ?_⟩
  · intro c hc
    obtain ⟨-, -, -, -, -, hlt⟩ := hF.child hp hm (hids c hc)
    exact ih c (by omega)
  · refine hnodup.imp_of_mem ?_
    intro c c' hc hc' hne
    exact disjoint_teardown hF hp hm (hids c hc) (hids c' hc') hne

theorem teardown_nodup (hF : Forest base nodes) {fuel id : Nat} (hb : base ≤ id) :
    (teardown nodes fuel id).Nodup := by
  induction fuel generalizing id with
  | zero => exact List.nodup_nil
  | succ fuel ih =>
    unfold teardown
    cases hm : nodes[id]? with
    | none => simp
    | some m =>
      have hchildren : ((childIds m).reverse.flatMap (teardown nodes fuel)).Nodup :=
        flatMap_teardown_nodup hF hb hm (fun c hc => ih hc)
          (fun c hc => List.mem_reverse.mp hc) (List.nodup_reverse.mpr (hF.thicket.childIds_nodup hb hm))
      refine List.nodup_append.mpr ⟨hchildren, List.nodup_singleton id, ?_⟩
      intro j hj k hk hjk
      obtain rfl : k = id := List.mem_singleton.mp hk
      obtain ⟨c, hc, hj⟩ := List.mem_flatMap.mp hj
      obtain ⟨-, -, -, -, -, hlt⟩ := hF.child hb hm (List.mem_reverse.mp hc)
      have hle := le_of_mem_teardown hF (by omega) hj
      omega

/-- With enough fuel, what an owner that goes owns goes as well. -/
theorem mem_teardown_of_owned (hF : Forest base nodes) {fuel : Nat} {id p c : Nat} {m : Node}
    (hb : base ≤ id) (hfuel : nodes.length < fuel + id) (hp : p ∈ teardown nodes fuel id)
    (hm : nodes[p]? = some m) (hc : c ∈ childIds m) : c ∈ teardown nodes fuel id := by
  induction fuel generalizing id with
  | zero => simp [teardown] at hp
  | succ fuel ih =>
    rcases mem_teardown_succ.mp hp with rfl | ⟨k, d, hk, hd, hp⟩
    · obtain ⟨n, hn, -, -, -, hlt⟩ := hF.child hb hm hc
      have hlen : c < nodes.length := (List.getElem?_eq_some_iff.mp hn).1
      obtain ⟨fuel, rfl⟩ : ∃ k, fuel = k + 1 := ⟨fuel - 1, by omega⟩
      exact mem_teardown_succ.mpr (.inr ⟨m, c, hm, hc, mem_teardown_succ.mpr (.inl rfl)⟩)
    · obtain ⟨-, -, -, -, -, hlt⟩ := hF.child hb hk hd
      exact mem_teardown_succ.mpr
        (.inr ⟨k, d, hk, hd, ih (by omega) (by omega) hp⟩)

theorem lt_of_mem_below (hF : Forest base nodes) {fuel p j : Nat} {m : Node} (hp : base ≤ p)
    (hm : nodes[p]? = some m) (hj : j ∈ below nodes fuel m) : p < j := by
  obtain ⟨c, hc, hj⟩ := List.mem_flatMap.mp hj
  obtain ⟨-, -, -, -, -, hlt⟩ := hF.child hp hm (List.mem_reverse.mp hc)
  have hle := le_of_mem_teardown hF (by omega) hj
  omega

theorem not_mem_below (hF : Forest base nodes) {fuel p : Nat} {m : Node} (hp : base ≤ p)
    (hm : nodes[p]? = some m) : p ∉ below nodes fuel m := fun hmem =>
  absurd (lt_of_mem_below hF hp hm hmem) (Nat.lt_irrefl p)

theorem below_nodup (hF : Forest base nodes) {fuel p : Nat} {m : Node} (hp : base ≤ p)
    (hm : nodes[p]? = some m) : (below nodes fuel m).Nodup :=
  flatMap_teardown_nodup hF hp hm (fun _ hc => teardown_nodup hF hc)
    (fun _ hc => List.mem_reverse.mp hc) (List.nodup_reverse.mpr (hF.thicket.childIds_nodup hp hm))

theorem tokensOf_append (ids ids' : List Nat) :
    tokensOf nodes (ids ++ ids') = tokensOf nodes ids ++ tokensOf nodes ids' := by
  simp [tokensOf]

theorem tokensOf_singleton {id : Nat} {n : Node} {h : Value} (hn : nodes[id]? = some n)
    (hh : n.handle = some h) : tokensOf nodes [id] = [(n.role.kind, h)] := by
  simp [tokensOf, tokenAt, hn, hh]

theorem forgotten_of_empty {ns : List Node} {p : Nat} {v : Value}
    (h : ∀ m, ns[p]? = some m → m.owned = []) : forgotten (some p) v ns = ns := by
  apply List.ext_getElem?
  intro j
  simp only [forgotten, List.getElem?_modify]
  by_cases hj : p = j
  · subst hj
    cases hm : ns[p]? with
    | none => simp
    | some m =>
      obtain ⟨role, handle, owned⟩ := m
      have howned : owned = [] := h _ hm
      subst howned
      simp [withoutFirst]
  · simp [hj]

theorem fell_snoc {gone : List Nat} {id : Nat} (ns : List Node) (h : id ∉ gone) :
    (fell gone (ns.modify id fun n => { n with owned := [] })).modify id
      (fun n => { n with handle := none }) = fell (gone ++ [id]) ns := by
  apply List.ext_getElem?
  intro j
  simp only [fell_getElem?, List.getElem?_modify, List.mem_append, List.mem_singleton]
  cases ns[j]? with
  | none => simp
  | some n =>
    by_cases hj : id = j
    · subst hj
      simp [h]
    · simp [hj, Ne.symm hj]

theorem scope_of_kind {r : Role} (h : r.kind = .scope) :
    ∃ issued types symbols, r = .scope issued types symbols := by
  cases r <;> simp [Role.kind] at h
  exact ⟨_, _, _, rfl⟩

theorem script_of_kind {r : Role} (h : r.kind = .script) : ∃ home source, r = .script home source := by
  cases r <;> simp [Role.kind] at h
  exact ⟨_, _, rfl⟩

theorem block_of_kind {r : Role} (h : r.kind = .block) : ∃ owner, r = .block owner := by
  cases r <;> simp [Role.kind] at h
  exact ⟨_, rfl⟩

theorem args_of_kind {r : Role} (h : r.kind = .args) : ∃ call, r = .args call := by
  cases r <;> simp [Role.kind] at h
  exact ⟨_, rfl⟩

theorem kind_ne_args_of_parent {r : Role} {p : Nat} (h : r.parent? = some p) : r.kind ≠ .args := by
  cases r <;> simp [Role.parent?, Role.kind] at h ⊢

end Lists

end EngineHost.Host
