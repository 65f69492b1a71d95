import EngineHost.Proofs.Accounts

/-!
The elementary changes of a world and what they do to the accounts: a call of the engine, a change of
nodes that gives up places, a new object, and destruction.
-/
namespace EngineHost

namespace Host

namespace Ledger

variable {live live' others : Token → Prop} {flying new : List Token} {held held' : Token → Place → Prop}

theorem congr (h : Ledger live others flying held) (hlive : ∀ t, live' t ↔ live t)
    (hheld : ∀ t p, held' t p ↔ held t p) : Ledger live' others flying held' := by
  have hl : live' = live := funext fun t => propext (hlive t)
  have hh : held' = held := funext fun t => funext fun p => propext (hheld t p)
  rw [hl, hh]
  exact h

/-- Fresh handles are on their way. -/
theorem issue (h : Ledger live others flying held) (hnew : new.Nodup) (hfresh : ∀ t ∈ new, ¬ live t)
    (hlive : ∀ t, live' t ↔ t ∈ new ∨ live t) : Ledger live' others (new ++ flying) held where
  live_iff := by
    intro t
    rw [hlive, h.live_iff, List.mem_append]
    tauto
  sole := h.sole
  flying_nodup := by
    refine List.nodup_append.mpr ⟨hnew, h.flying_nodup, ?_⟩
    intro t ht u hu htu
    subst htu
    exact hfresh t ht ((h.live_iff t).mpr (.inr (.inl hu)))
  flying_apart := by
    intro t ht
    rcases List.mem_append.mp ht with ht | ht
    · have hdead := hfresh t ht
      rw [h.live_iff] at hdead
      exact ⟨fun ho => hdead (.inl ho), fun p hp => hdead (.inr (.inr ⟨p, hp⟩))⟩
    · exact h.flying_apart t ht
  others_apart := h.others_apart

/-- A handle on its way is taken back. -/
theorem take {u : Token} (h : Ledger live others (u :: flying) held)
    (hlive : ∀ t, live' t ↔ live t ∧ t ≠ u) : Ledger live' others flying held where
  live_iff := by
    intro t
    rw [hlive, h.live_iff, List.mem_cons]
    have hnodup := (List.nodup_cons.mp h.flying_nodup).1
    have hapart := h.flying_apart u (List.mem_cons_self ..)
    constructor
    · rintro ⟨ho | (rfl | hf) | hp, hne⟩
      · exact .inl ho
      · exact absurd rfl hne
      · exact .inr (.inl hf)
      · exact .inr (.inr hp)
    · rintro (ho | hf | ⟨p, hp⟩)
      · exact ⟨.inl ho, fun hu => hapart.1 (hu ▸ ho)⟩
      · exact ⟨.inr (.inl (.inr hf)), fun hu => hnodup (hu ▸ hf)⟩
      · exact ⟨.inr (.inr ⟨p, hp⟩), fun hu => hapart.2 p (hu ▸ hp)⟩
  sole := h.sole
  flying_nodup := (List.nodup_cons.mp h.flying_nodup).2
  flying_apart := fun t ht => h.flying_apart t (List.mem_cons_of_mem _ ht)
  others_apart := h.others_apart

/-- Handles give up their places and are on their way. -/
theorem lift (h : Ledger live others flying held) (leaves : Token → Place → Prop)
    (hheld : ∀ t p, held' t p ↔ held t p ∧ ¬ leaves t p) (hnodup : new.Nodup)
    (hnew : ∀ t, t ∈ new ↔ ∃ p, held t p ∧ leaves t p) :
    Ledger live others (new ++ flying) held' where
  live_iff := by
    intro t
    rw [h.live_iff, List.mem_append, hnew]
    constructor
    · rintro (ho | hf | ⟨p, hp⟩)
      · exact .inl ho
      · exact .inr (.inl (.inr hf))
      · by_cases hl : leaves t p
        · exact .inr (.inl (.inl ⟨p, hp, hl⟩))
        · exact .inr (.inr ⟨p, (hheld t p).mpr ⟨hp, hl⟩⟩)
    · rintro (ho | (⟨p, hp, -⟩ | hf) | ⟨p, hp⟩)
      · exact .inl ho
      · exact .inr (.inr ⟨p, hp⟩)
      · exact .inr (.inl hf)
      · exact .inr (.inr ⟨p, ((hheld t p).mp hp).1⟩)
  sole := fun t p q hp hq => h.sole t p q ((hheld t p).mp hp).1 ((hheld t q).mp hq).1
  flying_nodup := by
    refine List.nodup_append.mpr ⟨hnodup, h.flying_nodup, ?_⟩
    intro t ht u hu htu
    subst htu
    obtain ⟨p, hp, -⟩ := (hnew t).mp ht
    exact (h.flying_apart t hu).2 p hp
  flying_apart := by
    intro t ht
    rcases List.mem_append.mp ht with ht | ht
    · obtain ⟨p, hp, hl⟩ := (hnew t).mp ht
      refine ⟨fun ho => h.others_apart t ho p hp, ?_⟩
      intro q hq
      obtain ⟨hq, hnot⟩ := (hheld t q).mp hq
      exact hnot (h.sole t p q hp hq ▸ hl)
    · exact ⟨(h.flying_apart t ht).1, fun q hq => (h.flying_apart t ht).2 q ((hheld t q).mp hq).1⟩
  others_apart := fun t ho p hp => h.others_apart t ho p ((hheld t p).mp hp).1

/-- Handles on their way arrive, each at one place. -/
theorem land (h : Ledger live others (new ++ flying) held) (arrives : Token → Place → Prop)
    (hheld : ∀ t p, held' t p ↔ held t p ∨ arrives t p) (hnew : ∀ t, t ∈ new ↔ ∃ p, arrives t p)
    (hsole : ∀ t p q, arrives t p → arrives t q → p = q) : Ledger live others flying held' := by
  obtain ⟨-, hnodup, hapart⟩ := List.nodup_append.mp h.flying_nodup
  have hfree : ∀ t p, arrives t p → ¬ others t ∧ ∀ q, ¬ held t q := fun t p hp =>
    h.flying_apart t (List.mem_append_left _ ((hnew t).mpr ⟨p, hp⟩))
  refine ⟨?_, ?_, hnodup, ?_, ?_⟩
  · intro t
    rw [h.live_iff, List.mem_append, hnew]
    constructor
    · rintro (ho | (⟨p, hp⟩ | hf) | ⟨p, hp⟩)
      · exact .inl ho
      · exact .inr (.inr ⟨p, (hheld t p).mpr (.inr hp)⟩)
      · exact .inr (.inl hf)
      · exact .inr (.inr ⟨p, (hheld t p).mpr (.inl hp)⟩)
    · rintro (ho | hf | ⟨p, hp⟩)
      · exact .inl ho
      · exact .inr (.inl (.inr hf))
      · rcases (hheld t p).mp hp with hp | hp
        · exact .inr (.inr ⟨p, hp⟩)
        · exact .inr (.inl (.inl ⟨p, hp⟩))
  · intro t p q hp hq
    rcases (hheld t p).mp hp with hp | hp <;> rcases (hheld t q).mp hq with hq | hq
    · exact h.sole t p q hp hq
    · exact absurd hp ((hfree t q hq).2 p)
    · exact absurd hq ((hfree t p hp).2 q)
    · exact hsole t p q hp hq
  · intro t ht
    obtain ⟨hother, hheld₀⟩ := h.flying_apart t (List.mem_append_right _ ht)
    refine ⟨hother, ?_⟩
    intro p hp
    rcases (hheld t p).mp hp with hp | hp
    · exact hheld₀ p hp
    · exact hapart t ((hnew t).mpr ⟨p, hp⟩) t ht rfl
  · intro t ho p hp
    rcases (hheld t p).mp hp with hp | hp
    · exact h.others_apart t ho p hp
    · exact (hfree t p hp).1 ho

/-- Held handles are taken back. -/
theorem drop (h : Ledger live others flying held) (gone : Token → Prop)
    (hlive : ∀ t, live' t ↔ live t ∧ ¬ gone t) (hheld : ∀ t p, held' t p ↔ held t p ∧ ¬ gone t)
    (hgone : ∀ t, gone t → ∃ p, held t p) : Ledger live' others flying held' where
  live_iff := by
    intro t
    rw [hlive, h.live_iff]
    constructor
    · rintro ⟨ho | hf | ⟨p, hp⟩, hnot⟩
      · exact .inl ho
      · exact .inr (.inl hf)
      · exact .inr (.inr ⟨p, (hheld t p).mpr ⟨hp, hnot⟩⟩)
    · rintro (ho | hf | ⟨p, hp⟩)
      · refine ⟨.inl ho, fun hg => ?_⟩
        obtain ⟨p, hp⟩ := hgone t hg
        exact h.others_apart t ho p hp
      · refine ⟨.inr (.inl hf), fun hg => ?_⟩
        obtain ⟨p, hp⟩ := hgone t hg
        exact (h.flying_apart t hf).2 p hp
      · obtain ⟨hp, hnot⟩ := (hheld t p).mp hp
        exact ⟨.inr (.inr ⟨p, hp⟩), hnot⟩
  sole := fun t p q hp hq => h.sole t p q ((hheld t p).mp hp).1 ((hheld t q).mp hq).1
  flying_nodup := h.flying_nodup
  flying_apart := fun t ht =>
    ⟨(h.flying_apart t ht).1, fun p hp => (h.flying_apart t ht).2 p ((hheld t p).mp hp).1⟩
  others_apart := fun t ho p hp => h.others_apart t ho p ((hheld t p).mp hp).1

end Ledger

/-- Nodes changed one by one. -/
structure Nodewise (R : Nat → Node → Node → Prop) (nodes nodes' : List Node) : Prop where
  length : nodes'.length = nodes.length
  each : ∀ (id : Nat) (n : Node), nodes[id]? = some n → ∃ n', nodes'[id]? = some n' ∧ R id n n'

/-- A node that may have lost its handle and some of what it owned. -/
structure Lessens (n n' : Node) : Prop where
  role : fixedRole n'.role = fixedRole n.role
  handle : n'.handle = n.handle ∨ n'.handle = none
  owned : n'.owned.Sublist n.owned

section Nodes

variable {R : Nat → Node → Node → Prop} {base : Nat} {nodes nodes' : List Node}

theorem Nodewise.back (h : Nodewise R nodes nodes') {id : Nat} {n' : Node}
    (hn' : nodes'[id]? = some n') : ∃ n, nodes[id]? = some n ∧ R id n n' := by
  have hlt : id < nodes.length := by
    have hlt' := (List.getElem?_eq_some_iff.mp hn').1
    rwa [h.length] at hlt'
  have hn : nodes[id]? = some nodes[id] := List.getElem?_eq_getElem hlt
  obtain ⟨n'', hn'', hR⟩ := h.each id _ hn
  obtain rfl := Option.some.inj (hn'.symm.trans hn'')
  exact ⟨_, hn, hR⟩

theorem nodewise_modify (id : Nat) (f : Node → Node) (hrefl : ∀ j n, R j n n)
    (hf : ∀ n, nodes[id]? = some n → R id n (f n)) : Nodewise R nodes (nodes.modify id f) where
  length := List.length_modify ..
  each := by
    intro j n hn
    rw [List.getElem?_modify, hn]
    by_cases hj : id = j
    · subst hj
      exact ⟨f n, by simp, hf n hn⟩
    · exact ⟨n, by simp [hj], hrefl j n⟩

theorem Nodewise.mono {R' : Nat → Node → Node → Prop} (h : Nodewise R nodes nodes')
    (hR : ∀ id n n', nodes[id]? = some n → R id n n' → R' id n n') : Nodewise R' nodes nodes' where
  length := h.length
  each := by
    intro id n hn
    obtain ⟨n', hn', hr⟩ := h.each id n hn
    exact ⟨n', hn', hR id n n' hn hr⟩

/-- Places given up, node by node. -/
theorem Nodewise.held (h : Nodewise R nodes nodes') (P : Token → Place → Prop)
    (hR : ∀ (id : Nat) (n n' : Node), base ≤ id → nodes[id]? = some n → R id n n' →
      ∀ t q, Holds n' t q ↔ Holds n t q ∧ P t (id, q)) (t : Token) (p : Place) :
    Held base nodes' t p ↔ Held base nodes t p ∧ P t p := by
  obtain ⟨id, q⟩ := p
  constructor
  · rintro ⟨hb, n', hn', hh⟩
    obtain ⟨n, hn, hr⟩ := h.back hn'
    obtain ⟨hh, hp⟩ := (hR id n n' hb hn hr t q).mp hh
    exact ⟨⟨hb, n, hn, hh⟩, hp⟩
  · rintro ⟨⟨hb, n, hn, hh⟩, hp⟩
    obtain ⟨n', hn', hr⟩ := h.each id n hn
    exact ⟨hb, n', hn', (hR id n n' hb hn hr t q).mpr ⟨hh, hp⟩⟩

theorem held_at {id : Nat} {n : Node} (hn : nodes[id]? = some n) (t : Token) (q : Option Nat) :
    Held base nodes t (id, q) ↔ base ≤ id ∧ Holds n t q := by
  constructor
  · rintro ⟨hb, n', hn', hh⟩
    obtain rfl := Option.some.inj (hn.symm.trans hn')
    exact ⟨hb, hh⟩
  · rintro ⟨hb, hh⟩
    exact ⟨hb, n, hn, hh⟩

theorem held_modify {id : Nat} {n : Node} (hn : nodes[id]? = some n) (f : Node → Node) (t : Token)
    (p : Place) : Held base (nodes.modify id f) t p ↔
      if p.1 = id then base ≤ id ∧ Holds (f n) t p.2 else Held base nodes t p := by
  obtain ⟨j, q⟩ := p
  by_cases hj : j = id
  · subst hj
    rw [if_pos rfl]
    exact held_at (by simp [hn]) t q
  · rw [if_neg hj]
    have hne : id ≠ j := fun h => hj h.symm
    rw [Held, Held, List.getElem?_modify_ne _ _ hne]

theorem mayOwn_iff (owner owned : Role) :
    MayOwn owner owned ↔ owned.kind = .script ∧ owner.kind = .scope ∨
      owned.kind = .block ∧ (owner.kind = .script ∨ owner.kind = .evaluator ∨ owner.kind = .args) := by
  cases owned <;> simp [MayOwn, Role.kind]

theorem isOpen_iff (n : Node) : IsOpen n ↔ n.role.kind = .args ∧ n.isLive := by
  obtain ⟨role, handle, owned⟩ := n
  cases role <;> simp [IsOpen, Role.kind, Node.isLive]

theorem kind_congr {r r' : Role} (h : fixedRole r' = fixedRole r) : r'.kind = r.kind := by
  rw [← kind_fixedRole, h, kind_fixedRole]

theorem parent?_congr {r r' : Role} (h : fixedRole r' = fixedRole r) : r'.parent? = r.parent? := by
  rw [← parent?_fixedRole, h, parent?_fixedRole]

theorem scope_of_fixedRole {r : Role} {issued : Value} {types : Registry} {symbols : SymbolTable}
    (h : fixedRole r = fixedRole (.scope issued types symbols)) :
    ∃ types' symbols', r = .scope issued types' symbols' := by
  cases r <;> simp only [fixedRole] at h <;> cases h
  exact ⟨_, _, rfl⟩

/-- Nodes after an owner, if there is one, has taken a value. -/
def adopted (owner : Option Nat) (v : Value) (nodes : List Node) : List Node :=
  match owner with
  | some p => nodes.modify p fun n => { n with owned := n.owned ++ [v] }
  | none => nodes

/-- What becomes of a node when a value is given to an owner, which may be another. -/
def given (owner : Option Nat) (v : Value) (id : Nat) (n : Node) : Node :=
  { n with owned := if owner = some id then n.owned ++ [v] else n.owned }

theorem adopted_getElem? (owner : Option Nat) (v : Value) (nodes : List Node) (id : Nat) :
    (adopted owner v nodes)[id]? = nodes[id]?.map (given owner v id) := by
  cases hn : nodes[id]? with
  | none =>
    cases owner with
    | none => exact hn
    | some p => simp [adopted, List.getElem?_modify, hn]
  | some n =>
    cases owner with
    | none => exact hn
    | some p => by_cases hp : p = id <;> simp [adopted, hn, hp, given]

theorem added_old {owner : Option Nat} {v : Value} {new n : Node} {id : Nat} (hn : nodes[id]? = some n) :
    (adopted owner v (nodes ++ [new]))[id]? = some (given owner v id n) := by
  rw [adopted_getElem?, List.getElem?_append_left (List.getElem?_eq_some_iff.mp hn).1, hn]
  rfl

theorem added_new {owner : Option Nat} {v : Value} {new : Node} (ho : owner ≠ some nodes.length) :
    (adopted owner v (nodes ++ [new]))[nodes.length]? = some new := by
  rw [adopted_getElem?, List.getElem?_concat_length, Option.map_some, given, if_neg ho]

theorem added_length (owner : Option Nat) (v : Value) (new : Node) :
    (adopted owner v (nodes ++ [new])).length = nodes.length + 1 := by
  cases owner <;> simp [adopted]

theorem added_cases {owner : Option Nat} {v : Value} {new n' : Node} {id : Nat}
    (ho : owner ≠ some nodes.length) (hn' : (adopted owner v (nodes ++ [new]))[id]? = some n') :
    id = nodes.length ∧ n' = new ∨ ∃ n, nodes[id]? = some n ∧ n' = given owner v id n := by
  by_cases hid : id = nodes.length
  · subst hid
    rw [added_new ho] at hn'
    exact .inl ⟨rfl, (Option.some.inj hn').symm⟩
  · have hlt : id < nodes.length := by
      have hlen := (List.getElem?_eq_some_iff.mp hn').1
      rw [added_length] at hlen
      omega
    have hn : nodes[id]? = some nodes[id] := List.getElem?_eq_getElem hlt
    rw [added_old hn] at hn'
    exact .inr ⟨_, hn, (Option.some.inj hn').symm⟩

theorem mem_given {owner : Option Nat} {v u : Value} {id : Nat} {n : Node}
    (h : u ∈ (given owner v id n).owned) : u ∈ n.owned ∨ owner = some id ∧ u = v := by
  simp only [given] at h
  split at h
  · rename_i howner
    rcases List.mem_append.mp h with h | h
    · exact .inl h
    · exact .inr ⟨howner, List.mem_singleton.mp h⟩
  · exact .inl h

theorem subset_given {owner : Option Nat} {v u : Value} {id : Nat} {n : Node} (h : u ∈ n.owned) :
    u ∈ (given owner v id n).owned := by
  simp only [given]
  split
  · exact List.mem_append_left _ h
  · exact h

theorem nodup_given {owner : Option Nat} {v : Value} {id : Nat} {n : Node} (h : n.owned.Nodup)
    (hv : v ∉ n.owned) : (given owner v id n).owned.Nodup := by
  simp only [given]
  split
  · refine List.nodup_append.mpr ⟨h, List.nodup_singleton v, ?_⟩
    intro u hu u' hu' huu
    obtain rfl := List.mem_singleton.mp hu'
    exact hv (huu ▸ hu)
  · exact h

theorem holds_owned (n : Node) (vs : List Value) (t : Token) (q : Option Nat) :
    Holds { n with owned := vs } t q ↔ Holds n t q := by
  cases q <;> rfl

/-- What a new object holds is held at its own places. -/
theorem held_added {owner : Option Nat} {v : Value} {new : Node} (ho : owner ≠ some nodes.length)
    (hbase : base ≤ nodes.length) (t : Token) (p : Place) :
    Held base (adopted owner v (nodes ++ [new])) t p ↔
      Held base nodes t p ∨ p.1 = nodes.length ∧ Holds new t p.2 := by
  obtain ⟨id, q⟩ := p
  constructor
  · rintro ⟨hb, n', hn', hh⟩
    rcases added_cases ho hn' with ⟨hid, rfl⟩ | ⟨n, hn, rfl⟩
    · exact .inr ⟨hid, hh⟩
    · exact .inl ⟨hb, n, hn, (holds_owned ..).mp hh⟩
  · rintro (⟨hb, n, hn, hh⟩ | ⟨hid, hh⟩)
    · exact ⟨hb, _, added_old hn, (holds_owned ..).mpr hh⟩
    · obtain rfl : id = nodes.length := hid
      exact ⟨hbase, _, added_new ho, hh⟩

/-- A new resource is the youngest, so that the forest grows by a leaf. -/
theorem Forest.added (hF : Forest base nodes) {role : Role} {handle : Option Value}
    (howner : ∀ p, role.parent? = some p → handle.isSome ∧ p < nodes.length) :
    Forest base (adopted role.parent? (refOf nodes.length role.kind) (nodes ++ [⟨role, handle, []⟩])) := by
  have ho : role.parent? ≠ some nodes.length := fun hp => absurd (howner _ hp).2 (Nat.lt_irrefl _)
  constructor
  · intro p m' hp hm' v hv
    rcases added_cases ho hm' with ⟨-, rfl⟩ | ⟨m, hm, rfl⟩
    · simp at hv
    · rcases mem_given hv with hv | ⟨hparent, rfl⟩
      · obtain ⟨id, n, hvn, hn, hrest⟩ := hF.owned p m hp hm v hv
        exact ⟨id, given _ _ id n, hvn, added_old hn, hrest⟩
      · obtain ⟨hlive, hlt⟩ := howner p hparent
        exact ⟨_, _, rfl, added_new ho, hlive, hparent, hlt⟩
  · intro p m' hp hm'
    rcases added_cases ho hm' with ⟨-, rfl⟩ | ⟨m, hm, rfl⟩
    · exact List.nodup_nil
    · refine nodup_given (hF.nodup p m hp hm) fun hv => ?_
      obtain ⟨id, n, hvn, hn, -⟩ := hF.owned p m hp hm _ hv
      obtain rfl := refOf_inj hvn
      exact absurd (List.getElem?_eq_some_iff.mp hn).1 (Nat.lt_irrefl _)

end Nodes

end Host

open Host

variable {S : Embedding} {B : Books S.State} {base : Nat} {may : ResourceKind → Prop} {mine : Option Nat}
  {others : Token → Prop}
  {flying flying' new : List Token} {w w' w₀ : World S}

namespace Accounts

/-- The accounts depend on the objects, the functions and the engine alone. -/
theorem congr (h : Accounts B base may others flying w) (hnodes : w'.nodes = w.nodes)
    (hfunctions : w'.functions = w.functions) (hengine : w'.engine = w.engine) :
    Accounts B base may others flying w' := by
  refine ⟨?_, ?_, ?_, ?_, ?_, ?_, ?_, ?_, ?_, ?_⟩
  · exact hnodes ▸ h.base_le
  · exact hengine ▸ h.valid
  · exact hengine ▸ h.dropped_issued
  · rw [hengine, hnodes]
    exact h.ledger
  · exact hnodes ▸ h.forest
  · rw [hnodes]
    exact h.owner
  · rw [hnodes]
    exact h.args
  · rw [hnodes]
    exact h.scopes
  · rw [hnodes]
    exact h.made
  · rw [hengine, hnodes, hfunctions]
    exact h.homes

/-- A change of nodes that takes nothing but handles and owned resources from them, where an owner
forgets a resource just when it loses its handle. -/
theorem change (h : Accounts B base may others flying w)
    (hnodes : Nodewise (fun _ => Lessens) w.nodes w'.nodes) (hfunctions : w'.functions = w.functions)
    (hvalid : B.valid w'.engine) (hdropped : ∀ t ∈ B.dropped w'.engine, t ∈ B.issued w'.engine)
    (hhome : ∀ f scope, B.home w'.engine f scope → B.home w.engine f scope)
    (hledger : Ledger (B.Live w'.engine) others flying' (Held base w'.nodes))
    (hchild : ∀ (p id : Nat) (m n m' n' : Node), base ≤ p → w.nodes[p]? = some m →
      w.nodes[id]? = some n → w'.nodes[p]? = some m' → w'.nodes[id]? = some n' → n.handle.isSome →
      n.role.parent? = some p → m.isLive → refOf id n.role.kind ∈ m.owned →
      if n'.handle.isSome then m'.isLive ∧ refOf id n.role.kind ∈ m'.owned
      else refOf id n.role.kind ∉ m'.owned) :
    Accounts B base may others flying' w' where
  base_le := hnodes.length ▸ h.base_le
  valid := hvalid
  dropped_issued := hdropped
  ledger := hledger
  forest := by
    constructor
    · intro p m' hp hm' v hv
      obtain ⟨m, hm, hmm⟩ := hnodes.back hm'
      obtain ⟨id, n, rfl, hn, hlive, hparent, hlt⟩ :=
        h.forest.owned p m hp hm v (hmm.owned.subset hv)
      obtain ⟨n', hn', hnn⟩ := hnodes.each id n hn
      obtain ⟨-, m₂, hm₂, hmlive, -, hmem⟩ := h.owner id p n (by omega) hn hlive hparent
      obtain rfl := Option.some.inj (hm.symm.trans hm₂)
      have hc := hchild p id m n m' n' hp hm hn hm' hn' hlive hparent hmlive hmem
      by_cases hlive' : n'.handle.isSome = true
      · exact ⟨id, n', by rw [kind_congr hnn.role], hn', hlive',
          (parent?_congr hnn.role).trans hparent, hlt⟩
      · rw [if_neg hlive'] at hc
        exact absurd hv hc
    · intro p m' hp hm'
      obtain ⟨m, hm, hmm⟩ := hnodes.back hm'
      exact (h.forest.nodup p m hp hm).sublist hmm.owned
  owner := by
    intro id p n' hb hn' hlive' hparent'
    obtain ⟨n, hn, hnn⟩ := hnodes.back hn'
    have hlive : n.handle.isSome := by
      rcases hnn.handle with hh | hh
      · rwa [← hh]
      · simp [hh] at hlive'
    have hparent := (parent?_congr hnn.role).symm.trans hparent'
    obtain ⟨hp, m, hm, hmlive, hmay, hmem⟩ := h.owner id p n hb hn hlive hparent
    obtain ⟨m', hm', hmm⟩ := hnodes.each p m hm
    have hc := hchild p id m n m' n' hp hm hn hm' hn' hlive hparent hmlive hmem
    rw [if_pos hlive'] at hc
    refine ⟨hp, m', hm', hc.1, ?_, ?_⟩
    · rw [mayOwn_iff] at hmay ⊢
      rwa [kind_congr hnn.role, kind_congr hmm.role]
    · rw [kind_congr hnn.role]
      exact hc.2
  args := by
    intro id n' hb hn' hkind
    obtain ⟨n, hn, hnn⟩ := hnodes.back hn'
    rw [kind_congr hnn.role] at hkind
    rcases hnn.handle with hh | hh
    · rw [hh]
      exact h.args id n hb hn hkind
    · exact hh
  scopes := by
    intro id n' issued types symbols hb hn' hrole
    obtain ⟨n, hn, hnn⟩ := hnodes.back hn'
    obtain ⟨types', symbols', hrole'⟩ := scope_of_fixedRole (hrole ▸ hnn.role.symm)
    rcases hnn.handle with hh | hh
    · rw [hh]
      exact h.scopes id n issued types' symbols' hb hn hrole'
    · exact .inl hh
  made := by
    intro id n' hb hn'
    obtain ⟨n, hn, hnn⟩ := hnodes.back hn'
    rw [kind_congr hnn.role]
    exact h.made id n hb hn
  homes := by
    intro f scope hf
    obtain ⟨fn, n, types, symbols, hfn, hn, hrole⟩ := h.homes f scope (hhome f scope hf)
    obtain ⟨n', hn', hnn⟩ := hnodes.each fn.scope n hn
    obtain ⟨types', symbols', hrole'⟩ := scope_of_fixedRole (hrole ▸ hnn.role)
    exact ⟨fn, n', types', symbols', hfunctions ▸ hfn, hn', hrole'⟩

/-- The engine issues handles; they are on their way. -/
theorem call (h : Accounts B base may others flying w) {s' : S.State} (hfresh : B.Fresh w.engine new)
    (hmoves : B.Moves w.engine s' new []) :
    Accounts B base may others (new ++ flying) { w with engine := s' } where
  base_le := h.base_le
  valid := hmoves.valid
  dropped_issued := by
    intro t ht
    rw [hmoves.dropped, List.nil_append] at ht
    rw [hmoves.issued]
    exact List.mem_append_right _ (h.dropped_issued t ht)
  ledger := by
    refine h.ledger.issue hfresh.1 (fun t ht hlive => (hfresh.2 t ht).2 hlive.1) ?_
    intro t
    rw [hmoves.live_iff, Books.Live]
    constructor
    · rintro ⟨hn | hi, -, hd⟩
      · exact .inl hn
      · exact .inr ⟨hi, hd⟩
    · rintro (hn | ⟨hi, hd⟩)
      · exact ⟨.inl hn, by simp, fun hd => (hfresh.2 t hn).2 (h.dropped_issued t hd)⟩
      · exact ⟨.inr hi, by simp, hd⟩
  forest := h.forest
  owner := h.owner
  args := h.args
  scopes := h.scopes
  made := h.made
  homes := fun f scope hf => h.homes f scope (hmoves.home f scope hf)

/-- The engine takes back a handle on its way. -/
theorem take {t : Token} (h : Accounts B base may others (t :: flying) w) {s' : S.State}
    (hmoves : B.Moves w.engine s' [] [t]) :
    Accounts B base may others flying { w with engine := s' } where
  base_le := h.base_le
  valid := hmoves.valid
  dropped_issued := by
    intro u hu
    rw [hmoves.dropped] at hu
    rw [hmoves.issued, List.nil_append]
    rcases List.mem_append.mp hu with hu | hu
    · obtain rfl := List.mem_singleton.mp hu
      exact ((h.ledger.live_iff u).mpr (.inr (.inl (List.mem_cons_self ..)))).1
    · exact h.dropped_issued u hu
  ledger := by
    refine h.ledger.take ?_
    intro u
    rw [hmoves.live_iff, Books.Live]
    simp only [List.not_mem_nil, false_or, List.mem_singleton]
    tauto
  forest := h.forest
  owner := h.owner
  args := h.args
  scopes := h.scopes
  made := h.made
  homes := fun f scope hf => h.homes f scope (hmoves.home f scope hf)

/-- A function is defined, and the engine learns of it. -/
theorem register (h : Accounts B base may others flying w) (hnodes : w'.nodes = w.nodes)
    (hfunctions : w.functions <+: w'.functions) (hvalid : B.valid w'.engine)
    (hissued : B.issued w'.engine = B.issued w.engine)
    (hdropped : B.dropped w'.engine = B.dropped w.engine)
    (hhome : ∀ f scope, B.home w'.engine f scope → B.home w.engine f scope ∨
      ∃ fn n types symbols, w'.functions[f]? = some fn ∧ w.nodes[fn.scope]? = some n ∧
        n.role = .scope scope types symbols) :
    Accounts B base may others flying w' where
  base_le := hnodes ▸ h.base_le
  valid := hvalid
  dropped_issued := by
    rw [hissued, hdropped]
    exact h.dropped_issued
  ledger := by
    rw [hnodes]
    refine h.ledger.congr ?_ (fun _ _ => Iff.rfl)
    intro t
    rw [Books.Live, Books.Live, hissued, hdropped]
  forest := hnodes ▸ h.forest
  owner := by
    rw [hnodes]
    exact h.owner
  args := by
    rw [hnodes]
    exact h.args
  scopes := by
    rw [hnodes]
    exact h.scopes
  made := by
    rw [hnodes]
    exact h.made
  homes := by
    intro f scope hf
    rw [hnodes]
    rcases hhome f scope hf with hf | hf
    · obtain ⟨fn, n, types, symbols, hfn, hrest⟩ := h.homes f scope hf
      refine ⟨fn, n, types, symbols, ?_, hrest⟩
      obtain ⟨more, hmore⟩ := hfunctions
      rw [← hmore, List.getElem?_append_left (List.getElem?_eq_some_iff.mp hfn).1]
      exact hfn
    · exact hf

/-- Nodes change and keep what the accounts say of them, except that some places are given up. -/
theorem renew (h : Accounts B base may others flying w)
    (hnodes : Nodewise (fun _ n n' => fixedRole n'.role = fixedRole n.role ∧ n'.handle = n.handle ∧
      n'.owned = n.owned ∧ (n.owned ≠ [] → n'.isLive = n.isLive)) w.nodes w'.nodes)
    (hfunctions : w'.functions = w.functions) (hengine : w'.engine = w.engine)
    (hledger : Ledger (B.Live w.engine) others flying' (Held base w'.nodes)) :
    Accounts B base may others flying' w' := by
  refine h.change (hnodes.mono ?_) hfunctions (hengine ▸ h.valid) (hengine ▸ h.dropped_issued)
    (fun f scope hf => hengine ▸ hf) (hengine ▸ hledger) ?_
  · rintro id n n' - ⟨hrole, hhandle, howned, -⟩
    exact ⟨hrole, .inl hhandle, howned ▸ List.Sublist.refl _⟩
  · intro p id m n m' n' _ hm hn hm' hn' hlive _ hmlive hmem
    obtain ⟨m₂, hm₂, -, -, howned, hlive'⟩ := hnodes.back hm'
    obtain rfl := Option.some.inj (hm.symm.trans hm₂)
    obtain ⟨n₂, hn₂, -, hhandle, -⟩ := hnodes.back hn'
    obtain rfl := Option.some.inj (hn.symm.trans hn₂)
    rw [hhandle, if_pos hlive, howned, hlive' (List.ne_nil_of_mem hmem)]
    exact ⟨hmlive, hmem⟩

/-- A new object takes handles that are on their way, and its owner takes it. -/
theorem add (h : Accounts B base may others (new ++ flying) w) (role : Role) (handle : Option Value)
    (hnodes : w'.nodes = adopted role.parent? (refOf w.nodes.length role.kind)
      (w.nodes ++ [⟨role, handle, []⟩]))
    (hfunctions : w'.functions = w.functions) (hengine : w'.engine = w.engine)
    (hnew : ∀ t, t ∈ new ↔ ∃ q, Holds ⟨role, handle, []⟩ t q)
    (hsole : ∀ t q q', Holds ⟨role, handle, []⟩ t q → Holds ⟨role, handle, []⟩ t q' → q = q')
    (howner : ∀ p, role.parent? = some p → handle.isSome ∧ base ≤ p ∧
      ∃ m, w.nodes[p]? = some m ∧ m.isLive ∧ MayOwn m.role role)
    (hargs : role.kind = .args → handle = none)
    (hscope : ∀ issued types symbols, role = .scope issued types symbols →
      handle = none ∨ handle = some issued)
    (hmade : role.kind = .block ∨ role.kind = .args ∨ may role.kind) :
    Accounts B base may others flying w' := by
  have hlt : ∀ p, role.parent? = some p → p < w.nodes.length := by
    intro p hp
    obtain ⟨-, -, m, hm, -⟩ := howner p hp
    exact (List.getElem?_eq_some_iff.mp hm).1
  have ho : role.parent? ≠ some w.nodes.length := fun hp => absurd (hlt _ hp) (Nat.lt_irrefl _)
  refine
    { base_le := ?base_le, valid := hengine ▸ h.valid, dropped_issued := hengine ▸ h.dropped_issued,
      ledger := ?ledger, forest := ?forest, owner := ?owner, args := ?args, scopes := ?scopes,
      made := ?made, homes := ?homes }
  case base_le =>
    rw [hnodes, added_length]
    exact Nat.le_succ_of_le h.base_le
  case ledger =>
    rw [hengine, hnodes]
    refine h.ledger.land _ (held_added ho h.base_le) ?_ ?_
    · intro t
      rw [hnew]
      exact ⟨fun ⟨q, hq⟩ => ⟨(_, q), rfl, hq⟩, fun ⟨p, _, hp⟩ => ⟨p.2, hp⟩⟩
    · rintro t ⟨id, q⟩ ⟨id', q'⟩ ⟨hid, hq⟩ ⟨hid', hq'⟩
      exact Prod.ext (hid.trans hid'.symm) (hsole t q q' hq hq')
  case forest =>
    rw [hnodes]
    exact h.forest.added fun p hp => ⟨(howner p hp).1, hlt p hp⟩
  case owner =>
    intro id p n' hb hn' hlive hparent
    rw [hnodes] at hn' ⊢
    rcases added_cases ho hn' with ⟨rfl, rfl⟩ | ⟨n, hn, rfl⟩
    · obtain ⟨-, hp, m, hm, hmlive, hmay⟩ := howner p hparent
      refine ⟨hp, _, added_old hm, hmlive, hmay, ?_⟩
      rw [given, if_pos hparent]
      exact List.mem_append_right _ (List.mem_singleton_self _)
    · obtain ⟨hp, m, hm, hmlive, hmay, hmem⟩ := h.owner id p n hb hn hlive hparent
      exact ⟨hp, _, added_old hm, hmlive, hmay, subset_given hmem⟩
  case args =>
    intro id n' hb hn' hkind
    rw [hnodes] at hn'
    rcases added_cases ho hn' with ⟨-, rfl⟩ | ⟨n, hn, rfl⟩
    · exact hargs hkind
    · exact h.args id n hb hn hkind
  case scopes =>
    intro id n' issued types symbols hb hn' hrole
    rw [hnodes] at hn'
    rcases added_cases ho hn' with ⟨-, rfl⟩ | ⟨n, hn, rfl⟩
    · exact hscope issued types symbols hrole
    · exact h.scopes id n issued types symbols hb hn hrole
  case made =>
    intro id n' hb hn'
    rw [hnodes] at hn'
    rcases added_cases ho hn' with ⟨-, rfl⟩ | ⟨n, hn, rfl⟩
    · exact hmade
    · exact h.made id n hb hn
  case homes =>
    intro f scope hf
    obtain ⟨fn, n, types, symbols, hfn, hn, hrole⟩ := h.homes f scope (hengine ▸ hf)
    rw [hnodes]
    exact ⟨fn, given _ _ fn.scope n, types, symbols, hfunctions ▸ hfn, added_old hn, hrole⟩

end Accounts

namespace Follows

/-- A call of the engine that takes nothing back. -/
theorem engine (hfunctions : w.functions <+: w'.functions) (hnodes : w'.nodes = w.nodes)
    (hlater : B.Later w.engine w'.engine) (hstays : ∀ t, B.Live w.engine t → B.Live w'.engine t) :
    Follows B base mine w w' where
  later := hlater
  nodes := by
    intro id n hn
    exact ⟨n, hnodes ▸ hn, .refl _ n⟩
  functions := hfunctions
  owners := by
    intro t a _ ho
    rwa [hnodes] at ho
  stays := fun t ht _ => hstays t ht
  calls := by
    intro id n' hn' ho
    rw [hnodes] at hn'
    exact .inr ⟨n', hn', ho⟩

theorem moves {s' : S.State} (hmoves : B.Moves w.engine s' new []) :
    Follows B base mine w { w with engine := s' } := by
  refine engine (List.prefix_refl _) rfl hmoves.later_nil ?_
  intro t ht
  exact (hmoves.live_iff t).mpr ⟨.inr ht.1, by simp, ht.2⟩

/-- A change of nodes that gives up places only. -/
theorem change (hvalid : B.valid w.engine)
    (hnodes : Nodewise (fun id n n' => Continues (MayEnd base mine id n) n n' ∧
      (∀ t q, Holds n' t q → Holds n t q) ∧ (IsOpen n' → IsOpen n)) w.nodes w'.nodes)
    (hfunctions : w'.functions = w.functions) (hengine : w'.engine = w.engine) :
    Follows B base mine w w' where
  later := by
    rw [hengine]
    exact .refl hvalid
  nodes := by
    intro id n hn
    obtain ⟨n', hn', hc, -⟩ := hnodes.each id n hn
    exact ⟨n', hn', hc⟩
  functions := hfunctions ▸ List.prefix_refl _
  owners := by
    rintro t a - ⟨id, q, n', hb, hn', hh, hk⟩
    obtain ⟨n, hn, hc, hholds, -⟩ := hnodes.back hn'
    refine ⟨id, q, n, hb, hn, hholds t q hh, ?_⟩
    cases q with
    | none => exact hc.parent?.symm.trans hk
    | some i => exact hk
  stays := fun t ht _ => hengine ▸ ht
  calls := by
    intro id n' hn' ho
    obtain ⟨n, hn, -, -, hopen⟩ := hnodes.back hn'
    exact .inr ⟨n, hn, hopen ho⟩

/-- A new object holds nothing that was there before, or what its keeper kept then already. -/
theorem add (h : Follows B base mine w₀ w) (role : Role) (handle : Option Value)
    (hnodes : w'.nodes = adopted role.parent? (refOf w.nodes.length role.kind)
      (w.nodes ++ [⟨role, handle, []⟩]))
    (hfunctions : w'.functions = w.functions) (hengine : w'.engine = w.engine)
    (howner : role.parent? ≠ some w.nodes.length)
    (hkept : ∀ t q a, Holds ⟨role, handle, []⟩ t q →
      keeper w.nodes.length ⟨role, handle, []⟩ q = some a → t ∈ B.issued w₀.engine →
      OwnedBy base w₀.nodes t a)
    (hopen : IsOpen ⟨role, handle, []⟩ → mine = some w.nodes.length) :
    Follows B base mine w₀ w' where
  later := hengine ▸ h.later
  nodes := by
    intro id n hn
    obtain ⟨n', hn', hc⟩ := h.nodes id n hn
    rw [hnodes]
    exact ⟨given _ _ id n', added_old hn', hc.role, hc.handle, hc.live⟩
  functions := hfunctions ▸ h.functions
  owners := by
    rintro t a ht ⟨id, q, n', hb, hn', hh, hk⟩
    rw [hnodes] at hn'
    rcases added_cases howner hn' with ⟨rfl, rfl⟩ | ⟨n, hn, rfl⟩
    · exact hkept t q a hh hk ht
    · refine h.owners t a ht ⟨id, q, n, hb, hn, (holds_owned ..).mp hh, ?_⟩
      cases q <;> exact hk
  stays := fun t ht hmine => hengine ▸ h.stays t ht hmine
  calls := by
    intro id n' hn' ho
    rw [hnodes] at hn'
    rcases added_cases howner hn' with ⟨rfl, rfl⟩ | ⟨n, hn, rfl⟩
    · exact .inl (hopen ho)
    · exact h.calls id n hn ho

end Follows

end EngineHost
