import Mathlib
import EngineHost.Proofs.Programs
import EngineHost.Proofs.Tickets

/-!
What a destruction takes with it and in which order, and what it leaves alone: in every world that a
program can come to, as long as the engine refuses no handle.
-/
namespace EngineHost

open Host

namespace Host

/-- An object is another, or is owned by something that descends from it. -/
inductive Descends (nodes : List Node) (root : Nat) : Nat → Prop where
  | self : Descends nodes root root
  | child {id p : Nat} {n : Node} (hn : nodes[id]? = some n) (hparent : n.role.parent? = some p)
    (h : Descends nodes root p) : Descends nodes root id

/-- Resources in the order in which they go: those that are live, each once, an owner after what descends
from it, and of what one owner has adopted the latest first. -/
structure Footprint (nodes : List Node) (concerned : Nat → Prop) (order : List Nat) : Prop where
  mem_iff : ∀ id, id ∈ order ↔ concerned id ∧ ∃ n, nodes[id]? = some n ∧ n.handle.isSome
  nodup : order.Nodup
  owner_last : order.Pairwise fun a b => ¬ Descends nodes a b
  latest_first : order.Pairwise fun a b => ∀ (p : Nat) (m n n' : Node), nodes[a]? = some n →
    nodes[b]? = some n' → n.role.parent? = some p → n'.role.parent? = some p → nodes[p]? = some m →
    [refOf b n'.role.kind, refOf a n.role.kind].Sublist m.owned

variable {nodes : List Node} {fuel : Nat}

theorem Kinship.le_of_descends (hk : Kinship nodes) {root id : Nat} (h : Descends nodes root id) :
    root ≤ id := by
  induction h with
  | self => exact Nat.le_refl _
  | child hn hparent _ ih => exact Nat.le_trans ih (Nat.le_of_lt (hk.parent _ _ _ hn hparent).1)

/-- Below a resource, what goes has live owners up to it. -/
theorem Kinship.owner_of_mem (hk : Kinship nodes) {root id : Nat}
    (h : id ∈ teardown (pruned nodes) fuel root) :
    id = root ∨ ∃ n p, nodes[id]? = some n ∧ n.handle.isSome ∧ n.role.parent? = some p ∧
      p ∈ teardown (pruned nodes) fuel root := by
  rcases parent_of_mem_teardown hk.thicket.forest (Nat.zero_le root) h with
    rfl | ⟨n', p, hn', hlive, hparent, -, hp⟩
  · exact .inl rfl
  · rw [pruned_getElem?, Option.map_eq_some_iff] at hn'
    obtain ⟨n, hn, rfl⟩ := hn'
    exact .inr ⟨n, p, hn, hlive, hparent, hp⟩

theorem Kinship.parent_mem (hk : Kinship nodes) {root id p : Nat} {n : Node}
    (h : id ∈ teardown (pruned nodes) fuel root) (hn : nodes[id]? = some n)
    (hparent : n.role.parent? = some p) : id = root ∨ p ∈ teardown (pruned nodes) fuel root := by
  rcases hk.owner_of_mem h with rfl | ⟨n', q, hn', -, hparent', hq⟩
  · exact .inl rfl
  · obtain rfl := Option.some.inj (hn.symm.trans hn')
    obtain rfl := Option.some.inj (hparent.symm.trans hparent')
    exact .inr hq

theorem Kinship.le_of_mem (hk : Kinship nodes) {root id : Nat}
    (h : id ∈ teardown (pruned nodes) fuel root) : root ≤ id :=
  le_of_mem_teardown hk.thicket.forest (Nat.zero_le root) h

/-- What something that goes descends from goes as well, if it is no older than the first. -/
theorem Kinship.mem_of_descends (hk : Kinship nodes) {root a b : Nat} (h : Descends nodes a b)
    (hb : b ∈ teardown (pruned nodes) fuel root) (hle : root ≤ a) :
    a ∈ teardown (pruned nodes) fuel root := by
  induction h with
  | self => exact hb
  | child hn hparent h ih =>
    rcases hk.parent_mem hb hn hparent with rfl | hp
    · have hlt := (hk.parent _ _ _ hn hparent).1
      have hap := hk.le_of_descends h
      omega
    · exact ih hp

/-- What goes before an owner is what lives and descends from it. -/
theorem Kinship.mem_below_iff (hk : Kinship nodes) (hl : Listed nodes) {root : Nat} {k : Node}
    (hroot : (pruned nodes)[root]? = some k) (hfuel : nodes.length ≤ fuel + root) {id : Nat} :
    id ∈ below (pruned nodes) fuel k ↔
      id ≠ root ∧ Descends nodes root id ∧ ∃ n, nodes[id]? = some n ∧ n.handle.isSome := by
  have hmem : ∀ {id}, id ∈ teardown (pruned nodes) (fuel + 1) root ↔
      id ∈ below (pruned nodes) fuel k ∨ id = root := by
    intro id
    rw [teardown_succ hroot, List.mem_append, List.mem_singleton]
  constructor
  · intro h
    have hne : id ≠ root := by
      rintro rfl
      exact not_mem_below hk.thicket.forest (Nat.zero_le id) hroot h
    refine ⟨hne, ?_⟩
    have hteardown := hmem.mpr (.inl h)
    clear h
    induction id using Nat.strongRecOn with
    | _ id ih =>
      obtain ⟨n, p, hn, hlive, hparent, hp⟩ := (hk.owner_of_mem hteardown).resolve_left hne
      refine ⟨.child hn hparent ?_, n, hn, hlive⟩
      by_cases hpr : p = root
      · exact hpr ▸ .self
      · exact (ih p (hk.parent id p n hn hparent).1 hpr hp).1
  · rintro ⟨hne, hd, n, hn, hlive⟩
    refine (hmem.mp ?_).resolve_right hne
    clear hne
    induction hd generalizing n with
    | self => exact hmem.mpr (.inr rfl)
    | @child id p m hm hparent hd ih =>
      obtain rfl := Option.some.inj (hm.symm.trans hn)
      obtain ⟨q, hq, hqlive, howned⟩ := hl id p m hn hlive hparent
      have hp : p ∈ teardown (pruned nodes) (fuel + 1) root := by
        cases hd with
        | self => exact hmem.mpr (.inr rfl)
        | child hq' hparent' _ =>
          obtain rfl := Option.some.inj (hq.symm.trans hq')
          exact ih q hq (by rwa [← isLive_of_handle (kind_ne_args_of_parent hparent')])
      exact hk.mem_teardown (by omega) hp hq hm hlive howned

theorem Kinship.child_of_alive (hk : Kinship nodes) {p c : Nat} {m m' : Node}
    (hm : nodes[p]? = some m) (hm' : (pruned nodes)[p]? = some m') (hc : c ∈ childIds m') :
    c ∈ childIds m ∧ ∃ n, nodes[c]? = some n ∧ n.handle.isSome ∧ n.role.parent? = some p ∧ p < c := by
  obtain ⟨m'', hm'', hchildren⟩ := childIds_pruned hm
  obtain rfl := Option.some.inj (hm'.symm.trans hm'')
  rw [hchildren] at hc
  obtain ⟨hc, hlive⟩ := List.mem_filter.mp hc
  obtain ⟨n, hn, -, hparent, hlt⟩ := hk.thicket.child (Nat.zero_le p) hm hc
  exact ⟨hc, n, hn, (alive_iff hn).mp hlive, hparent, hlt⟩

theorem pair_sublist_of_increasing {xs : List Nat} (h : xs.Pairwise (· < ·)) {a b : Nat} (ha : a ∈ xs)
    (hb : b ∈ xs) (hab : a < b) : [a, b].Sublist xs := by
  induction xs with
  | nil => simp at ha
  | cons x rest ih =>
    obtain ⟨hx, hrest⟩ := List.pairwise_cons.mp h
    rcases List.mem_cons.mp ha with rfl | ha'
    · rcases List.mem_cons.mp hb with rfl | hb'
      · exact absurd hab (Nat.lt_irrefl _)
      · exact (List.singleton_sublist.mpr hb').cons_cons _
    · rcases List.mem_cons.mp hb with rfl | hb'
      · have hlt := hx a ha'
        omega
      · exact (ih hrest ha' hb').cons _

/-- Of two resources that one owner has adopted, the older stands first in its list. -/
theorem Kinship.adopted_before (hk : Kinship nodes) {p a b : Nat} {m n n' : Node}
    (hm : nodes[p]? = some m) (hn : nodes[a]? = some n) (hn' : nodes[b]? = some n')
    (ha : a ∈ childIds m) (hb : b ∈ childIds m) (hlt : a < b) :
    [refOf a n.role.kind, refOf b n'.role.kind].Sublist m.owned := by
  rw [hk.thicket.owned_eq (Nat.zero_le p) hm]
  have h := (pair_sublist_of_increasing (hk.increasing p m hm) ha hb hlt).map (refAt nodes)
  simpa [refAt, hn, hn'] using h

/-- One goes before another that does not descend from it, and a later adopted sibling goes first. -/
structure Before (nodes : List Node) (a b : Nat) : Prop where
  apart : ¬ Descends nodes a b
  latest_first : ∀ (p : Nat) (m n n' : Node), nodes[a]? = some n → nodes[b]? = some n' →
    n.role.parent? = some p → n'.role.parent? = some p → nodes[p]? = some m →
    [refOf b n'.role.kind, refOf a n.role.kind].Sublist m.owned

/-- What goes with one resource goes before what goes with an older sibling. -/
theorem Kinship.before_sibling (hk : Kinship nodes) {p c c' : Nat} {m m' : Node}
    (hm : nodes[p]? = some m) (hm' : (pruned nodes)[p]? = some m') (hc : c ∈ childIds m')
    (hc' : c' ∈ childIds m') (hlt : c' < c) {a b : Nat} (ha : a ∈ teardown (pruned nodes) fuel c)
    (hb : b ∈ teardown (pruned nodes) fuel c') : Before nodes a b := by
  have hapart : (teardown (pruned nodes) fuel c).Disjoint (teardown (pruned nodes) fuel c') :=
    disjoint_teardown hk.thicket.forest (Nat.zero_le p) hm' hc hc' (Nat.ne_of_gt hlt)
  obtain ⟨hcm, n, hn, -, hparent, hpc⟩ := hk.child_of_alive hm hm' hc
  obtain ⟨hcm', n', hn', -, hparent', hpc'⟩ := hk.child_of_alive hm hm' hc'
  have hle := hk.le_of_mem ha
  refine ⟨fun hd => hapart ha (hk.mem_of_descends hd hb (by omega)), ?_⟩
  intro q k na nb hna hnb hqa hqb hk'
  rcases hk.parent_mem ha hna hqa with rfl | hqc <;> rcases hk.parent_mem hb hnb hqb with rfl | hqc'
  · obtain rfl := Option.some.inj (hn.symm.trans hna)
    obtain rfl := Option.some.inj (hparent.symm.trans hqa)
    obtain rfl := Option.some.inj (hm.symm.trans hk')
    exact hk.adopted_before hm hnb hna hcm' hcm hlt
  · obtain rfl := Option.some.inj (hn.symm.trans hna)
    obtain rfl := Option.some.inj (hparent.symm.trans hqa)
    have hle' := hk.le_of_mem hqc'
    omega
  · obtain rfl := Option.some.inj (hn'.symm.trans hnb)
    obtain rfl := Option.some.inj (hparent'.symm.trans hqb)
    have hle' := hk.le_of_mem hqc
    omega
  · exact absurd hqc' (hapart hqc)

/-- What goes with a resource goes before it. -/
theorem Kinship.before_root (hk : Kinship nodes) {root a : Nat} (ha : a ∈ teardown (pruned nodes) fuel root)
    (hne : a ≠ root) : Before nodes a root := by
  have hle := hk.le_of_mem ha
  constructor
  · intro hd
    have hle' := hk.le_of_descends hd
    omega
  · intro p m n n' hn hn' hparent hparent' hm
    rcases hk.parent_mem ha hn hparent with rfl | hp
    · exact absurd rfl hne
    · have hle' := hk.le_of_mem hp
      have hlt := (hk.parent root p n' hn' hparent').1
      omega

theorem Kinship.pairwise_flatMap (hk : Kinship nodes) {p : Nat} {m m' : Node}
    (hm : nodes[p]? = some m) (hm' : (pruned nodes)[p]? = some m') {ids : List Nat}
    (hids : ∀ c ∈ ids, c ∈ childIds m') (hdecreasing : ids.Pairwise fun c c' => c' < c)
    (hbelow : ∀ c ∈ ids, (teardown (pruned nodes) fuel c).Pairwise (Before nodes)) :
    (ids.flatMap (teardown (pruned nodes) fuel)).Pairwise (Before nodes) := by
  induction ids with
  | nil => exact List.Pairwise.nil
  | cons c rest ih =>
    obtain ⟨hc, hrest⟩ := List.pairwise_cons.mp hdecreasing
    rw [List.flatMap_cons]
    refine List.pairwise_append.mpr ⟨hbelow c (List.mem_cons_self ..), ?_, ?_⟩
    · exact ih (fun d hd => hids d (List.mem_cons_of_mem _ hd)) hrest
        fun d hd => hbelow d (List.mem_cons_of_mem _ hd)
    · intro a ha b hb
      obtain ⟨d, hd, hb⟩ := List.mem_flatMap.mp hb
      exact hk.before_sibling hm hm' (hids c (List.mem_cons_self ..))
        (hids d (List.mem_cons_of_mem _ hd)) (hc d hd) ha hb

theorem Kinship.childIds_decreasing (hk : Kinship nodes) {p : Nat} {m m' : Node}
    (hm : nodes[p]? = some m) (hm' : (pruned nodes)[p]? = some m') :
    (childIds m').reverse.Pairwise fun c c' => c' < c := by
  obtain ⟨m'', hm'', hchildren⟩ := childIds_pruned hm
  obtain rfl := Option.some.inj (hm'.symm.trans hm'')
  rw [hchildren]
  exact List.pairwise_reverse.mpr ((hk.increasing p m hm).filter _)

/-- The order in which things go, from the structure of the recursion that makes it. -/
theorem Kinship.teardown_pairwise (hk : Kinship nodes) (fuel root : Nat) :
    (teardown (pruned nodes) fuel root).Pairwise (Before nodes) := by
  induction fuel generalizing root with
  | zero => exact List.Pairwise.nil
  | succ fuel ih =>
    have hlast : ∀ a ∈ ((((pruned nodes)[root]?.map childIds).getD []).reverse.flatMap
        (teardown (pruned nodes) fuel)), Before nodes a root := by
      intro a ha
      have hmem : a ∈ teardown (pruned nodes) (fuel + 1) root := by
        rw [teardown]
        exact List.mem_append_left _ ha
      refine hk.before_root hmem ?_
      rintro rfl
      have hnodup : (teardown (pruned nodes) (fuel + 1) a).Nodup :=
        teardown_nodup hk.thicket.forest (Nat.zero_le a)
      rw [teardown] at hnodup
      exact (List.nodup_append.mp hnodup).2.2 a ha a (List.mem_singleton_self a) rfl
    rw [teardown]
    refine List.pairwise_append.mpr ⟨?_, List.pairwise_singleton .., ?_⟩
    · cases hm : nodes[root]? with
      | none => simp [pruned_getElem?, hm]
      | some m =>
        obtain ⟨m', hm', -⟩ := pruned_of hm
        rw [hm', Option.map_some, Option.getD_some]
        exact hk.pairwise_flatMap hm hm' (fun c hc => List.mem_reverse.mp hc)
          (hk.childIds_decreasing hm hm') fun c _ => ih c
    · intro a ha b hb
      obtain rfl := List.mem_singleton.mp hb
      exact hlast a ha

theorem Kinship.below_pairwise (hk : Kinship nodes) {root : Nat} {k : Node}
    (hroot : (pruned nodes)[root]? = some k) : (below (pruned nodes) fuel k).Pairwise (Before nodes) := by
  have h := hk.teardown_pairwise (fuel + 1) root
  rw [teardown_succ hroot] at h
  exact (List.pairwise_append.mp h).1

/-- What goes when an owner releases what it owns. -/
theorem Kinship.footprint_below (hk : Kinship nodes) (hl : Listed nodes) {root : Nat} {k : Node}
    (hroot : (pruned nodes)[root]? = some k) (hfuel : nodes.length ≤ fuel + root) :
    Footprint nodes (fun id => id ≠ root ∧ Descends nodes root id) (below (pruned nodes) fuel k) where
  mem_iff := fun id => (hk.mem_below_iff hl hroot hfuel).trans (and_assoc ..).symm
  nodup := by
    have h : (teardown (pruned nodes) (fuel + 1) root).Nodup :=
      teardown_nodup hk.thicket.forest (Nat.zero_le root)
    rw [teardown_succ hroot] at h
    exact (List.nodup_append.mp h).1
  owner_last := (hk.below_pairwise hroot).imp Before.apart
  latest_first := (hk.below_pairwise hroot).imp Before.latest_first

/-- What goes when a live resource is destroyed. -/
theorem Kinship.footprint (hk : Kinship nodes) (hl : Listed nodes) {root : Nat} {r : Node}
    (hr : nodes[root]? = some r) (hlive : r.handle.isSome) (hfuel : nodes.length ≤ fuel + root) :
    Footprint nodes (Descends nodes root) (teardown (pruned nodes) (fuel + 1) root) where
  mem_iff := by
    intro id
    obtain ⟨k, hroot, -⟩ := pruned_of hr
    rw [teardown_succ hroot, List.mem_append, List.mem_singleton, hk.mem_below_iff hl hroot hfuel]
    by_cases hid : id = root
    · subst hid
      exact iff_of_true (.inr rfl) ⟨.self, r, hr, hlive⟩
    · simp [hid]
  nodup := teardown_nodup hk.thicket.forest (Nat.zero_le root)
  owner_last := (hk.teardown_pairwise _ root).imp Before.apart
  latest_first := (hk.teardown_pairwise _ root).imp Before.latest_first

/-- What descends from anything but a scope is its callbacks, which own nothing. -/
theorem Kinship.descends_block (hk : Kinship nodes) {root id : Nat} {n : Node}
    (hn : nodes[root]? = some n) (hkind : n.role.kind ≠ .scope) (h : Descends nodes root id) :
    id = root ∨ ∃ k, nodes[id]? = some k ∧ k.role = .block root := by
  induction h with
  | self => exact .inl rfl
  | @child id p k hk' hparent h ih =>
    obtain ⟨-, m, hm, hmay⟩ := hk.parent id p k hk' hparent
    rcases ih with rfl | ⟨m', hm', hblock⟩
    · obtain rfl := Option.some.inj (hn.symm.trans hm)
      refine .inr ⟨k, hk', ?_⟩
      cases hr : k.role <;> simp_all [MayOwn, Role.parent?]
    · obtain rfl := Option.some.inj (hm.symm.trans hm')
      exfalso
      cases hr : k.role <;> simp_all [MayOwn, Role.parent?, Role.kind]

theorem Kinship.descends_block_iff (hk : Kinship nodes) {root : Nat} {n : Node}
    (hn : nodes[root]? = some n) (hkind : n.role.kind ≠ .scope) (id : Nat) :
    (id ≠ root ∧ Descends nodes root id) ↔ ∃ m, nodes[id]? = some m ∧ m.role = .block root := by
  constructor
  · rintro ⟨hne, hd⟩
    exact (hk.descends_block hn hkind hd).resolve_left hne
  · rintro ⟨m, hm, hrole⟩
    have hlt := (hk.parent id root m hm (by rw [hrole]; rfl)).1
    exact ⟨Nat.ne_of_gt hlt, .child hm (by rw [hrole]; rfl) .self⟩

/-- What goes when anything but a scope releases what it owns. -/
theorem Kinship.footprint_blocks (hk : Kinship nodes) (hl : Listed nodes) {root : Nat} {n k : Node}
    (hn : nodes[root]? = some n) (hkind : n.role.kind ≠ .scope)
    (hroot : (pruned nodes)[root]? = some k) (hfuel : nodes.length ≤ fuel + root) :
    Footprint nodes (fun b => ∃ m, nodes[b]? = some m ∧ m.role = .block root)
      (below (pruned nodes) fuel k) := by
  have h := hk.footprint_below hl hroot hfuel
  exact ⟨fun id => by rw [h.mem_iff, hk.descends_block_iff hn hkind], h.nodup, h.owner_last,
    h.latest_first⟩

/-- An owner forgets one of the objects in its list. -/
theorem withoutFirst_split {id : Nat} {kind : ResourceKind} {vs : List Value}
    (hmem : refOf id kind ∈ vs) (hrefs : ∀ v ∈ vs, ∃ id kind, v = refOf id kind) :
    ∃ before after, vs = before ++ refOf id kind :: after ∧
      withoutFirst (refOf id kind) vs = before ++ after := by
  induction vs with
  | nil => simp at hmem
  | cons v rest ih =>
    obtain ⟨id', kind', rfl⟩ := hrefs v (List.mem_cons_self ..)
    by_cases heq : refOf id' kind' = refOf id kind
    · refine ⟨[], rest, by rw [heq]; rfl, ?_⟩
      rw [withoutFirst, if_pos ((refOf_equals ..).mpr heq)]
      rfl
    · have hmem' := (List.mem_cons.mp hmem).resolve_left fun h => heq h.symm
      obtain ⟨before, after, hvs, hout⟩ := ih hmem' fun u hu => hrefs u (List.mem_cons_of_mem _ hu)
      refine ⟨refOf id' kind' :: before, after, by rw [hvs]; rfl, ?_⟩
      rw [withoutFirst, if_neg (fun h => heq ((refOf_equals ..).mp h)), hout]
      rfl

/-- Nodes after a resource has been destroyed: what has gone holds and owns nothing, the owner has
forgotten the one resource, and no other object has changed. -/
structure Uprooted (root : Nat) (r : Node) (order : List Nat) (nodes nodes' : List Node) : Prop where
  gone : ∀ id ∈ order, ∀ n, nodes[id]? = some n →
    nodes'[id]? = some { n with handle := none, owned := [] }
  owner : ∀ p m, r.role.parent? = some p → nodes[p]? = some m →
    ∃ before after, m.owned = before ++ refOf root r.role.kind :: after ∧
      nodes'[p]? = some { m with owned := before ++ after }
  rest : ∀ id, id ∉ order → r.role.parent? ≠ some id → nodes'[id]? = nodes[id]?

theorem Kinship.uprooted (hk : Kinship nodes) (hl : Listed nodes) {root : Nat} {r : Node}
    (hr : nodes[root]? = some r) (hlive : r.handle.isSome) :
    Uprooted root r (teardown (pruned nodes) fuel root) nodes
      (forgotten r.role.parent? (refOf root r.role.kind)
        (fell (teardown (pruned nodes) fuel root) nodes)) where
  gone := by
    intro id hid n hn
    rw [forgotten_getElem?, fell_getElem?, hn, Option.map_some, if_pos hid, Option.map_some]
    have hnot : r.role.parent? ≠ some id := fun hp => by
      have hlt := (hk.parent root id r hr hp).1
      have hle := hk.le_of_mem hid
      omega
    simp [spared, hnot]
  owner := by
    intro p m hp hm
    have hout : p ∉ teardown (pruned nodes) fuel root := fun hmem => by
      have hlt := (hk.parent root p r hr hp).1
      have hle := hk.le_of_mem hmem
      omega
    obtain ⟨m', hm', -, hmem⟩ := hl root p r hr hlive hp
    obtain rfl := Option.some.inj (hm.symm.trans hm')
    obtain ⟨before, after, howned, hwithout⟩ := withoutFirst_split hmem fun v hv => by
      obtain ⟨i, k, hv, -⟩ := hk.owned p m hm v hv
      exact ⟨i, _, hv⟩
    refine ⟨before, after, howned, ?_⟩
    rw [forgotten_getElem?, fell_getElem?, hm, Option.map_some, if_neg hout, Option.map_some]
    simp [spared, hp, hwithout]
  rest := by
    intro id hid hp
    rw [forgotten_getElem?, fell_getElem?]
    cases nodes[id]? with
    | none => rfl
    | some n => simp [hid, spared, hp]

/-- Nodes after a script has been recompiled: its callbacks hold and own nothing, it owns nothing and keeps
its handle, and no other object has changed. -/
structure Recompiled (script : Nat) (n : Node) (role : Role) (order : List Nat)
    (nodes nodes' : List Node) : Prop where
  gone : ∀ id ∈ order, ∀ k, nodes[id]? = some k →
    nodes'[id]? = some { k with handle := none, owned := [] }
  kept : nodes'[script]? = some { n with role, owned := [] }
  rest : ∀ id, id ∉ order → id ≠ script → nodes'[id]? = nodes[id]?

theorem recompiled_fell {script : Nat} {n : Node} (role : Role → Role) {order : List Nat}
    (hn : nodes[script]? = some n) (hout : script ∉ order) :
    Recompiled script n (role n.role) order nodes
      ((fell order (bare [script] nodes)).modify script fun n => { n with role := role n.role }) where
  gone := by
    intro id hid k hk
    have hne : script ≠ id := fun h => hout (h ▸ hid)
    simp [fell_getElem?, bare_getElem?, hne, Ne.symm hne, hk, hid]
  kept := by
    simp [fell_getElem?, bare_getElem?, hn, hout]
  rest := by
    intro id hid hne
    rw [List.getElem?_modify, fell_getElem?, bare_getElem?]
    cases nodes[id]? with
    | none => rfl
    | some k => simp [hid, hne, Ne.symm hne]

end Host

variable {S : Embedding} {E : Engine S.State} {w : World S.watched}

/-- The source of a script that the engine has compiled anew. -/
def recompiledRole (role : Role) (source : Value) (result : Except Failure Unit) : Role :=
  match role, result with
  | .script home _, .ok () => .script home source
  | role, _ => role

theorem exec_recompile_error {S : Embedding} {E : Engine S.State} {w w₁ : World S} {id : Nat} {n : Node}
    {h : Value} {f : Failure} (source : Value) (hn : w.nodes[id]? = some n) (hh : n.handle = some h)
    (hrelease : exec (releaseOwned E id) w = (.error f, w₁)) :
    exec (Script.recompile E id source) w = (.error f, w₁) := by
  simp only [Script.recompile, exec_bind, exec_liveHandle hn hh, hrelease]

/-- Once the callbacks of a script have been released, the engine decides. -/
theorem exec_recompile_ok {S : Embedding} {E : Engine S.State} {w w₁ : World S} {id home : Nat}
    {n n₁ : Node} {old h : Value} {result : Except Failure Unit} {s' : S.State} (source : Value)
    (hn : w.nodes[id]? = some n) (hh : n.handle = some h)
    (hrelease : exec (releaseOwned E id) w = (.ok (), w₁)) (hn₁ : w₁.nodes[id]? = some n₁)
    (hrole : n₁.role = .script home old)
    (hcall : (E.recompile h source).run.run w₁.engine = (result, s')) :
    ∃ w', exec (Script.recompile E id source) w = (result, w') ∧ w'.engine = s' ∧
      w'.nodes = w₁.nodes.modify id fun n => { n with role := recompiledRole n.role source result } := by
  simp only [Script.recompile, exec_bind, exec_liveHandle hn hh, hrelease, exec_onEngine, hcall]
  cases result with
  | error f =>
    refine ⟨_, rfl, rfl, ?_⟩
    have hsame : ∀ role, recompiledRole role source (.error f) = role := fun role => by cases role <;> rfl
    simp only [hsame]
    exact (List.modify_id id w₁.nodes).symm
  | ok u =>
    have hwritten : (w₁.nodes.modify id fun n => { n with role := .script home source }) =
        w₁.nodes.modify id fun n => { n with role := recompiledRole n.role source (.ok u) } := by
      apply List.ext_getElem?
      intro j
      rw [List.getElem?_modify, List.getElem?_modify]
      by_cases hj : id = j
      · subst hj
        simp [hn₁, hrole, recompiledRole]
      · simp [hj]
    have hn₂ : (w₁.nodes.modify id fun n => { n with role := .script home source })[id]? =
        some { n₁ with role := .script home source } := by
      simp [hn₁]
    have hbefore : ({ w₁ with engine := s' } : World S).nodes[id]? = some n₁ := hn₁
    rw [← hwritten]
    simp only [Script.scriptOf, exec_bind, exec_node_some hbefore, hrole, exec_pure, exec_setRole]
    rw [exec_node_some (n := { n₁ with role := .script home source }) hn₂]
    exact ⟨_, rfl, rfl, rfl⟩

theorem destroy_footprint (hw : Tended w) {id : Nat} {n : Node} (hn : w.nodes[id]? = some n)
    (hlive : n.handle.isSome)
    (hr : (exec (Host.destroy E.watched id) w).2.engine.notes.refused = []) :
    ∃ order w', exec (Host.destroy E.watched id) w = (.ok (), w') ∧
      Footprint w.nodes (Descends w.nodes id) order ∧ order.getLast? = some id ∧
      w'.engine.notes.calls = w.engine.notes.calls ++ (tokensOf w.nodes order).map .drop ∧
      Uprooted id n order w.nodes w'.nodes := by
  have hunwound := Tends.unwound_destroy (E := E) hw.kin hn hlive
  have hl := hw.listed ((hunwound.later (hw.kin.tokens _)).refused_nil hr)
  obtain ⟨w', hexec, hnodes, hnotes⟩ := hunwound.unrefused (hw.kin.tokens _) hr
  refine ⟨teardown (pruned w.nodes) (w.nodes.length + 1) id, w', hexec,
    hw.kin.footprint hl hn hlive (by omega), ?_, by rw [hnotes], ?_⟩
  · simp [teardown]
  · rw [hnodes]
    exact hw.kin.uprooted hl hn hlive

theorem recompile_footprint (hw : Tended w) {id home : Nat} {n : Node} {old source h : Value}
    (hn : w.nodes[id]? = some n) (hrole : n.role = .script home old) (hh : n.handle = some h)
    (hr : (exec (Script.recompile E.watched id source) w).2.engine.notes.refused = []) :
    ∃ order s result w', exec (Script.recompile E.watched id source) w = (result, w') ∧
      Footprint w.nodes (fun b => ∃ k, w.nodes[b]? = some k ∧ k.role = .block id) order ∧
      w'.engine.notes.calls = w.engine.notes.calls ++ (tokensOf w.nodes order).map .drop ++
        [.recompile h source] ∧
      (E.recompile h source).run.run s = (result, w'.engine.state) ∧
      Recompiled id n (recompiledRole n.role source result) order w.nodes w'.nodes := by
  have hkind : n.role.kind ≠ .scope := by simp [hrole, Role.kind]
  obtain ⟨k, hk, hunwound⟩ := Tends.unwound_releaseOwned (E := E) hw.kin hn
  have hout : id ∉ below (pruned w.nodes) (w.nodes.length + 1) k :=
    not_mem_below hw.kin.thicket.forest (Nat.zero_le id) hk
  have htokens := hw.kin.tokens (below (pruned w.nodes) (w.nodes.length + 1) k)
  have hlater := hunwound.later htokens
  cases hp : exec (releaseOwned E.watched id) w with
  | mk r w₁ =>
    rw [hp] at hunwound hlater
    cases r with
    | error f =>
      rw [exec_recompile_error source hn hh hp] at hr
      obtain ⟨_, hq, -⟩ := hunwound.unrefused htokens hr
      cases hq
    | ok u =>
      cases hunwound with
      | done given after aside =>
        have hn₁ : w₁.nodes[id]? = some { n with owned := [] } := by
          rw [after]
          simp [fell_getElem?, bare_getElem?, hn, hout]
        have hnotes := Engine.giveBack_watched_ok htokens given
        obtain ⟨w', hexec, hengine, hnodes⟩ :=
          exec_recompile_ok source hn hh hp hn₁ hrole (Engine.noted_run ..)
        rw [hexec] at hr ⊢
        have hlater' : w₁.engine.notes.Later w'.engine.notes := hengine ▸ Notes.later_add ..
        have hl := hw.listed (hlater.refused_nil (hlater'.refused_nil hr))
        refine ⟨_, w₁.engine.state, _, w', rfl,
          hw.kin.footprint_blocks hl hn hkind hk (Nat.le_add_right_of_le (Nat.le_succ _)), ?_, ?_, ?_⟩
        · rw [hengine, Notes.add, hnotes]
        · rw [hengine]
          rfl
        · rw [hnodes, after]
          exact recompiled_fell (fun role => recompiledRole role source _) hn hout

/-- What goes, in which order, and what stays as it is, when a live resource is destroyed or a live script
recompiled and no handle has been refused. -/
theorem Reachable.teardown_footprint (hw : Reachable E w) {id : Nat} {n : Node} {h : Value}
    (hn : w.nodes[id]? = some n) (hh : n.handle = some h) :
    ((exec (Host.destroy E.watched id) w).2.engine.notes.refused = [] →
      ∃ order w', exec (Host.destroy E.watched id) w = (.ok (), w') ∧
        Footprint w.nodes (Descends w.nodes id) order ∧ order.getLast? = some id ∧
        w'.engine.notes.calls = w.engine.notes.calls ++ (tokensOf w.nodes order).map .drop ∧
        Uprooted id n order w.nodes w'.nodes) ∧
    ∀ (home : Nat) (old source : Value), n.role = .script home old →
      (exec (Script.recompile E.watched id source) w).2.engine.notes.refused = [] →
      ∃ order s result w', exec (Script.recompile E.watched id source) w = (result, w') ∧
        Footprint w.nodes (fun b => ∃ k, w.nodes[b]? = some k ∧ k.role = .block id) order ∧
        w'.engine.notes.calls = w.engine.notes.calls ++ (tokensOf w.nodes order).map .drop ++
          [.recompile h source] ∧
        (E.recompile h source).run.run s = (result, w'.engine.state) ∧
        Recompiled id n (recompiledRole n.role source result) order w.nodes w'.nodes ∧
        w'.nodes[home]? = w.nodes[home]? := by
  refine ⟨destroy_footprint hw.tended hn (by rw [hh]; rfl), fun home old source hrole hr => ?_⟩
  obtain ⟨order, s, result, w', hexec, hfoot, hcalls, hrun, hrec⟩ :=
    recompile_footprint hw.tended hn hrole hh hr
  refine ⟨order, s, result, w', hexec, hfoot, hcalls, hrun, hrec, hrec.rest home ?_ ?_⟩
  · -- The owner of a script is a scope, which no script owns.
    intro hmem
    obtain ⟨⟨k, hk, hblock⟩, -⟩ := (hfoot.mem_iff home).mp hmem
    obtain ⟨-, m, hm, hmay⟩ := hw.tended.kin.parent id home n hn (by rw [hrole]; rfl)
    obtain rfl := Option.some.inj (hk.symm.trans hm)
    rw [hrole, hblock] at hmay
    cases hmay
  · have hlt := (hw.tended.kin.parent id home n hn (by rw [hrole]; rfl)).1
    omega

namespace Tickets

/-- Bodies that are never run. -/
def noBody {S : Embedding} : RunBody S := fun _ _ => fail .tooDeep

section

variable (E : Engine Tickets)

/-- Makes a scope with two scripts, and three callbacks of the first, of which one is destroyed. -/
def settle : Host embedding.watched Unit := do
  let scope ← Scope.create E.watched
  let script ← since 0 .scope scope (Scope.compile E.watched scope (.str "f()"))
  let _ ← since 0 .scope scope (Scope.compile E.watched scope (.str "g()"))
  let _ ← since 0 .script script (Script.eval E.watched noBody script .null)
  let block ← since 0 .script script (Script.eval E.watched noBody script .null)
  let _ ← since 0 .script script (Script.eval E.watched noBody script .null)
  match block with
  | .object ref => Host.destroy E.watched ref.id
  | _ => pure ()

/-- The world in which that has been done. -/
def household : World embedding.watched :=
  (exec (settle E) ⟨[], [], [], ⟨⟨[], [], []⟩, ⟨[], []⟩⟩, (), []⟩).2

theorem household_reachable : Reachable E (household E) := by
  have hempty : Reachable (S := embedding) E ⟨[], [], [], ⟨⟨[], [], []⟩, ⟨[], []⟩⟩, (), []⟩ :=
    ⟨_, rfl, .refl⟩
  have hbody : Programs (S := embedding.watched) E.watched noBody := .bottom
  refine hempty.program hbody ?_
  refine .bind .newScope fun scope => .bind (.use (.compile scope _ trivial)) fun script => ?_
  refine .bind (.use (.compile scope _ trivial)) fun _ => .bind (.use (.evalScript script _)) fun _ => ?_
  refine .bind (.use (.evalScript script _)) fun block => .bind (.use (.evalScript script _)) fun _ => ?_
  cases block with
  | object ref => exact .destroy ref.id
  | _ => exact .pure ()

end

end Tickets

/-- In that world, for the script with its two callbacks that live. -/
theorem teardown_footprint_household :
    (∃ order w',
      exec (Host.destroy Tickets.engine.watched 1) (Tickets.household Tickets.engine) = (.ok (), w') ∧
      Footprint (Tickets.household Tickets.engine).nodes
        (Descends (Tickets.household Tickets.engine).nodes 1) order ∧
      order.getLast? = some 1) ∧
    ∃ order result w',
      exec (Script.recompile Tickets.engine.watched 1 .null) (Tickets.household Tickets.engine) =
        (result, w') ∧
      Footprint (Tickets.household Tickets.engine).nodes
        (fun b => ∃ k, (Tickets.household Tickets.engine).nodes[b]? = some k ∧ k.role = .block 1) order ∧
      w'.nodes[0]? = (Tickets.household Tickets.engine).nodes[0]? := by
  have hscript : (Tickets.household Tickets.engine).nodes[1]? =
      some ⟨.script 0 (.str "f()"), some (.int 1), [refOf 3 .block, refOf 5 .block]⟩ := by cbv
  obtain ⟨hdestroy, hrecompile⟩ :=
    Reachable.teardown_footprint (Tickets.household_reachable Tickets.engine) hscript rfl
  obtain ⟨order, w', hexec, hfoot, hlast, -⟩ := hdestroy (by cbv)
  obtain ⟨order', _, result, w'', hexec', hfoot', -, -, -, hhome⟩ :=
    hrecompile 0 (.str "f()") .null rfl (by cbv)
  exact ⟨⟨order, w', hexec, hfoot, hlast⟩, order', result, w'', hexec', hfoot', hhome⟩

end EngineHost
