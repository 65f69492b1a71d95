import EngineHost.Proofs.Releases

/-!
Who owns whom among the objects of a program, whatever has been destroyed and however it ended. Owners are
older than what they own and list it in the order in which it was made; as long as no handle has been
refused, what lives is in the list of a live owner.
-/
namespace EngineHost.Host

/-- Objects know their owners, and the lists of these hold nothing else. -/
structure Kinship (nodes : List Node) : Prop where
  owned : ∀ (p : Nat) (m : Node), nodes[p]? = some m → ∀ v ∈ m.owned,
    ∃ (id : Nat) (n : Node), v = refOf id n.role.kind ∧ nodes[id]? = some n ∧
      n.role.parent? = some p ∧ p < id
  /-- The order of adoption is that of age. -/
  increasing : ∀ (p : Nat) (m : Node), nodes[p]? = some m → (childIds m).Pairwise (· < ·)
  parent : ∀ (id p : Nat) (n : Node), nodes[id]? = some n → n.role.parent? = some p →
    p < id ∧ ∃ m, nodes[p]? = some m ∧ MayOwn m.role n.role
  args : ∀ (id : Nat) (n : Node), nodes[id]? = some n → n.role.kind = .args → n.handle = none

/-- A live resource is in the list of its owner, which lives. -/
def Listed (nodes : List Node) : Prop :=
  ∀ (id p : Nat) (n : Node), nodes[id]? = some n → n.handle.isSome → n.role.parent? = some p →
    ∃ m, nodes[p]? = some m ∧ m.isLive ∧ refOf id n.role.kind ∈ m.owned

/-- An object some time later. -/
structure Ages (n n' : Node) : Prop where
  role : fixedRole n'.role = fixedRole n.role
  handle : n'.handle = n.handle ∨ n'.handle = none
  live : n'.isLive → n.isLive

/-- No object is forgotten, and none comes back to life. -/
def Outlasts (nodes nodes' : List Node) : Prop :=
  ∀ (id : Nat) (n : Node), nodes[id]? = some n → ∃ n', nodes'[id]? = some n' ∧ Ages n n'

/-- Nodes that have lost no more than handles and list entries, and are no more live than before. -/
structure Fades (n n' : Node) : Prop extends Lessens n n' where
  live : n'.isLive → n.isLive

/-- Nodes that differ in what they remember. -/
structure Renewed (n n' : Node) : Prop where
  role : fixedRole n'.role = fixedRole n.role
  handle : n'.handle = n.handle
  owned : n'.owned = n.owned
  live : n'.isLive = n.isLive

variable {nodes nodes' nodes'' : List Node}

section Ageing

theorem Ages.refl (n : Node) : Ages n n :=
  ⟨rfl, .inl rfl, id⟩

theorem Ages.trans {n n' n'' : Node} (h : Ages n n') (h' : Ages n' n'') : Ages n n'' := by
  refine ⟨h'.role.trans h.role, ?_, fun hl => h.live (h'.live hl)⟩
  rcases h'.handle with hh | hh
  · rw [hh]
    exact h.handle
  · exact .inr hh

theorem Outlasts.refl (nodes : List Node) : Outlasts nodes nodes :=
  fun _ n hn => ⟨n, hn, .refl n⟩

theorem Outlasts.trans (h : Outlasts nodes nodes') (h' : Outlasts nodes' nodes'') :
    Outlasts nodes nodes'' := by
  intro id n hn
  obtain ⟨n', hn', ha⟩ := h id n hn
  obtain ⟨n'', hn'', ha'⟩ := h' id n' hn'
  exact ⟨n'', hn'', ha.trans ha'⟩

theorem Outlasts.kind (h : Outlasts nodes nodes') {id : Nat} {n : Node} (hn : nodes[id]? = some n) :
    ∃ n', nodes'[id]? = some n' ∧ n'.role.kind = n.role.kind := by
  obtain ⟨n', hn', ha⟩ := h id n hn
  exact ⟨n', hn', kind_congr ha.role⟩

theorem Fades.refl (n : Node) : Fades n n :=
  ⟨⟨rfl, .inl rfl, List.Sublist.refl _⟩, id⟩

theorem Fades.trans {n n' n'' : Node} (h : Fades n n') (h' : Fades n' n'') : Fades n n'' := by
  refine ⟨⟨h'.role.trans h.role, ?_, h'.owned.trans h.owned⟩, fun hl => h.live (h'.live hl)⟩
  rcases h'.handle with hh | hh
  · rw [hh]
    exact h.handle
  · exact .inr hh

theorem Renewed.fades {n n' : Node} (h : Renewed n n') : Fades n n' :=
  ⟨⟨h.role, .inl h.handle, h.owned ▸ List.Sublist.refl _⟩, fun hl => h.live ▸ hl⟩

theorem Fades.ages {n n' : Node} (h : Fades n n') : Ages n n' :=
  ⟨h.role, h.handle, h.live⟩

theorem fades_owned (n : Node) {vs : List Value} (h : vs.Sublist n.owned) :
    Fades n { n with owned := vs } :=
  ⟨⟨rfl, .inl rfl, h⟩, id⟩

theorem fades_dead (n : Node) : Fades n { n with handle := none, owned := [] } := by
  refine ⟨⟨rfl, .inr rfl, List.nil_sublist _⟩, fun hl => ?_⟩
  cases hr : n.role <;> simp_all [Node.isLive]

abbrev AllFade (nodes nodes' : List Node) : Prop := Nodewise (fun _ => Fades) nodes nodes'

theorem AllFade.refl (nodes : List Node) : AllFade nodes nodes :=
  ⟨rfl, fun _ n hn => ⟨n, hn, .refl n⟩⟩

theorem AllFade.trans (h : AllFade nodes nodes') (h' : AllFade nodes' nodes'') :
    AllFade nodes nodes'' := by
  refine ⟨h'.length.trans h.length, fun id n hn => ?_⟩
  obtain ⟨n', hn', hf⟩ := h.each id n hn
  obtain ⟨n'', hn'', hf'⟩ := h'.each id n' hn'
  exact ⟨n'', hn'', hf.trans hf'⟩

theorem AllFade.outlasts (h : AllFade nodes nodes') : Outlasts nodes nodes' := by
  intro id n hn
  obtain ⟨n', hn', hf⟩ := h.each id n hn
  exact ⟨n', hn', hf.ages⟩

theorem nodewise_setRole {id : Nat} {n : Node} {role : Role} (hn : nodes[id]? = some n)
    (hfixed : fixedRole role = fixedRole n.role) (hlive : Node.isLive { n with role } = n.isLive) :
    Nodewise (fun _ => Renewed) nodes (nodes.modify id fun n => { n with role }) := by
  refine nodewise_modify id _ (fun _ _ => ⟨rfl, rfl, rfl, rfl⟩) ?_
  intro k hk
  obtain rfl := Option.some.inj (hn.symm.trans hk)
  exact ⟨hfixed, rfl, rfl, hlive⟩

theorem allFade_fell (gone : List Nat) (nodes : List Node) : AllFade nodes (fell gone nodes) := by
  refine ⟨fell_length .., fun id n hn => ⟨_, by rw [fell_getElem?, hn]; rfl, ?_⟩⟩
  split
  · exact fades_dead n
  · exact .refl n

theorem allFade_bare (emptied : List Nat) (nodes : List Node) : AllFade nodes (bare emptied nodes) := by
  refine ⟨bare_length .., fun id n hn => ⟨_, by rw [bare_getElem?, hn]; rfl, ?_⟩⟩
  split
  · exact fades_owned n (List.nil_sublist _)
  · exact .refl n

theorem allFade_forgotten (owner : Option Nat) (v : Value) (nodes : List Node) :
    AllFade nodes (forgotten owner v nodes) := by
  refine ⟨by cases owner <;> simp [forgotten], fun id n hn => ?_⟩
  refine ⟨_, by rw [forgotten_getElem?, hn]; rfl, ?_⟩
  exact fades_owned n (spared_sublist owner v id n)

end Ageing

namespace Kinship

theorem thicket (h : Kinship nodes) : Thicket 0 nodes where
  owned := fun p m _ hm => h.owned p m hm
  nodup := by
    intro p m _ hm
    refine (List.pairwise_filterMap.mp (h.increasing p m hm)).imp_of_mem ?_
    intro v u hv hu hvu hne
    obtain ⟨id, n, rfl, -⟩ := h.owned p m hm v hv
    subst hne
    exact Nat.lt_irrefl id (hvu id rfl id rfl)

theorem empty : Kinship [] :=
  ⟨by simp, by simp, by simp, by simp⟩

/-- What only fades keeps its kin. -/
theorem fade (h : Kinship nodes) (hnodes : AllFade nodes nodes') : Kinship nodes' where
  owned := by
    intro p m' hm' v hv
    obtain ⟨m, hm, hmm⟩ := hnodes.back hm'
    obtain ⟨id, n, rfl, hn, hparent, hlt⟩ := h.owned p m hm v (hmm.owned.subset hv)
    obtain ⟨n', hn', hnn⟩ := hnodes.each id n hn
    exact ⟨id, n', by rw [kind_congr hnn.role], hn', (parent?_congr hnn.role).trans hparent, hlt⟩
  increasing := by
    intro p m' hm'
    obtain ⟨m, hm, hmm⟩ := hnodes.back hm'
    exact (h.increasing p m hm).sublist (hmm.owned.filterMap _)
  parent := by
    intro id p n' hn' hparent'
    obtain ⟨n, hn, hnn⟩ := hnodes.back hn'
    obtain ⟨hlt, m, hm, hmay⟩ := h.parent id p n hn ((parent?_congr hnn.role).symm.trans hparent')
    obtain ⟨m', hm', hmm⟩ := hnodes.each p m hm
    refine ⟨hlt, m', hm', ?_⟩
    rw [mayOwn_iff] at hmay ⊢
    rwa [kind_congr hnn.role, kind_congr hmm.role]
  args := by
    intro id n' hn' hkind
    obtain ⟨n, hn, hnn⟩ := hnodes.back hn'
    rw [kind_congr hnn.role] at hkind
    rcases hnn.handle with hh | hh
    · rw [hh]
      exact h.args id n hn hkind
    · exact hh

/-- A new object, listed by its owner if it has one. -/
theorem add (h : Kinship nodes) (role : Role) (handle : Option Value)
    (howner : ∀ p, role.parent? = some p → ∃ m, nodes[p]? = some m ∧ MayOwn m.role role)
    (hargs : role.kind = .args → handle = none) :
    Kinship (adopted role.parent? (refOf nodes.length role.kind) (nodes ++ [⟨role, handle, []⟩])) := by
  have hlt : ∀ p, role.parent? = some p → p < nodes.length := fun p hp => by
    obtain ⟨m, hm, -⟩ := howner p hp
    exact (List.getElem?_eq_some_iff.mp hm).1
  have ho : role.parent? ≠ some nodes.length := fun hp => absurd (hlt _ hp) (Nat.lt_irrefl _)
  refine ⟨?_, ?_, ?_, ?_⟩
  · intro p m' hm' v hv
    rcases added_cases ho hm' with ⟨rfl, rfl⟩ | ⟨m, hm, rfl⟩
    · simp at hv
    · rcases mem_given hv with hv | ⟨howns, rfl⟩
      · obtain ⟨id, n, rfl, hn, hrest⟩ := h.owned p m hm v hv
        exact ⟨id, given role.parent? (refOf nodes.length role.kind) id n, rfl, added_old hn, hrest⟩
      · exact ⟨nodes.length, ⟨role, handle, []⟩, rfl, added_new ho, howns, hlt p howns⟩
  · intro p m' hm'
    rcases added_cases ho hm' with ⟨rfl, rfl⟩ | ⟨m, hm, rfl⟩
    · exact List.Pairwise.nil
    · simp only [given]
      split
      · have hids : childIds { m with owned := m.owned ++ [refOf nodes.length role.kind] } =
            childIds m ++ [nodes.length] := by
          simp [childIds, refOf]
        rw [hids]
        refine List.pairwise_append.mpr ⟨h.increasing p m hm, List.pairwise_singleton .., ?_⟩
        intro c hc d hd
        obtain ⟨n, hn, -⟩ := h.thicket.child (Nat.zero_le p) hm hc
        obtain rfl := List.mem_singleton.mp hd
        exact (List.getElem?_eq_some_iff.mp hn).1
      · exact h.increasing p m hm
  · intro id p n' hn' hparent
    rcases added_cases ho hn' with ⟨rfl, rfl⟩ | ⟨n, hn, rfl⟩
    · obtain ⟨m, hm, hmay⟩ := howner p hparent
      exact ⟨hlt p hparent, _, added_old hm, hmay⟩
    · obtain ⟨hpid, m, hm, hmay⟩ := h.parent id p _ hn hparent
      exact ⟨hpid, _, added_old hm, hmay⟩
  · intro id n' hn' hkind
    rcases added_cases ho hn' with ⟨rfl, rfl⟩ | ⟨n, hn, rfl⟩
    · exact hargs hkind
    · exact h.args id n hn hkind

/-- What lives and is listed goes with its owner. -/
theorem mem_teardown (h : Kinship nodes) {fuel root id p : Nat} {m n : Node}
    (hfuel : nodes.length < fuel + root) (hp : p ∈ teardown (pruned nodes) fuel root)
    (hm : nodes[p]? = some m) (hn : nodes[id]? = some n) (hlive : n.handle.isSome)
    (hmem : refOf id n.role.kind ∈ m.owned) : id ∈ teardown (pruned nodes) fuel root := by
  obtain ⟨m', hm', hchildren⟩ := childIds_pruned hm
  refine mem_teardown_of_owned h.thicket.forest (Nat.zero_le root) ?_ hp hm' ?_
  · rwa [pruned_length]
  · rw [hchildren]
    exact List.mem_filter.mpr ⟨mem_childIds_of_refOf hmem, (alive_iff hn).mpr hlive⟩

end Kinship

theorem outlasts_added (owner : Option Nat) (v : Value) (new : Node) :
    Outlasts nodes (adopted owner v (nodes ++ [new])) :=
  fun _ _ hn => ⟨_, added_old hn, rfl, .inl rfl, fun hl => hl⟩

namespace Listed

theorem add (h : Listed nodes) (role : Role) (handle : Option Value)
    (howner : ∀ p, role.parent? = some p → ∃ m, nodes[p]? = some m ∧ m.isLive) :
    Listed (adopted role.parent? (refOf nodes.length role.kind) (nodes ++ [⟨role, handle, []⟩])) := by
  have ho : role.parent? ≠ some nodes.length := fun hp => by
    obtain ⟨m, hm, -⟩ := howner _ hp
    exact absurd (List.getElem?_eq_some_iff.mp hm).1 (Nat.lt_irrefl _)
  intro id p n' hn' hlive hparent
  rcases added_cases ho hn' with ⟨rfl, rfl⟩ | ⟨_, hn, rfl⟩
  · obtain ⟨m, hm, hmlive⟩ := howner p hparent
    refine ⟨_, added_old hm, hmlive, ?_⟩
    simp [given, show role.parent? = some p from hparent]
  · obtain ⟨m, hm, hmlive, hmem⟩ := h id p _ hn hlive hparent
    exact ⟨_, added_old hm, hmlive, subset_given hmem⟩

/-- Other caches change no list. -/
theorem renew (h : Listed nodes) (hnodes : Nodewise (fun _ => Renewed) nodes nodes') :
    Listed nodes' := by
  intro id p n' hn' hlive hparent
  obtain ⟨n, hn, hnn⟩ := hnodes.back hn'
  obtain ⟨m, hm, hmlive, hmem⟩ :=
    h id p n hn (hnn.handle ▸ hlive) ((parent?_congr hnn.role).symm.trans hparent)
  obtain ⟨m', hm', hmm⟩ := hnodes.each p m hm
  refine ⟨m', hm', hmm.live.trans hmlive, ?_⟩
  rw [hmm.owned, kind_congr hnn.role]
  exact hmem

/-- When a resource has gone with all that lived below it, and its owner has forgotten it. -/
theorem destroyed (h : Listed nodes) (hk : Kinship nodes) {id : Nat} {n : Node}
    (hn : nodes[id]? = some n) :
    Listed (forgotten n.role.parent? (refOf id n.role.kind)
      (fell (teardown (pruned nodes) (nodes.length + 1) id) nodes)) := by
  intro j p k' hk' hlive hparent
  rw [forgotten_getElem?, fell_getElem?, Option.map_map, Option.map_eq_some_iff] at hk'
  obtain ⟨k, hkn, rfl⟩ := hk'
  by_cases hj : j ∈ teardown (pruned nodes) (nodes.length + 1) id
  · simp [hj, spared] at hlive
  · simp only [Function.comp, hj, if_false, spared] at hlive hparent ⊢
    obtain ⟨m, hm, hmlive, hmem⟩ := h j p k hkn hlive hparent
    have hp : p ∉ teardown (pruned nodes) (nodes.length + 1) id := fun hp =>
      hj (hk.mem_teardown (by omega) hp hm hkn hlive hmem)
    refine ⟨spared n.role.parent? (refOf id n.role.kind) p m, ?_, hmlive, ?_⟩
    · simp [forgotten_getElem?, fell_getElem?, hm, hp]
    · simp only [spared]
      split
      · refine (mem_withoutFirst (hk.thicket.nodup p m (Nat.zero_le p) hm) ?_ _).mpr ⟨hmem, ?_⟩
        · intro v hv
          obtain ⟨i, ni, rfl, -⟩ := hk.owned p m hm v hv
          exact ⟨i, _, rfl⟩
        · intro heq
          obtain rfl := refOf_inj heq
          exact hj (mem_teardown_succ.mpr (.inl rfl))
      · exact hmem

/-- When an owner has released all that it owned. It need not live itself, once it owns nothing. -/
theorem released {p : Nat} (hk : Kinship nodes)
    (h : ∀ (id q : Nat) (n : Node), nodes[id]? = some n → n.handle.isSome → n.role.parent? = some q →
      ∃ m, nodes[q]? = some m ∧ (q ≠ p → m.isLive) ∧ refOf id n.role.kind ∈ m.owned)
    {k : Node} (hpk : (pruned nodes)[p]? = some k) :
    Listed (fell (below (pruned nodes) (nodes.length + 1) k) (bare [p] nodes)) := by
  intro j q n' hn' hlive hparent
  obtain ⟨n, hn, hf⟩ := ((allFade_bare [p] nodes).trans (allFade_fell _ _)).back hn'
  have hj : j ∉ below (pruned nodes) (nodes.length + 1) k := by
    intro hj
    rw [fell_getElem?, Option.map_eq_some_iff] at hn'
    obtain ⟨n₀, -, rfl⟩ := hn'
    simp [hj] at hlive
  have hlive₀ : n.handle.isSome := by
    rcases hf.handle with hh | hh
    · rwa [← hh]
    · simp [hh] at hlive
  obtain ⟨m, hm, hmlive, hmem⟩ := h j q n hn hlive₀ ((parent?_congr hf.role).symm.trans hparent)
  have hq : q ∉ below (pruned nodes) (nodes.length + 1) k := by
    intro hq
    obtain ⟨c, hc, hq⟩ := List.mem_flatMap.mp hq
    exact hj (List.mem_flatMap.mpr ⟨c, hc, hk.mem_teardown (by omega) hq hm hn hlive₀ hmem⟩)
  have hqp : q ≠ p := by
    rintro rfl
    obtain ⟨k', hk', hchildren⟩ := childIds_pruned hm
    obtain rfl := Option.some.inj (hpk.symm.trans hk')
    refine hj (List.mem_flatMap.mpr ⟨j, ?_, mem_teardown_succ.mpr (.inl rfl)⟩)
    rw [List.mem_reverse, hchildren]
    exact List.mem_filter.mpr ⟨mem_childIds_of_refOf hmem, (alive_iff hn).mpr hlive₀⟩
  refine ⟨m, ?_, hmlive hqp, ?_⟩
  · simp [fell_getElem?, bare_getElem?, hm, hq, hqp]
  · rw [kind_congr hf.role]
    exact hmem

end Listed

end EngineHost.Host
