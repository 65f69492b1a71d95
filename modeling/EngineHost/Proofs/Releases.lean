import EngineHost.Proofs.Steps
import EngineHost.Proofs.Unwinding

/-!
Destroying a resource, and releasing what an owner owns, keep the accounts: the handles of what goes are
taken back, and nothing else changes hands.
-/
namespace EngineHost

namespace Host

/-- Some resources have gone. -/
structure Goes (gone : List Nat) (id : Nat) (n n' : Node) : Prop where
  role : n'.role = n.role
  handle : n'.handle = if id ∈ gone then none else n.handle
  owned : n'.owned.Sublist n.owned

section Lists

variable {base : Nat} {nodes nodes' : List Node} {gone : List Nat}

theorem refOf_equals (id id' : Nat) (kind kind' : ResourceKind) :
    (refOf id kind).equals (refOf id' kind') = true ↔ refOf id kind = refOf id' kind' := by
  simp [refOf, Value.equals]

theorem withoutFirst_sublist (v : Value) (vs : List Value) : (withoutFirst v vs).Sublist vs := by
  induction vs with
  | nil => exact List.Sublist.refl _
  | cons u rest ih =>
    unfold withoutFirst
    split
    · exact List.sublist_cons_self u rest
    · exact ih.cons_cons u

/-- Among distinct objects, just the one is forgotten. -/
theorem mem_withoutFirst {id : Nat} {kind : ResourceKind} {vs : List Value} (hnodup : vs.Nodup)
    (hrefs : ∀ v ∈ vs, ∃ id kind, v = refOf id kind) (u : Value) :
    u ∈ withoutFirst (refOf id kind) vs ↔ u ∈ vs ∧ u ≠ refOf id kind := by
  induction vs with
  | nil => simp [withoutFirst]
  | cons v rest ih =>
    obtain ⟨hv, hrest⟩ := List.nodup_cons.mp hnodup
    have ih' := ih hrest fun x hx => hrefs x (List.mem_cons_of_mem _ hx)
    obtain ⟨id', kind', rfl⟩ := hrefs v (List.mem_cons_self ..)
    by_cases heq : refOf id' kind' = refOf id kind
    · rw [withoutFirst, if_pos ((refOf_equals ..).mpr heq), ← heq, List.mem_cons]
      constructor
      · intro hu
        exact ⟨.inr hu, fun h => hv (h ▸ hu)⟩
      · rintro ⟨rfl | hu, hne⟩
        · exact absurd rfl hne
        · exact hu
    · rw [withoutFirst, if_neg (fun h => heq ((refOf_equals ..).mp h)), List.mem_cons, List.mem_cons, ih']
      constructor
      · rintro (rfl | ⟨hu, hne⟩)
        · exact ⟨.inl rfl, heq⟩
        · exact ⟨.inr hu, hne⟩
      · rintro ⟨rfl | hu, hne⟩
        · exact .inl rfl
        · exact .inr ⟨hu, hne⟩

/-- What becomes of a node when an owner, which may be another, forgets a value. -/
def spared (owner : Option Nat) (v : Value) (id : Nat) (n : Node) : Node :=
  { n with owned := if owner = some id then withoutFirst v n.owned else n.owned }

theorem forgotten_getElem? (owner : Option Nat) (v : Value) (nodes : List Node) (id : Nat) :
    (forgotten owner v nodes)[id]? = nodes[id]?.map (spared owner v id) := by
  cases hn : nodes[id]? with
  | none =>
    cases owner with
    | none => exact hn
    | some p => simp [forgotten, List.getElem?_modify, hn]
  | some n =>
    cases owner with
    | none => exact hn
    | some p => by_cases hp : p = id <;> simp [forgotten, hn, hp, spared]

theorem spared_sublist (owner : Option Nat) (v : Value) (id : Nat) (n : Node) :
    (spared owner v id n).owned.Sublist n.owned := by
  simp only [spared]
  split
  · exact withoutFirst_sublist v n.owned
  · exact List.Sublist.refl _

/-- An owner is emptied, and resources go. -/
theorem emptied_getElem? (gone : List Nat) {p q : Nat} {k : Node} (hk : nodes[q]? = some k) :
    (fell gone (nodes.modify p fun n => { n with owned := [] }))[q]? =
      some (if q ∈ gone then { k with handle := none, owned := [] }
        else if p = q then { k with owned := [] } else k) := by
  rw [fell_getElem?, List.getElem?_modify, hk]
  by_cases hq : p = q <;> simp [hq]

theorem nodewise_goes_emptied (gone : List Nat) (p : Nat) :
    Nodewise (Goes gone) nodes (fell gone (nodes.modify p fun n => { n with owned := [] })) := by
  refine ⟨by rw [fell_length, List.length_modify], fun q k hk => ⟨_, emptied_getElem? gone hk, ?_⟩⟩
  by_cases hq : q ∈ gone
  · rw [if_pos hq]
    exact ⟨rfl, (if_pos hq).symm, List.nil_sublist _⟩
  · rw [if_neg hq]
    by_cases hqp : p = q
    · rw [if_pos hqp]
      exact ⟨rfl, (if_neg hq).symm, List.nil_sublist _⟩
    · rw [if_neg hqp]
      exact ⟨rfl, (if_neg hq).symm, List.Sublist.refl _⟩

/-- Resources go, and an owner forgets a value. -/
theorem forgotten_fell_getElem? (owner : Option Nat) (v : Value) (gone : List Nat) {q : Nat} {k : Node}
    (hk : nodes[q]? = some k) :
    (forgotten owner v (fell gone nodes))[q]? =
      some (spared owner v q (if q ∈ gone then { k with handle := none, owned := [] } else k)) := by
  rw [forgotten_getElem?, fell_getElem?, hk]
  rfl

theorem nodewise_goes_forgotten (owner : Option Nat) (v : Value) (gone : List Nat) :
    Nodewise (Goes gone) nodes (forgotten owner v (fell gone nodes)) := by
  refine ⟨?_, fun q k hk => ⟨_, forgotten_fell_getElem? owner v gone hk, ?_⟩⟩
  · cases owner <;> simp [forgotten, fell_length]
  · by_cases hq : q ∈ gone
    · rw [if_pos hq]
      exact ⟨rfl, (if_pos hq).symm, (spared_sublist ..).trans (List.nil_sublist _)⟩
    · rw [if_neg hq]
      exact ⟨rfl, (if_neg hq).symm, spared_sublist ..⟩

theorem mem_tokensOf {ids : List Nat} {t : Token} :
    t ∈ tokensOf nodes ids ↔ ∃ id ∈ ids, ∃ n, nodes[id]? = some n ∧ Holds n t none := by
  simp only [tokensOf, List.mem_filterMap, tokenAt, Option.bind_eq_some_iff, Option.map_eq_some_iff, Holds]
  constructor
  · rintro ⟨id, hid, n, hn, h, hh, rfl⟩
    exact ⟨id, hid, n, hn, rfl, hh⟩
  · rintro ⟨id, hid, n, hn, hkind, hh⟩
    exact ⟨id, hid, n, hn, t.2, hh, Prod.ext hkind rfl⟩

theorem tokensOf_nodup {live others : Token → Prop} {flying : List Token}
    (h : Ledger live others flying (Held base nodes)) (hbase : ∀ id ∈ gone, base ≤ id)
    (hnodup : gone.Nodup) : (tokensOf nodes gone).Nodup := by
  refine List.pairwise_filterMap.mpr (hnodup.imp_of_mem ?_)
  intro id id' hid hid' hne t ht t' ht' htt
  subst htt
  have hold : ∀ j ∈ gone, tokenAt nodes j = some t → Held base nodes t (j, none) := by
    intro j hj hjt
    obtain ⟨k, hk, n, hn, hh⟩ := mem_tokensOf.mp (List.mem_filterMap.mpr ⟨j, List.mem_singleton_self j, hjt⟩)
    obtain rfl := List.mem_singleton.mp hk
    exact ⟨hbase k hj, n, hn, hh⟩
  have hplace := h.sole t (id, none) (id', none) (hold id hid ht) (hold id' hid' ht')
  exact hne (congrArg Prod.fst hplace)

/-- A handle goes with its resource, and no place but the resource's own is given up. -/
theorem held_goes {live others : Token → Prop} {flying : List Token}
    (h : Ledger live others flying (Held base nodes)) (hbase : ∀ id ∈ gone, base ≤ id)
    (hnodes : Nodewise (Goes gone) nodes nodes') (t : Token) (p : Place) :
    Held base nodes' t p ↔ Held base nodes t p ∧ t ∉ tokensOf nodes gone := by
  have hheld : Held base nodes' t p ↔ Held base nodes t p ∧ (p.2 = none → p.1 ∉ gone) := by
    refine hnodes.held (fun _ p => p.2 = none → p.1 ∉ gone) ?_ t p
    intro id n n' _ _ hg u q
    cases q with
    | none =>
      simp only [Holds, hg.role, hg.handle]
      by_cases hid : id ∈ gone <;> simp [hid]
    | some i => simp [Holds, hg.role]
  rw [hheld]
  refine and_congr_right fun hp => ?_
  obtain ⟨id, q⟩ := p
  constructor
  · intro hout ht
    obtain ⟨j, hj, n, hn, hh⟩ := mem_tokensOf.mp ht
    have hplace := h.sole t (id, q) (j, none) hp ⟨hbase j hj, n, hn, hh⟩
    obtain ⟨rfl, rfl⟩ := Prod.mk.inj hplace
    exact hout rfl hj
  · rintro ht rfl hid
    obtain ⟨-, n, hn, hh⟩ := hp
    exact ht (mem_tokensOf.mpr ⟨id, hid, n, hn, hh⟩)

end Lists

end Host

open Host

variable {S : Embedding} {B : Books S.State} {base : Nat} {may : ResourceKind → Prop} {mine : Option Nat}
  {others : Token → Prop}
  {flying : List Token} {w w' : World S} {gone : List Nat}

namespace Accounts

theorem ready (h : Accounts B base may others flying w) (hbase : ∀ id ∈ gone, base ≤ id)
    (hnodup : gone.Nodup) : Ready B (tokensOf w.nodes gone) w.engine where
  valid := h.valid
  live := by
    intro t ht
    obtain ⟨id, hid, n, hn, hh⟩ := mem_tokensOf.mp ht
    refine ⟨?_, (h.ledger.live_iff t).mpr (.inr (.inr ⟨(id, none), hbase id hid, n, hn, hh⟩))⟩
    intro hargs
    have hnone := h.args id n (hbase id hid) hn (hh.1.trans hargs)
    rw [hh.2] at hnone
    cases hnone
  nodup := tokensOf_nodup h.ledger hbase hnodup

/-- Resources go together with all that they own, and their owners forget them. -/
theorem goes (h : Accounts B base may others flying w) (hbase : ∀ id ∈ gone, base ≤ id)
    (hnodes : Nodewise (Goes gone) w.nodes w'.nodes) (htakes : Takes B (tokensOf w.nodes gone) w w')
    (hclosed : ∀ (p id : Nat) (n : Node), p ∈ gone → w.nodes[id]? = some n → n.handle.isSome →
      n.role.parent? = some p → base ≤ id → id ∈ gone)
    (howned : ∀ (p id : Nat) (m m' n : Node), base ≤ p → w.nodes[p]? = some m →
      w'.nodes[p]? = some m' → p ∉ gone → w.nodes[id]? = some n → n.role.parent? = some p →
      refOf id n.role.kind ∈ m.owned → (refOf id n.role.kind ∈ m'.owned ↔ id ∉ gone))
    (hempty : ∀ (p : Nat) (m' : Node), p ∈ gone → w'.nodes[p]? = some m' → m'.owned = []) :
    Accounts B base may others flying w' := by
  refine h.change (hnodes.mono ?_) htakes.functions htakes.engine.valid ?_ htakes.engine.home ?_ ?_
  · intro id n n' _ hg
    refine ⟨congrArg fixedRole hg.role, ?_, hg.owned⟩
    rw [hg.handle]
    split
    · exact .inr rfl
    · exact .inl rfl
  · intro t ht
    rw [htakes.engine.dropped] at ht
    rw [htakes.engine.issued, List.nil_append]
    rcases List.mem_append.mp ht with ht | ht
    · obtain ⟨id, hid, n, hn, hh⟩ := mem_tokensOf.mp (List.mem_reverse.mp ht)
      exact ((h.ledger.live_iff t).mpr (.inr (.inr ⟨(id, none), hbase id hid, n, hn, hh⟩))).1
    · exact h.dropped_issued t ht
  · refine h.ledger.drop (fun t => t ∈ tokensOf w.nodes gone) ?_ (held_goes h.ledger hbase hnodes) ?_
    · intro t
      rw [htakes.engine.live_iff, Books.Live, List.mem_reverse]
      simp only [List.not_mem_nil, false_or]
      tauto
    · intro t ht
      obtain ⟨id, hid, n, hn, hh⟩ := mem_tokensOf.mp ht
      exact ⟨(id, none), hbase id hid, n, hn, hh⟩
  · intro p id m n m' n' hp hm hn hm' hn' hlive hparent hmlive hmem
    obtain ⟨m₂, hm₂, hgm⟩ := hnodes.back hm'
    obtain rfl := Option.some.inj (hm.symm.trans hm₂)
    obtain ⟨n₂, hn₂, hgn⟩ := hnodes.back hn'
    obtain rfl := Option.some.inj (hn.symm.trans hn₂)
    obtain ⟨c, k, hv, hk, -, -, hlt⟩ := h.forest.owned p m hp hm _ hmem
    obtain rfl := refOf_inj hv
    have hb : base ≤ id := by omega
    by_cases hpg : p ∈ gone
    · have hid := hclosed p id n hpg hn hlive hparent hb
      rw [hgn.handle, if_pos hid, hempty p m' hpg hm']
      simp
    · have hiff := howned p id m m' n hp hm hm' hpg hn hparent hmem
      rw [hgn.handle]
      by_cases hid : id ∈ gone
      · rw [if_pos hid, if_neg (by simp)]
        exact fun hmem' => hiff.mp hmem' hid
      · rw [if_neg hid, if_pos hlive]
        refine ⟨?_, hiff.mpr hid⟩
        have hh : m'.handle = m.handle := by rw [hgm.handle, if_neg hpg]
        simp only [Node.isLive, hgm.role, hh] at hmlive ⊢
        exact hmlive

theorem mem_childIds (h : Accounts B base may others flying w) {p id : Nat} {n : Node} (hb : base ≤ id)
    (hn : w.nodes[id]? = some n) (hlive : n.handle.isSome) (hparent : n.role.parent? = some p) :
    ∃ m, base ≤ p ∧ w.nodes[p]? = some m ∧ id ∈ childIds m := by
  obtain ⟨hp, m, hm, -, -, hmem⟩ := h.owner id p n hb hn hlive hparent
  exact ⟨m, hp, hm, mem_childIds_of_refOf hmem⟩

theorem goes_below (h : Accounts B base may others flying w) {p : Nat} {m : Node} (hp : base ≤ p)
    (hm : w.nodes[p]? = some m)
    (hnodes : w'.nodes = fell (below w.nodes (w.nodes.length + 1) m)
      (w.nodes.modify p fun n => { n with owned := [] }))
    (htakes : Takes B (tokensOf w.nodes (below w.nodes (w.nodes.length + 1) m)) w w') :
    Nodewise (Goes (below w.nodes (w.nodes.length + 1) m)) w.nodes w'.nodes ∧
      Accounts B base may others flying w' := by
  have hafter : ∀ (q : Nat) (k : Node), w.nodes[q]? = some k → w'.nodes[q]? =
      some (if q ∈ below w.nodes (w.nodes.length + 1) m then { k with handle := none, owned := [] }
        else if p = q then { k with owned := [] } else k) :=
    fun q k hk => hnodes ▸ emptied_getElem? _ hk
  have hbelow : ∀ q ∈ below w.nodes (w.nodes.length + 1) m, ∃ c ∈ childIds m, p < c ∧
      q ∈ teardown w.nodes (w.nodes.length + 1) c := by
    intro q hq
    obtain ⟨c, hc, hq⟩ := List.mem_flatMap.mp hq
    obtain ⟨-, -, -, -, -, hlt⟩ := h.forest.child hp hm (List.mem_reverse.mp hc)
    exact ⟨c, List.mem_reverse.mp hc, hlt, hq⟩
  have hgoes : Nodewise (Goes (below w.nodes (w.nodes.length + 1) m)) w.nodes w'.nodes :=
    hnodes ▸ nodewise_goes_emptied _ p
  refine ⟨hgoes, h.goes ?_ hgoes htakes ?_ ?_ ?_⟩
  · intro q hq
    have hlt := lt_of_mem_below h.forest hp hm hq
    omega
  · intro q id n hq hn hlive hparent hb
    obtain ⟨k, hbq, hk, hid⟩ := h.mem_childIds hb hn hlive hparent
    obtain ⟨c, hc, hlt, hqc⟩ := hbelow q hq
    have hidc : id ∈ teardown w.nodes (w.nodes.length + 1) c :=
      mem_teardown_of_owned h.forest (by omega) (by omega) hqc hk hid
    exact List.mem_flatMap.mpr ⟨c, List.mem_reverse.mpr hc, hidc⟩
  · intro q id k k' n hbq hk hk' hq hn hparent hmem
    obtain rfl := Option.some.inj ((hafter q k hk).symm.trans hk')
    rw [if_neg hq]
    by_cases hqp : p = q
    · subst hqp
      obtain rfl := Option.some.inj (hm.symm.trans hk)
      have hid : id ∈ below w.nodes (w.nodes.length + 1) m :=
        List.mem_flatMap.mpr ⟨id, List.mem_reverse.mpr (mem_childIds_of_refOf hmem),
          mem_teardown_succ.mpr (.inl rfl)⟩
      simp [hid]
    · rw [if_neg hqp]
      refine ⟨fun _ hid => ?_, fun _ => hmem⟩
      obtain ⟨c, hc, hlt, hidc⟩ := hbelow id hid
      rcases parent_of_mem_teardown h.forest (by omega) hidc with rfl | ⟨n', q', hn', -, hq', -, hmem'⟩
      · obtain ⟨n₂, hn₂, -, -, hparent₂, -⟩ := h.forest.child hp hm hc
        obtain rfl := Option.some.inj (hn.symm.trans hn₂)
        exact hqp (Option.some.inj (hparent₂.symm.trans hparent))
      · obtain rfl := Option.some.inj (hn.symm.trans hn')
        obtain rfl := Option.some.inj (hparent.symm.trans hq')
        exact hq (List.mem_flatMap.mpr ⟨c, List.mem_reverse.mpr hc, hmem'⟩)
  · intro q k' hq hk'
    obtain ⟨k, hk, -⟩ := hgoes.back hk'
    obtain rfl := Option.some.inj ((hafter q k hk).symm.trans hk')
    rw [if_pos hq]

theorem goes_teardown (h : Accounts B base may others flying w) {id : Nat} {n : Node} (hb : base ≤ id)
    (hn : w.nodes[id]? = some n)
    (hnodes : w'.nodes = forgotten n.role.parent? (refOf id n.role.kind)
      (fell (teardown w.nodes (w.nodes.length + 1) id) w.nodes))
    (htakes : Takes B (tokensOf w.nodes (teardown w.nodes (w.nodes.length + 1) id)) w w') :
    Nodewise (Goes (teardown w.nodes (w.nodes.length + 1) id)) w.nodes w'.nodes ∧
      Accounts B base may others flying w' := by
  have hafter : ∀ (q : Nat) (k : Node), w.nodes[q]? = some k → w'.nodes[q]? =
      some (spared n.role.parent? (refOf id n.role.kind) q
        (if q ∈ teardown w.nodes (w.nodes.length + 1) id then { k with handle := none, owned := [] }
          else k)) :=
    fun q k hk => hnodes ▸ forgotten_fell_getElem? _ _ _ hk
  have hgoes : Nodewise (Goes (teardown w.nodes (w.nodes.length + 1) id)) w.nodes w'.nodes :=
    hnodes ▸ nodewise_goes_forgotten _ _ _
  refine ⟨hgoes, h.goes ?_ hgoes htakes ?_ ?_ ?_⟩
  · intro q hq
    have hle := le_of_mem_teardown h.forest hb hq
    omega
  · intro q c k hq hk hlive hparent hbc
    obtain ⟨m, -, hm, hc⟩ := h.mem_childIds hbc hk hlive hparent
    exact mem_teardown_of_owned h.forest hb (by omega) hq hm hc
  · intro q c m m' k hbq hm hm' hq hk hparent hmem
    obtain rfl := Option.some.inj ((hafter q m hm).symm.trans hm')
    rw [if_neg hq]
    simp only [spared]
    -- Of what an owner that stays owned, only the destroyed resource itself goes.
    have hgone : c ∈ teardown w.nodes (w.nodes.length + 1) id ↔ c = id := by
      constructor
      · intro hc
        rcases parent_of_mem_teardown h.forest hb hc with rfl | ⟨k', q', hk', -, hq', -, hmem'⟩
        · rfl
        · obtain rfl := Option.some.inj (hk.symm.trans hk')
          obtain rfl := Option.some.inj (hparent.symm.trans hq')
          exact absurd hmem' hq
      · rintro rfl
        exact mem_teardown_succ.mpr (.inl rfl)
    rw [hgone]
    by_cases hpq : n.role.parent? = some q
    · rw [if_pos hpq, mem_withoutFirst (h.forest.nodup q m hbq hm) ?_]
      · refine ⟨fun hc hid => ?_, fun hid => ⟨hmem, fun hv => hid (refOf_inj hv)⟩⟩
        subst hid
        obtain rfl := Option.some.inj (hk.symm.trans hn)
        exact hc.2 rfl
      · intro v hv
        obtain ⟨j, nj, rfl, -⟩ := h.forest.owned q m hbq hm v hv
        exact ⟨j, _, rfl⟩
    · rw [if_neg hpq]
      refine ⟨fun _ hid => ?_, fun _ => hmem⟩
      subst hid
      obtain rfl := Option.some.inj (hk.symm.trans hn)
      exact hpq hparent
  · intro q m' hq hm'
    obtain ⟨m, hm, -⟩ := hgoes.back hm'
    obtain rfl := Option.some.inj ((hafter q m hm).symm.trans hm')
    rw [if_pos hq]
    exact List.sublist_nil.mp (spared_sublist ..)

end Accounts

namespace Follows

/-- A handle is taken back that was not there at first, or belongs to the call. -/
theorem take {w₀ : World S} {s' : S.State} {t : Token} (h : Follows B base mine w₀ w)
    (hmoves : B.Moves w.engine s' [] [t]) (hlive : B.Live w.engine t)
    (hmine : B.Live w₀.engine t → ∃ a, mine = some a ∧ OwnedBy base w₀.nodes t a) :
    Follows B base mine w₀ { w with engine := s' } where
  later := by
    refine h.later.trans (hmoves.later (List.nodup_singleton t) ?_)
    intro u hu
    obtain rfl := List.mem_singleton.mp hu
    exact hlive
  nodes := h.nodes
  functions := h.functions
  owners := h.owners
  stays := by
    intro u hu hnot
    have hu' := h.stays u hu hnot
    refine (hmoves.live_iff u).mpr ⟨.inr hu'.1, ?_, hu'.2⟩
    intro hut
    obtain rfl := List.mem_singleton.mp hut
    obtain ⟨a, ha, ho⟩ := hmine hu
    exact hnot a ha ho
  calls := h.calls

/-- Resources go that belong to the call. -/
theorem goes {a : Nat} (h : Accounts B base may others flying w) (hbase : ∀ id ∈ gone, base ≤ id)
    (hnodup : gone.Nodup) (hnodes : Nodewise (Goes gone) w.nodes w'.nodes)
    (htakes : Takes B (tokensOf w.nodes gone) w w')
    (hmine : ∀ id ∈ gone, ∀ n, w.nodes[id]? = some n → n.role.parent? = some a) :
    Follows B base (some a) w w' where
  later := by
    have hready := h.ready hbase hnodup
    refine htakes.engine.later (List.nodup_reverse.mpr hready.nodup) ?_
    intro t ht
    exact (hready.live t (List.mem_reverse.mp ht)).2
  nodes := by
    intro id n hn
    obtain ⟨n', hn', hg⟩ := hnodes.each id n hn
    refine ⟨n', hn', congrArg fixedRole hg.role, ?_, ?_⟩
    · rw [hg.handle]
      split
      · rename_i hid
        exact .inr ⟨⟨hbase id hid, a, rfl, .inr (hmine id hid n hn)⟩, rfl⟩
      · exact .inl rfl
    · intro hlive
      by_cases hid : id ∈ gone
      · exact .inr ⟨hbase id hid, a, rfl, .inr (hmine id hid n hn)⟩
      · have hh : n'.handle = n.handle := by rw [hg.handle, if_neg hid]
        simp only [Node.isLive, hg.role, hh] at hlive ⊢
        exact .inl hlive
  functions := htakes.functions ▸ List.prefix_refl _
  owners := by
    rintro t b - ⟨id, q, n', hb, hn', hh, hk⟩
    obtain ⟨n, hn, hg⟩ := hnodes.back hn'
    have hheld := ((held_goes h.ledger hbase hnodes t (id, q)).mp ⟨hb, n', hn', hh⟩).1
    obtain ⟨-, n₂, hn₂, hh₂⟩ := hheld
    obtain rfl := Option.some.inj (hn.symm.trans hn₂)
    refine ⟨id, q, n, hb, hn, hh₂, ?_⟩
    cases q with
    | none =>
      simp only [keeper, hg.role] at hk
      exact hk
    | some i => exact hk
  stays := by
    intro t ht hnot
    refine (htakes.engine.live_iff t).mpr ⟨.inr ht.1, ?_, ht.2⟩
    intro hg
    obtain ⟨id, hid, n, hn, hh⟩ := mem_tokensOf.mp (List.mem_reverse.mp hg)
    exact hnot a rfl ⟨id, none, n, hbase id hid, hn, hh, hmine id hid n hn⟩
  calls := by
    intro id n' hn' ho
    obtain ⟨n, hn, hg⟩ := hnodes.back hn'
    rw [isOpen_iff] at ho
    refine .inr ⟨n, hn, (isOpen_iff n).mpr ⟨hg.role ▸ ho.1, ?_⟩⟩
    obtain ⟨hkind, hlive⟩ := ho
    rw [hg.role] at hkind
    obtain ⟨role, handle, owned⟩ := n
    cases role <;> simp_all [Role.kind, Node.isLive, hg.role]

end Follows

namespace Host

variable {E : Engine S.State}

/-- What owns nothing goes alone. -/
theorem teardown_leaf (h : Accounts B base may others flying w) {id : Nat} {n : Node} (hb : base ≤ id)
    (hn : w.nodes[id]? = some n) (hkind : n.role.kind = .block) (fuel : Nat) :
    teardown w.nodes (fuel + 1) id = [id] := by
  have hnone : childIds n = [] := by
    refine List.eq_nil_iff_forall_not_mem.mpr ?_
    intro c hc
    obtain ⟨k, hk, -, hlive, hparent, hlt⟩ := h.forest.child hb hn hc
    obtain ⟨-, m, hm, -, hmay, -⟩ := h.owner c id k (by omega) hk hlive hparent
    obtain rfl := Option.some.inj (hn.symm.trans hm)
    rw [mayOwn_iff, hkind] at hmay
    simp at hmay
  simp [teardown, hn, hnone]

/-- Destroying a live resource succeeds and takes back what is below it. -/
theorem exec_destroy_live (hE : Lawful E B) (h : Accounts B base may others flying w) {id : Nat}
    {n : Node} (hb : base ≤ id) (hn : w.nodes[id]? = some n) (hlive : n.handle.isSome) :
    ∃ w', exec (destroy E id) w = (.ok (), w') ∧
      Takes B (tokensOf w.nodes (teardown w.nodes (w.nodes.length + 1) id)) w w' ∧
      Nodewise (Goes (teardown w.nodes (w.nodes.length + 1) id)) w.nodes w'.nodes ∧
      Accounts B base may others flying w' := by
  have hkind : n.role.kind ≠ .args := by
    intro hk
    rw [h.args id n hb hn hk] at hlive
    simp at hlive
  have hbase : ∀ j ∈ teardown w.nodes (w.nodes.length + 1) id, base ≤ j := by
    intro j hj
    have hle := le_of_mem_teardown h.forest hb hj
    omega
  obtain ⟨w', hexec, hnodes, htakes⟩ := exec_destroy hE h.forest hb hn hlive hkind (.refl id _ w)
    (h.ready hbase (teardown_nodup h.forest hb))
  obtain ⟨hgoes, haccounts⟩ := h.goes_teardown hb hn hnodes htakes
  exact ⟨w', hexec, htakes, hgoes, haccounts⟩

/-- Releasing what an object owns succeeds and takes back what is below it. -/
theorem exec_releaseOwned (hE : Lawful E B) (h : Accounts B base may others flying w) {id : Nat}
    {n : Node} (hb : base ≤ id) (hn : w.nodes[id]? = some n) :
    ∃ w', exec (releaseOwned E id) w = (.ok (), w') ∧
      Takes B (tokensOf w.nodes (below w.nodes (w.nodes.length + 1) n)) w w' ∧
      Nodewise (Goes (below w.nodes (w.nodes.length + 1) n)) w.nodes w'.nodes ∧
      Accounts B base may others flying w' := by
  have hbase : ∀ j ∈ below w.nodes (w.nodes.length + 1) n, base ≤ j := by
    intro j hj
    have hlt := lt_of_mem_below h.forest hb hn hj
    omega
  obtain ⟨w', hexec, hnodes, htakes⟩ := exec_releaseOwnedWith hE h.forest hb hn hn rfl
    (.refl id _ w) (h.ready hbase (below_nodup h.forest hb hn))
  obtain ⟨hgoes, haccounts⟩ := h.goes_below hb hn hnodes htakes
  exact ⟨w', hexec, htakes, hgoes, haccounts⟩

/-- A callback that belongs to a call is destroyed for it. -/
theorem exec_destroy_block (hE : Lawful E B) (h : Accounts B base may others flying w) {id a : Nat}
    {n : Node} (hb : base ≤ id) (hn : w.nodes[id]? = some n) (hlive : n.handle.isSome)
    (hrole : n.role = .block a) :
    ∃ w', exec (destroy E id) w = (.ok (), w') ∧ Accounts B base may others flying w' ∧
      Follows B base (some a) w w' := by
  obtain ⟨w', hexec, htakes, hgoes, haccounts⟩ := exec_destroy_live hE h hb hn hlive
  rw [teardown_leaf h hb hn (by rw [hrole]; rfl)] at htakes hgoes
  refine ⟨w', hexec, haccounts, Follows.goes h ?_ (List.nodup_singleton id) hgoes htakes ?_⟩
  · intro j hj
    obtain rfl := List.mem_singleton.mp hj
    exact hb
  · intro j hj k hk
    obtain rfl := List.mem_singleton.mp hj
    obtain rfl := Option.some.inj (hn.symm.trans hk)
    rw [hrole]
    rfl

/-- The handle at a position, if it has not been read. -/
def unreadAt (call : Call) (i : Nat) : Option Value :=
  match call.decoded.lookup i, call.entries[i]? with
  | none, some entry =>
    match entry.block with
    | .null => none
    | handle => some handle
  | _, _ => none

theorem unreadAt_eq_some {call : Call} {i : Nat} {handle : Value} :
    unreadAt call i = some handle ↔ ∃ entry, call.decoded.lookup i = none ∧
      call.entries[i]? = some entry ∧ entry.block ≠ .null ∧ entry.block = handle := by
  unfold unreadAt
  cases hdecoded : call.decoded.lookup i with
  | some v => simp
  | none =>
    cases hentry : call.entries[i]? with
    | none => simp
    | some entry =>
      obtain ⟨name, value, block⟩ := entry
      cases block <;> simp

theorem unreadBlocks_eq (call : Call) :
    Args.unreadBlocks call = (List.range call.entries.length).filterMap (unreadAt call) := rfl

theorem mem_unreadBlocks {call : Call} {t : Token} :
    t ∈ (Args.unreadBlocks call).map (fun h => (ResourceKind.block, h)) ↔
      ∃ i handle, unreadAt call i = some handle ∧ t = (.block, handle) := by
  simp only [List.mem_map, unreadBlocks_eq, List.mem_filterMap, List.mem_range]
  constructor
  · rintro ⟨handle, ⟨i, -, hunread⟩, rfl⟩
    exact ⟨i, handle, hunread, rfl⟩
  · rintro ⟨i, handle, hunread, rfl⟩
    obtain ⟨entry, -, hentry, -⟩ := unreadAt_eq_some.mp hunread
    exact ⟨handle, ⟨i, (List.getElem?_eq_some_iff.mp hentry).1, hunread⟩, rfl⟩

theorem unreadBlocks_nodup {call : Call}
    (h : ∀ i j handle, unreadAt call i = some handle → unreadAt call j = some handle → i = j) :
    ((Args.unreadBlocks call).map fun h => (ResourceKind.block, h)).Nodup := by
  refine List.Nodup.map (fun _ _ heq => congrArg Prod.snd heq) ?_
  rw [unreadBlocks_eq]
  refine List.pairwise_filterMap.mpr (List.nodup_range.imp ?_)
  rintro i j hij handle hi handle' hj rfl
  exact hij (h i j handle hi hj)

/-- Open arguments hold the handles that have not been read from them. -/
theorem holds_unreadAt {n : Node} {call : Call} (hrole : n.role = .args call) (hopen : call.released = false)
    {t : Token} {i : Nat} :
    Holds n t (some i) ↔ ∃ handle, unreadAt call i = some handle ∧ t = (.block, handle) := by
  constructor
  · rintro ⟨call', entry, hrole', -, hdecoded, hentry, hne, rfl⟩
    obtain rfl := Role.args.inj (hrole.symm.trans hrole')
    exact ⟨entry.block, unreadAt_eq_some.mpr ⟨entry, hdecoded, hentry, hne, rfl⟩, rfl⟩
  · rintro ⟨handle, hunread, rfl⟩
    obtain ⟨entry, hdecoded, hentry, hne, rfl⟩ := unreadAt_eq_some.mp hunread
    exact ⟨call, entry, hrole, hopen, hdecoded, hentry, hne, rfl⟩

/-- Handles on their way are given back one after the other. -/
theorem exec_dropAll (hE : Lawful E B) {handles : List Value} {w₀ : World S}
    (h : Accounts B base may others (handles.map (fun h => (ResourceKind.block, h)) ++ flying) w)
    (hfollows : Follows B base mine w₀ w)
    (hmine : ∀ x ∈ handles, B.Live w₀.engine (.block, x) →
      ∃ a, mine = some a ∧ OwnedBy base w₀.nodes (.block, x) a) :
    ∃ s', exec (Args.dropAll E handles) w = (.ok (), { w with engine := s' }) ∧
      Accounts B base may others flying { w with engine := s' } ∧
      Follows B base mine w₀ { w with engine := s' } := by
  induction handles generalizing w with
  | nil => exact ⟨w.engine, rfl, h, hfollows⟩
  | cons x rest ih =>
    have hlive : B.Live w.engine (.block, x) :=
      (h.ledger.live_iff _).mpr (.inr (.inl (List.mem_cons_self ..)))
    obtain ⟨s₁, hs₁, hmoves⟩ := hE.dropBlock w.engine x h.valid hlive
    obtain ⟨s', hexec, haccounts, hfollows'⟩ := ih (h.take hmoves)
      (hfollows.take hmoves hlive (hmine x (List.mem_cons_self ..)))
      (fun y hy => hmine y (List.mem_cons_of_mem _ hy))
    refine ⟨s', ?_, haccounts, hfollows'⟩
    simp only [Args.dropAll, exec_bind, exec_onEngine, hs₁]
    exact hexec

/-- The role of arguments that have been released. -/
def releasedRole (call : Call) : Role :=
  .args { call with released := true }

/-- A call whose arguments have been marked as released. -/
def markReleased (id : Nat) (call : Call) (w : World S) : World S :=
  { w with nodes := w.nodes.modify id fun n => { n with role := releasedRole call } }

theorem markReleased_self {id : Nat} {n : Node} (call : Call) (hn : w.nodes[id]? = some n) :
    (markReleased id call w).nodes[id]? = some { n with role := releasedRole call } := by
  simp [markReleased, hn]

theorem markReleased_other {id j : Nat} (call : Call) (w : World S) (hj : id ≠ j) :
    (markReleased id call w).nodes[j]? = w.nodes[j]? :=
  List.getElem?_modify_ne _ _ hj

/-- Released arguments hold nothing but a handle of their own. -/
theorem holds_released {n : Node} {call call' : Call} (hrole : n.role = .args call') (t : Token)
    (q : Option Nat) : Holds { n with role := releasedRole call } t q ↔ Holds n t q ∧ q = none := by
  cases q with
  | none => simp [Holds, releasedRole, hrole, Role.kind]
  | some i => simp [Holds, releasedRole]

end Host

/-- Once arguments are released, the handles that have not been read from them are on their way. -/
theorem Accounts.markReleased (h : Accounts B base may others flying w) {id : Nat} {n : Node} {call : Call}
    (hb : base ≤ id) (hn : w.nodes[id]? = some n) (hrole : n.role = .args call)
    (hopen : call.released = false) (howned : n.owned = []) :
    Accounts B base may others ((Args.unreadBlocks call).map (fun h => (ResourceKind.block, h)) ++ flying)
      (markReleased id call w) := by
  have hheld : ∀ t i, Held base w.nodes t (id, some i) ↔
      ∃ handle, unreadAt call i = some handle ∧ t = (.block, handle) := fun t i =>
    (held_at hn t _).trans ((and_iff_right hb).trans (holds_unreadAt hrole hopen))
  refine h.renew ?_ rfl rfl (h.ledger.lift (fun _ p => p.1 = id ∧ p.2 ≠ none) ?_ ?_ ?_)
  · refine nodewise_modify id _ (fun _ _ => ⟨rfl, rfl, rfl, fun _ => rfl⟩) fun k hk => ?_
    obtain rfl := Option.some.inj (hn.symm.trans hk)
    exact ⟨by simp only [hrole, releasedRole, fixedRole], rfl, rfl, fun hne => absurd howned hne⟩
  · rintro t ⟨j, q⟩
    rw [Host.markReleased, held_modify hn]
    by_cases hj : j = id
    · subst hj
      rw [if_pos rfl, held_at hn, holds_released hrole]
      simp [and_assoc]
    · simp [hj]
  · -- A handle that stands in two places would have two places on the books.
    refine unreadBlocks_nodup fun i j handle hi hj => ?_
    have hplace := h.ledger.sole _ _ _ ((hheld _ i).mpr ⟨handle, hi, rfl⟩)
      ((hheld _ j).mpr ⟨handle, hj, rfl⟩)
    exact Option.some.inj (congrArg Prod.snd hplace)
  · intro t
    rw [mem_unreadBlocks]
    constructor
    · rintro ⟨i, hunread⟩
      exact ⟨(id, some i), (hheld t i).mpr hunread, rfl, by simp⟩
    · rintro ⟨⟨j, q⟩, hq, rfl, hne⟩
      obtain ⟨i, rfl⟩ := Option.ne_none_iff_exists'.mp hne
      exact ⟨i, (hheld t i).mp hq⟩

/-- Arguments that are released give up their places, and nobody else does. -/
theorem Follows.markReleased {id : Nat} {n : Node} {call : Call} (hvalid : B.valid w.engine) (hb : base ≤ id)
    (hn : w.nodes[id]? = some n) (hrole : n.role = .args call) :
    Follows B base (some id) w (markReleased id call w) := by
  refine Follows.change hvalid ?_ rfl rfl
  refine nodewise_modify id _ (fun _ _ => ⟨.refl _ _, fun _ _ hh => hh, fun ho => ho⟩) fun k hk => ?_
  obtain rfl := Option.some.inj (hn.symm.trans hk)
  refine ⟨⟨?_, .inl rfl, fun _ => .inr ⟨hb, id, rfl, .inl rfl⟩⟩, ?_, ?_⟩
  · simp only [hrole, releasedRole, fixedRole]
  · exact fun t q hh => ((holds_released hrole t q).mp hh).1
  · simp [Host.IsOpen, releasedRole]

/-- All that arguments own are callbacks, which own nothing. -/
theorem Accounts.parent_of_mem_below_args (h : Accounts B base may others flying w) {id c : Nat}
    {n k : Node} (hb : base ≤ id) (hn : w.nodes[id]? = some n) (hkind : n.role.kind = .args)
    (hc : c ∈ below w.nodes (w.nodes.length + 1) n) (hk : w.nodes[c]? = some k) :
    k.role.parent? = some id := by
  obtain ⟨d, hd, hc⟩ := List.mem_flatMap.mp hc
  obtain ⟨m, hm, -, hlive, hparent, hlt⟩ := h.forest.child hb hn (List.mem_reverse.mp hd)
  obtain ⟨-, n', hn', -, hmay, -⟩ := h.owner d id m (by omega) hm hlive hparent
  obtain rfl := Option.some.inj (hn.symm.trans hn')
  have hblock : m.role.kind = .block := by
    rw [mayOwn_iff, hkind] at hmay
    simpa using hmay
  rw [teardown_leaf h (by omega) hm hblock] at hc
  obtain rfl := List.mem_singleton.mp hc
  obtain rfl := Option.some.inj (hm.symm.trans hk)
  exact hparent

namespace Host

theorem exec_liveCall {id : Nat} {n : Node} {call : Call} (hn : w.nodes[id]? = some n)
    (hrole : n.role = .args call) (hopen : call.released = false) :
    exec (liveCall id) w = (.ok call, w) := by
  have hlive : n.isLive = true := by simp [Node.isLive, hrole, hopen]
  simp only [liveCall, checkLive, callOf, exec_bind, exec_node_some hn, hlive, if_true, exec_pure, hrole]

theorem exec_callOf {id : Nat} {n : Node} {call : Call} (hn : w.nodes[id]? = some n)
    (hrole : n.role = .args call) : exec (callOf id) w = (.ok call, w) := by
  simp only [callOf, exec_bind, exec_node_some hn, hrole, exec_pure]

/-- Arguments are released once. -/
theorem exec_release_released {E : Engine S.State} {id : Nat} {n : Node} {call : Call}
    (hn : w.nodes[id]? = some n) (hrole : n.role = .args call) (hreleased : call.released = true) :
    exec (Args.release E id) w = (.error (.host (.useAfterDestroy n.role.kind)), w) := by
  have hdead : n.isLive = false := by simp [Node.isLive, hrole, hreleased]
  rw [Args.release, exec_bind, liveCall, exec_bind, exec_checkLive_dead hn hdead]

/-- Arguments that are released are so from the beginning of it. -/
theorem exec_release_open {E : Engine S.State} {id : Nat} {n : Node} {call : Call}
    (hn : w.nodes[id]? = some n) (hrole : n.role = .args call) (hopen : call.released = false) :
    exec (Args.release E id) w =
      exec (releaseOwned E id >>= fun _ => callOf id >>= fun call =>
        Args.dropAll E (Args.unreadBlocks call)) (markReleased id call w) := by
  rw [Args.release, exec_bind, exec_liveCall hn hrole hopen]
  exact exec_bind ..

/-- What arguments own goes when they are released, as it would if they stayed open. -/
theorem exec_releaseOwned_marked (hE : Lawful E B) (h : Accounts B base may others flying w) {id : Nat}
    {n : Node} (call : Call) (hb : base ≤ id) (hn : w.nodes[id]? = some n) (hkind : n.role.kind = .args) :
    ∃ v, exec (releaseOwned E id) (markReleased id call w) = (.ok (), markReleased id call v) ∧
      Accounts B base may others flying v ∧ Follows B base (some id) w v ∧
      v.nodes[id]? = some { n with owned := [] } := by
  let gone := below w.nodes (w.nodes.length + 1) n
  have hyounger : ∀ c ∈ gone, id < c := fun c => lt_of_mem_below h.forest hb hn
  have hbase : ∀ c ∈ gone, base ≤ c := fun c hc => Nat.le_trans hb (Nat.le_of_lt (hyounger c hc))
  have hnodup : gone.Nodup := below_nodup h.forest hb hn
  have hout : id ∉ gone := not_mem_below h.forest hb hn
  obtain ⟨w₂, hexec, hnodes, htakes⟩ := exec_releaseOwnedWith hE h.forest hb hn
    (markReleased_self call hn) rfl (.modify w _ hyounger) (h.ready hbase hnodup)
  let v : World S := { w₂ with nodes := fell gone (w.nodes.modify id fun n => { n with owned := [] }) }
  have hv : Takes B (tokensOf w.nodes gone) w v :=
    ⟨htakes.engine, htakes.cursors, htakes.functions, htakes.own⟩
  obtain ⟨hgoes, haccounts⟩ := h.goes_below hb hn rfl hv
  have hfollows : Follows B base (some id) w v := Follows.goes h hbase hnodup hgoes hv fun c hc k hk =>
    h.parent_of_mem_below_args hb hn hkind hc hk
  have hmarked : w₂ = markReleased id call v := by
    have hcomm : w₂.nodes = v.nodes.modify id fun n => { n with role := releasedRole call } := by
      rw [hnodes, ← fell_modify _ _ hout]
      simp only [markReleased, List.modify_modify_eq, Function.comp_def]
      rfl
    rw [markReleased, ← hcomm]
  refine ⟨v, hmarked ▸ hexec, haccounts, hfollows, ?_⟩
  simp [v, fell_getElem?, hn, hout]

/-- Releasing the arguments of a call takes back every callback handle among them. -/
theorem exec_release (hE : Lawful E B) (h : Accounts B base may others flying w) {id : Nat} {n : Node}
    {call : Call} (hb : base ≤ id) (hn : w.nodes[id]? = some n) (hrole : n.role = .args call)
    (hopen : call.released = false) :
    ∃ w', exec (Args.release E id) w = (.ok (), w') ∧ Accounts B base may others flying w' ∧
      Follows B base (some id) w w' ∧ ∃ n', w'.nodes[id]? = some n' ∧ n'.role = releasedRole call := by
  obtain ⟨v, howned, haccounts, hfollows, hnv⟩ :=
    exec_releaseOwned_marked hE h call hb hn (by rw [hrole]; rfl)
  have hnv₁ := markReleased_self call hnv
  obtain ⟨s', hdrop, haccounts', hfollows'⟩ := exec_dropAll hE
    (haccounts.markReleased hb hnv hrole hopen rfl)
    (hfollows.trans (.markReleased haccounts.valid hb hnv hrole)) (by
      intro handle hmem _
      obtain ⟨i, hunread⟩ := mem_unreadBlocks.mp (List.mem_map_of_mem hmem)
      exact ⟨id, rfl, id, some i, n, hb, hn, (holds_unreadAt hrole hopen).mpr hunread, rfl⟩)
  refine ⟨_, ?_, haccounts', hfollows', _, hnv₁, rfl⟩
  rw [exec_release_open hn hrole hopen]
  simp only [exec_bind, howned, exec_callOf hnv₁ rfl]
  exact hdrop

end Host

end EngineHost
