import EngineHost.Proofs.Teardown
import EngineHost.Proofs.Watching

/-!
Destruction under any engine, which may refuse a handle that it is given back. What is to go goes in its
order up to the first refusal; a failure leaves the rest as it was, but for the owners that had begun to
release what they own.
-/
namespace EngineHost.Host

/-- The object holds a handle. -/
def alive (nodes : List Node) (id : Nat) : Bool :=
  nodes[id]?.any (·.handle.isSome)

/-- The value stands for an object that holds a handle. -/
def standsAlive (nodes : List Node) (v : Value) : Bool :=
  match v with
  | .object ref => alive nodes ref.id
  | _ => false

/-- Nodes as if owners had forgotten what has been destroyed already. -/
def pruned (nodes : List Node) : List Node :=
  nodes.map fun n => { n with owned := n.owned.filter (standsAlive nodes) }

/-- Nodes some of which have lost their lists. -/
def bare (emptied : List Nat) (nodes : List Node) : List Node :=
  nodes.mapIdx fun id n => if id ∈ emptied then { n with owned := [] } else n

/-- The owners of an object from its own up to a root, if it is not the root itself. -/
inductive Line (nodes : List Node) (root : Nat) : Nat → List Nat → Prop where
  | here : Line nodes root root []
  | up {id p : Nat} {n : Node} {path : List Nat} (hn : nodes[id]? = some n)
    (hparent : n.role.parent? = some p) (h : Line nodes root p path) : Line nodes root id (p :: path)

section Lists

variable {base : Nat} {nodes : List Node}

theorem alive_iff {id : Nat} {n : Node} (hn : nodes[id]? = some n) :
    alive nodes id = true ↔ n.handle.isSome := by
  simp [alive, hn]

theorem pruned_getElem? (nodes : List Node) (id : Nat) :
    (pruned nodes)[id]? =
      nodes[id]?.map fun n => { n with owned := n.owned.filter (standsAlive nodes) } := by
  simp [pruned]

theorem pruned_length (nodes : List Node) : (pruned nodes).length = nodes.length := by
  simp [pruned]

theorem childIds_pruned {p : Nat} {m : Node} (hm : nodes[p]? = some m) :
    ∃ m', (pruned nodes)[p]? = some m' ∧ childIds m' = (childIds m).filter (alive nodes) := by
  refine ⟨_, by rw [pruned_getElem?, hm]; rfl, ?_⟩
  simp only [childIds, List.filter_filterMap, List.filterMap_filter]
  refine List.filterMap_congr fun v _ => ?_
  cases v with
  | object ref => by_cases hlive : alive nodes ref.id = true <;> simp [Option.filter, standsAlive, hlive]
  | _ => rfl

theorem pruned_of {id : Nat} {n : Node} (hn : nodes[id]? = some n) :
    ∃ n', (pruned nodes)[id]? = some n' ∧ n'.role = n.role ∧ n'.handle = n.handle := by
  have hn' := pruned_getElem? nodes id
  rw [hn] at hn'
  exact ⟨_, hn', rfl, rfl⟩

/-- Among what is live, there is a forest. -/
theorem Thicket.forest (hT : Thicket base nodes) : Forest base (pruned nodes) where
  owned := by
    intro p m hp hm v hv
    rw [pruned_getElem?, Option.map_eq_some_iff] at hm
    obtain ⟨m, hm, rfl⟩ := hm
    obtain ⟨hv, hlive⟩ := List.mem_filter.mp hv
    obtain ⟨id, n, rfl, hn, hrest⟩ := hT.owned p m hp hm v hv
    obtain ⟨n', hn', hrole, hh⟩ := pruned_of hn
    exact ⟨id, n', by rw [hrole], hn', hh ▸ (alive_iff hn).mp hlive, hrole ▸ hrest⟩
  nodup := by
    intro p m hp hm
    rw [pruned_getElem?, Option.map_eq_some_iff] at hm
    obtain ⟨m, hm, rfl⟩ := hm
    exact (hT.nodup p m hp hm).filter _

/-- Where all that is listed lives, nothing has to be forgotten. -/
theorem Forest.childIds_alive (hF : Forest base nodes) {p : Nat} {m : Node} (hp : base ≤ p)
    (hm : nodes[p]? = some m) : (childIds m).filter (alive nodes) = childIds m := by
  refine List.filter_eq_self.mpr fun c hc => ?_
  obtain ⟨n, hn, -, hlive, -⟩ := hF.child hp hm hc
  exact (alive_iff hn).mpr hlive

theorem Forest.teardown_pruned (hF : Forest base nodes) (fuel : Nat) {id : Nat} (hb : base ≤ id) :
    teardown (pruned nodes) fuel id = teardown nodes fuel id := by
  induction fuel generalizing id with
  | zero => rfl
  | succ fuel ih =>
    cases hm : nodes[id]? with
    | none => simp [teardown, pruned_getElem?, hm]
    | some m =>
      obtain ⟨m', hm', hchildren⟩ := childIds_pruned hm
      rw [hF.childIds_alive hb hm] at hchildren
      simp only [teardown, hm, hm', Option.map_some, Option.getD_some, hchildren]
      refine congrArg (· ++ [id]) (List.flatMap_congr fun c hc => ?_)
      obtain ⟨-, -, -, -, -, hlt⟩ := hF.child hb hm (List.mem_reverse.mp hc)
      exact ih (by omega)

theorem Forest.below_pruned (hF : Forest base nodes) (fuel : Nat) {p : Nat} {m : Node} (hp : base ≤ p)
    (hm : nodes[p]? = some m) :
    ∃ m', (pruned nodes)[p]? = some m' ∧ below (pruned nodes) fuel m' = below nodes fuel m := by
  obtain ⟨m', hm', hchildren⟩ := childIds_pruned hm
  rw [hF.childIds_alive hp hm] at hchildren
  refine ⟨m', hm', ?_⟩
  simp only [below, hchildren]
  refine List.flatMap_congr fun c hc => ?_
  obtain ⟨-, -, -, -, -, hlt⟩ := hF.child hp hm (List.mem_reverse.mp hc)
  exact hF.teardown_pruned fuel (by omega)

theorem bare_getElem? (emptied : List Nat) (nodes : List Node) (id : Nat) :
    (bare emptied nodes)[id]? =
      nodes[id]?.map fun n => if id ∈ emptied then { n with owned := [] } else n := by
  simp [bare, List.getElem?_mapIdx]

theorem bare_length (emptied : List Nat) (nodes : List Node) :
    (bare emptied nodes).length = nodes.length := by
  simp [bare]

theorem bare_singleton (id : Nat) (nodes : List Node) :
    bare [id] nodes = nodes.modify id fun n => { n with owned := [] } := by
  apply List.ext_getElem?
  intro j
  rw [bare_getElem?, List.getElem?_modify]
  by_cases hj : id = j
  · simp [hj]
  · simp [hj, Ne.symm hj]

/-- A list that is empty already is emptied once more. -/
theorem bare_of_empty {emptied : List Nat} {p : Nat} (ns : List Node)
    (h : ∀ m, ns[p]? = some m → m.owned = []) : bare (emptied ++ [p]) ns = bare emptied ns := by
  apply List.ext_getElem?
  intro j
  simp only [bare_getElem?, List.mem_append, List.mem_singleton]
  cases hm : ns[j]? with
  | none => rfl
  | some m =>
    by_cases hj : j ∈ emptied
    · simp [hj]
    · by_cases hjp : j = p
      · subst hjp
        have howned := h m hm
        obtain ⟨role, handle, owned⟩ := m
        subst howned
        simp
      · simp [hj, hjp]

theorem bare_nil (nodes : List Node) : bare [] nodes = nodes := by
  apply List.ext_getElem?
  intro id
  simp [bare_getElem?]

/-- What is emptied in the end may have been emptied in the beginning. -/
theorem bare_fell_bare {emptied gone : List Nat} {id : Nat} (h : id ∈ emptied) :
    bare emptied (fell gone (bare [id] nodes)) = bare emptied (fell gone nodes) := by
  apply List.ext_getElem?
  intro j
  simp only [bare_getElem?, fell_getElem?, List.mem_singleton]
  cases nodes[j]? with
  | none => rfl
  | some n =>
    by_cases hj : j = id
    · subst hj
      by_cases hgone : j ∈ gone <;> simp [h, hgone]
    · simp [hj]

theorem Line.root_mem {root c : Nat} {path : List Nat} (h : Line nodes root c path) (hne : c ≠ root) :
    root ∈ path := by
  induction h with
  | here => exact absurd rfl hne
  | @up id p n path hn hparent h ih =>
    by_cases hp : p = root
    · exact hp ▸ List.mem_cons_self ..
    · exact List.mem_cons_of_mem _ (ih hp)

theorem Line.snoc {d c p : Nat} {n : Node} {path : List Nat} (h : Line nodes d c path)
    (hn : nodes[d]? = some n) (hparent : n.role.parent? = some p) : Line nodes p c (path ++ [p]) := by
  induction h with
  | here => exact .up hn hparent .here
  | up hn' hparent' _ ih => exact .up hn' hparent' ih

end Lists

section Runs

variable {S : Embedding} {E : Engine S.State} {base : Nat} {nodes : List Node} {w w' : World S}

/-- A world whose nodes that are to go stand as they do there; of the younger ones, what had been
destroyed still is. -/
structure Standing (p : Nat) (nodes : List Node) (order : List Nat) (w : World S) : Prop where
  length : w.nodes.length = nodes.length
  same : ∀ j ∈ order, w.nodes[j]? = nodes[j]?
  dead : ∀ (j : Nat) (n : Node), p < j → nodes[j]? = some n → n.handle = none →
    ∃ n', w.nodes[j]? = some n' ∧ n'.role.kind = n.role.kind ∧ n'.handle = none

/-- Only the nodes, the engine and the log may have changed. -/
structure Aside (w w' : World S) : Prop where
  cursors : w'.cursors = w.cursors
  functions : w'.functions = w.functions
  own : w'.own = w.own

variable (E nodes) in
/-- How it ends when resources are to go in an order, below a root and perhaps with it. Either every
handle is taken back, and what remains to be done to the nodes is done; or the engine refuses one, and
then the owners of that one have lost their lists. -/
inductive Unwound (root : Nat) (order : List Nat) (finish : List Node → List Node) (w : World S) :
    Except Failure Unit × World S → Prop where
  | done {w' : World S}
    (given : (E.giveBack (tokensOf nodes order)).run.run w.engine = (.ok (), w'.engine))
    (after : w'.nodes = finish (fell order w.nodes)) (aside : Aside w w') :
    Unwound root order finish w (.ok (), w')
  | stuck {before rest path : List Nat} {c : Nat} {t : Token} {s : S.State} {f : Failure}
    {w' : World S} (split : order = before ++ c :: rest)
    (given : (E.giveBack (tokensOf nodes before)).run.run w.engine = (.ok (), s))
    (token : tokenAt nodes c = some t) (refused : (E.drop t).run.run s = (.error f, w'.engine))
    (line : Line nodes root c path)
    (after : w'.nodes = bare path (fell (before ++ [c]) w.nodes)) (aside : Aside w w') :
    Unwound root order finish w (.error f, w')

theorem Standing.refl (p : Nat) (order : List Nat) (w : World S) : Standing p w.nodes order w :=
  ⟨rfl, fun _ _ => rfl, fun _ n _ hn hh => ⟨n, hn, rfl, hh⟩⟩

/-- What becomes of an owner leaves the younger ones standing. -/
theorem Standing.modify {p : Nat} {order : List Nat} (w : World S) (f : Node → Node)
    (hyounger : ∀ j ∈ order, p < j) :
    Standing p w.nodes order { w with nodes := w.nodes.modify p f } where
  length := List.length_modify ..
  same := fun j hj => List.getElem?_modify_ne _ _ (Nat.ne_of_lt (hyounger j hj))
  dead := fun _ n hj hn hh =>
    ⟨n, (List.getElem?_modify_ne _ _ (Nat.ne_of_lt hj)).trans hn, rfl, hh⟩

theorem Aside.trans {w'' : World S} (h : Aside w w') (h' : Aside w' w'') : Aside w w'' :=
  ⟨h'.cursors.trans h.cursors, h'.functions.trans h.functions, h'.own.trans h.own⟩

theorem Standing.left {p : Nat} {order order' : List Nat} (h : Standing p nodes (order ++ order') w) :
    Standing p nodes order w :=
  ⟨h.length, fun j hj => h.same j (List.mem_append_left _ hj), h.dead⟩

theorem Standing.younger {p c : Nat} {order : List Nat} (h : Standing p nodes order w) (hlt : p ≤ c) :
    Standing c nodes order w :=
  ⟨h.length, h.same, fun j n hj hn hh => h.dead j n (Nat.lt_of_le_of_lt hlt hj) hn hh⟩

/-- What goes apart from others leaves them standing. -/
theorem Standing.fell {p : Nat} {order order' : List Nat}
    (h : Standing p nodes (order ++ order') w) (hnodes : w'.nodes = Host.fell order w.nodes)
    (hapart : ∀ j ∈ order', j ∉ order) : Standing p nodes order' w' where
  length := by rw [hnodes, fell_length, h.length]
  same := by
    intro j hj
    rw [hnodes, fell_getElem?, h.same j (List.mem_append_right _ hj)]
    simp [hapart j hj]
  dead := by
    intro j n hlt hn hh
    obtain ⟨n', hn', hkind, hh'⟩ := h.dead j n hlt hn hh
    rw [hnodes, fell_getElem?, hn']
    refine ⟨_, rfl, ?_, ?_⟩
    · split
      · exact hkind
      · exact hkind
    · split
      · rfl
      · exact hh'

/-- Giving a handle back moves nothing but the engine. -/
theorem exec_dropHandle_any (E : Engine S.State) (kind : ResourceKind) (h : Value) (w : World S) :
    exec (dropHandle E kind h) w =
      (((E.drop (kind, h)).run.run w.engine).1,
        { w with engine := ((E.drop (kind, h)).run.run w.engine).2 }) := by
  cases kind <;> rfl

/-- Giving callbacks back one after the other moves nothing but the engine. -/
theorem exec_dropAll_any (E : Engine S.State) (handles : List Value) (w : World S) :
    exec (Args.dropAll E handles) w =
      (((E.giveBack (handles.map fun h => (.block, h))).run.run w.engine).1,
        { w with engine := ((E.giveBack (handles.map fun h => (.block, h))).run.run w.engine).2 }) := by
  induction handles generalizing w with
  | nil => rfl
  | cons h rest ih =>
    rw [Args.dropAll, exec_bind, exec_onEngine, List.map_cons, Engine.giveBack_cons_run,
      show E.drop (.block, h) = E.dropBlock h from rfl]
    rcases (E.dropBlock h).run.run w.engine with ⟨r, s⟩
    cases r with
    | ok u => exact ih { w with engine := s }
    | error f => rfl

theorem exec_resource {w : World S} {id : Nat} {n : Node} (hn : w.nodes[id]? = some n)
    (hkind : n.role.kind ≠ .args) : exec (resource (refOf id n.role.kind)) w = (.ok (id, n), w) := by
  simp only [resource, refOf, exec_bind, exec_get, hn]
  rw [if_pos ⟨trivial, hkind⟩]
  rfl

variable (E base nodes) in
/-- Destroying unwinds what is below a resource, and the resource last. -/
def Unwinds (destroy : Nat → Host S Unit) (fuel : Nat) : Prop :=
  ∀ (id : Nat) (n : Node) (w : World S), base ≤ id → nodes[id]? = some n → n.handle.isSome →
    n.role.kind ≠ .args → nodes.length < fuel + id →
    Standing id nodes (teardown (pruned nodes) fuel id) w →
    Unwound E nodes id (teardown (pruned nodes) fuel id)
      (forgotten n.role.parent? (refOf id n.role.kind)) w (exec (destroy id) w)

/-- The first of some resources has gone; the others follow. -/
theorem Unwound.cons {root : Nat} {order order' : List Nat} {w₁ : World S}
    {q : Except Failure Unit × World S}
    (hgiven : (E.giveBack (tokensOf nodes order)).run.run w.engine = (.ok (), w₁.engine))
    (hnodes : w₁.nodes = fell order w.nodes) (haside : Aside w w₁)
    (h : Unwound E nodes root order' id w₁ q) : Unwound E nodes root (order ++ order') id w q := by
  cases h with
  | done given after aside =>
    refine .done ?_ ?_ (haside.trans aside)
    · rw [tokensOf_append, Engine.giveBack_append_run, hgiven]
      exact given
    · rw [after, hnodes, id, id, fell_fell]
  | stuck split given token refused line after aside =>
    subst split
    refine .stuck (List.append_assoc ..).symm ?_ token refused line ?_ (haside.trans aside)
    · rw [tokensOf_append, Engine.giveBack_append_run, hgiven]
      exact given
    · rw [after, hnodes, fell_fell, List.append_assoc]

/-- However it ends, the engine has been given the handles in their order. -/
theorem Unwound.gives {root : Nat} {order : List Nat} {finish : List Node → List Node}
    {q : Except Failure Unit × World S} (h : Unwound E nodes root order finish w q) :
    (E.giveBack (tokensOf nodes order)).run.run w.engine = (q.1, q.2.engine) := by
  cases h with
  | done given after aside => exact given
  | @stuck before rest path c t s f w' split given token refused line after aside =>
    have htokens : tokensOf nodes (c :: rest) = t :: tokensOf nodes rest := by simp [tokensOf, token]
    rw [split, tokensOf_append, htokens, Engine.giveBack_append_run, given]
    simp only [Engine.giveBack_cons_run, refused]

/-- An owner that is not among what goes stays empty. -/
theorem fell_empty {ns : List Node} {gone : List Nat} {p : Nat} (hout : p ∉ gone)
    (hempty : ∀ m, ns[p]? = some m → m.owned = []) :
    ∀ m, (fell gone ns)[p]? = some m → m.owned = [] := by
  intro m hm
  rw [fell_getElem?, Option.map_eq_some_iff] at hm
  obtain ⟨m₀, hm₀, rfl⟩ := hm
  rw [if_neg hout]
  exact hempty m₀ hm₀

/-- What goes with a resource and what goes with its siblings is apart. -/
theorem siblings_apart (hT : Thicket base nodes) {fuel p c : Nat} {m : Node} {rest : List Nat}
    (hp : base ≤ p) (hm : nodes[p]? = some m) (hids : ∀ d ∈ c :: rest, d ∈ childIds m)
    (hnodup : (c :: rest).Nodup) (hlive : alive nodes c = true) :
    ∀ j ∈ (rest.filter (alive nodes)).flatMap (teardown (pruned nodes) fuel),
      j ∉ teardown (pruned nodes) fuel c := by
  obtain ⟨m', hm', hchildren⟩ := childIds_pruned hm
  have hchild : ∀ d ∈ c :: rest, alive nodes d = true → d ∈ childIds m' := fun d hd hdlive =>
    hchildren ▸ List.mem_filter.mpr ⟨hids d hd, hdlive⟩
  intro j hj hjc
  obtain ⟨d, hd, hj⟩ := List.mem_flatMap.mp hj
  obtain ⟨hd, hdlive⟩ := List.mem_filter.mp hd
  have hne : c ≠ d := fun h => (List.nodup_cons.mp hnodup).1 (h ▸ hd)
  exact disjoint_teardown hT.forest hp hm' (hchild c (List.mem_cons_self ..) hlive)
    (hchild d (List.mem_cons_of_mem _ hd) hdlive) hne hjc hj

/-- Releasing some of what an owner owned, after its list has been emptied. -/
theorem unwound_releaseEach (hT : Thicket base nodes) {destroy : Nat → Host S Unit} {fuel p : Nat}
    {m : Node} (ih : Unwinds E base nodes destroy fuel) (hp : base ≤ p) (hm : nodes[p]? = some m)
    (hfuel : nodes.length ≤ fuel + p) {ids : List Nat} (hids : ∀ c ∈ ids, c ∈ childIds m)
    (hnodup : ids.Nodup) {w : World S} (hempty : ∀ m', w.nodes[p]? = some m' → m'.owned = [])
    (hstand : Standing p nodes ((ids.filter (alive nodes)).flatMap (teardown (pruned nodes) fuel)) w) :
    Unwound E nodes p ((ids.filter (alive nodes)).flatMap (teardown (pruned nodes) fuel)) id w
      (exec (releaseEach destroy (ids.map (refAt nodes))) w) := by
  induction ids generalizing w with
  | nil => exact .done rfl (fell_nil _).symm ⟨rfl, rfl, rfl⟩
  | cons c rest ihr =>
    obtain ⟨n, hn, -, hparent, hlt⟩ := hT.child hp hm (hids c (List.mem_cons_self ..))
    have hkind := kind_ne_args_of_parent hparent
    have href : refAt nodes c = refOf c n.role.kind := by simp [refAt, hn]
    have hrest : ∀ d ∈ rest, d ∈ childIds m := fun d hd => hids d (List.mem_cons_of_mem _ hd)
    rw [List.map_cons, href]
    by_cases hlive : n.handle.isSome = true
    · have hkeep : (c :: rest).filter (alive nodes) = c :: rest.filter (alive nodes) :=
        List.filter_cons_of_pos ((alive_iff hn).mpr hlive)
      rw [hkeep, List.flatMap_cons] at hstand ⊢
      have hbc : base ≤ c := by omega
      have hlen : c < nodes.length := (List.getElem?_eq_some_iff.mp hn).1
      have hself : c ∈ teardown (pruned nodes) fuel c := by
        obtain ⟨k, rfl⟩ : ∃ k, fuel = k + 1 := ⟨fuel - 1, by omega⟩
        exact mem_teardown_succ.mpr (.inl rfl)
      have hnw : w.nodes[c]? = some n := (hstand.same c (List.mem_append_left _ hself)).trans hn
      have hle : ∀ j ∈ teardown (pruned nodes) fuel c, c ≤ j := fun j hj =>
        le_of_mem_teardown hT.forest hbc hj
      -- The owner is older than all that goes, and its list is empty, so forgetting changes nothing.
      have hempty' : ∀ gone : List Nat, (∀ j ∈ gone, c ≤ j) →
          ∀ m', (fell gone w.nodes)[p]? = some m' → m'.owned = [] := fun gone hgone =>
        fell_empty (fun hmem => absurd (hgone p hmem) (Nat.not_le_of_lt hlt)) hempty
      have hdestroy := ih c n w hbc hn hlive hkind (by omega) (hstand.left.younger (by omega))
      simp only [releaseEach, exec_bind, exec_resource hnw hkind, hlive, if_true]
      generalize exec (destroy c) w = q at hdestroy ⊢
      cases hdestroy with
      | done given after aside =>
        rw [hparent, forgotten_of_empty (hempty' _ hle)] at after
        refine .cons given after aside ?_
        exact ihr hrest (List.nodup_cons.mp hnodup).2 (by rw [after]; exact hempty' _ hle)
          (hstand.fell after (siblings_apart hT hp hm hids hnodup ((alive_iff hn).mpr hlive)))
      | @stuck before rest' path d t s f w₁ split given token refused line after aside =>
        have hsplit : ∀ later, teardown (pruned nodes) fuel c ++ later =
            before ++ d :: (rest' ++ later) := fun later => by
          rw [split, List.append_assoc, List.cons_append]
        refine .stuck (hsplit _) given token refused (line.snoc hn hparent) ?_ aside
        rw [after, bare_of_empty]
        refine hempty' _ fun j hj => hle j ?_
        rw [split]
        rcases List.mem_append.mp hj with hj | hj
        · exact List.mem_append_left _ hj
        · exact List.mem_append_right _ (List.mem_singleton.mp hj ▸ List.mem_cons_self ..)
    · -- What has been destroyed already is passed over.
      have hskip : (c :: rest).filter (alive nodes) = rest.filter (alive nodes) :=
        List.filter_cons_of_neg (fun h => hlive ((alive_iff hn).mp h))
      rw [hskip] at hstand ⊢
      obtain ⟨n', hn', hkind', hh'⟩ :=
        hstand.dead c n hlt hn (Option.not_isSome_iff_eq_none.mp hlive)
      have hresource : exec (resource (refOf c n.role.kind)) w = (.ok (c, n'), w) := by
        rw [← hkind']
        exact exec_resource hn' (hkind' ▸ hkind)
      simp only [releaseEach, exec_bind, hresource, hh', Option.isSome_none, Bool.false_eq_true,
        if_false]
      exact ihr hrest (List.nodup_cons.mp hnodup).2 hempty hstand

/-- An owner empties its list and releases what was in it. -/
theorem unwound_releaseOwnedWith (hT : Thicket base nodes) {destroy : Nat → Host S Unit} {fuel p : Nat}
    {m m' k : Node} (ih : Unwinds E base nodes destroy fuel) (hp : base ≤ p) (hm : nodes[p]? = some m)
    (hk : (pruned nodes)[p]? = some k) (hfuel : nodes.length ≤ fuel + p) (hw : w.nodes[p]? = some m')
    (howned : m'.owned = m.owned) (hstand : Standing p nodes (below (pruned nodes) fuel k) w) :
    Unwound E nodes p (below (pruned nodes) fuel k) id { w with nodes := bare [p] w.nodes }
      (exec (releaseOwnedWith destroy p) w) := by
  let w₁ : World S := { w with nodes := bare [p] w.nodes }
  have htake : exec (takeOwned p) w = (.ok m.owned, w₁) := by
    simp only [takeOwned, exec_bind, exec_node_some hw, exec_modifyNode, exec_pure, howned, w₁,
      bare_singleton]
  have hempty : ∀ k, w₁.nodes[p]? = some k → k.owned = [] := by
    intro k hk
    simp only [w₁, bare_getElem?, hw, Option.map_some, List.mem_singleton, if_true] at hk
    obtain rfl := Option.some.inj hk
    rfl
  obtain ⟨k', hk', hchildren⟩ := childIds_pruned hm
  obtain rfl := Option.some.inj (hk.symm.trans hk')
  have hbelow : below (pruned nodes) fuel k =
      ((childIds m).reverse.filter (alive nodes)).flatMap (teardown (pruned nodes) fuel) := by
    rw [below, hchildren, List.filter_reverse]
  have hstand₁ : Standing p nodes (below (pruned nodes) fuel k) w₁ := by
    refine ⟨(bare_length ..).trans hstand.length, ?_, ?_⟩
    · intro j hj
      have hlt := lt_of_mem_below hT.forest hp hk hj
      simp only [w₁, bare_getElem?, List.mem_singleton, Nat.ne_of_gt hlt, if_false]
      rw [hstand.same j hj]
      cases nodes[j]? <;> rfl
    · intro j n hlt hn hh
      obtain ⟨n', hn', hrest⟩ := hstand.dead j n hlt hn hh
      refine ⟨n', ?_, hrest⟩
      simp [w₁, bare_getElem?, hn', Nat.ne_of_gt hlt]
  rw [hbelow] at hstand₁ ⊢
  have hrelease := unwound_releaseEach hT ih hp hm hfuel (fun c hc => List.mem_reverse.mp hc)
    (List.nodup_reverse.mpr (hT.childIds_nodup hp hm)) hempty hstand₁
  rw [List.map_reverse, ← hT.owned_eq hp hm] at hrelease
  simpa only [releaseOwnedWith, exec_bind, htake] using hrelease

/-- One destruction, from what releasing the owned resources does. -/
theorem unwinds_destroyWithin_succ (hT : Thicket base nodes) {fuel : Nat}
    (ih : Unwinds E base nodes (destroyWithin E fuel) fuel) :
    Unwinds E base nodes (destroyWithin E (fuel + 1)) (fuel + 1) := by
  intro id n w hb hn hlive hkind hfuel hstand
  obtain ⟨h, hh⟩ := Option.isSome_iff_exists.mp hlive
  obtain ⟨k, hk, -⟩ := pruned_of hn
  rw [teardown_succ hk] at hstand ⊢
  have hout : id ∉ below (pruned nodes) fuel k := not_mem_below hT.forest hb hk
  have hnw : w.nodes[id]? = some n := (hstand.same id (by simp)).trans hn
  have hrelease := unwound_releaseOwnedWith hT ih hb hn hk (by omega) hnw rfl hstand.left
  simp only [destroyWithin, exec_bind, exec_liveHandle hnw hh]
  generalize exec (releaseOwnedWith (destroyWithin E fuel) id) w = q at hrelease ⊢
  cases hrelease with
  | @stuck before rest path c t s f w₁ split given token refused line after aside =>
    have hsplit : below (pruned nodes) fuel k ++ [id] = before ++ c :: (rest ++ [id]) := by
      rw [split, List.append_assoc, List.cons_append]
    have hc : c ≠ id := fun h => hout (by rw [split, h]; simp)
    refine .stuck hsplit given token refused line ?_ ⟨aside.cursors, aside.functions, aside.own⟩
    rw [after, bare_fell_bare (line.root_mem hc)]
  | @done w₁ given after aside =>
    have hn₁ : w₁.nodes[id]? = some { n with owned := [] } := by
      simp [after, fell_getElem?, bare_getElem?, hnw, hout]
    let w₂ : World S := { w₁ with nodes := w₁.nodes.modify id fun n => { n with handle := none } }
    have hn₂ : w₂.nodes[id]? = some { n with handle := none, owned := [] } := by
      simp [w₂, hn₁]
    have hfell : w₂.nodes = fell (below (pruned nodes) fuel k ++ [id]) w.nodes := by
      rw [← fell_snoc w.nodes hout, ← bare_singleton]
      exact congrArg (fun ns : List Node => ns.modify id fun n => { n with handle := none }) after
    have hrole : exec (node id) w₂ = (.ok { n with handle := none, owned := [] }, w₂) :=
      exec_node_some hn₂
    have htoken : tokenAt nodes id = some (n.role.kind, h) := by simp [tokenAt, hn, hh]
    simp only [exec_modifyNode]
    simp only [show World.mk (List.modify w₁.nodes id fun n => { n with handle := none }) w₁.cursors
      w₁.functions w₁.engine w₁.own w₁.log = w₂ from rfl, hrole, exec_write, exec_dropHandle_any]
    cases hdrop : (E.drop (n.role.kind, h)).run.run w₁.engine with
    | mk r s' =>
      simp only [w₂]
      cases r with
      | error f =>
        refine .stuck rfl given htoken hdrop .here ?_ ⟨aside.cursors, aside.functions, aside.own⟩
        rw [bare_nil]
        exact hfell
      | ok u =>
        have hgiven : (E.giveBack (tokensOf nodes (below (pruned nodes) fuel k ++ [id]))).run.run
            w.engine = (.ok (), s') := by
          rw [tokensOf_append, tokensOf_singleton hn hh, Engine.giveBack_append_run, given]
          exact (Engine.giveBack_singleton_run ..).trans hdrop
        cases hparent : n.role.parent? with
        | none => exact .done hgiven hfell ⟨aside.cursors, aside.functions, aside.own⟩
        | some p =>
          exact .done hgiven (congrArg (forgotten (some p) (refOf id n.role.kind)) hfell)
            ⟨aside.cursors, aside.functions, aside.own⟩

theorem unwinds_destroyWithin (hT : Thicket base nodes) (fuel : Nat) :
    Unwinds E base nodes (destroyWithin E fuel) fuel := by
  induction fuel with
  | zero =>
    intro id n w hb hn hlive hkind hfuel
    have hlen : id < nodes.length := (List.getElem?_eq_some_iff.mp hn).1
    omega
  | succ fuel ih => exact unwinds_destroyWithin_succ hT ih

/-- There is fuel enough for every resource of a world. -/
theorem unwinds_destroy (hT : Thicket base nodes) :
    Unwinds E base nodes (destroy E) (nodes.length + 1) := by
  intro id n w hb hn hlive hkind hfuel hstand
  have hdestroy := unwinds_destroyWithin (E := E) hT (nodes.length + 1) id n w hb hn hlive hkind
    hfuel hstand
  rw [← hstand.length] at hdestroy ⊢
  exact hdestroy

end Runs

section Laws

variable {S : Embedding} {E : Engine S.State} {B : Books S.State} {base : Nat} {nodes : List Node}
  {w w' : World S}

/-- A state of the engine in which handles are live, each for one resource. -/
structure Ready (B : Books S.State) (ts : List Token) (s : S.State) : Prop where
  valid : B.valid s
  live : ∀ t ∈ ts, t.1 ≠ .args ∧ B.Live s t
  nodup : ts.Nodup

/-- Handles are taken back in their order, and only nodes and log may change besides. -/
structure Takes (B : Books S.State) (gone : List Token) (w w' : World S) : Prop where
  engine : B.Moves w.engine w'.engine [] gone.reverse
  cursors : w'.cursors = w.cursors
  functions : w'.functions = w.functions
  own : w'.own = w.own

/-- Taking a live handle back does not fail. -/
theorem drop_lawful (hE : Lawful E B) {s : S.State} {t : Token} (hvalid : B.valid s)
    (hkind : t.1 ≠ .args) (hlive : B.Live s t) :
    ∃ s', (E.drop t).run.run s = (.ok (), s') ∧ B.Moves s s' [] [t] := by
  obtain ⟨kind, h⟩ := t
  cases kind with
  | scope => exact hE.dropScope s h hvalid hlive
  | script => exact hE.dropScript s h hvalid hlive
  | block => exact hE.dropBlock s h hvalid hlive
  | evaluator => exact hE.dropEvaluator s h hvalid hlive
  | args => exact absurd rfl hkind

theorem giveBack_lawful (hE : Lawful E B) {ts : List Token} {s : S.State} (h : Ready B ts s) :
    ∃ s', (E.giveBack ts).run.run s = (.ok (), s') ∧ B.Moves s s' [] ts.reverse := by
  induction ts generalizing s with
  | nil => exact ⟨s, rfl, .refl h.valid⟩
  | cons t rest ih =>
    obtain ⟨hkind, ht⟩ := h.live t (List.mem_cons_self ..)
    obtain ⟨hout, hrest⟩ := List.nodup_cons.mp h.nodup
    obtain ⟨s₁, hdrop, hmoves⟩ := drop_lawful hE h.valid hkind ht
    have hlive₁ : ∀ u ∈ rest, u.1 ≠ .args ∧ B.Live s₁ u := by
      intro u hu
      obtain ⟨hukind, hissued, hdropped⟩ := h.live u (List.mem_cons_of_mem _ hu)
      refine ⟨hukind, (hmoves.live_iff u).mpr ⟨.inr hissued, ?_, hdropped⟩⟩
      intro hut
      exact hout (List.mem_singleton.mp hut ▸ hu)
    obtain ⟨s', hgive, hmoves'⟩ := ih ⟨hmoves.valid, hlive₁, hrest⟩
    refine ⟨s', ?_, ?_⟩
    · rw [Engine.giveBack_cons_run, hdrop]
      exact hgive
    · rw [List.reverse_cons]
      exact hmoves.trans hmoves'

/-- A lawful engine refuses none of the handles that it has given out. -/
theorem Unwound.lawful (hE : Lawful E B) {root : Nat} {order : List Nat}
    {finish : List Node → List Node} {q : Except Failure Unit × World S}
    (h : Unwound E nodes root order finish w q) (hready : Ready B (tokensOf nodes order) w.engine) :
    ∃ w', q = (.ok (), w') ∧ w'.nodes = finish (fell order w.nodes) ∧
      Takes B (tokensOf nodes order) w w' := by
  obtain ⟨s', hgive, hmoves⟩ := giveBack_lawful hE hready
  obtain ⟨hok, hengine⟩ := Prod.mk.inj (h.gives.symm.trans hgive)
  cases h with
  | @done w' given after aside =>
    subst hengine
    exact ⟨w', rfl, after, ⟨hmoves, aside.cursors, aside.functions, aside.own⟩⟩
  | stuck => cases hok

/-- Under a lawful engine, destroying a resource of a forest takes back what is below it, and the
resource last. -/
theorem exec_destroy (hE : Lawful E B) (hF : Forest base nodes) {id : Nat} {n : Node}
    (hb : base ≤ id) (hn : nodes[id]? = some n) (hlive : n.handle.isSome) (hkind : n.role.kind ≠ .args)
    (hstand : Standing id nodes (teardown nodes (nodes.length + 1) id) w)
    (hready : Ready B (tokensOf nodes (teardown nodes (nodes.length + 1) id)) w.engine) :
    ∃ w', exec (destroy E id) w = (.ok (), w') ∧
      w'.nodes = forgotten n.role.parent? (refOf id n.role.kind)
        (fell (teardown nodes (nodes.length + 1) id) w.nodes) ∧
      Takes B (tokensOf nodes (teardown nodes (nodes.length + 1) id)) w w' := by
  have hunwound := unwinds_destroy (E := E) hF.thicket id n w hb hn hlive hkind (by omega)
  rw [hF.teardown_pruned _ hb] at hunwound
  exact (hunwound hstand).lawful hE hready

/-- Under a lawful engine, an owner releases what it owns and keeps everything else. -/
theorem exec_releaseOwnedWith (hE : Lawful E B) (hF : Forest base nodes) {p : Nat} {m m' : Node}
    (hp : base ≤ p) (hm : nodes[p]? = some m) (hw : w.nodes[p]? = some m') (howned : m'.owned = m.owned)
    (hstand : Standing p nodes (below nodes (nodes.length + 1) m) w)
    (hready : Ready B (tokensOf nodes (below nodes (nodes.length + 1) m)) w.engine) :
    ∃ w', exec (releaseOwnedWith (destroy E) p) w = (.ok (), w') ∧
      w'.nodes = fell (below nodes (nodes.length + 1) m)
        (w.nodes.modify p fun n => { n with owned := [] }) ∧
      Takes B (tokensOf nodes (below nodes (nodes.length + 1) m)) w w' := by
  obtain ⟨k, hk, hbelow⟩ := hF.below_pruned (nodes.length + 1) hp hm
  have hunwound := unwound_releaseOwnedWith hF.thicket (unwinds_destroy (E := E) hF.thicket) hp hm hk
    (by omega) hw howned
  rw [hbelow] at hunwound
  obtain ⟨w', hexec, hnodes, htakes⟩ := (hunwound hstand).lawful hE hready
  rw [bare_singleton] at hnodes
  exact ⟨w', hexec, hnodes, ⟨htakes.engine, htakes.cursors, htakes.functions, htakes.own⟩⟩

end Laws

end EngineHost.Host
