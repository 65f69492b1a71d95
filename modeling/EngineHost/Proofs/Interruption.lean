import EngineHost.Proofs.Footprint

/-!
What a refused handle leaves behind. A release that is broken off takes back what came before the refused
handle; what would have come after it still lives, but owners that had begun to release have forgotten it.
-/
namespace EngineHost

open Host

namespace Host

/-- The object lives, and no object lists it. -/
def Orphaned (nodes : List Node) (id : Nat) : Prop :=
  (∃ n, nodes[id]? = some n ∧ n.handle.isSome) ∧
    ∀ (p : Nat) (m : Node) (kind : ResourceKind), nodes[p]? = some m → refOf id kind ∉ m.owned

/-- The course of a release that is broken off at a resource, with `rest` still to come and `path` the
owners of the resource that had begun to release. -/
structure Interrupted (before : List Nat) (c : Nat) (rest path : List Nat) (nodes nodes' : List Node) :
    Prop where
  gone : ∀ id ∈ before ++ [c], ∀ n, nodes[id]? = some n →
    nodes'[id]? = some { n with handle := none, owned := [] }
  emptied : ∀ id ∈ path, ∀ n, nodes[id]? = some n → nodes'[id]? = some { n with owned := [] }
  others : ∀ id, id ∉ before ++ [c] → id ∉ path → nodes'[id]? = nodes[id]?
  orphaned : ∀ id ∈ rest, ∀ n p, nodes[id]? = some n → n.role.parent? = some p → p ∈ path →
    Orphaned nodes' id
  listed : ∀ id ∈ rest, ∀ n p, nodes[id]? = some n → n.role.parent? = some p → p ∉ path →
    ∃ m, nodes'[p]? = some m ∧ m.isLive ∧ refOf id n.role.kind ∈ m.owned

variable {nodes : List Node} {fuel : Nat}

theorem Line.descends {root c : Nat} {path : List Nat} (h : Line nodes root c path) :
    ∀ p ∈ path, Descends nodes p c := by
  induction h with
  | here => simp
  | @up id q n path hn hparent h ih =>
    intro p hp
    rcases List.mem_cons.mp hp with rfl | hp
    · exact .child hn hparent .self
    · exact .child hn hparent (ih p hp)

theorem Line.root_le {root c : Nat} {path : List Nat} (hk : Kinship nodes) (h : Line nodes root c path) :
    root ≤ c ∧ ∀ p ∈ path, root ≤ p ∧ p < c := by
  induction h with
  | here => simp
  | @up id q n path hn hparent h ih =>
    have hlt := (hk.parent id q n hn hparent).1
    obtain ⟨hle, hpath⟩ := ih
    refine ⟨by omega, fun p hp => ?_⟩
    rcases List.mem_cons.mp hp with rfl | hp
    · exact ⟨hle, hlt⟩
    · have hp := hpath p hp
      omega

/-- Owners that had begun to release are still there. -/
theorem Kinship.line_apart (hk : Kinship nodes) {root c : Nat} {before rest path : List Nat}
    (hbefore : (before ++ c :: rest).Pairwise (Before nodes)) (hline : Line nodes root c path) :
    ∀ p ∈ path, p ∉ before ++ [c] := by
  intro p hp hmem
  rcases List.mem_append.mp hmem with hmem | hmem
  · obtain ⟨-, -, hpair⟩ := List.pairwise_append.mp hbefore
    exact (hpair p hmem c (List.mem_cons_self ..)).apart (hline.descends p hp)
  · have hlt := ((hline.root_le hk).2 p hp).2
    have heq := List.mem_singleton.mp hmem
    omega

/-- What lives is listed by its owner or by nothing. -/
theorem Kinship.orphaned (hk : Kinship nodes) {id p : Nat} {n m : Node} (hn : nodes[id]? = some n)
    (hlive : n.handle.isSome) (hparent : n.role.parent? = some p) (hm : nodes[p]? = some m)
    (hempty : m.owned = []) : Orphaned nodes id := by
  refine ⟨⟨n, hn, hlive⟩, fun q k kind hq hmem => ?_⟩
  obtain ⟨j, n', hv, hj, hparent', -⟩ := hk.owned q k hq _ hmem
  obtain rfl : id = j := by
    simp only [refOf, Value.object.injEq, ObjectRef.mk.injEq] at hv
    exact hv.1
  obtain rfl := Option.some.inj (hn.symm.trans hj)
  obtain rfl := Option.some.inj (hparent.symm.trans hparent')
  obtain rfl := Option.some.inj (hm.symm.trans hq)
  rw [hempty] at hmem
  cases hmem

theorem bare_fell_getElem? (path gone : List Nat) (nodes : List Node) (id : Nat) :
    (bare path (fell gone nodes))[id]? = nodes[id]?.map fun n =>
      if id ∈ gone then { n with handle := none, owned := [] }
      else if id ∈ path then { n with owned := [] } else n := by
  rw [bare_getElem?, fell_getElem?, Option.map_map]
  refine congrArg (nodes[id]?.map ·) (funext fun n => ?_)
  by_cases hgone : id ∈ gone
  · simp [hgone]
  · simp [hgone]

/-- The nodes that a stuck release leaves. -/
theorem Kinship.interrupted (hk : Kinship nodes) (hl : Listed nodes) {root c : Nat}
    {before rest path : List Nat} (hpairwise : (before ++ c :: rest).Pairwise (Before nodes))
    (hnodup : (before ++ c :: rest).Nodup) (hline : Line nodes root c path)
    (hlive : ∀ id ∈ rest, ∃ n, nodes[id]? = some n ∧ n.handle.isSome) :
    Interrupted before c rest path nodes (bare path (fell (before ++ [c]) nodes)) := by
  have hapart := hk.line_apart hpairwise hline
  have hfade := (allFade_fell (before ++ [c]) nodes).trans (allFade_bare path _)
  refine ⟨?_, ?_, ?_, ?_, ?_⟩
  · intro id hid n hn
    rw [bare_fell_getElem?, hn, Option.map_some, if_pos hid]
  · intro id hid n hn
    rw [bare_fell_getElem?, hn, Option.map_some, if_neg (hapart id hid), if_pos hid]
  · intro id hgone hpath
    rw [bare_fell_getElem?]
    simp [hgone, hpath]
  · intro id hid n p hn hparent hp
    obtain ⟨k, hk', hklive⟩ := hlive id hid
    obtain rfl := Option.some.inj (hn.symm.trans hk')
    have hout : id ∉ before ++ [c] := by
      rw [List.append_cons] at hnodup
      exact fun hmem => (List.nodup_append.mp hnodup).2.2 id hmem id hid rfl
    obtain ⟨-, m, hm, -⟩ := hk.parent id p n hn hparent
    refine (hk.fade hfade).orphaned (p := p) ?_ (n := if id ∈ path then { n with owned := [] } else n) ?_ ?_
      (m := { m with owned := [] }) ?_ rfl
    · rw [bare_fell_getElem?, hn, Option.map_some, if_neg hout]
    · split
      · exact hklive
      · exact hklive
    · split
      · exact hparent
      · exact hparent
    · rw [bare_fell_getElem?, hm, Option.map_some, if_neg (hapart p hp), if_pos hp]
  · intro id hid n p hn hparent hp
    obtain ⟨k, hk', hklive⟩ := hlive id hid
    obtain rfl := Option.some.inj (hn.symm.trans hk')
    obtain ⟨m, hm, hmlive, hmem⟩ := hl id p n hn hklive hparent
    have hgone : p ∉ before ++ [c] := by
      intro hmem
      rw [List.append_cons] at hpairwise
      obtain ⟨-, -, hpair⟩ := List.pairwise_append.mp hpairwise
      exact (hpair p hmem id hid).apart (.child hn hparent .self)
    exact ⟨m, by rw [bare_fell_getElem?, hm, Option.map_some, if_neg hgone, if_neg hp], hmlive, hmem⟩

end Host

variable {S : Embedding} {E : Engine S.State} {w w' : World S.watched}

/-- The engine was given handles back in an order, up to one that it refused. -/
structure BrokenOff (given : List Token) (t : Token) (w w' : World S.watched) : Prop where
  calls : w'.engine.notes.calls = w.engine.notes.calls ++ given.map .drop ++ [.drop t]
  refused : w'.engine.notes.refused = w.engine.notes.refused ++ [t]

/-- A release that ends with an error, or with a refusal, was broken off. -/
theorem Host.Unwound.brokenOff {nodes : List Node} {root : Nat} {order : List Nat}
    {finish : List Node → List Node} {q : Except Failure Unit × World S.watched}
    (h : Unwound E.watched nodes root order finish w q) (hkinds : ∀ t ∈ tokensOf nodes order, t.1 ≠ .args)
    (hr : w.engine.notes.refused = []) (hr' : q.2.engine.notes.refused ≠ []) :
    ∃ before c rest path t f, q.1 = .error f ∧ order = before ++ c :: rest ∧ tokenAt nodes c = some t ∧
      BrokenOff (tokensOf nodes before) t w q.2 ∧ Line nodes root c path ∧
      q.2.nodes = bare path (fell (before ++ [c]) w.nodes) := by
  cases h with
  | done given after aside =>
    rw [Engine.giveBack_watched_ok hkinds given] at hr'
    exact absurd hr hr'
  | @stuck before rest path c t s f w' split given token refused line after aside =>
    have htoken : t ∈ tokensOf nodes order := by simp [split, tokensOf, token]
    have hbefore : ∀ u ∈ tokensOf nodes before, u.1 ≠ .args := by
      intro u hu
      refine hkinds u ?_
      rw [split, tokensOf_append]
      exact List.mem_append_left _ hu
    have hnotes := Engine.drop_watched_error (hkinds t htoken) refused
    rw [Engine.giveBack_watched_ok hbefore given] at hnotes
    exact ⟨before, c, rest, path, t, f, rfl, split, token, ⟨by rw [hnotes], by rw [hnotes]⟩, line, after⟩

/-- What owns nothing goes alone. -/
theorem destroy_bare (hw : Tended w) {id : Nat} {n : Node} {h : Value} (hn : w.nodes[id]? = some n)
    (hh : n.handle = some h) (howned : n.owned = []) :
    (exec (Host.destroy E.watched id) w).2.engine.notes.calls =
      w.engine.notes.calls ++ [.drop (n.role.kind, h)] := by
  have hunwound := Tends.unwound_destroy (E := E) hw.kin hn (by rw [hh]; rfl)
  have horder : teardown (pruned w.nodes) (w.nodes.length + 1) id = [id] := by
    have hroot : (pruned w.nodes)[id]? = some n := by
      rw [pruned_getElem?, hn, Option.map_some, howned, List.filter_nil, ← howned]
    simp [teardown_succ hroot, below, childIds, howned]
  rw [horder] at hunwound
  generalize exec (Host.destroy E.watched id) w = q at hunwound
  cases hunwound with
  | done given after aside =>
    have hnotes := Engine.giveBack_watched_ok (hw.kin.tokens _) given
    rw [hnotes, tokensOf_singleton hn hh]
    rfl
  | @stuck before rest path c t s f w' split given token refused line after aside =>
    obtain ⟨rfl, rfl, rfl⟩ : before = [] ∧ c = id ∧ rest = [] := by
      cases before with
      | nil => simpa [eq_comm] using split
      | cons b before => simp at split
    have htoken : t = (n.role.kind, h) := by
      simpa [tokenAt, hn, hh, eq_comm] using token
    have hkind := hw.kin.tokens [c] t (by simp [tokensOf, token])
    obtain rfl := (Prod.mk.inj given).2
    rw [Engine.drop_watched_error hkind refused, htoken]

theorem destroy_brokenOff (hw : Tended w) (hr : w.engine.notes.refused = []) {id : Nat} {n : Node}
    {h : Value} (hn : w.nodes[id]? = some n) (hh : n.handle = some h)
    (hr' : (exec (Host.destroy E.watched id) w).2.engine.notes.refused ≠ []) :
    ∃ before c rest path t f w', exec (Host.destroy E.watched id) w = (.error f, w') ∧
      Footprint w.nodes (Descends w.nodes id) (before ++ c :: rest) ∧ Line w.nodes id c path ∧
      tokenAt w.nodes c = some t ∧ BrokenOff (tokensOf w.nodes before) t w w' ∧
      Interrupted before c rest path w.nodes w'.nodes ∧
      (c ≠ id → (exec (Host.destroy E.watched id) w').2.engine.notes.calls =
        w'.engine.notes.calls ++ [.drop (n.role.kind, h)]) := by
  have hlive : n.handle.isSome := by rw [hh]; rfl
  have hunwound := Tends.unwound_destroy (E := E) hw.kin hn hlive
  have hfoot : Footprint w.nodes (Descends w.nodes id)
      (teardown (pruned w.nodes) (w.nodes.length + 1) id) :=
    hw.kin.footprint (hw.listed hr) hn hlive (by omega)
  have hpairwise := hw.kin.teardown_pairwise (w.nodes.length + 1) id
  obtain ⟨before, c, rest, path, t, f, hq, horder, htoken, hbroken, hline, hnodes⟩ :=
    hunwound.brokenOff (hw.kin.tokens _) hr hr'
  rw [horder] at hfoot hpairwise
  obtain ⟨hw', -⟩ := Tends.destroy (E := E) (w := w) id hw
  generalize hx : exec (Host.destroy E.watched id) w = q at hq hbroken hnodes hw'
  obtain ⟨r, w'⟩ := q
  have hinterrupted := hw.kin.interrupted (hw.listed hr) hpairwise hfoot.nodup hline fun j hj =>
    ((hfoot.mem_iff j).mp (by simp [hj])).2
  rw [← hnodes] at hinterrupted
  refine ⟨before, c, rest, path, t, f, w', Prod.ext hq rfl, hfoot, hline, htoken, hbroken,
    hinterrupted, fun hc => ?_⟩
  exact destroy_bare (n := { n with owned := [] }) hw'
    (hinterrupted.emptied id (hline.root_mem hc) n hn) hh rfl

theorem Host.Line.of_block {nodes : List Node} (hk : Kinship nodes) {root c : Nat} {m : Node}
    {path : List Nat} (hm : nodes[c]? = some m) (hrole : m.role = .block root)
    (h : Line nodes root c path) : path = [root] := by
  have hparent : m.role.parent? = some root := by rw [hrole]; rfl
  have hlt := (hk.parent c root m hm hparent).1
  cases h with
  | here => exact absurd hlt (Nat.lt_irrefl _)
  | @up _ p n path hn hparent' h =>
    obtain rfl := Option.some.inj (hm.symm.trans hn)
    obtain rfl := Option.some.inj (hparent.symm.trans hparent')
    cases h with
    | here => rfl
    | @up _ q k _ hk' hparent'' h =>
      have hle := (h.root_le hk).1
      have hlt' := (hk.parent root q k hk' hparent'').1
      omega

theorem recompile_brokenOff (hw : Tended w) (hr : w.engine.notes.refused = []) {id home : Nat} {n : Node}
    {old source h : Value} (hn : w.nodes[id]? = some n) (hrole : n.role = .script home old)
    (hh : n.handle = some h)
    (hr' : (exec (Script.recompile E.watched id source) w).2.engine.notes.refused ≠ []) :
    ∃ before c rest t f w', exec (Script.recompile E.watched id source) w = (.error f, w') ∧
      Footprint w.nodes (fun b => ∃ k, w.nodes[b]? = some k ∧ k.role = .block id)
        (before ++ c :: rest) ∧
      tokenAt w.nodes c = some t ∧ BrokenOff (tokensOf w.nodes before) t w w' ∧
      Interrupted before c rest [id] w.nodes w'.nodes := by
  have hkind : n.role.kind ≠ .scope := by simp [hrole, Role.kind]
  obtain ⟨k, hk, hunwound⟩ := Tends.unwound_releaseOwned (E := E) hw.kin hn
  have hout : id ∉ below (pruned w.nodes) (w.nodes.length + 1) k :=
    not_mem_below hw.kin.thicket.forest (Nat.zero_le id) hk
  have htokens := hw.kin.tokens (below (pruned w.nodes) (w.nodes.length + 1) k)
  have hfoot : Footprint w.nodes (fun b => ∃ k, w.nodes[b]? = some k ∧ k.role = .block id)
      (below (pruned w.nodes) (w.nodes.length + 1) k) :=
    hw.kin.footprint_blocks (hw.listed hr) hn hkind hk (by omega)
  have hpairwise : (below (pruned w.nodes) (w.nodes.length + 1) k).Pairwise (Before w.nodes) :=
    hw.kin.below_pairwise hk
  cases hp : exec (releaseOwned E.watched id) w with
  | mk r w₁ =>
    rw [hp] at hunwound
    cases r with
    | ok u =>
      cases hunwound with
      | done given after aside =>
        have hn₁ : w₁.nodes[id]? = some { n with owned := [] } := by
          rw [after]
          simp [fell_getElem?, bare_getElem?, hn, hout]
        obtain ⟨w', hexec, hengine, -⟩ :=
          exec_recompile_ok source hn hh hp hn₁ hrole (Engine.noted_run ..)
        rw [hexec, hengine, Notes.add, Engine.giveBack_watched_ok htokens given] at hr'
        exact absurd (by simp [hr, EngineCall.refusal]) hr'
    | error f =>
      have hexec := exec_recompile_error source hn hh hp
      rw [hexec] at hr'
      obtain ⟨before, c, rest, path, t, f', hq, horder, htoken, hbroken, hline, hnodes⟩ :=
        hunwound.brokenOff htokens hr hr'
      rw [horder] at hfoot hpairwise hout
      obtain ⟨⟨m, hm, hblock⟩, -⟩ := (hfoot.mem_iff c).mp (by simp)
      obtain rfl := hline.of_block hw.kin hm hblock
      have hinterrupted := hw.kin.interrupted (hw.listed hr) hpairwise hfoot.nodup hline fun j hj =>
        ((hfoot.mem_iff j).mp (by simp [hj])).2
      rw [← bare_fell_bare (List.mem_singleton_self id), ← hnodes] at hinterrupted
      exact ⟨before, c, rest, t, f, w₁, hexec, hfoot, htoken, ⟨hbroken.calls, hbroken.refused⟩, hinterrupted⟩

/-- The handles of a call that are given back when it is released, those of its callbacks first. -/
def handlesOf (nodes : List Node) (order : List Nat) (call : Call) : List Token :=
  tokensOf nodes order ++ (Args.unreadBlocks call).map fun h => (.block, h)

theorem unwound_release {id : Nat} {n : Node} (call : Call) (hk : Kinship w.nodes)
    (hn : w.nodes[id]? = some n) :
    ∃ k, (pruned w.nodes)[id]? = some k ∧
      Unwound E.watched w.nodes id (below (pruned w.nodes) (w.nodes.length + 1) k) (fun ns => ns)
        { markReleased id call w with nodes := bare [id] (markReleased id call w).nodes }
        (exec (releaseOwned E.watched id) (markReleased id call w)) := by
  obtain ⟨k, hk', -⟩ := pruned_of hn
  have hunwound := unwound_releaseOwnedWith (E := E.watched) hk.thicket (unwinds_destroy hk.thicket)
    (Nat.zero_le id) hn hk' (by omega) (markReleased_self call hn) rfl
    (.modify w _ fun _ => lt_of_mem_below hk.thicket.forest (Nat.zero_le id) hk')
  exact ⟨k, hk', hunwound⟩

/-- Releasing arguments gives back their handles, and leaves them released and without callbacks. -/
theorem release_gives (hw : Tended w) (hr : w.engine.notes.refused = []) {id : Nat} {n : Node}
    {call : Call} (hn : w.nodes[id]? = some n) (hrole : n.role = .args call)
    (hopen : call.released = false) :
    ∃ order r w', exec (Args.release E.watched id) w = (r, w') ∧
      Footprint w.nodes (fun b => ∃ k, w.nodes[b]? = some k ∧ k.role = .block id) order ∧
      (E.watched.giveBack (handlesOf w.nodes order call)).run.run w.engine = (r, w'.engine) ∧
      w'.nodes[id]? = some { n with role := releasedRole call, owned := [] } := by
  have hexec := exec_release_open (E := E.watched) hn hrole hopen
  have hn₁ := markReleased_self call hn
  obtain ⟨k, hk, hunwound⟩ := unwound_release (E := E) call hw.kin hn
  have hkind : n.role.kind ≠ .scope := by simp [hrole, Role.kind]
  have hfoot : Footprint w.nodes (fun b => ∃ k, w.nodes[b]? = some k ∧ k.role = .block id)
      (below (pruned w.nodes) (w.nodes.length + 1) k) :=
    hw.kin.footprint_blocks (hw.listed hr) hn hkind hk (by omega)
  have hout : id ∉ below (pruned w.nodes) (w.nodes.length + 1) k :=
    not_mem_below hw.kin.thicket.forest (Nat.zero_le id) hk
  have hgives := hunwound.gives
  rw [show w.engine = (markReleased id call w).engine from rfl]
  rw [exec_bind] at hexec
  generalize exec (releaseOwned E.watched id) (markReleased id call w) = q at hunwound hgives hexec
  cases hunwound with
  | @done w₂ given after aside =>
    have hn₂ : w₂.nodes[id]? = some { n with role := releasedRole call, owned := [] } := by
      rw [after]
      simp [fell_getElem?, bare_getElem?, hn₁, hout]
    simp only [exec_bind, exec_callOf hn₂ rfl, exec_dropAll_any] at hexec
    refine ⟨_, _, _, hexec, hfoot, ?_, hn₂⟩
    rw [handlesOf, Engine.giveBack_append_run, given]
    rfl
  | @stuck before rest path c t s f w₂ split given token refused line after aside =>
    refine ⟨_, _, _, hexec, hfoot, ?_, ?_⟩
    · rw [handlesOf, Engine.giveBack_append_run, hgives]
    · rw [split] at hout
      have hgone : id ∉ before ++ [c] := fun hmem => hout (by
        rw [List.append_cons]
        exact List.mem_append_left _ hmem)
      rw [after, bare_fell_getElem?, bare_getElem?, hn₁]
      by_cases hpath : id ∈ path <;> simp [hgone, hpath]

theorem release_brokenOff (hw : Tended w) (hr : w.engine.notes.refused = []) {id : Nat} {n : Node}
    {call : Call} (hn : w.nodes[id]? = some n) (hrole : n.role = .args call) (hopen : call.released = false)
    (hr' : (exec (Args.release E.watched id) w).2.engine.notes.refused ≠ []) :
    ∃ order given t missing f w', exec (Args.release E.watched id) w = (.error f, w') ∧
      Footprint w.nodes (fun b => ∃ k, w.nodes[b]? = some k ∧ k.role = .block id) order ∧
      handlesOf w.nodes order call = given ++ t :: missing ∧ BrokenOff given t w w' ∧
      w'.nodes[id]? = some { n with role := releasedRole call, owned := [] } ∧
      ∀ (b : Nat) (k : Node), w'.nodes[b]? = some k → k.role = .block id → k.handle.isSome →
        Orphaned w'.nodes b := by
  obtain ⟨hw', -⟩ := Tends.release (E := E) hn (by rw [hrole]; rfl) hw
  obtain ⟨order, r, w', hexec, hfoot, hrun, hn'⟩ := release_gives (E := E) hw hr hn hrole hopen
  rw [hexec] at hr' hw'
  have hkinds : ∀ t ∈ handlesOf w.nodes order call, t.1 ≠ .args := by
    intro t ht
    rcases List.mem_append.mp ht with ht | ht
    · exact hw.kin.tokens _ t ht
    · obtain ⟨h, -, rfl⟩ := List.mem_map.mp ht
      exact nofun
  cases r with
  | ok u =>
    rw [Engine.giveBack_watched_ok hkinds hrun] at hr'
    exact absurd hr hr'
  | error f =>
    obtain ⟨given, t, missing, hsplit, hnotes⟩ := Engine.giveBack_watched_error hkinds hrun
    refine ⟨order, given, t, missing, f, w', hexec, hfoot, hsplit, ⟨by rw [hnotes], by rw [hnotes]⟩, hn', ?_⟩
    intro b k hb hblock hlive
    exact hw'.kin.orphaned hb hlive (by rw [hblock]; rfl) hn' rfl

/-- What the first refusal in a history leaves behind, when a resource is destroyed, a script recompiled or
the arguments of a call released. -/
theorem Reachable.refusal_orphans (hw : Reachable E w) (hr : w.engine.notes.refused = []) {id : Nat}
    {n : Node} (hn : w.nodes[id]? = some n) :
    (∀ h, n.handle = some h → (exec (Host.destroy E.watched id) w).2.engine.notes.refused ≠ [] →
      ∃ before c rest path t f w', exec (Host.destroy E.watched id) w = (.error f, w') ∧
        Footprint w.nodes (Descends w.nodes id) (before ++ c :: rest) ∧ Line w.nodes id c path ∧
        tokenAt w.nodes c = some t ∧ BrokenOff (tokensOf w.nodes before) t w w' ∧
        Interrupted before c rest path w.nodes w'.nodes ∧
        (c ≠ id → (exec (Host.destroy E.watched id) w').2.engine.notes.calls =
          w'.engine.notes.calls ++ [.drop (n.role.kind, h)])) ∧
    (∀ home old source h, n.role = .script home old → n.handle = some h →
      (exec (Script.recompile E.watched id source) w).2.engine.notes.refused ≠ [] →
      ∃ before c rest t f w', exec (Script.recompile E.watched id source) w = (.error f, w') ∧
        Footprint w.nodes (fun b => ∃ k, w.nodes[b]? = some k ∧ k.role = .block id)
          (before ++ c :: rest) ∧
        tokenAt w.nodes c = some t ∧ BrokenOff (tokensOf w.nodes before) t w w' ∧
        Interrupted before c rest [id] w.nodes w'.nodes) ∧
    ∀ call, n.role = .args call → call.released = false →
      (exec (Args.release E.watched id) w).2.engine.notes.refused ≠ [] →
      ∃ order given t missing f w', exec (Args.release E.watched id) w = (.error f, w') ∧
        Footprint w.nodes (fun b => ∃ k, w.nodes[b]? = some k ∧ k.role = .block id) order ∧
        handlesOf w.nodes order call = given ++ t :: missing ∧ BrokenOff given t w w' ∧
        w'.nodes[id]? = some { n with role := releasedRole call, owned := [] } ∧
        ∀ (b : Nat) (k : Node), w'.nodes[b]? = some k → k.role = .block id → k.handle.isSome →
          Orphaned w'.nodes b :=
  ⟨fun _ hh => destroy_brokenOff hw.tended hr hn hh,
    fun _ _ _ _ hrole hh => recompile_brokenOff hw.tended hr hn hrole hh,
    fun _ hrole hopen => release_brokenOff hw.tended hr hn hrole hopen⟩

/-- Two of the handles that this engine gives out it does not take back. -/
def Tickets.stubborn : Engine Tickets :=
  { engine with
    dropScript := fun
      | .int 2 => throw (.engineFault "busy")
      | h => drop .script h
    dropBlock := fun
      | .int 5 => throw (.engineFault "busy")
      | h => drop .block h }

namespace Tickets

/-- The world after the scope has been destroyed in vain. -/
def stricken : World embedding.watched :=
  (exec (Host.destroy stubborn.watched 0) (household stubborn)).2

/-- The world after the scope has then been destroyed once more. -/
def bereft : World embedding.watched :=
  (exec (Host.destroy stubborn.watched 0) stricken).2

theorem stricken_tended : Tended stricken := by
  have h : Tends (household stubborn) stricken := .destroy (S := embedding) 0
  exact (h (household_reachable stubborn).tended).1

theorem bereft_tended : Tended bereft := by
  have h : Tends stricken bereft := .destroy (S := embedding) 0
  exact (h stricken_tended).1

end Tickets

/-- One of these is that of a script, and the other that of a callback. -/
theorem refusal_orphans_household :
    (∃ before c rest path f w',
      exec (Host.destroy Tickets.stubborn.watched 0) (Tickets.household Tickets.stubborn) =
        (.error f, w') ∧
      Interrupted before c rest path (Tickets.household Tickets.stubborn).nodes w'.nodes) ∧
    ∃ before c rest f w',
      exec (Script.recompile Tickets.stubborn.watched 1 .null) (Tickets.household Tickets.stubborn) =
        (.error f, w') ∧
      Interrupted before c rest [1] (Tickets.household Tickets.stubborn).nodes w'.nodes := by
  have hscope : (Tickets.household Tickets.stubborn).nodes[0]? = some ⟨.scope (.int 0) .empty .empty,
      some (.int 0), [refOf 1 .script, refOf 2 .script]⟩ := by cbv
  have hscript : (Tickets.household Tickets.stubborn).nodes[1]? =
      some ⟨.script 0 (.str "f()"), some (.int 1), [refOf 3 .block, refOf 5 .block]⟩ := by cbv
  have hdestroyed : (exec (Host.destroy Tickets.stubborn.watched 0)
      (Tickets.household Tickets.stubborn)).2.engine.notes.refused = [(.script, .int 2)] := by cbv
  have hrecompiled : (exec (Script.recompile Tickets.stubborn.watched 1 .null)
      (Tickets.household Tickets.stubborn)).2.engine.notes.refused = [(.block, .int 5)] := by cbv
  obtain ⟨hdestroy, -⟩ :=
    Reachable.refusal_orphans (Tickets.household_reachable Tickets.stubborn) (by cbv) hscope
  obtain ⟨-, hrecompile, -⟩ :=
    Reachable.refusal_orphans (Tickets.household_reachable Tickets.stubborn) (by cbv) hscript
  obtain ⟨before, c, rest, path, t, f, w', hexec, -, -, -, -, hinterrupted, -⟩ :=
    hdestroy (.int 0) rfl (by simp [hdestroyed])
  obtain ⟨before', c', rest', t', f', w'', hexec', -, -, -, hinterrupted'⟩ :=
    hrecompile 0 (.str "f()") .null (.int 1) rfl rfl (by simp [hrecompiled])
  exact ⟨⟨before, c, rest, path, f, w', hexec, hinterrupted⟩, before', c', rest', f', w'', hexec',
    hinterrupted'⟩

/-- After such a fault the scope is destroyed before a script of it that still lives. -/
theorem destroy_again_strands_script :
    Tickets.stricken.engine.notes.refused = [(.script, .int 2)] ∧ Orphaned Tickets.stricken.nodes 1 ∧
      (exec (Host.destroy Tickets.stubborn.watched 0) Tickets.stricken).1 = .ok () ∧
      Tickets.bereft.engine.state.dropped = [(.scope, .int 0), (.block, .int 4)] ∧
      Orphaned Tickets.bereft.nodes 1 := by
  have hscript : Tickets.stricken.nodes[1]? =
      some ⟨.script 0 (.str "f()"), some (.int 1), [refOf 3 .block, refOf 5 .block]⟩ := by cbv
  have hscope : Tickets.stricken.nodes[0]? =
      some ⟨.scope (.int 0) .empty .empty, some (.int 0), []⟩ := by cbv
  have hscript' : Tickets.bereft.nodes[1]? =
      some ⟨.script 0 (.str "f()"), some (.int 1), [refOf 3 .block, refOf 5 .block]⟩ := by cbv
  have hscope' : Tickets.bereft.nodes[0]? = some ⟨.scope (.int 0) .empty .empty, none, []⟩ := by cbv
  refine ⟨by cbv, ?_, by cbv, by cbv, ?_⟩
  · exact Tickets.stricken_tended.kin.orphaned hscript rfl rfl hscope rfl
  · exact Tickets.bereft_tended.kin.orphaned hscript' rfl rfl hscope' rfl

end EngineHost
