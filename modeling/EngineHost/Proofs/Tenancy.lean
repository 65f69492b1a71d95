import EngineHost.Proofs.Isolation

/-!
Scripts come and go with the desk alone, and so does the whole namespace: whatever an operation is, the desk
settles what it does.
-/
namespace EngineHost

open Host

variable {S : Embedding} {P K : Type} {α : Type} {L : Compartments S.State P K} {d : Desk P K} {t : Tenant}
  {issued : Value} {w : World S} {E : Engine S.State} {C : Compartment P K}

namespace Desk

theorem In.made_get (h : d.In L t issued w) {k : Nat} (hk : k < d.made.length) :
    t.made[k]? = some (t.made.getD k 0) := by
  rw [List.getD_eq_getElem?_getD, List.getElem?_eq_getElem (h.length ▸ hk)]
  rfl

end Desk

/-! ### Scripts -/

/-- The last of a script: it has no handle any more, and the engine is asked to drop it. -/
def Host.Script.giveUp (E : Engine S.State) (id : ObjectId) : Host S Unit := do
  let handle ← liveHandle id
  modifyNode id fun n => { n with handle := none }
  write (.releasing .script handle)
  onEngine (E.dropScript handle)

/-- A script that owns nothing is given up and forgotten, however much nesting is allowed. -/
theorem exec_destroyWithin_script (E : Engine S.State) (fuel : Nat) {id : Nat} {home : ObjectId} {source : Value}
    {handle : Option Value} (hn : w.nodes[id]? = some ⟨.script home source, handle, []⟩) :
    exec (destroyWithin E (fuel + 1) id) w =
      exec (do Script.giveUp E id; disown home (refOf id .script)) w := by
  cases handle with
  | none =>
    rw [destroyWithin, Script.giveUp, bind_assoc, exec_bind, exec_bind, exec_liveHandle_gone hn rfl]
  | some handle =>
    have hself : w.nodes.modify id (fun n => { n with owned := [] }) = w.nodes := modify_self hn rfl
    have hnone : (w.nodes.modify id fun n => { n with handle := none })[id]? =
        some ⟨.script home source, none, []⟩ := by
      rw [List.getElem?_modify_eq, hn]
      rfl
    rw [destroyWithin, Script.giveUp, bind_assoc, exec_bind, exec_bind, exec_liveHandle hn rfl]
    simp only [releaseOwnedWith, takeOwned, bind_assoc, exec_bind, exec_node_some hn, exec_modifyNode, hself,
      exec_pure, List.reverse_nil, releaseEach]
    rw [exec_node_some hnone]
    rfl

namespace Desk.In

theorem exec_destroyWithin (h : d.In L t issued w) {k : Nat} (hk : k < d.made.length) (fuel : Nat) :
    exec (destroyWithin E (fuel + 1) (t.made.getD k 0)) w =
      exec (do Script.giveUp E (t.made.getD k 0); disown t.scope (t.ref k)) w := by
  obtain ⟨entry, handle, -, hnode, -⟩ := h.script k _ (h.made_get hk)
  exact exec_destroyWithin_script E fuel hnode

end Desk.In

/-- A script that is given up has no handle any more, also when the engine refuses. -/
theorem determined_giveUp (hE : Compartmented E C L) {k : Nat} (hk : k < d.made.length) :
    Determined L d fun t _ => Script.giveUp E (t.made.getD k 0) := by
  obtain ⟨⟨source, known⟩, hentry⟩ : ∃ entry, d.made[k]? = some entry :=
    ⟨d.made[k], List.getElem?_eq_getElem hk⟩
  cases known with
  | none =>
    refine .stay (.exact (.error (.host (.useAfterDestroy .script)))) fun t issued w h => ?_
    obtain ⟨entry, handle, hentry', hnode, hknown⟩ := h.script k _ (h.made_get hk)
    obtain rfl := Option.some.inj (hentry.symm.trans hentry')
    obtain rfl : handle = none := by simpa using hknown
    rw [Script.giveUp, exec_bind, exec_liveHandle_gone hnode rfl]
    exact ⟨_, rfl, rfl⟩
  | some name =>
    refine ⟨.exact ((C.dropScript name).run.run d.part).1,
      { d.fell k with part := ((C.dropScript name).run.run d.part).2 }, fun t issued w h => ?_,
      ⟨id, List.length_modify ..⟩⟩
    have hid := h.made_get hk
    obtain ⟨entry, handle, hentry', hnode, hknown⟩ := h.script k _ hid
    obtain rfl := Option.some.inj (hentry.symm.trans hentry')
    obtain ⟨handle, rfl, hname⟩ := Option.map_eq_some_iff.mp hknown
    obtain ⟨hlive, hdoes⟩ := hE.dropScript w.engine handle issued name h.valid hname
    rw [h.part] at hdoes
    -- No other script holds the handle, so what the engine forgets concerns this one alone.
    have hlost : ∀ i ∈ t.made, ∀ m other,
        (w.nodes.modify (t.made.getD k 0) fun n => { n with handle := none })[i]? = some m →
        m.handle = some other → ¬ other = handle := by
      rintro i hi m other hm hother rfl
      obtain ⟨hne, hm⟩ := Desk.held_of_felled hm hother
      exact hne (h.apart i hi _ (List.mem_iff_getElem?.mpr ⟨k, hid⟩) m _ other hm hnode hother rfl)
    have hrun : exec (Script.giveUp E (t.made.getD k 0)) w = exec (do
        modifyNode (t.made.getD k 0) fun n => { n with handle := none }
        write (.releasing .script handle)
        onEngine (E.dropScript handle)) w := by
      rw [Script.giveUp, exec_bind, exec_liveHandle hnode rfl]
    rw [hrun]
    have hin := (h.fell hid).turn hdoes.toBecomes hlost fun hl => hlive (h.live hl)
    have hfelled : Beside L t.scope issued w
        { w with nodes := w.nodes.modify (t.made.getD k 0) fun n => { n with handle := none } } :=
      .modify _ h.valid hnode (.inr rfl)
    exact ⟨hdoes.outcome, hin.congr rfl rfl, hfelled.trans (.turn hdoes.toAside rfl)⟩

theorem determined_disown {k : Nat} (hk : k < d.made.length) :
    Determined L d fun t _ => (disown t.scope (t.ref k) : Host S Unit) := by
  refine ⟨.exact (.ok ()), { d with owned := d.owned.erase k }, fun t issued w h => ?_, ⟨id, rfl⟩⟩
  have hwithout := h.withoutFirst_ref (h.made_get hk) h.owned
  refine ⟨rfl, h.rescope _ ?_ rfl rfl id fun j hj => List.mem_of_mem_erase hj, .modify _ h.valid h.scope (.inl rfl)⟩
  exact congrArg (Node.mk _ _) hwithout

theorem determined_destroy_script (hE : Compartmented E C L) {k : Nat} (hk : k < d.made.length) :
    Determined L d fun t _ => destroy E (t.made.getD k 0) := by
  have hboth : Determined L d fun t _ => (do Script.giveUp E (t.made.getD k 0); disown t.scope (t.ref k)) :=
    (determined_giveUp hE hk).bind fun _ _ hlater => determined_disown (hlater.made ▸ hk)
  exact hboth.congr fun t issued w h => h.exec_destroyWithin hk w.nodes.length

/-- Releasing scripts that a program has made. -/
theorem determined_releaseEach (hE : Compartmented E C L) {ks : List Nat} (hks : ∀ k ∈ ks, k < d.made.length) :
    Determined L d fun t _ => releaseEach (destroy E) (ks.map t.ref) := by
  induction ks generalizing d with
  | nil => exact .pure ()
  | cons k rest ih =>
    have hk := hks k List.mem_cons_self
    obtain ⟨⟨source, known⟩, hentry⟩ : ∃ entry, d.made[k]? = some entry :=
      ⟨d.made[k], List.getElem?_eq_getElem hk⟩
    have hfirst : Determined L d fun t _ =>
        if known.isSome then destroy E (t.made.getD k 0) else (pure () : Host S Unit) := by
      cases known with
      | none => exact .pure ()
      | some name => exact determined_destroy_script hE hk
    have hboth := hfirst.bind fun _ d₁ hlater =>
      ih (d := d₁) fun j hj => hlater.made ▸ hks j (List.mem_cons_of_mem _ hj)
    refine hboth.congr fun t issued w h => ?_
    obtain ⟨entry, handle, hentry', hnode, hknown⟩ := h.script k _ (h.made_get hk)
    obtain rfl := Option.some.inj (hentry.symm.trans hentry')
    have hlive : handle.isSome = known.isSome := by
      have hsome := congrArg Option.isSome hknown
      simpa using hsome
    have hresource : exec (resource (t.ref k)) w = (.ok (t.made.getD k 0, _), w) :=
      exec_resource hnode nofun
    rw [List.map_cons, releaseEach, exec_bind, hresource]
    cases known with
    | none =>
      obtain rfl : handle = none := by simpa using hlive
      rfl
    | some name =>
      obtain ⟨handle, rfl⟩ := Option.isSome_iff_exists.mp hlive
      rfl

/-- Releasing scripts comes to the same under every limit on the nesting that allows for them. -/
theorem Desk.In.exec_releaseEach (hE : Compartmented E C L) (fuel : Nat) {ks : List Nat}
    (h : d.In L t issued w) (hks : ∀ k ∈ ks, k < d.made.length) :
    exec (releaseEach (destroyWithin E (fuel + 1)) (ks.map t.ref)) w =
      exec (releaseEach (destroy E) (ks.map t.ref)) w := by
  induction ks generalizing d w with
  | nil => rfl
  | cons k rest ih =>
    have hk := hks k List.mem_cons_self
    obtain ⟨entry, handle, -, hnode, -⟩ := h.script k _ (h.made_get hk)
    have hresource : exec (resource (t.ref k)) w = (.ok (t.made.getD k 0, _), w) :=
      exec_resource hnode nofun
    have hsame : exec (destroyWithin E (fuel + 1) (t.made.getD k 0)) w = exec (destroy E (t.made.getD k 0)) w :=
      (h.exec_destroyWithin hk fuel).trans (h.exec_destroyWithin hk w.nodes.length).symm
    have hrest : ∀ {d₁ w₁}, d.Later d₁ → d₁.In L t issued w₁ →
        exec (releaseEach (destroyWithin E (fuel + 1)) (rest.map t.ref)) w₁ =
          exec (releaseEach (destroy E) (rest.map t.ref)) w₁ := fun hlater h₁ =>
      ih h₁ fun j hj => hlater.made ▸ hks j (List.mem_cons_of_mem _ hj)
    rw [List.map_cons, releaseEach, releaseEach, exec_bind, exec_bind, hresource]
    cases handle with
    | none => exact hrest (.refl d) h
    | some handle =>
      obtain ⟨v, d₁, hleads, hlater⟩ := determined_destroy_script hE hk
      have hleads := hleads t issued w h
      simp only [Option.isSome_some, if_true, exec_bind]
      rw [hsame]
      rcases hp : exec (destroy E (t.made.getD k 0)) w with ⟨outcome, w₁⟩
      rw [hp] at hleads
      cases outcome with
      | error f => rfl
      | ok u => exact hrest hlater hleads.2.1

/-! ### The namespace as a whole -/

/-- The last of a namespace: it has no handle any more, and the engine is asked to drop it. -/
def Host.Scope.giveUp (E : Engine S.State) (id : ObjectId) (handle : Value) : Host S Unit := do
  modifyNode id fun n => { n with handle := none }
  write (.releasing .scope handle)
  onEngine (E.dropScope handle)

theorem leads_giveUp (hE : Compartmented E C L) (hlive : d.isLive) :
    Leads L d (fun t issued => Scope.giveUp E t.scope issued) (.exact (C.drop.run.run d.part).1)
      { d with isLive := false, part := (C.drop.run.run d.part).2 } := by
  intro t issued w h
  have hdoes := hE.dropScope w.engine issued h.valid (h.live hlive)
  rw [h.part] at hdoes
  have hclosed : { d with isLive := false }.In L t issued
      { w with nodes := w.nodes.modify t.scope fun n => { n with handle := none } } :=
    h.rescope _ rfl rfl rfl nofun fun _ hk => hk
  have hbeside : Beside L t.scope issued w
      { w with nodes := w.nodes.modify t.scope fun n => { n with handle := none } } :=
    .modify _ h.valid h.scope (.inl rfl)
  have hin := hclosed.turn hdoes.toBecomes (fun _ _ _ _ _ _ h => h) nofun
  exact ⟨hdoes.outcome, hin.congr rfl rfl, hbeside.trans (.turn hdoes.toAside rfl)⟩

/-- The desk of a namespace that owns nothing any more. -/
def Desk.emptied (d : Desk P K) : Desk P K :=
  { d with owned := [] }

theorem Desk.In.exec_takeOwned (h : d.In L t issued w) :
    ∃ w₁, exec (takeOwned t.scope) w = (.ok (d.owned.map t.ref), w₁) ∧ w₁.nodes.length = w.nodes.length ∧
      d.emptied.In L t issued w₁ ∧ Beside L t.scope issued w w₁ := by
  refine ⟨_, ?_, ?_, h.rescope (fun n => { n with owned := [] }) rfl rfl rfl id nofun,
    .modify _ h.valid h.scope (.inl rfl)⟩
  · simp only [takeOwned, exec_bind, exec_node_some h.scope, exec_modifyNode, exec_pure]
    rfl
  · exact List.length_modify ..

/-- What destroying a live namespace comes to. -/
theorem Desk.In.exec_destroy (hE : Compartmented E C L) (h : d.In L t issued w) (hlive : d.isLive) :
    exec (destroy E t.scope) w = exec (do
      let owned ← takeOwned t.scope
      releaseEach (destroy E) owned.reverse
      Scope.giveUp E t.scope issued) w := by
  have hhandle : (d.node t issued).handle = some issued := by simp [Desk.node, hlive]
  have hdestroy : exec (destroy E t.scope) w = exec (destroyWithin E (w.nodes.length + 1) t.scope) w := rfl
  obtain ⟨w₁, htake, hlength, h₁, -⟩ := h.exec_takeOwned
  obtain ⟨fuel, hfuel⟩ : ∃ fuel, w.nodes.length = fuel + 1 :=
    Nat.exists_eq_succ_of_ne_zero (Nat.ne_of_gt (Nat.zero_lt_of_lt (List.getElem?_eq_some_iff.mp h.scope).1))
  have hbound : ∀ k ∈ d.owned.reverse, k < d.emptied.made.length := fun k hk =>
    h.length ▸ h.owned k (List.mem_reverse.mp hk)
  obtain ⟨v, d₂, hleads, -⟩ := determined_releaseEach hE hbound
  have hleads := hleads t issued w₁ h₁
  rw [hdestroy, destroyWithin, exec_bind, exec_liveHandle h.scope hhandle, exec_bind]
  simp only [releaseOwnedWith, exec_bind, htake]
  rw [← List.map_reverse, hfuel, h₁.exec_releaseEach hE fuel hbound]
  rcases hp : exec (releaseEach (destroy E) (d.owned.reverse.map t.ref)) w₁ with ⟨outcome, w₂⟩
  rw [hp] at hleads
  cases outcome with
  | error f => rfl
  | ok u =>
    have hscope : (w₂.nodes.modify t.scope fun n => { n with handle := none })[t.scope]? =
        some { d₂.node t issued with handle := none } := by
      rw [List.getElem?_modify_eq, hleads.2.1.scope]
      rfl
    simp only [exec_modifyNode]
    rw [exec_node_some hscope]
    simp only [Scope.giveUp, exec_bind, exec_modifyNode, dropHandle, Desk.node, Role.kind, Role.parent?]
    simp only [exec_write]
    generalize exec (onEngine (E.dropScope issued) : Host S Unit) _ = p
    rcases p with ⟨f | u, w₃⟩ <;> rfl

/-- A namespace that is destroyed releases its scripts, the last one first, and then itself. -/
theorem leads_destroy (hE : Compartmented E C L) : ∃ v d', Leads L d (fun t _ => destroy E t.scope) v d' := by
  cases hlive : d.isLive with
  | false =>
    refine ⟨.exact (.error (.host (.useAfterDestroy .scope))), d, fun t issued w h => ?_⟩
    have hgone : (d.node t issued).handle = none := by simp [Desk.node, hlive]
    have hrun : exec (destroy E t.scope) w = (.error (.host (.useAfterDestroy .scope)), w) := by
      have hdestroy : exec (destroy E t.scope) w = exec (destroyWithin E (w.nodes.length + 1) t.scope) w := rfl
      rw [hdestroy, destroyWithin, exec_bind, exec_liveHandle_gone h.scope hgone]
      rfl
    rw [hrun]
    exact ⟨rfl, h, .turn (.refl h.valid) rfl⟩
  | true =>
    by_cases hbound : ∀ k ∈ d.owned.reverse, k < d.emptied.made.length
    · obtain ⟨v₁, d₁, hrelease, hlater⟩ := determined_releaseEach hE hbound
      have hrelease' : Leads L d (fun t issued => do
          let owned ← takeOwned t.scope
          releaseEach (destroy E) owned.reverse) v₁ d₁ := by
        intro t issued w h
        obtain ⟨w₁, htake, -, h₁, hbeside⟩ := h.exec_takeOwned
        rw [exec_bind, htake]
        simp only [← List.map_reverse]
        obtain ⟨hmeets, hin, hbeside'⟩ := hrelease t issued w₁ h₁
        exact ⟨hmeets, hin, hbeside.trans hbeside'⟩
      obtain ⟨v, d', hleads, -⟩ := hrelease'.bind (R := fun _ => True) trivial fun _ =>
        ⟨_, _, leads_giveUp hE (hlater.live hlive), trivial⟩
      refine ⟨v, d', fun t issued w h => ?_⟩
      rw [h.exec_destroy hE hlive, ← bind_assoc]
      exact hleads t issued w h
    · refine ⟨.exact (.ok ()), d, fun t issued w h => absurd (fun k hk => ?_) hbound⟩
      exact h.length ▸ h.owned k (List.mem_reverse.mp hk)

/-! ### A new script -/

namespace Desk

/-- With one more script, which the namespace owns. -/
def grown (d : Desk P K) (source : Value) (name : K) : Desk P K :=
  { d with made := d.made ++ [(source, some name)], owned := d.owned ++ [d.made.length] }

end Desk

namespace Tenant

/-- A program that has made one more script. -/
def grown (t : Tenant) (id : ObjectId) : Tenant :=
  { t with made := t.made ++ [id] }

theorem ref_grown {id : ObjectId} {k : Nat} (hk : k < t.made.length) : (t.grown id).ref k = t.ref k := by
  have hget := List.getElem?_eq_getElem hk
  rw [ref_eq hget]
  exact ref_eq ((List.getElem?_append_left hk).trans hget)

theorem ref_grown_last {id : ObjectId} : (t.grown id).ref t.made.length = refOf id .script :=
  ref_eq List.getElem?_concat_length

end Tenant

namespace Desk

theorem node_grown {source : Value} {name : K} {id : ObjectId} (hlength : t.made.length = d.made.length)
    (howned : ∀ k ∈ d.owned, k < t.made.length) :
    (d.grown source name).node (t.grown id) issued =
      given (some t.scope) (refOf id .script) t.scope (d.node t issued) := by
  have hold : d.owned.map (t.grown id).ref = d.owned.map t.ref :=
    List.map_congr_left fun k hk => Tenant.ref_grown (howned k hk)
  rw [node, given, if_pos rfl]
  simp only [grown, List.map_append, List.map_singleton, hold, ← hlength, Tenant.ref_grown_last]
  rfl

/-- A new script is the only one with its handle. -/
theorem In.apart_grown (h : d.In L t issued w) {nodes : List Node} {new : ObjectId} {source handle : Value}
    (hnew : nodes[new]? = some ⟨.script t.scope source, some handle, []⟩)
    (hback : ∀ id ∈ t.made, ∀ n, nodes[id]? = some n → w.nodes[id]? = some n)
    (hfresh : ∀ id ∈ t.made, ∀ n other, w.nodes[id]? = some n → n.handle = some other → other ≠ handle) :
    ∀ id ∈ (t.grown new).made, ∀ id' ∈ (t.grown new).made, ∀ n n' other, nodes[id]? = some n →
      nodes[id']? = some n' → n.handle = some other → n'.handle = some other → id = id' := by
  have hsole : ∀ id ∈ t.made, ∀ n m other, nodes[id]? = some n → nodes[new]? = some m →
      n.handle = some other → m.handle = some other → False := by
    intro id hid n m other hn hm hother hother'
    obtain rfl := Option.some.inj (hnew.symm.trans hm)
    obtain rfl := Option.some.inj hother'
    exact hfresh id hid n _ (hback id hid n hn) hother rfl
  intro id hid id' hid' n n' other hn hn' hother hother'
  rcases List.mem_append.mp hid with hid | hid <;> rcases List.mem_append.mp hid' with hid' | hid'
  · exact h.apart id hid id' hid' n n' other (hback id hid n hn) (hback id' hid' n' hn') hother hother'
  · rw [List.mem_singleton.mp hid'] at hn'
    exact (hsole id hid n n' other hn hn' hother hother').elim
  · rw [List.mem_singleton.mp hid] at hn
    exact (hsole id' hid' n' n other hn' hn hother' hother).elim
  · rw [List.mem_singleton.mp hid, List.mem_singleton.mp hid']

/-- One more script: the desk grows with the program. -/
theorem In.grown (h : d.In L t issued w) {source handle : Value} {name : K} {nodes : List Node}
    (hnodes : nodes = adopted (some t.scope) (refOf w.nodes.length .script)
      (w.nodes ++ [⟨.script t.scope source, some handle, []⟩]))
    (hfresh : ∀ id ∈ t.made, ∀ n other, w.nodes[id]? = some n → n.handle = some other → other ≠ handle)
    (hname : L.script? w.engine handle = some (issued, name)) :
    (d.grown source name).In L (t.grown w.nodes.length) issued { w with nodes } := by
  have hlt := (List.getElem?_eq_some_iff.mp h.scope).1
  have hnew : nodes[w.nodes.length]? = some ⟨.script t.scope source, some handle, []⟩ := by
    rw [hnodes]
    exact added_new fun heq => Nat.ne_of_lt hlt (Option.some.inj heq)
  have hkept : ∀ (id : Nat) n, id ≠ t.scope → w.nodes[id]? = some n → nodes[id]? = some n := by
    intro id n hne hn
    rw [hnodes, added_old hn, given, if_neg fun heq => hne (Option.some.inj heq).symm]
  have hscript : ∀ id ∈ t.made, ∃ n, w.nodes[id]? = some n ∧ nodes[id]? = some n := by
    intro id hid
    obtain ⟨source, handle, hnode⟩ := h.script_node hid
    exact ⟨_, hnode, hkept id _ (h.scope_ne hid).symm hnode⟩
  have hadded : w.nodes.length ∉ t.made := by
    intro hid
    obtain ⟨n, hn, -⟩ := hscript _ hid
    exact Nat.lt_irrefl _ (List.getElem?_eq_some_iff.mp hn).1
  refine ⟨h.valid, h.live, h.part, ?_, ?_, ?_, ?_, ?_, ?_⟩
  · rw [node_grown h.length h.owned]
    have hscope : nodes[t.scope]? = _ := hnodes ▸ added_old h.scope
    exact hscope
  · simp [Tenant.grown, Desk.grown, h.length]
  · intro k id hk
    rcases Nat.lt_trichotomy k t.made.length with hlt' | rfl | hgt
    · have hk' : t.made[k]? = some id := (List.getElem?_append_left hlt').symm.trans hk
      obtain ⟨entry, handle', hentry, hnode, hknown⟩ := h.script k id hk'
      have hne := (h.scope_ne (List.mem_iff_getElem?.mpr ⟨k, hk'⟩)).symm
      exact ⟨entry, handle', (List.getElem?_append_left (h.length ▸ hlt')).trans hentry,
        hkept id _ hne hnode, hknown⟩
    · obtain rfl : w.nodes.length = id := Option.some.inj (List.getElem?_concat_length.symm.trans hk)
      refine ⟨(source, some name), some handle, ?_, hnew, congrArg some hname⟩
      rw [h.length]
      exact List.getElem?_concat_length
    · have hlt' := (List.getElem?_eq_some_iff.mp hk).1
      rw [Tenant.grown, List.length_append] at hlt'
      exact absurd hlt' (Nat.not_lt.mpr hgt)
  · exact List.nodup_append.mpr ⟨h.nodup, List.nodup_singleton _, fun id hid id' hid' heq =>
      hadded (List.mem_singleton.mp hid' ▸ heq ▸ hid)⟩
  · refine h.apart_grown hnew (fun id hid n hn => ?_) hfresh
    obtain ⟨n', hold, hnow⟩ := hscript id hid
    rw [hold, ← hnow, hn]
  · intro k hk
    rw [Tenant.grown, List.length_append]
    rcases List.mem_append.mp hk with hk | hk
    · exact Nat.lt_succ_of_lt (h.owned k hk)
    · rw [List.mem_singleton.mp hk, h.length]
      exact Nat.lt_succ_self _

end Desk

/-- A handle that the engine does not know is held by no script. -/
theorem Desk.In.fresh (h : d.In L t issued w) {handle : Value} (hunknown : L.script? w.engine handle = none) :
    ∀ id ∈ t.made, ∀ n other, w.nodes[id]? = some n → n.handle = some other → other ≠ handle := by
  rintro id hid n other hn hother rfl
  obtain ⟨k, hk⟩ := List.mem_iff_getElem?.mp hid
  obtain ⟨entry, handle', -, hnode, hknown⟩ := h.script k id hk
  obtain rfl := Option.some.inj (hn.symm.trans hnode)
  obtain rfl : handle' = some other := hother
  rw [Option.map_some, hunknown] at hknown
  cases hname : entry.2 <;> simp [hname] at hknown

theorem Beside.adopted {scope : ObjectId} (v : Value) (new : Node) (hvalid : L.valid w.engine) :
    Beside L scope issued w { w with nodes := Host.adopted (some scope) v (w.nodes ++ [new]) } where
  nodes := by
    intro id n hn hne _
    have hgiven : given (some scope) v id n = n := by
      rw [given, if_neg fun heq => hne (Option.some.inj heq).symm]
    exact (added_old hn).trans (congrArg some hgiven)
  engine := .refl hvalid

/-- What compiling comes to in a live namespace. -/
theorem Desk.In.exec_compile (h : d.In L t issued w) (hlive : d.isLive) {source : Value} {s' : S.State}
    {r : Except Failure Value} (hrun : (E.compile issued source).run.run w.engine = (r, s'))
    (hnull : ∀ handle, r = .ok handle → handle ≠ .null) :
    ∃ log, exec (Scope.compile E t.scope source) w =
      match r with
      | .ok handle => (.ok w.nodes.length, { w with
          engine := s'
          nodes := adopted (some t.scope) (refOf w.nodes.length .script)
            (w.nodes ++ [⟨.script t.scope source, some handle, []⟩])
          log })
      | .error f => (.error f, { w with engine := s' }) := by
  have hhandle : (d.node t issued).handle = some issued := by simp [Desk.node, hlive]
  have hnode : (d.node t issued).isLive := by simp [Desk.node, Node.isLive, hlive]
  rw [Scope.compile, exec_bind, exec_liveHandle h.scope hhandle]
  simp only [exec_bind (onEngine _), exec_onEngine, hrun]
  cases r with
  | error f => exact ⟨[], rfl⟩
  | ok handle =>
    simp only [handleOf_ne_null (hnull handle rfl)]
    exact ⟨_, exec_addNode_adopt (.script t.scope source) (w := { w with engine := s' }) h.scope hnode rfl
      fun script => do write (.compiled handle issued); pure script⟩

end EngineHost
