import Mathlib
import EngineHost.Proofs.ScriptedScopes
import EngineHost.Proofs.Tenancy

/-!
Namespaces on one engine do not interfere. Each program gets from its operations what it would get alone,
in whatever order the programs take their turns.
-/
namespace EngineHost

open Host

variable {S : Embedding} {P K : Type} {α β : Type} {L : Compartments S.State P K} {E : Engine S.State}
  {C : Compartment P K}

/-! ### One operation -/

/-- What an operation comes to and leaves behind is settled by the desk. -/
def Decided (L : Compartments S.State P K) (E : Engine S.State) (d : Desk P K) (op : Errand S.Body) : Prop :=
  ∃ (v : Verdict Answer) (d' : Desk P K), ∀ t issued w, d.In L t issued w →
    let (outcome, t', w') := t.ask E op w
    v.Meets S outcome ∧ t'.scope = t.scope ∧ d'.In L t' issued w' ∧ Beside L t.scope issued w w'

section Errand

variable {d : Desk P K}

theorem Tenant.ask_map {op : Errand S.Body} {t : Tenant} {x : Host S α} (f : α → Answer)
    (hperform : t.perform E op = (fun a => (f a, t)) <$> x) (w : World S) :
    t.ask E op w = ((exec x w).1.map f, t, (exec x w).2) := by
  rw [Tenant.ask, hperform, exec_map]
  rcases exec x w with ⟨r, w'⟩
  cases r <;> rfl

/-- An operation that makes no script. -/
theorem Decided.of_leads {op : Errand S.Body} {x : Tenant → Host S α} (f : α → Answer)
    (hx : ∃ v d', Leads L d (fun t _ => x t) v d')
    (hperform : ∀ t : Tenant, t.perform E op = (fun a => (f a, t)) <$> x t) : Decided L E d op := by
  obtain ⟨v, d', hx⟩ := hx
  refine ⟨v.map f, d', fun t issued w h => ?_⟩
  rw [Tenant.ask_map f (hperform t)]
  obtain ⟨hmeets, hin, hbeside⟩ := hx t issued w h
  exact ⟨hmeets.map f, rfl, hin, hbeside⟩

theorem Determined.leads {x : Tenant → Value → Host S α} (h : Determined L d x) : ∃ v d', Leads L d x v d' := by
  obtain ⟨v, d', hleads, -⟩ := h
  exact ⟨v, d', hleads⟩

/-- A program that speaks of a script by its number. -/
theorem Determined.script {k : Nat} {x : ObjectId → Tenant → Value → Host S α}
    (hx : k < d.made.length → Determined L d fun t issued => x (t.made.getD k 0) t issued) :
    Determined L d fun t issued => t.script k >>= fun id => x id t issued := by
  by_cases hk : k < d.made.length
  · refine (hx hk).congr fun t issued w h => ?_
    rw [Tenant.script, h.made_get hk]
    rfl
  · refine Determined.congr (.fail (.shape .emptySequence)) fun t issued w h => ?_
    have hnone : t.made[k]? = none := List.getElem?_eq_none (h.length ▸ Nat.not_lt.mp hk)
    rw [Tenant.script, hnone, exec_bind, exec_fail_shown, exec_fail_shown]

theorem determined_scriptOf {k : Nat} (hk : k < d.made.length) :
    Determined L d fun t _ => (Prod.snd <$> Script.scriptOf (t.made.getD k 0) : Host S Value) := by
  refine .stay (.exact (.ok d.made[k].1)) fun t issued w h => ?_
  obtain ⟨entry, handle, hentry, hnode, -⟩ := h.script k _ (h.made_get hk)
  obtain rfl := Option.some.inj ((List.getElem?_eq_getElem hk).symm.trans hentry)
  have hrun : exec (Script.scriptOf (t.made.getD k 0)) w = (.ok (t.scope, d.made[k].1), w) := by
    rw [Script.scriptOf, exec_bind, exec_node_some hnode]
    rfl
  rw [exec_map, hrun]
  exact ⟨_, rfl, rfl⟩

theorem Desk.In.scripts_node {t : Tenant} {issued : Value} {w : World S} (h : d.In L t issued w) :
    (d.node t issued).scripts.map t.made.idxOf = d.owned := by
  have hscripts : (d.node t issued).scripts = d.owned.map fun k => t.made.getD k 0 := by
    rw [Node.scripts, Desk.node, List.filterMap_map]
    exact List.filterMap_eq_map ▸ rfl
  rw [hscripts, List.map_map]
  refine (List.map_congr_left fun k hk => ?_).trans (List.map_id _)
  have hlt := h.owned k hk
  show t.made.idxOf (t.made.getD k 0) = k
  rw [List.getD_eq_getElem?_getD, List.getElem?_eq_getElem hlt]
  exact h.nodup.idxOf_getElem k hlt

theorem determined_scripts :
    Determined L d fun t _ => ((·.map t.made.idxOf) <$> Scope.scripts t.scope : Host S (List Nat)) := by
  refine .stay (.exact (.ok d.owned)) fun t issued w h => ?_
  have hrun : exec (Scope.scripts t.scope) w = (.ok (d.node t issued).scripts, w) := by
    rw [Scope.scripts, exec_bind, exec_node_some h.scope]
    rfl
  rw [exec_map, hrun]
  exact ⟨_, rfl, congrArg Except.ok h.scripts_node⟩

theorem Tenant.ask_compile (t : Tenant) (source : Value) (w : World S) :
    t.ask E (.compile source) w =
      match exec (Scope.compile E t.scope source) w with
      | (.ok id, w') => (.ok (.script t.made.length), t.grown id, w')
      | (.error f, w') => (.error f, t, w') := by
  rw [Tenant.ask, Tenant.perform, exec_bind]
  rcases exec (Scope.compile E t.scope source) w with ⟨r, w'⟩
  cases r <;> rfl

/-- The engine compiles as it would in that scope alone. -/
theorem Desk.In.compile (hE : Compartmented E C L) {t : Tenant} {issued : Value} {w : World S}
    (h : d.In L t issued w) (hlive : d.isLive) {source : Value} {q : Except Failure K} {p : P}
    (hq : (C.compile source).run.run d.part = (q, p)) :
    ∃ r s', (E.compile issued source).run.run w.engine = (r, s') ∧ L.live s' issued ∧
      L.Becomes issued (fun _ => False) p w.engine s' ∧
      r.map (L.script? s') = q.map (fun k => some (issued, k)) ∧
      ∀ script, r = .ok script → script ≠ .null ∧ L.script? w.engine script = none := by
  have hlaw := hE.compile w.engine issued source h.valid (h.live hlive)
  rw [h.part, hq] at hlaw
  exact ⟨_, _, rfl, hlaw⟩

theorem decided_compile (hE : Compartmented E C L) (source : Value) : Decided L E d (.compile source) := by
  cases hlive : d.isLive with
  | false =>
    refine ⟨.exact (.error (.host (.useAfterDestroy .scope))), d, fun t issued w h => ?_⟩
    have hgone : (d.node t issued).handle = none := by simp [Desk.node, hlive]
    have hrun : exec (Scope.compile E t.scope source) w = (.error (.host (.useAfterDestroy .scope)), w) := by
      rw [Scope.compile, exec_bind, exec_liveHandle_gone h.scope hgone]
      rfl
    rw [Tenant.ask_compile, hrun]
    exact ⟨rfl, rfl, h, .turn (.refl h.valid) rfl⟩
  | true =>
    rcases hq : (C.compile source).run.run d.part with ⟨q, p⟩
    cases q with
    | error f =>
      refine ⟨.exact (.error f), { d with part := p }, fun t issued w h => ?_⟩
      obtain ⟨r, s', hr, hlive', hbecomes, hmap, hnew⟩ := h.compile hE hlive hq
      cases r with
      | ok handle => cases hmap
      | error g =>
        obtain rfl : g = f := Except.error.inj hmap
        obtain ⟨log, hrun⟩ := h.exec_compile hlive hr (by rintro _ ⟨⟩)
        rw [Tenant.ask_compile, hrun]
        exact ⟨rfl, rfl, h.turn hbecomes (fun _ _ _ _ _ _ h => h) fun _ => hlive', .turn hbecomes.toAside rfl⟩
    | ok name =>
      refine ⟨.exact (.ok (.script d.made.length)), { d with part := p }.grown source name,
        fun t issued w h => ?_⟩
      obtain ⟨r, s', hr, hlive', hbecomes, hmap, hnew⟩ := h.compile hE hlive hq
      cases r with
      | error g => cases hmap
      | ok handle =>
        have hname : L.script? s' handle = some (issued, name) := Except.ok.inj hmap
        obtain ⟨hnull, hunknown⟩ := hnew handle rfl
        obtain ⟨log, hrun⟩ := h.exec_compile hlive hr fun handle' heq => Except.ok.inj heq ▸ hnull
        have h₁ := h.turn hbecomes (fun _ _ _ _ _ _ h => h) fun _ => hlive'
        have hgrown : ({ d with part := p }.grown source name).In L (t.grown w.nodes.length) issued _ :=
          h₁.grown rfl (h.fresh hunknown) hname
        have hturn : Beside L t.scope issued w { w with engine := s' } := .turn hbecomes.toAside rfl
        have hbeside := hturn.trans (.adopted (refOf w.nodes.length .script)
          ⟨.script t.scope source, some handle, []⟩ hbecomes.valid)
        have hnumber : (Except.ok (.script t.made.length) : Except Failure Answer) = .ok (.script d.made.length) :=
          congrArg (fun k => Except.ok (Answer.script k)) h.length
        rw [Tenant.ask_compile, hrun]
        exact ⟨hnumber, rfl, hgrown.congr rfl rfl, hbeside.nodes, hbeside.engine⟩

/-- Whatever the operation is. -/
theorem decided (hE : Compartmented E C L) (d : Desk P K) (op : Errand S.Body) : Decided L E d op := by
  cases op with
  | defineType name expr =>
    exact .of_leads .type (determined_defineType name expr).leads fun t => by
      rw [Tenant.perform, map_eq_pure_bind]
  | define build =>
    exact .of_leads (fun s => .signature (some s)) (determined_define hE build).leads fun t => by
      rw [Tenant.perform, map_eq_pure_bind]
  | getSignature name =>
    exact .of_leads .signature (determined_getSignature hE name).leads fun t => by
      rw [Tenant.perform, map_eq_pure_bind]
  | compile source => exact decided_compile hE source
  | source k =>
    have hsource : Determined L d fun t _ => t.script k >>= fun id => Prod.snd <$> Script.scriptOf id :=
      .script determined_scriptOf
    exact .of_leads .source hsource.leads fun t => by
      simp only [Tenant.perform, map_eq_pure_bind, bind_assoc, pure_bind]
  | scripts =>
    exact .of_leads .scripts determined_scripts.leads fun t => by
      simp only [Tenant.perform, map_eq_pure_bind, bind_assoc, pure_bind]
  | destroyScript k =>
    have hdestroy : Determined L d fun t _ => t.script k >>= fun id => destroy E id :=
      .script (determined_destroy_script hE)
    exact .of_leads (fun _ => .done) hdestroy.leads fun t => by
      simp only [Tenant.perform, map_eq_pure_bind, bind_assoc]
  | destroy =>
    exact .of_leads (fun _ => .done) (leads_destroy hE) fun t => by
      rw [Tenant.perform, map_eq_pure_bind]

end Errand

/-! ### Programs that take turns -/

section Sharing

variable {ι : Type} [DecidableEq ι]

theorem turnsOf_cons (i j : ι) (a : α) (rest : List (ι × α)) :
    turnsOf i ((j, a) :: rest) = if j = i then a :: turnsOf i rest else turnsOf i rest := by
  by_cases h : j = i <;> simp [turnsOf, h]

/-- The desks of several programs, side by side in one world. -/
structure Neighbours (L : Compartments S.State P K) (tenants : ι → Tenant) (issued : ι → Value)
    (desks : ι → Desk P K) (w : World S) : Prop where
  desk : ∀ i, (desks i).In L (tenants i) (issued i) w
  scopes : ∀ i j, i ≠ j → (tenants i).scope ≠ (tenants j).scope
  handles : ∀ i j, i ≠ j → issued i ≠ issued j

/-- An operation of one program changes its desk and no other. -/
theorem Neighbours.step {tenants : ι → Tenant} {issued : ι → Value} {desks : ι → Desk P K} {w w' : World S}
    (h : Neighbours L tenants issued desks w) (i : ι) {t' : Tenant} {d' : Desk P K}
    (hscope : t'.scope = (tenants i).scope) (hin : d'.In L t' (issued i) w')
    (hbeside : Beside L (tenants i).scope (issued i) w w') :
    Neighbours L (Function.update tenants i t') issued (Function.update desks i d') w' where
  desk := by
    intro j
    by_cases hj : j = i
    · subst hj
      rw [Function.update_self, Function.update_self]
      exact hin
    · rw [Function.update_of_ne hj, Function.update_of_ne hj]
      exact (h.desk j).beside hbeside (h.scopes j i hj) (h.handles j i hj)
        ((h.desk j).other_scope (h.desk i).scope rfl)
  scopes := by
    have hsame : ∀ j, (Function.update tenants i t' j).scope = (tenants j).scope := by
      intro j
      by_cases hj : j = i
      · subst hj
        rw [Function.update_self, hscope]
      · rw [Function.update_of_ne hj]
    intro j k hjk
    rw [hsame, hsame]
    exact h.scopes j k hjk
  handles := h.handles

/-- What one of several programs gets is what it would get alone, from the same desk in another world. -/
theorem Neighbours.as_alone (hE : Compartmented E C L) (i : ι) (turns : List (ι × Errand S.Body))
    {tenants : ι → Tenant} {issued : ι → Value} {desks : ι → Desk P K} {w u : World S} {t : Tenant}
    {issued' : Value} (h : Neighbours L tenants issued desks w) (hu : (desks i).In L t issued' u) :
    let (outcomes, tenants', w') := together E tenants turns w
    let (outcomes', t', u') := t.alone E (turnsOf i turns) u
    List.Forall₂ (Alike S) (turnsOf i outcomes) outcomes' ∧
      ∃ d' : Desk P K, d'.In L (tenants' i) (issued i) w' ∧ d'.In L t' issued' u' := by
  induction turns generalizing tenants desks w u t with
  | nil => exact ⟨.nil, desks i, h.desk i, hu⟩
  | cons turn rest ih =>
    obtain ⟨j, op⟩ := turn
    obtain ⟨v, d', hdecided⟩ := decided hE (desks j) op
    obtain ⟨hmeets, hscope, hin, hbeside⟩ := hdecided (tenants j) (issued j) w (h.desk j)
    have hnext := h.step j hscope hin hbeside
    by_cases hj : j = i
    · subst hj
      obtain ⟨hmeets', -, hin', -⟩ := hdecided t issued' u hu
      have hrest := ih (u := (t.ask E op u).2.2) (t := (t.ask E op u).2.1) hnext
        (by rw [Function.update_self]; exact hin')
      rw [turnsOf_cons, if_pos rfl]
      simp only [together, Tenant.alone, turnsOf_cons, if_true]
      exact ⟨.cons (hmeets.alike hmeets') hrest.1, hrest.2⟩
    · have hrest := ih (u := u) (t := t) hnext
        (by rw [Function.update_of_ne (Ne.symm hj)]; exact hu)
      rw [turnsOf_cons, if_neg hj]
      simp only [together, turnsOf_cons, if_neg hj]
      exact hrest

end Sharing

/-! ### What a desk shows -/

theorem mapM_of_getElem? {f : α → Option β} {as : List α} {bs : List β} (hlength : as.length = bs.length)
    (h : ∀ (k : Nat) a, as[k]? = some a → ∃ b, bs[k]? = some b ∧ f a = some b) : as.mapM f = some bs := by
  induction as generalizing bs with
  | nil =>
    obtain rfl := List.length_eq_zero_iff.mp hlength.symm
    rfl
  | cons a rest ih =>
    cases bs with
    | nil => cases hlength
    | cons b bs =>
      obtain ⟨b', hb, hfa⟩ := h 0 a rfl
      obtain rfl := Option.some.inj hb
      have hrest := ih (Nat.succ.inj hlength) fun k a hk => h (k + 1) a hk
      rw [List.mapM_cons, hfa, hrest]
      rfl

/-- No handle stands in two places. -/
def Sole (xs : List (Option Value)) : Prop :=
  ∀ (k k' : Nat) h, xs[k]? = some (some h) → xs[k']? = some (some h) → k = k'

/-- Lists of handles with gaps in the same places are renamings of each other. -/
theorem Renamed.of_sole {xs ys : List (Option Value)} (hgaps : xs.map Option.isSome = ys.map Option.isSome)
    (hxs : Sole xs) (hys : Sole ys) : Renamed xs ys := by
  classical
  have hpair : ∀ (k : Nat) y, ys[k]? = some y → ∃ x, xs[k]? = some x ∧ x.isSome = y.isSome := by
    intro k y hk
    have hget : (xs.map Option.isSome)[k]? = some y.isSome := by
      rw [hgaps, List.getElem?_map, hk]
      rfl
    rw [List.getElem?_map] at hget
    exact Option.map_eq_some_iff.mp hget
  let rename (h : Value) : Value :=
    if hk : ∃ k : Nat, ys[k]? = some (some h) then ((xs[hk.choose]?).join).getD .null else .null
  have hrename : ∀ (k : Nat) h, ys[k]? = some (some h) → xs[k]? = some (some (rename h)) := by
    intro k h hk
    have hex : ∃ k : Nat, ys[k]? = some (some h) := ⟨k, hk⟩
    have hchoose : hex.choose = k := hys _ _ h hex.choose_spec hk
    obtain ⟨x, hx, hsome⟩ := hpair k (some h) hk
    obtain ⟨h', rfl⟩ := Option.isSome_iff_exists.mp hsome
    have hval : rename h = h' := by
      simp only [rename, dif_pos hex, hchoose, hx]
      rfl
    rw [hval, hx]
  refine ⟨rename, ?_, List.ext_getElem? fun k => ?_⟩
  · intro h hh h' hh' heq
    obtain ⟨k, hk⟩ := List.mem_iff_getElem?.mp hh
    obtain ⟨k', hk'⟩ := List.mem_iff_getElem?.mp hh'
    have hsame := hxs k k' (rename h) (hrename k h hk) (heq ▸ hrename k' h' hk')
    subst hsame
    exact Option.some.inj (Option.some.inj (hk.symm.trans hk'))
  · rw [List.getElem?_map]
    cases hk : ys[k]? with
    | none =>
      have hlength : xs.length = ys.length := by simpa using congrArg List.length hgaps
      exact List.getElem?_eq_none (hlength ▸ List.getElem?_eq_none_iff.mp hk)
    | some y =>
      cases y with
      | none =>
        obtain ⟨x, hx, hnone⟩ := hpair k none hk
        obtain rfl : x = none := by simpa using hnone
        exact hx
      | some h => exact hrename k h hk

namespace Desk

variable {d : Desk P K} {t : Tenant} {issued : Value} {w : World S}

def appearance (d : Desk P K) : Appearance :=
  ⟨d.isLive, d.types.aliases, d.symbols.ids, d.symbols.names, d.made.map fun e => (e.1, e.2.isSome), d.owned⟩

namespace In

theorem appearance? (h : d.In L t issued w) : t.appearance? w = some d.appearance := by
  have hmade : t.made.mapM (Tenant.scriptAppearance? w) = some (d.made.map fun e => (e.1, e.2.isSome)) := by
    refine mapM_of_getElem? (by rw [List.length_map, h.length]) fun k id hk => ?_
    obtain ⟨entry, handle, hentry, hnode, hknown⟩ := h.script k id hk
    have hsome : handle.isSome = entry.2.isSome := by simpa using congrArg Option.isSome hknown
    refine ⟨(entry.1, entry.2.isSome), by rw [List.getElem?_map, hentry]; rfl, ?_⟩
    simp [Tenant.scriptAppearance?, hnode, hsome]
  have hlive : (d.node t issued).handle.isSome = d.isLive := by cases hd : d.isLive <;> simp [Desk.node, hd]
  have howned := h.scripts_node
  simp only [Tenant.appearance?, h.scope, Option.bind_eq_bind, Option.bind_some]
  rw [hlive, howned]
  simp only [Desk.node, hmade, Option.bind_some]
  rfl

/-- The handle of a script by its number. -/
theorem handle_at (h : d.In L t issued w) {k : Nat} {x : Option Value} (hk : (t.handles w)[k]? = some x) :
    ∃ (id : Nat) (n : Node) (entry : Value × Option K), t.made[k]? = some id ∧ w.nodes[id]? = some n ∧
      n.handle = x ∧ d.made[k]? = some entry ∧ x.isSome = entry.2.isSome := by
  rw [Tenant.handles, List.getElem?_map] at hk
  obtain ⟨id, hid, rfl⟩ := Option.map_eq_some_iff.mp hk
  obtain ⟨entry, handle, hentry, hnode, hknown⟩ := h.script k id hid
  have hbind : (w.nodes[id]?).bind Node.handle = handle := by rw [hnode]; rfl
  refine ⟨id, _, entry, hid, hnode, hbind.symm, hentry, ?_⟩
  rw [hbind]
  simpa using congrArg Option.isSome hknown

theorem handles_gaps (h : d.In L t issued w) :
    (t.handles w).map Option.isSome = d.made.map fun e => e.2.isSome := by
  have hlength : (t.handles w).length = d.made.length := (List.length_map _).trans h.length
  refine List.ext_getElem? fun k => ?_
  rw [List.getElem?_map, List.getElem?_map]
  cases hk : (t.handles w)[k]? with
  | none =>
    rw [List.getElem?_eq_none (hlength ▸ List.getElem?_eq_none_iff.mp hk)]
    rfl
  | some x =>
    obtain ⟨-, -, entry, -, -, -, hentry, hsome⟩ := h.handle_at hk
    rw [hentry]
    exact congrArg some hsome

theorem handles_sole (h : d.In L t issued w) : Sole (t.handles w) := by
  intro k k' handle hk hk'
  obtain ⟨id, n, -, hid, hn, hhandle, -, -⟩ := h.handle_at hk
  obtain ⟨id', n', -, hid', hn', hhandle', -, -⟩ := h.handle_at hk'
  have hsame : id = id' := h.apart id (List.mem_iff_getElem?.mpr ⟨k, hid⟩) id'
    (List.mem_iff_getElem?.mpr ⟨k', hid'⟩) n n' handle hn hn' hhandle hhandle'
  exact h.index hid (hsame ▸ hid')

end In

end Desk

/-! ### Two namespaces -/

def Compartment.desk (C : Compartment P K) : Desk P K :=
  ⟨true, .empty, .empty, C.blank, [], []⟩

theorem exec_create {w : World S} {r : Except Failure Value} {s' : S.State}
    (hr : E.allocScope.run.run w.engine = (r, s')) :
    ∃ log, exec (Scope.create E) w =
      match r with
      | .ok handle => (.ok w.nodes.length, { w with
          engine := s'
          nodes := w.nodes ++ [⟨.scope handle .empty .empty, handleOf handle, []⟩]
          log })
      | .error f => (.error f, { w with engine := s' }) := by
  rw [Scope.create, exec_bind, exec_onEngine, hr]
  cases r with
  | error f => exact ⟨[], rfl⟩
  | ok handle => exact ⟨_, rfl⟩

/-- A new namespace begins with the blank desk, under a handle that no scope has. -/
theorem create_in (hE : Compartmented E C L) {w w' : World S} {id : ObjectId} (hvalid : L.valid w.engine)
    (hcreate : exec (Scope.create E) w = (.ok id, w')) :
    ∃ issued, C.desk.In L ⟨id, []⟩ issued w' ∧ ¬ L.live w.engine issued ∧ id = w.nodes.length ∧
      Beside L id issued w w' := by
  rcases hr : E.allocScope.run.run w.engine with ⟨r, s'⟩
  have hlaw := hE.allocScope w.engine hvalid
  rw [hr] at hlaw
  obtain ⟨log, hrun⟩ := exec_create hr
  rw [hcreate] at hrun
  cases r with
  | error f => cases hrun
  | ok issued =>
    obtain ⟨hnull, hunknown, hlive, hblank, haside⟩ := hlaw issued rfl
    obtain ⟨hid, rfl⟩ := Prod.mk.inj hrun
    obtain rfl := Except.ok.inj hid
    rw [handleOf_ne_null hnull]
    refine ⟨issued, ?_, hunknown, rfl, ?_, haside⟩
    · exact {
        valid := haside.valid
        live := fun _ => hlive
        part := hblank
        scope := List.getElem?_concat_length
        length := rfl
        script := nofun
        nodup := List.nodup_nil
        apart := nofun
        owned := nofun }
    · intro i n hn _ _
      exact (List.getElem?_append_left (List.getElem?_eq_some_iff.mp hn).1).trans hn

/-- Two new namespaces stand side by side. -/
theorem create_both (hE : Compartmented E C L) {w₀ w₁ w₂ : World S} {a b : ObjectId} (hw : L.valid w₀.engine)
    (ha : exec (Scope.create E) w₀ = (.ok a, w₁)) (hb : exec (Scope.create E) w₁ = (.ok b, w₂)) :
    ∃ issued : Bool → Value,
      Neighbours L (fun second => ⟨if second then b else a, []⟩) issued (fun _ => C.desk) w₂ := by
  obtain ⟨issued_a, hin_a, -, -, -⟩ := create_in hE hw ha
  obtain ⟨issued_b, hin_b, hfresh, hlast, hbeside⟩ := create_in hE hin_a.valid hb
  have hscopes : a ≠ b := by
    rw [hlast]
    exact Nat.ne_of_lt (List.getElem?_eq_some_iff.mp hin_a.scope).1
  have hhandles : issued_a ≠ issued_b := by
    rintro rfl
    exact hfresh (hin_a.live rfl)
  refine ⟨fun second => if second then issued_b else issued_a, ?_, ?_, ?_⟩
  · intro second
    cases second with
    | false => exact hin_a.beside hbeside hscopes hhandles List.not_mem_nil
    | true => exact hin_b
  · intro i j hij
    cases i <;> cases j <;> first | exact absurd rfl hij | exact hscopes | exact hscopes.symm
  · intro i j hij
    cases i <;> cases j <;> first | exact absurd rfl hij | exact hhandles | exact hhandles.symm

/-- Two programs with namespaces of their own share an engine that keeps its scopes apart. However their
operations interleave, each of them fares as it would with those of its own in their order, in a namespace
on a fresh engine: every operation has the same outcome, and in the end there are the same aliases, the
same symbols and the same scripts, up to the names of their handles. -/
theorem together_as_alone (hE : Compartmented E C L) {w₀ w₁ w₂ u₀ u₁ : World S} {a b c : ObjectId}
    (hw : L.valid w₀.engine) (hu : L.valid u₀.engine) (ha : exec (Scope.create E) w₀ = (.ok a, w₁))
    (hb : exec (Scope.create E) w₁ = (.ok b, w₂)) (hc : exec (Scope.create E) u₀ = (.ok c, u₁))
    (turns : List (Bool × Errand S.Body)) (second : Bool) :
    let (outcomes, tenants, w) := together E (fun second => ⟨if second then b else a, []⟩) turns w₂
    let (outcomes', t, u) := Tenant.alone E ⟨c, []⟩ (turnsOf second turns) u₁
    List.Forall₂ (Alike S) (turnsOf second outcomes) outcomes' ∧
      (∃ appearance, (tenants second).appearance? w = some appearance ∧ t.appearance? u = some appearance) ∧
      Renamed ((tenants second).handles w) (t.handles u) := by
  obtain ⟨issued, hboth⟩ := create_both hE hw ha hb
  obtain ⟨issued_c, hin_c, -⟩ := create_in hE hu hc
  obtain ⟨houtcomes, d, hin, hin'⟩ := hboth.as_alone hE second turns hin_c
  have hgaps := hin.handles_gaps.trans hin'.handles_gaps.symm
  exact ⟨houtcomes, ⟨d.appearance, hin.appearance?, hin'.appearance?⟩,
    .of_sole hgaps hin.handles_sole hin'.handles_sole⟩

namespace Scripted

def lodging : Embedding := ⟨State, Unit, Unit⟩

/-- Scripts cannot be dropped. -/
def stuck : List (String × String) := [("drop_script", "busy")]

def vacant : World lodging :=
  ⟨[], [], [], { State.initial [] with faults := stuck }, (), []⟩

def letOnce : World lodging := (exec (Scope.create engine) vacant).2

def letTwice : World lodging := (exec (Scope.create engine) letOnce).2

/-- A function of the type that is called `Age`. -/
def ageing : Build Unit :=
  .ofSteps [.declare (.str "years") (.str "Age") true false, .returns (.str "Age"),
    .implement (some (.function ()))]

/-- Both call a type `Age` and define a function on it. One then ends its namespace, the other fails to
destroy its script. -/
def quarrel : List (Bool × Errand Unit) :=
  [(false, .defineType (.str "Age") (.str "number")), (true, .defineType (.str "Age") (.str "string")),
    (true, .define ageing), (false, .define ageing), (true, .compile (.str "years(1)")), (false, .destroy),
    (true, .destroyScript 0), (false, .getSignature (.str "years")), (true, .scripts),
    (true, .getSignature (.str "years"))]

theorem vacant_valid : (compartments stuck []).valid vacant.engine :=
  ⟨rfl, rfl, nofun, nofun⟩

theorem letOnce_eq : exec (Scope.create engine) vacant = (.ok 0, letOnce) := Prod.ext (by cbv) rfl

theorem letTwice_eq : exec (Scope.create engine) letOnce = (.ok 1, letTwice) := Prod.ext (by cbv) rfl

end Scripted

open Scripted in
theorem together_as_alone_quarrel :
    Compartmented engine (compartment stuck []) (compartments stuck []) ∧
      (compartments stuck []).valid vacant.engine ∧ exec (Scope.create engine) vacant = (.ok 0, letOnce) ∧
      exec (Scope.create engine) letOnce = (.ok 1, letTwice) ∧ ∀ second : Bool,
        let (outcomes, tenants, w) := together (S := lodging) engine
          (fun second => ⟨if second then 1 else 0, []⟩) quarrel letTwice
        let (outcomes', t, u) := Tenant.alone (S := lodging) engine ⟨0, []⟩ (turnsOf second quarrel) letOnce
        List.Forall₂ (Alike lodging) (turnsOf second outcomes) outcomes' ∧
          (∃ appearance, (tenants second).appearance? w = some appearance ∧ t.appearance? u = some appearance) ∧
          Renamed ((tenants second).handles w) (t.handles u) :=
  ⟨compartmented rfl rfl, vacant_valid, letOnce_eq, letTwice_eq,
    together_as_alone (S := lodging) (compartmented rfl rfl) vacant_valid vacant_valid letOnce_eq letTwice_eq
      letOnce_eq quarrel⟩

end EngineHost
