import EngineHost.Proofs.Compartments
import EngineHost.Proofs.Handover
import EngineHost.Proofs.Tenants

/-!
What an operation on a namespace depends on. A desk is all that a program's operations read and change:
its aliases and symbols, the engine's part of its namespace, its scripts. The same desk may stand in
different worlds, under other numbers and handles, and what an operation does is settled by the desk.
-/
namespace EngineHost

open Host

variable {S : Embedding} {P K : Type} {α β : Type}

structure Desk (P K : Type) where
  isLive : Bool
  types : Registry
  symbols : SymbolTable
  part : P
  /-- By their order: the source of each script, and what a live one goes by. -/
  made : List (Value × Option K)
  /-- The scripts that the namespace owns. -/
  owned : List Nat

/-- The value that stands for a script. -/
def Tenant.ref (t : Tenant) (k : Nat) : Value :=
  refOf (t.made.getD k 0) .script

theorem Tenant.ref_eq {t : Tenant} {k id : Nat} (hk : t.made[k]? = some id) : t.ref k = refOf id .script := by
  rw [Tenant.ref, List.getD_eq_getElem?_getD, hk]
  rfl

/-- Only what belongs to one namespace is affected. -/
structure Beside (L : Compartments S.State P K) (scope : ObjectId) (issued : Value) (w w' : World S) :
    Prop where
  nodes : ∀ (id : Nat) n, w.nodes[id]? = some n → id ≠ scope → n.role.parent? ≠ some scope →
    w'.nodes[id]? = some n
  engine : L.Aside issued w.engine w'.engine

namespace Desk

/-- The namespace as an object. -/
def node (d : Desk P K) (t : Tenant) (issued : Value) : Node :=
  ⟨.scope issued d.types d.symbols, if d.isLive then some issued else none, d.owned.map t.ref⟩

/-- A script of a program in a world. -/
structure HasScript (L : Compartments S.State P K) (t : Tenant) (issued : Value) (w : World S)
    (id : Nat) (entry : Value × Option K) (handle : Option Value) : Prop where
  node : w.nodes[id]? = some ⟨.script t.scope entry.1, handle, []⟩
  known : handle.map (L.script? w.engine) = entry.2.map fun k => some (issued, k)

/-- The desk stands in a world, for a program whose namespace was issued under this handle. -/
structure In (L : Compartments S.State P K) (d : Desk P K) (t : Tenant) (issued : Value) (w : World S) :
    Prop where
  valid : L.valid w.engine
  live : d.isLive → L.live w.engine issued
  part : L.part w.engine issued = d.part
  scope : w.nodes[t.scope]? = some (d.node t issued)
  length : t.made.length = d.made.length
  script : ∀ (k id : Nat), t.made[k]? = some id →
    ∃ entry handle, d.made[k]? = some entry ∧ HasScript L t issued w id entry handle
  nodup : t.made.Nodup
  /-- No two scripts hold one handle. -/
  apart : ∀ id ∈ t.made, ∀ id' ∈ t.made, ∀ n n' h, w.nodes[id]? = some n → w.nodes[id']? = some n' →
    n.handle = some h → n'.handle = some h → id = id'
  owned : ∀ k ∈ d.owned, k < t.made.length

end Desk

namespace Beside

variable {L : Compartments S.State P K} {scope : ObjectId} {issued : Value} {w w' w'' : World S}

theorem trans (h : Beside L scope issued w w') (h' : Beside L scope issued w' w'') :
    Beside L scope issued w w'' where
  nodes := fun id n hn hne hparent => h'.nodes id n (h.nodes id n hn hne hparent) hne hparent
  engine := h.engine.trans h'.engine

/-- The engine goes on, in that scope. -/
theorem turn (h : L.Aside issued w.engine w'.engine) (hnodes : w'.nodes = w.nodes) :
    Beside L scope issued w w' where
  nodes := fun _ _ hn _ _ => hnodes ▸ hn
  engine := h

/-- The namespace or one of its scripts changes. -/
theorem modify {id : Nat} {n : Node} (f : Node → Node) (hvalid : L.valid w.engine)
    (hn : w.nodes[id]? = some n) (hown : id = scope ∨ n.role.parent? = some scope) :
    Beside L scope issued w { w with nodes := w.nodes.modify id f } where
  nodes := by
    intro id' n' hn' hne hparent
    have hid : id ≠ id' := by
      rintro rfl
      obtain rfl := Option.some.inj (hn.symm.trans hn')
      exact hown.elim hne hparent
    rw [List.getElem?_modify_ne _ _ hid, hn']
  engine := .refl hvalid

end Beside

namespace Desk

variable {L : Compartments S.State P K} {d d' : Desk P K} {t : Tenant} {issued : Value} {w w' : World S}

namespace In

theorem script_node (h : d.In L t issued w) {id : Nat} (hid : id ∈ t.made) :
    ∃ source handle, w.nodes[id]? = some ⟨.script t.scope source, handle, []⟩ := by
  obtain ⟨k, hk⟩ := List.mem_iff_getElem?.mp hid
  obtain ⟨entry, handle, -, hscript⟩ := h.script k id hk
  exact ⟨entry.1, handle, hscript.node⟩

/-- The namespace itself is none of its scripts. -/
theorem scope_ne (h : d.In L t issued w) {id : Nat} (hid : id ∈ t.made) : t.scope ≠ id := by
  rintro rfl
  obtain ⟨source, handle, hnode⟩ := h.script_node hid
  exact Role.noConfusion (congrArg Node.role (Option.some.inj (hnode.symm.trans h.scope)))

/-- A desk does not depend on the log, nor on what else a world has. -/
theorem congr (h : d.In L t issued w) (hnodes : w'.nodes = w.nodes) (hengine : w'.engine = w.engine) :
    d.In L t issued w' where
  valid := hengine ▸ h.valid
  live := fun hlive => hengine ▸ h.live hlive
  part := hengine ▸ h.part
  scope := hnodes ▸ h.scope
  length := h.length
  script := by
    intro k id hk
    obtain ⟨entry, handle, hentry, hnode, hknown⟩ := h.script k id hk
    exact ⟨entry, handle, hentry, hnodes ▸ hnode, hengine ▸ hknown⟩
  nodup := h.nodup
  apart := hnodes ▸ h.apart
  owned := h.owned

/-- The scripts stay as they are while the engine and other objects change. -/
theorem scripts (h : d.In L t issued w) (hnodes : ∀ id ∈ t.made, w'.nodes[id]? = w.nodes[id]?)
    (hkept : ∀ id ∈ t.made, ∀ n h k, w.nodes[id]? = some n → n.handle = some h →
      L.script? w.engine h = some (issued, k) → L.script? w'.engine h = some (issued, k))
    (hvalid : L.valid w'.engine) (hmade : d'.made = d.made) (hlive : d'.isLive → L.live w'.engine issued)
    (hpart : L.part w'.engine issued = d'.part) (hscope : w'.nodes[t.scope]? = some (d'.node t issued))
    (howned : ∀ k ∈ d'.owned, k ∈ d.owned) : d'.In L t issued w' where
  valid := hvalid
  live := hlive
  part := hpart
  scope := hscope
  length := hmade ▸ h.length
  script := by
    intro k id hk
    have hid : id ∈ t.made := List.mem_iff_getElem?.mpr ⟨k, hk⟩
    obtain ⟨entry, handle, hentry, hnode, hknown⟩ := h.script k id hk
    refine ⟨entry, handle, hmade ▸ hentry, (hnodes id hid).trans hnode, ?_⟩
    cases handle with
    | none => exact hknown
    | some handle =>
      cases hname : entry.2 with
      | none => simp [hname] at hknown
      | some name =>
        have hscript : L.script? w.engine handle = some (issued, name) := by simpa [hname] using hknown
        exact congrArg some (hkept id hid _ handle name hnode rfl hscript)
  nodup := h.nodup
  apart := by
    intro id hid id' hid' n n' handle hn hn'
    rw [hnodes id hid] at hn
    rw [hnodes id' hid'] at hn'
    exact h.apart id hid id' hid' n n' handle hn hn'
  owned := fun k hk => h.owned k (howned k hk)

/-- No namespace is a script of this one. -/
theorem other_scope (h : d.In L t issued w) {n : Node} {scope' : ObjectId} {issued' : Value} {types : Registry}
    {symbols : SymbolTable} (hn : w.nodes[scope']? = some n) (hrole : n.role = .scope issued' types symbols) :
    scope' ∉ t.made := by
  intro hid
  obtain ⟨source, handle, hnode⟩ := h.script_node hid
  obtain rfl := Option.some.inj (hnode.symm.trans hn)
  exact Role.noConfusion hrole

/-- What another namespace does leaves the desk as it is. -/
theorem beside {scope' : ObjectId} {issued' : Value} (h : d.In L t issued w)
    (hbeside : Beside L scope' issued' w w') (hscope : t.scope ≠ scope') (hissued : issued ≠ issued')
    (hother : scope' ∉ t.made) : d.In L t issued w' := by
  have hnodes : ∀ id ∈ t.made, w'.nodes[id]? = w.nodes[id]? := by
    intro id hid
    obtain ⟨source, handle, hnode⟩ := h.script_node hid
    have hparent : some t.scope ≠ some scope' := fun heq => hscope (Option.some.inj heq)
    rw [hnode]
    exact hbeside.nodes id _ hnode (fun heq => hother (heq ▸ hid)) hparent
  refine h.scripts hnodes ?_ hbeside.engine.valid rfl ?_ ?_ ?_ fun _ hk => hk
  · intro id _ n handle k _ _ hscript
    exact hbeside.engine.scripts handle issued k hissued hscript
  · exact fun hlive => hbeside.engine.live issued hissued (h.live hlive)
  · exact (hbeside.engine.part issued hissued).trans h.part
  · exact hbeside.nodes t.scope _ h.scope hscope nofun

/-- The namespace itself changes. -/
theorem rescope (h : d.In L t issued w) (f : Node → Node) (hnode : f (d.node t issued) = d'.node t issued)
    (hmade : d'.made = d.made) (hpart : d'.part = d.part) (hlive : d'.isLive → d.isLive)
    (howned : ∀ k ∈ d'.owned, k ∈ d.owned) :
    d'.In L t issued { w with nodes := w.nodes.modify t.scope f } := by
  refine h.scripts ?_ (fun _ _ _ _ _ _ _ hscript => hscript) h.valid hmade
    (fun hl => h.live (hlive hl)) (h.part.trans hpart.symm) ?_ howned
  · intro id hid
    exact List.getElem?_modify_ne _ _ (h.scope_ne hid)
  · show (w.nodes.modify t.scope f)[t.scope]? = _
    rw [List.getElem?_modify_eq, h.scope, ← hnode]
    rfl

/-- The engine goes on in the namespace; what it forgets is held by no script any more. -/
theorem turn (h : d.In L t issued w) {s' : S.State} {lost : Value → Prop} {p : P}
    (hturn : L.Becomes issued lost p w.engine s')
    (hlost : ∀ id ∈ t.made, ∀ n handle, w.nodes[id]? = some n → n.handle = some handle → ¬ lost handle)
    (hlive : d.isLive → L.live s' issued) :
    { d with part := p }.In L t issued { w with engine := s' } := by
  refine h.scripts (fun _ _ => rfl) ?_ hturn.valid rfl hlive hturn.own h.scope fun _ hk => hk
  intro id hid n handle k hn hhandle hscript
  exact hturn.kept handle k (hlost id hid n handle hn hhandle) hscript

end In

/-- A script has no handle any more. -/
def fell (d : Desk P K) (k : Nat) : Desk P K :=
  { d with made := d.made.modify k fun e => (e.1, none) }

/-- What still holds a handle is another object, and is as it was. -/
theorem held_of_felled {nodes : List Node} {id i : Nat} {m : Node} {handle : Value}
    (hm : (nodes.modify id fun n => { n with handle := none })[i]? = some m) (hhandle : m.handle = some handle) :
    i ≠ id ∧ nodes[i]? = some m := by
  by_cases hi : i = id
  · subst hi
    rw [List.getElem?_modify_eq] at hm
    obtain ⟨m', -, rfl⟩ := Option.map_eq_some_iff.mp hm
    cases hhandle
  · rw [List.getElem?_modify_ne _ _ (Ne.symm hi)] at hm
    exact ⟨hi, hm⟩

theorem In.index (h : d.In L t issued w) {k k' id : Nat} (hk : t.made[k]? = some id)
    (hk' : t.made[k']? = some id) : k = k' :=
  (List.getElem?_inj (List.getElem?_eq_some_iff.mp hk).1 h.nodup).mp (hk.trans hk'.symm)

theorem In.fell (h : d.In L t issued w) {k id : Nat} (hk : t.made[k]? = some id) :
    (d.fell k).In L t issued
      { w with nodes := w.nodes.modify id fun n => { n with handle := none } } where
  valid := h.valid
  live := h.live
  part := h.part
  scope := by
    have hid : id ∈ t.made := List.mem_iff_getElem?.mpr ⟨k, hk⟩
    exact (List.getElem?_modify_ne _ _ (h.scope_ne hid).symm).trans h.scope
  length := h.length.trans (List.length_modify ..).symm
  script := by
    intro k' id' hk'
    obtain ⟨entry, handle, hentry, hnode, hknown⟩ := h.script k' id' hk'
    by_cases heq : k = k'
    · subst heq
      obtain rfl := Option.some.inj (hk.symm.trans hk')
      refine ⟨(entry.1, none), none, ?_, ?_, rfl⟩
      · simp [Desk.fell, hentry]
      · simp [hnode]
    · have hne : id ≠ id' := by
        rintro rfl
        exact heq (h.index hk hk')
      refine ⟨entry, handle, ?_, ?_, hknown⟩
      · simp [Desk.fell, List.getElem?_modify_ne _ _ heq, hentry]
      · simp [List.getElem?_modify_ne _ _ hne, hnode]
  nodup := h.nodup
  apart := by
    intro i hi i' hi' n n' handle hn hn' hhandle hhandle'
    exact h.apart i hi i' hi' n n' handle (held_of_felled hn hhandle).2 (held_of_felled hn' hhandle').2
      hhandle hhandle'
  owned := h.owned

/-- Among a program's scripts, forgetting one is forgetting its number. -/
theorem In.withoutFirst_ref (h : d.In L t issued w) {k id : Nat} (hk : t.made[k]? = some id) {ks : List Nat}
    (hks : ∀ k ∈ ks, k < t.made.length) :
    withoutFirst (refOf id .script) (ks.map t.ref) = (ks.erase k).map t.ref := by
  induction ks with
  | nil => rfl
  | cons j rest ih =>
    have ih' := ih fun i hi => hks i (List.mem_cons_of_mem _ hi)
    obtain ⟨id', hj⟩ : ∃ id', t.made[j]? = some id' :=
      ⟨_, List.getElem?_eq_getElem (hks j List.mem_cons_self)⟩
    have hequals : (t.ref j).equals (refOf id .script) = true ↔ j = k := by
      rw [Tenant.ref_eq hj, refOf_equals]
      constructor
      · intro hsame
        have hid : id' = id := congrArg ObjectRef.id (Value.object.inj hsame)
        exact h.index (hid ▸ hj) hk
      · rintro rfl
        rw [Option.some.inj (hj.symm.trans hk)]
    by_cases heq : j = k
    · rw [List.map_cons, withoutFirst, if_pos (hequals.mpr heq), heq, List.erase_cons_head]
    · rw [List.map_cons, withoutFirst, if_neg (fun hsame => heq (hequals.mp hsame)), ih',
        List.erase_cons_tail (by simpa using heq), List.map_cons]

end Desk

theorem modify_self {nodes : List Node} {i : Nat} {n : Node} {f : Node → Node} (hn : nodes[i]? = some n)
    (hf : f n = n) : nodes.modify i f = nodes := by
  refine List.ext_getElem? fun j => ?_
  by_cases hj : i = j
  · subst hj
    rw [List.getElem?_modify_eq, hn]
    exact congrArg some hf
  · rw [List.getElem?_modify_ne _ _ hj]

end EngineHost
