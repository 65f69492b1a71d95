import EngineHost.Proofs.Upkeep

/-!
What the engine hands out gets a holder at once: a new object for every new handle, under its owner if
the resource has one.
-/
namespace EngineHost

open Host

variable {S : Embedding} {E : Engine S.State} {B : Books S.State} {base : Nat}
  {may : ResourceKind → Prop} {mine : Option Nat} {others : Token → Prop} {flying : List Token}
  {α : Type} {w w' w₀ : World S}

namespace Host

theorem holds_resource {role : Role} (hkind : role.kind ≠ .args) (handle : Value) (t : Token)
    (q : Option Nat) : Holds ⟨role, some handle, []⟩ t q ↔ q = none ∧ t = (role.kind, handle) := by
  cases q with
  | none =>
    simp only [Holds, Option.some.injEq, true_and]
    constructor
    · intro h
      exact Prod.ext h.1.symm h.2.symm
    · intro h
      rw [h]
      exact ⟨rfl, rfl⟩
  | some i =>
    simp only [Holds, reduceCtorEq, false_and, iff_false]
    intro h
    obtain ⟨call, entry, hrole, -⟩ := h
    exact hkind (by rw [hrole]; rfl)

theorem isOpen_resource {role : Role} {handle : Option Value} (hkind : role.kind ≠ .args) :
    ¬ IsOpen ⟨role, handle, []⟩ := by
  intro h
  exact hkind ((isOpen_iff _).mp h).1

theorem handleOf_ne_null {handle : Value} (h : handle ≠ .null) : handleOf handle = some handle := by
  cases handle <;> first | rfl | exact absurd rfl h

end Host

/-- A handle that is on its way gets an object of its own. -/
theorem housed (role : Role) (handle : Value)
    (hnodes : w'.nodes = adopted role.parent? (refOf w.nodes.length role.kind)
      (w.nodes ++ [⟨role, some handle, []⟩]))
    (hfunctions : w'.functions = w.functions) (hengine : w'.engine = w.engine)
    (hkind : role.kind ≠ .args)
    (howner : ∀ p, role.parent? = some p → base ≤ p ∧ (∃ m, w.nodes[p]? = some m ∧ m.isLive ∧
      MayOwn m.role role) ∧ ((role.kind, handle) ∈ B.issued w₀.engine →
        OwnedBy base w₀.nodes (role.kind, handle) p))
    (hscope : ∀ issued types symbols, role = .scope issued types symbols → handle = issued)
    (hmade : role.kind = .block ∨ may role.kind)
    (hf : Follows B base mine w₀ w)
    (h : Accounts B base may others ([(role.kind, handle)] ++ flying) w) :
    Follows B base mine w₀ w' ∧ Accounts B base may others flying w' := by
  have holds := holds_resource hkind handle
  have ho : role.parent? ≠ some w.nodes.length := by
    intro hp
    obtain ⟨-, ⟨m, hm, -⟩, -⟩ := howner _ hp
    exact absurd (List.getElem?_eq_some_iff.mp hm).1 (Nat.lt_irrefl _)
  refine ⟨hf.add role (some handle) hnodes hfunctions hengine ho ?_ ?_,
    h.add role (some handle) hnodes hfunctions hengine ?_ ?_ ?_ ?_ ?_ ?_⟩
  · intro t q a hh hkeeper hissued
    obtain ⟨rfl, rfl⟩ := (holds t q).mp hh
    exact (howner a hkeeper).2.2 hissued
  · intro hopen
    exact absurd hopen (isOpen_resource hkind)
  · intro t
    rw [List.mem_singleton]
    constructor
    · intro ht
      exact ⟨none, (holds t none).mpr ⟨rfl, ht⟩⟩
    · intro hh
      obtain ⟨q, hh⟩ := hh
      exact ((holds t q).mp hh).2
  · intro t q q' hh hh'
    rw [((holds t q).mp hh).1, ((holds t q').mp hh').1]
  · intro p hp
    obtain ⟨hb, hm, -⟩ := howner p hp
    exact ⟨rfl, hb, hm⟩
  · intro hargs
    exact absurd hargs hkind
  · intro issued types symbols hrole
    exact .inr (congrArg some (hscope issued types symbols hrole))
  · rcases hmade with hblock | hmay
    · exact .inl hblock
    · exact .inr (.inr hmay)

namespace Host

theorem exec_adopt {p : Nat} {m : Node} {v : Value} (hm : w.nodes[p]? = some m) (hlive : m.isLive) :
    exec (adopt p v) w =
      (.ok (), { w with nodes := w.nodes.modify p fun n => { n with owned := n.owned ++ [v] } }) := by
  simp only [adopt, checkLive, exec_bind, exec_node_some hm, hlive, if_true, exec_pure, exec_modifyNode]

/-- Making an object and adopting it, while the owner is live. -/
theorem exec_addNode_adopt {p : Nat} {m : Node} (role : Role) {handle : Option Value}
    (hm : w.nodes[p]? = some m) (hlive : m.isLive) (hparent : role.parent? = some p) (k : Nat → Host S α) :
    exec (do
      let id ← addNode role handle
      adopt p (refOf id role.kind)
      k id) w =
    exec (k w.nodes.length) { w with
      nodes := adopted role.parent? (refOf w.nodes.length role.kind) (w.nodes ++ [⟨role, handle, []⟩]) } := by
  have hm' : (w.nodes ++ [⟨role, handle, []⟩])[p]? = some m := by
    rw [List.getElem?_append_left (List.getElem?_eq_some_iff.mp hm).1, hm]
  simp only [exec_bind, exec_addNode]
  rw [exec_adopt hm' hlive]
  simp only [adopted, hparent]

theorem exec_wrapBlock {p : Nat} {m : Node} {handle : Value} (hm : w.nodes[p]? = some m)
    (hlive : m.isLive) (hne : handle ≠ .null) :
    exec (wrapBlock p handle) w = (.ok (refOf w.nodes.length .block), { w with
      nodes := adopted (some p) (refOf w.nodes.length .block)
        (w.nodes ++ [⟨.block p, some handle, []⟩]) }) := by
  unfold wrapBlock
  rw [exec_bind, exec_checkLive hm hlive, handleOf_ne_null hne]
  exact exec_addNode_adopt (.block p) hm hlive rfl fun id => pure (refOf id .block)

theorem receive_block {p : Nat} {value handle : Value} (hne : handle ≠ .null) :
    (receive p value handle : Host S Value) = wrapBlock p handle := by
  unfold receive
  split
  · exact absurd rfl hne
  · rfl

end Host

namespace Kept

/-- A new object for a handle that nobody but the program owns. -/
theorem addNode (role : Role) {handle : Value} (hkind : role.kind ≠ .args) (hparent : role.parent? = none)
    (hscope : ∀ issued types symbols, role = .scope issued types symbols → handle = issued)
    (hmade : may role.kind) (hf : Follows B base mine w₀ w)
    (h : Accounts B base may others ([(role.kind, handle)] ++ flying) w) :
    Kept B base may mine others flying nothing w₀ (exec (Host.addNode role (some handle)) w) := by
  let after : World S := { w with nodes := w.nodes ++ [⟨role, some handle, []⟩] }
  have hhoused : Follows B base mine w₀ after ∧ Accounts B base may others flying after :=
    housed (w := w) role handle (by rw [hparent]; rfl) rfl rfl hkind (by simp [hparent]) hscope (.inr hmade) hf h
  exact .ok hhoused.1 hhoused.2

/-- A new object for a handle, under an owner that is live. -/
theorem addChild {p : Nat} {m : Node} (role : Role) {handle : Value} {k : Nat → Host S α}
    (hb : base ≤ p) (hm : w.nodes[p]? = some m) (hlive : m.isLive) (hparent : role.parent? = some p)
    (hmay : MayOwn m.role role)
    (hkept : (role.kind, handle) ∈ B.issued w₀.engine → OwnedBy base w₀.nodes (role.kind, handle) p)
    (hmade : role.kind = .block ∨ may role.kind) (hf : Follows B base mine w₀ w)
    (h : Accounts B base may others ([(role.kind, handle)] ++ flying) w)
    (hk : ∀ w', Follows B base mine w₀ w' → Accounts B base may others flying w' →
      Kept B base may mine others flying nothing w₀ (exec (k w.nodes.length) w')) :
    Kept B base may mine others flying nothing w₀ (exec (do
      let id ← Host.addNode role (some handle)
      adopt p (refOf id role.kind)
      k id) w) := by
  rw [exec_addNode_adopt role hm hlive hparent]
  let after : World S := { w with
    nodes := adopted role.parent? (refOf w.nodes.length role.kind) (w.nodes ++ [⟨role, some handle, []⟩]) }
  have hhoused : Follows B base mine w₀ after ∧ Accounts B base may others flying after := by
    refine housed (w := w) role handle rfl rfl rfl (kind_ne_args_of_parent hparent) ?_ ?_ hmade hf h
    · intro q hq
      obtain rfl := Option.some.inj (hparent.symm.trans hq)
      exact ⟨hb, ⟨m, hm, hlive, hmay⟩, hkept⟩
    · intro issued types symbols hrole
      rw [hrole] at hparent
      cases hparent
  exact hk after hhoused.1 hhoused.2

/-- A callback handle from the engine is wrapped for a live owner. -/
theorem wrapBlock {p : Nat} {m : Node} {handle : Value} (hb : base ≤ p) (hm : w.nodes[p]? = some m)
    (hlive : m.isLive)
    (hkind : m.role.kind = .script ∨ m.role.kind = .evaluator ∨ m.role.kind = .args)
    (hne : handle ≠ .null)
    (hkept : (.block, handle) ∈ B.issued w₀.engine → OwnedBy base w₀.nodes (.block, handle) p)
    (hf : Follows B base mine w₀ w)
    (h : Accounts B base may others ([(.block, handle)] ++ flying) w) :
    Kept B base may mine others flying nothing w₀ (exec (Host.wrapBlock p handle) w) := by
  unfold Host.wrapBlock
  rw [exec_bind, exec_checkLive hm hlive, handleOf_ne_null hne]
  exact addChild (.block p) hb hm hlive rfl hkind hkept (.inl rfl) hf h
    fun w' hf' h' => .done hf' h'

theorem createScope (hE : Lawful E B) (hmay : may .scope) (h : Accounts B base may others flying w) :
    Kept B base may mine others flying nothing w (exec (Scope.create E) w) := by
  refine issue_bind (.refl h.valid) h (hE.allocScope _ h.valid) fun handle s₁ hfresh hf₁ h₁ => ?_
  rw [handleOf_ne_null (hfresh.2 _ (List.mem_singleton_self _)).1]
  refine bind (addNode (.scope handle .empty .empty) (by simp [Role.kind]) rfl ?_ hmay hf₁ h₁)
    fun id w₂ _ hf₂ h₂ => ?_
  · intro issued types symbols hrole
    cases hrole
    rfl
  · exact bind (.write hf₂ h₂) fun _ w₃ _ hf₃ h₃ => .ok hf₃ h₃

theorem createEvaluator (hE : Lawful E B) (hmay : may .evaluator)
    (h : Accounts B base may others flying w) :
    Kept B base may mine others flying nothing w (exec (Evaluator.create E) w) := by
  refine issue_bind (.refl h.valid) h (hE.allocEvaluator _ h.valid) fun handle s₁ hfresh hf₁ h₁ => ?_
  rw [handleOf_ne_null (hfresh.2 _ (List.mem_singleton_self _)).1]
  refine bind (addNode .evaluator (by simp [Role.kind]) rfl ?_ hmay hf₁ h₁)
    fun id w₂ _ hf₂ h₂ => ?_
  · intro issued types symbols hrole
    cases hrole
  · exact bind (.write hf₂ h₂) fun _ w₃ _ hf₃ h₃ => .ok hf₃ h₃

/-- The new script is owned by its namespace. -/
theorem compile (hE : Lawful E B) (hmay : may .script) (h : Accounts B base may others flying w)
    {id : Nat} {n : Node} {source : Value} (hb : base ≤ id) (hn : w.nodes[id]? = some n)
    (hkind : n.role.kind = .scope) :
    Kept B base may mine others flying nothing w (exec (Scope.compile E id source) w) := by
  refine liveHandle_bind hn (.refl h.valid) h fun handle hh => ?_
  have hlive : n.isLive := by
    rw [isLive_of_handle (by simp [hkind]), hh]
    rfl
  have hlaw := hE.compile _ handle source h.valid (hkind ▸ h.live_handle hb hn hh)
  refine issue_bind (.refl h.valid) h hlaw fun script s₁ hfresh hf₁ h₁ => ?_
  have hfresh := hfresh.2 _ (List.mem_singleton_self _)
  rw [handleOf_ne_null hfresh.1]
  refine addChild (.script id source) hb hn hlive rfl hkind ?_ (.inr hmay) hf₁ h₁
    fun w₂ hf₂ h₂ => ?_
  · intro hissued
    exact absurd hissued hfresh.2
  · exact bind (.write hf₂ h₂) fun _ w₃ _ hf₃ h₃ => .ok hf₃ h₃

/-- The answer of an evaluation is received by an owner that is live. -/
theorem receivePair {p : Nat} {m : Node} {envelope : Value} (hb : base ≤ p)
    (hm : w.nodes[p]? = some m) (hlive : m.isLive)
    (hkind : m.role.kind = .script ∨ m.role.kind = .evaluator ∨ m.role.kind = .args)
    (htells : AnswerTells envelope) (hfresh : ∀ t ∈ answerTokens envelope, t ∉ B.issued w₀.engine)
    (hf : Follows B base mine w₀ w)
    (h : Accounts B base may others (answerTokens envelope ++ flying) w) :
    Kept B base may mine others flying nothing w₀ (exec (Host.receivePair p envelope) w) := by
  unfold Host.receivePair
  cases hpair : Envelope.unwrapPair envelope with
  | error f =>
    have hnone : answerTokens envelope = [] := by simp [answerTokens, hpair]
    rw [hnone] at h
    exact fail_bind (htells f hpair) hf h
  | ok pair =>
    obtain ⟨value, block⟩ := pair
    rw [exec_bind, exec_check_ok]
    dsimp only
    by_cases hnull : block = .null
    · subst hnull
      have hnone : answerTokens envelope = [] := by simp [answerTokens, hpair]
      rw [hnone] at h
      exact .check (Wire.tells_decode value) hf h
    · have hone : answerTokens envelope = [(.block, block)] := by
        unfold answerTokens
        rw [hpair]
        cases block with
        | null => exact absurd rfl hnull
        | _ => rfl
      rw [hone] at h hfresh
      rw [receive_block hnull]
      refine wrapBlock hb hm hlive hkind hnull ?_ hf h
      intro hissued
      exact absurd hissued (hfresh _ (List.mem_singleton_self _))

end Kept

end EngineHost
