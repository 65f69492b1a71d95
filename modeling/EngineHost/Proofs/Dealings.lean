import EngineHost.Proofs.Calls

/-!
What a program does with live scopes, scripts, evaluators and callbacks keeps the accounts and ends
nothing.
-/
namespace EngineHost

open Host

variable {S : Embedding} {E : Engine S.State} {B : Books S.State} {base : Nat}
  {may : ResourceKind → Prop} {mine : Option Nat} {others : Token → Prop} {flying : List Token}
  {α β : Type} {named' : β → List Token} {w w' w₀ : World S} {run : RunBody S}

namespace Kept

theorem map {x : Host S α} (k : α → β)
    (hx : Kept B base may mine others flying nothing w₀ (exec x w)) :
    Kept B base may mine others flying nothing w₀ (exec (k <$> x) w) := by
  rw [← bind_pure_comp]
  exact bind hx fun a w₁ _ hf₁ h₁ => .done hf₁ h₁

theorem mapM {k : α → Host S β} (hk : ∀ a w, Follows B base mine w₀ w →
      Accounts B base may others flying w → Kept B base may mine others flying nothing w₀ (exec (k a) w))
    (xs : List α) (hf : Follows B base mine w₀ w) (h : Accounts B base may others flying w) :
    Kept B base may mine others flying nothing w₀ (exec (xs.mapM k) w) := by
  induction xs generalizing w with
  | nil => exact .done hf h
  | cons x rest ih =>
    rw [List.mapM_cons]
    refine bind (hk x w hf h) fun b w₁ _ hf₁ h₁ => ?_
    exact bind (ih hf₁ h₁) fun bs w₂ _ hf₂ h₂ => .done hf₂ h₂

/-- A check that fails as it is, its objects not shown. -/
theorem ofExcept {c : Checked α} (ht : Tells c) (hf : Follows B base mine w₀ w)
    (h : Accounts B base may others flying w) :
    Kept B base may mine others flying nothing w₀ (exec (MonadExcept.ofExcept c) w) := by
  cases c with
  | ok a => exact .done hf h
  | error f => exact .error (ht f rfl) hf h

theorem encode {place : Place} {v : Value} (hf : Follows B base mine w₀ w)
    (h : Accounts B base may others flying w) :
    Kept B base may mine others flying nothing w₀ (exec (Host.encode place v) w) :=
  .check (Wire.tells_encode place v) hf h

theorem encodeInputs {inputs : Value} (hf : Follows B base mine w₀ w)
    (h : Accounts B base may others flying w) :
    Kept B base may mine others flying nothing w₀ (exec (Host.encodeInputs inputs) w) := by
  unfold Host.encodeInputs
  split
  · rw [exec_bind, exec_get]
    dsimp only
    split
    · refine checkLive_bind hf h fun n _ _ => ?_
      split
      · exact .done hf h
      · exact .fail rfl hf h
    · exact .fail rfl hf h
  · exact .check (Wire.tells_encodeInputs inputs) hf h

theorem encodeArgs {index : Nat} (vs : List Value) (hf : Follows B base mine w₀ w)
    (h : Accounts B base may others flying w) :
    Kept B base may mine others flying nothing w₀ (exec (Block.encodeArgs index vs) w) := by
  induction vs generalizing index w with
  | nil => exact .done hf h
  | cons v rest ih =>
    refine bind (encode hf h) fun wire w₁ _ hf₁ h₁ => ?_
    exact bind (ih hf₁ h₁) fun wires w₂ _ hf₂ h₂ => .done hf₂ h₂

/-- An evaluation whose answer goes to a live owner. -/
theorem exchange (hE : Lawful E B) (hrun : Sound B base may run) {p : Nat} {m : Node}
    {start : S.State → Evaluation S.State (Checked Value)} {k : Value → Host S Value} (hb : base ≤ p)
    (hm : w.nodes[p]? = some m) (hlive : m.isLive)
    (hkind : m.role.kind = .script ∨ m.role.kind = .evaluator ∨ m.role.kind = .args)
    (hstart : B.Orderly w.engine (start w.engine))
    (hk : ∀ envelope w', Follows B base none w w' →
      exec (k envelope) w' = exec (Host.receivePair p envelope) w')
    (h : Accounts B base may others flying w) :
    Kept B base may none others flying nothing w (exec (Host.evaluating E run start >>= k) w) := by
  obtain ⟨hkept, htold⟩ := Kept.evaluating hE hrun hstart h
  refine bind hkept fun envelope w₁ hx hf₁ h₁ => ?_
  obtain ⟨htells, hfresh⟩ := htold envelope w₁ hx
  obtain ⟨m₁, hm₁, hlive₁, hrole₁, -⟩ := hf₁.isLive_of hm hlive
  rw [hk envelope w₁ hf₁]
  exact receivePair hb hm₁ hlive₁ (kind_congr hrole₁ ▸ hkind) htells hfresh hf₁ h₁

end Kept

theorem Follows.live_handle (hf : Follows B base none w w') (h' : Accounts B base may others flying w')
    {id : Nat} {n : Node} {handle : Value} (hb : base ≤ id) (hn : w.nodes[id]? = some n)
    (hh : n.handle = some handle) : B.Live w'.engine (n.role.kind, handle) := by
  obtain ⟨n', hn', hc⟩ := hf.nodes id n hn
  have hhandle : n'.handle = n.handle := hc.handle.resolve_right (by simp [MayEnd])
  rw [← hc.kind]
  exact h'.live_handle hb hn' (hhandle.trans hh)

/-- A scope that is not of the call keeps its handle, whatever is registered in it. -/
theorem Follows.scope_handle (hf : Follows B base mine w₀ w) (h : Accounts B base may others flying w)
    {id : Nat} {n : Node} {handle : Value} (hb : base ≤ id) (hn : w₀.nodes[id]? = some n)
    (hkind : n.role.kind = .scope) (hmine : mine ≠ some id) (hh : n.handle = some handle) :
    ∃ n' types symbols, w.nodes[id]? = some n' ∧ n'.role = .scope handle types symbols ∧
      n'.handle = some handle := by
  obtain ⟨n', hn', hc⟩ := hf.nodes id n hn
  have hh' : n'.handle = some handle := by
    rw [← hh]
    refine hc.handle.resolve_right ?_
    intro hend
    obtain ⟨⟨-, a, ha, hend⟩, -⟩ := hend
    rcases hend with hid | hparent
    · exact hmine (hid ▸ ha)
    · obtain ⟨issued, types, symbols, hrole⟩ := scope_of_kind hkind
      rw [hrole] at hparent
      cases hparent
  obtain ⟨issued, types, symbols, hrole⟩ := scope_of_kind (hc.kind.trans hkind)
  rcases h.scopes id n' issued types symbols hb hn' hrole with hnone | hsome
  · rw [hnone] at hh'
    cases hh'
  · obtain rfl := Option.some.inj (hsome.symm.trans hh')
    exact ⟨n', types, symbols, hn', hrole, hh'⟩

namespace Kept

section Scripts

variable {id : Nat} {n : Node}

theorem evalScript (hE : Lawful E B) (hrun : Sound B base may run) {inputs : Value} (hb : base ≤ id)
    (hn : w.nodes[id]? = some n) (hkind : n.role.kind = .script)
    (h : Accounts B base may others flying w) :
    Kept B base may none others flying nothing w (exec (Script.eval E run id inputs) w) := by
  refine liveHandle_bind hn (.refl h.valid) h fun handle hh => ?_
  refine bind (encodeInputs (.refl h.valid) h) fun encoded w₁ _ hf₁ h₁ => ?_
  have hlive : n.isLive := by
    rw [isLive_of_handle (by simp [hkind]), hh]
    rfl
  obtain ⟨n₁, hn₁, hlive₁, hrole₁, -⟩ := hf₁.isLive_of hn hlive
  have hstart := hE.evaluate w₁.engine handle encoded h₁.valid (hkind ▸ hf₁.live_handle h₁ hb hn hh)
  exact after hf₁ (exchange hE hrun hb hn₁ hlive₁ (.inl ((kind_congr hrole₁).trans hkind)) hstart
    (fun _ _ _ => rfl) h₁)

theorem evalSource (hE : Lawful E B) (hrun : Sound B base may run) {source inputs : Value}
    (hb : base ≤ id) (hn : w.nodes[id]? = some n) (hkind : n.role.kind = .evaluator)
    (h : Accounts B base may others flying w) :
    Kept B base may none others flying nothing w (exec (Evaluator.eval E run id source inputs) w) := by
  refine liveHandle_bind hn (.refl h.valid) h fun handle hh => ?_
  refine bind (encodeInputs (.refl h.valid) h) fun encoded w₁ _ hf₁ h₁ => ?_
  have hlive : n.isLive := by
    rw [isLive_of_handle (by simp [hkind]), hh]
    rfl
  obtain ⟨n₁, hn₁, hlive₁, hrole₁, -⟩ := hf₁.isLive_of hn hlive
  have hstart := hE.evaluateSource w₁.engine handle source encoded h₁.valid
    (hkind ▸ hf₁.live_handle h₁ hb hn hh)
  exact after hf₁ (exchange hE hrun hb hn₁ hlive₁ (.inr (.inl ((kind_congr hrole₁).trans hkind))) hstart
    (fun _ _ _ => rfl) h₁)

/-- What a callback returns belongs to the callback's owner. -/
theorem callBlock (hE : Lawful E B) (hrun : Sound B base may run) {args : List Value} (hb : base ≤ id)
    (hn : w.nodes[id]? = some n) (hkind : n.role.kind = .block)
    (h : Accounts B base may others flying w) :
    Kept B base may none others flying nothing w (exec (Block.call E run id args) w) := by
  refine liveHandle_bind hn (.refl h.valid) h fun handle hh => ?_
  refine bind (encodeArgs args (.refl h.valid) h) fun encoded w₁ _ hf₁ h₁ => ?_
  obtain ⟨p, hrole⟩ := block_of_kind hkind
  have hparent : n.role.parent? = some p := by rw [hrole]; rfl
  obtain ⟨hbp, m, hm, hlive, hmay, -⟩ :=
    h.owner id p n hb hn (by rw [hh]; rfl) hparent
  obtain ⟨m₁, hm₁, hlive₁, hrole₁, -⟩ := hf₁.isLive_of hm hlive
  have hstart := hE.callBlock w₁.engine handle encoded h₁.valid (hkind ▸ hf₁.live_handle h₁ hb hn hh)
  have hkinds : m₁.role.kind = .script ∨ m₁.role.kind = .evaluator ∨ m₁.role.kind = .args := by
    rw [hrole] at hmay
    rw [kind_congr hrole₁]
    exact hmay
  refine after hf₁ (exchange hE hrun hbp hm₁ hlive₁ hkinds hstart ?_ h₁)
  intro envelope w₂ hf₂
  obtain ⟨n₂, hn₂, hc⟩ := (hf₁.trans hf₂).nodes id n hn
  have hrole₂ : n₂.role = .block p := by
    have hfixed := hc.role
    rw [hrole] at hfixed
    cases hr : n₂.role <;> rw [hr] at hfixed <;> simp [fixedRole] at hfixed
    rw [hfixed]
  simp only [Block.ownerOf, exec_bind, exec_node_some hn₂, hrole₂, exec_pure]

theorem typeInfoOf {source envelope : Value} (htells : AnswerTells envelope)
    (hf : Follows B base mine w₀ w) (h : Accounts B base may others flying w) :
    Kept B base may mine others flying nothing w₀ (exec (Host.typeInfoOf source envelope) w) := by
  have hunwrap : Tells (Envelope.unwrap envelope) := by
    intro f hf
    refine htells f ?_
    rw [Envelope.unwrapPair, hf]
    rfl
  exact check_bind hunwrap hf h fun payload _ => .check (TypeInfo.tells_ofWire source payload) hf h

/-- The engine's answer about a script or a source text. -/
theorem inform {call : EngineM S.State Value} {k : Value → Host S TypeInfo}
    (hcall : B.Quiet w.engine (call.run.run w.engine) ∧
      ∀ envelope, (call.run.run w.engine).1 = .ok envelope → AnswerTells envelope)
    (hk : ∀ envelope s', AnswerTells envelope → Follows B base mine w { w with engine := s' } →
      Accounts B base may others flying { w with engine := s' } →
      Kept B base may mine others flying nothing w (exec (k envelope) { w with engine := s' }))
    (h : Accounts B base may others flying w) :
    Kept B base may mine others flying nothing w (exec (Host.onEngine call >>= k) w) := by
  obtain ⟨hquiet, htells⟩ := hcall
  rw [exec_bind, exec_onEngine]
  unfold Books.Quiet Books.Issues at hquiet
  cases hp : (call.run.run w.engine) with
  | mk r s' =>
    rw [hp] at hquiet htells
    have hf' : Follows B base mine w { w with engine := s' } := by
      cases r with
      | ok a => exact .moves hquiet.2
      | error f => exact .moves hquiet.2
    have h' : Accounts B base may others flying { w with engine := s' } := by
      cases r with
      | ok a => exact h.call ⟨List.nodup_nil, by simp⟩ hquiet.2
      | error f => exact h.call ⟨List.nodup_nil, by simp⟩ hquiet.2
    cases r with
    | ok envelope => exact hk envelope s' (htells envelope rfl) hf' h'
    | error f => exact .error hquiet.1 hf' h'

theorem typeInfo (hE : Lawful E B) (hb : base ≤ id) (hn : w.nodes[id]? = some n)
    (hkind : n.role.kind = .script) (h : Accounts B base may others flying w) :
    Kept B base may mine others flying nothing w (exec (Script.typeInfo E id) w) := by
  refine liveHandle_bind hn (.refl h.valid) h fun handle hh => ?_
  refine inform (hE.typeInfo _ handle h.valid (hkind ▸ h.live_handle hb hn hh)) ?_ h
  intro envelope s' htells hf' h'
  unfold Script.scriptOf
  rw [bind_assoc]
  refine node_bind hf' h' fun m _ => ?_
  cases m.role with
  | script home source => exact typeInfoOf htells hf' h'
  | _ => exact fail_bind rfl hf' h'

theorem typeOf (hE : Lawful E B) {source : Value} (hb : base ≤ id) (hn : w.nodes[id]? = some n)
    (hkind : n.role.kind = .evaluator) (h : Accounts B base may others flying w) :
    Kept B base may mine others flying nothing w (exec (Evaluator.typeOf E id source) w) := by
  refine liveHandle_bind hn (.refl h.valid) h fun handle hh => ?_
  exact inform (hE.typeOf _ handle source h.valid (hkind ▸ h.live_handle hb hn hh))
    (fun envelope s' htells hf' h' => typeInfoOf htells hf' h') h

theorem set (hE : Lawful E B) {name value : Value} (hb : base ≤ id) (hn : w.nodes[id]? = some n)
    (hkind : n.role.kind = .evaluator) (h : Accounts B base may others flying w) :
    Kept B base may none others flying nothing w (exec (Evaluator.set E id name value) w) := by
  refine liveHandle_bind hn (.refl h.valid) h fun handle hh => ?_
  refine bind (encode (.refl h.valid) h) fun wire w₁ _ hf₁ h₁ => ?_
  exact onEngine hf₁ h₁
    (hE.setVar _ handle name wire h₁.valid (hkind ▸ hf₁.live_handle h₁ hb hn hh))

theorem vars (hE : Lawful E B) (hb : base ≤ id) (hn : w.nodes[id]? = some n)
    (hkind : n.role.kind = .evaluator) (h : Accounts B base may others flying w) :
    Kept B base may mine others flying nothing w (exec (Evaluator.vars E id) w) := by
  refine liveHandle_bind hn (.refl h.valid) h fun handle hh => ?_
  refine bind (onEngine (.refl h.valid) h
    (hE.getVars _ handle h.valid (hkind ▸ h.live_handle hb hn hh))) fun answer w₁ _ hf₁ h₁ => ?_
  exact check_bind (Value.tells_entries answer) hf₁ h₁ fun entries _ =>
    .check (Wire.tells_decodeEntries entries) hf₁ h₁

theorem defineType {name expr : Value} (hf : Follows B base mine w₀ w)
    (h : Accounts B base may others flying w) :
    Kept B base may mine others flying nothing w₀ (exec (Scope.defineType id name expr) w) := by
  refine checkLive_bind hf h fun m _ _ => ?_
  refine symbolsOf_bind hf h fun n issued types symbols hn hrole => ?_
  refine check_bind (types.tells_define name expr) hf h fun r _ => ?_
  exact bind (recast hn (recast_scope hrole) hf h) fun _ w₁ _ hf₁ h₁ => .done hf₁ h₁

theorem ofWire (hE : Lawful E B) {wire : Value} (hf : Follows B base mine w₀ w)
    (h : Accounts B base may others flying w) :
    Kept B base may mine others flying nothing w₀ (exec (Signature.ofWire (Host.nameIn E id) wire) w) := by
  unfold Signature.ofWire
  refine bind (ofExcept ((wire.tells_atKey _).bind Value.tells_elements) hf h) fun items w₁ _ hf₁ h₁ => ?_
  refine bind (mapM ?_ items hf₁ h₁) fun args w₂ _ hf₂ h₂ => ?_
  · intro item w hf h
    unfold Signature.argOfWire
    refine bind (ofExcept (item.tells_atKey _) hf h) fun symbol w₁ _ hf₁ h₁ => ?_
    refine bind (nameIn hE hf₁ h₁) fun name w₂ _ hf₂ h₂ => ?_
    refine bind (ofExcept ((item.tells_atKey _).bind Ty.tells_ofWire) hf₂ h₂) fun t w₃ _ hf₃ h₃ => ?_
    refine bind (ofExcept (item.tells_atKey _) hf₃ h₃) fun required w₄ _ hf₄ h₄ => ?_
    exact bind (ofExcept (item.tells_atKey _) hf₄ h₄) fun variadic w₅ _ hf₅ h₅ => .done hf₅ h₅
  · refine bind (ofExcept ((wire.tells_atKey _).bind Ty.tells_ofWire) hf₂ h₂) fun t w₃ _ hf₃ h₃ => ?_
    exact bind (ofExcept (wire.tells_atKey _) hf₃ h₃) fun total w₄ _ hf₄ h₄ => .done hf₄ h₄

theorem getSignature (hE : Lawful E B) {name : Value} (hb : base ≤ id) (hn : w.nodes[id]? = some n)
    (hkind : n.role.kind = .scope) (h : Accounts B base may others flying w) :
    Kept B base may mine others flying nothing w (exec (Scope.getSignature E id name) w) := by
  refine liveHandle_bind hn (.refl h.valid) h fun handle hh => ?_
  refine bind (onEngine (.refl h.valid) h
    (hE.getSignature _ handle name h.valid (hkind ▸ h.live_handle hb hn hh))) fun wire w₁ _ hf₁ h₁ => ?_
  split
  · exact .done hf₁ h₁
  · exact map some (ofWire hE hf₁ h₁)

theorem toWire (hE : Lawful E B) {signature : Signature} (hf : Follows B base mine w₀ w)
    (h : Accounts B base may others flying w) :
    Kept B base may mine others flying nothing w₀
      (exec (signature.toWire (Host.internIn E id)) w) := by
  refine bind (mapM ?_ signature.args hf h) fun args w₁ _ hf₁ h₁ => .done hf₁ h₁
  intro a w hf h
  exact bind (internIn hE hf h) fun symbol w₁ _ hf₁ h₁ => .done hf₁ h₁

/-- The host numbers a function before the engine learns of it, and keeps it if the engine fails. -/
theorem register (hE : Lawful E B) {definition : Definition S.Body} {handle wire : Value} {types : Registry}
    {symbols : SymbolTable} (hb : base ≤ id) (hn : w.nodes[id]? = some n)
    (hrole : n.role = .scope handle types symbols) (hh : n.handle = some handle)
    (hf : Follows B base mine w₀ w) (h : Accounts B base may others flying w) :
    Kept B base may mine others flying nothing w₀ (exec (do
      let number ← modifyGet fun w : World S =>
        (w.functions.length, { w with functions := w.functions ++ [⟨id, definition⟩] })
      Host.onEngine (E.define handle wire number)) w) := by
  have hlive := h.live_handle hb hn hh
  rw [hrole] at hlive
  obtain ⟨htells, hlater, hissued, hdropped, hhome⟩ :=
    hE.define w.engine handle wire w.functions.length h.valid hlive
  let after := (E.define handle wire w.functions.length).run.run w.engine
  let w' : World S := { w with functions := w.functions ++ [⟨id, definition⟩], engine := after.2 }
  have h' : Accounts B base may others flying w' := by
    refine h.register rfl (List.prefix_append ..) hlater.valid hissued hdropped ?_
    intro f scope hfun
    rcases hhome f scope hfun with hfun | ⟨rfl, rfl⟩
    · exact .inl hfun
    · exact .inr ⟨⟨id, definition⟩, n, types, symbols, List.getElem?_concat_length, hn, hrole⟩
  have hf' : Follows B base mine w₀ w' := by
    refine hf.trans (.engine (List.prefix_append ..) rfl hlater ?_)
    intro t ht
    rw [Books.Live, hissued, hdropped]
    exact ht
  have hexec : exec (do
      let number ← modifyGet fun w : World S =>
        (w.functions.length, { w with functions := w.functions ++ [⟨id, definition⟩] })
      Host.onEngine (E.define handle wire number)) w = (after.1, w') := by
    simp only [exec_bind, exec_modifyGet, exec_onEngine]
    rfl
  rw [hexec]
  cases hr : after.1 with
  | ok u => exact .done hf' h'
  | error f => exact .error (htells f hr) hf' h'

/-- A function is defined by whatever declares it, if that keeps the accounts and ends no scope. -/
theorem define (hE : Lawful E B) {build : Host S (Builder S.Body)} (hb : base ≤ id)
    (hn : w.nodes[id]? = some n) (hkind : n.role.kind = .scope) (hmine : mine ≠ some id)
    (hbuild : Kept B base may mine others flying nothing w (exec build w))
    (h : Accounts B base may others flying w) :
    Kept B base may mine others flying nothing w (exec (Scope.define E id build) w) := by
  refine liveHandle_bind hn (.refl h.valid) h fun handle hh => ?_
  refine bind hbuild fun builder w₁ _ hf₁ h₁ => ?_
  refine check_bind builder.tells_validate hf₁ h₁ fun definition _ => ?_
  refine bind (toWire hE hf₁ h₁) fun wire w₂ _ hf₂ h₂ => ?_
  obtain ⟨n₂, types, symbols, hn₂, hrole₂, hh₂⟩ := hf₂.scope_handle h₂ hb hn hkind hmine hh
  rw [← bind_assoc]
  refine bind (register hE hb hn₂ hrole₂ hh₂ hf₂ h₂) fun _ w₃ _ hf₃ h₃ => ?_
  refine check_bind definition.signature.tells_name hf₃ h₃ fun name _ => ?_
  exact bind (.write hf₃ h₃) fun _ w₄ _ hf₄ h₄ => .done hf₄ h₄

end Scripts

end Kept

end EngineHost
