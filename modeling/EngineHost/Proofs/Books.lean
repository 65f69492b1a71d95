import EngineHost.Proofs.Execution

/-!
Engines that keep books of their handles. A lawful engine issues every handle once, takes back what is
live without fail, and says with each answer what it has issued. Nothing else is assumed of it: it may
refuse any other call, and during an evaluation it may call host functions as often as it likes.
-/
namespace EngineHost

/-- A handle, with the kind of resource it stands for. -/
abbrev Token := ResourceKind × Value

/-- What the states of an engine tell about its handles. Only statements speak of it. -/
structure Books (σ : Type) where
  /-- The states the engine can be in. -/
  valid : σ → Prop
  /-- Every handle ever issued, the latest first. -/
  issued : σ → List Token
  /-- Every handle ever taken back, the latest first. -/
  dropped : σ → List Token
  /-- The function is registered under the scope. -/
  home : σ → FunctionId → Value → Prop
  /-- The symbol has a name in the scope. -/
  knows : σ → Value → Value → Prop

/-- The callback handles among raw arguments. -/
def rawTokens (raw : List RawArg) : List Token :=
  raw.filterMap fun r =>
    match r.block with
    | .null => none
    | handle => some (.block, handle)

/-- The callback handle that an answer to an evaluation carries. -/
def answerTokens (envelope : Value) : List Token :=
  match Envelope.unwrapPair envelope with
  | .ok (_, .null) => []
  | .ok (_, handle) => [(.block, handle)]
  | .error _ => []

/-- A message under `Err` is one that can be told. -/
def AnswerTells (envelope : Value) : Prop :=
  ∀ f, Envelope.unwrapPair envelope = .error f → f.Tellable

namespace Books

variable {σ α : Type} (B : Books σ)

/-- Issued and not taken back. -/
def Live (s : σ) (t : Token) : Prop :=
  t ∈ B.issued s ∧ t ∉ B.dropped s

/-- Handles that can be issued next. -/
def Fresh (s : σ) (new : List Token) : Prop :=
  new.Nodup ∧ ∀ t ∈ new, t.2 ≠ .null ∧ t ∉ B.issued s

/-- A state that the engine may be in some calls later; what was taken back meanwhile had not been
taken back before. -/
structure Later (s s' : σ) : Prop where
  valid : B.valid s'
  issued : ∃ new, B.issued s' = new ++ B.issued s
  dropped : ∃ gone, B.dropped s' = gone ++ B.dropped s ∧ gone.Nodup ∧
    ∀ t ∈ gone, t ∉ B.dropped s ∧ t ∈ B.issued s'
  knows : ∀ scope symbol, B.knows s scope symbol → B.knows s' scope symbol

/-- One call, with the handles it issues and those it takes back. -/
structure Moves (s s' : σ) (new gone : List Token) : Prop where
  valid : B.valid s'
  issued : B.issued s' = new ++ B.issued s
  dropped : B.dropped s' = gone ++ B.dropped s
  knows : ∀ scope symbol, B.knows s scope symbol → B.knows s' scope symbol
  home : ∀ f scope, B.home s' f scope → B.home s f scope

/-- The end of a call: it issues fresh handles and names them in its answer, or it fails with a message
and issues none. -/
def Issues (s : σ) (named : α → List Token) (p : Except Failure α × σ) : Prop :=
  match p.1 with
  | .ok a => B.Fresh s (named a) ∧ B.Moves s p.2 (named a) []
  | .error f => f.Tellable ∧ B.Moves s p.2 [] []

/-- The end of a call that issues nothing in any case. -/
def Quiet (s : σ) (p : Except Failure α × σ) : Prop :=
  B.Issues s (fun _ => []) p

/-- An evaluation that issues fresh callbacks only, to host functions and in its answer, and calls the
functions it was given by symbols that they know. Host functions may leave any later state. -/
inductive Orderly : σ → Evaluation σ (Checked Value) → Prop where
  | done {s s' : σ} {result : Checked Value}
      (ends : B.Issues s answerTokens (result, s'))
      (tells : ∀ envelope, result = .ok envelope → AnswerTells envelope) :
      Orderly s (.done result s')
  | ask {s s' : σ} {f : FunctionId} {raw : List RawArg}
      {resume : Checked Value → σ → Evaluation σ (Checked Value)}
      (fresh : B.Fresh s (rawTokens raw))
      (moves : B.Moves s s' (rawTokens raw) [])
      (known : ∃ scope, B.home s' f scope ∧ ∀ r ∈ raw, B.knows s' scope r.symbol)
      (next : ∀ answer s'', B.Later s' s'' → Orderly s'' (resume answer s'')) :
      Orderly s (.ask f raw s' resume)

end Books

/-- The laws of an engine that keeps its books. A call that takes a handle is held to them only while
the handle is live. -/
structure Lawful {σ : Type} (E : Engine σ) (B : Books σ) : Prop where
  allocScope : ∀ s, B.valid s → B.Issues s (fun h => [(.scope, h)]) (E.allocScope.run.run s)
  allocEvaluator : ∀ s, B.valid s →
    B.Issues s (fun h => [(.evaluator, h)]) (E.allocEvaluator.run.run s)
  compile : ∀ s scope source, B.valid s → B.Live s (.scope, scope) →
    B.Issues s (fun h => [(.script, h)]) ((E.compile scope source).run.run s)
  dropScope : ∀ s h, B.valid s → B.Live s (.scope, h) →
    ∃ s', (E.dropScope h).run.run s = (.ok (), s') ∧ B.Moves s s' [] [(.scope, h)]
  dropScript : ∀ s h, B.valid s → B.Live s (.script, h) →
    ∃ s', (E.dropScript h).run.run s = (.ok (), s') ∧ B.Moves s s' [] [(.script, h)]
  dropBlock : ∀ s h, B.valid s → B.Live s (.block, h) →
    ∃ s', (E.dropBlock h).run.run s = (.ok (), s') ∧ B.Moves s s' [] [(.block, h)]
  dropEvaluator : ∀ s h, B.valid s → B.Live s (.evaluator, h) →
    ∃ s', (E.dropEvaluator h).run.run s = (.ok (), s') ∧ B.Moves s s' [] [(.evaluator, h)]
  internSymbol : ∀ s scope name, B.valid s → B.Quiet s ((E.internSymbol scope name).run.run s)
  lookupSymbol : ∀ s scope symbol, B.valid s → B.Quiet s ((E.lookupSymbol scope symbol).run.run s)
  lookupSymbol_known : ∀ s scope symbol, B.valid s → B.knows s scope symbol →
    symbol.isHashable = true ∧
      ∃ name, ((E.lookupSymbol scope symbol).run.run s).1 = .ok name ∧ name.isHashable = true
  /-- A function is registered at most where it was asked to be. -/
  define : ∀ s scope signature f, B.valid s → B.Live s (.scope, scope) →
    let p := (E.define scope signature f).run.run s
    (∀ e, p.1 = .error e → e.Tellable) ∧ B.Later s p.2 ∧
      B.issued p.2 = B.issued s ∧ B.dropped p.2 = B.dropped s ∧
      ∀ g home, B.home p.2 g home → B.home s g home ∨ g = f ∧ home = scope
  getSignature : ∀ s scope name, B.valid s → B.Live s (.scope, scope) →
    B.Quiet s ((E.getSignature scope name).run.run s)
  recompile : ∀ s script source, B.valid s → B.Live s (.script, script) →
    B.Quiet s ((E.recompile script source).run.run s)
  typeInfo : ∀ s script, B.valid s → B.Live s (.script, script) →
    let p := (E.typeInfo script).run.run s
    B.Quiet s p ∧ ∀ envelope, p.1 = .ok envelope → AnswerTells envelope
  typeOf : ∀ s evaluator source, B.valid s → B.Live s (.evaluator, evaluator) →
    let p := (E.typeOf evaluator source).run.run s
    B.Quiet s p ∧ ∀ envelope, p.1 = .ok envelope → AnswerTells envelope
  setVar : ∀ s evaluator name value, B.valid s → B.Live s (.evaluator, evaluator) →
    B.Quiet s ((E.setVar evaluator name value).run.run s)
  getVars : ∀ s evaluator, B.valid s → B.Live s (.evaluator, evaluator) →
    B.Quiet s ((E.getVars evaluator).run.run s)
  evaluate : ∀ s script inputs, B.valid s → B.Live s (.script, script) →
    B.Orderly s (E.evaluate script inputs s)
  evaluateSource : ∀ s evaluator source inputs, B.valid s → B.Live s (.evaluator, evaluator) →
    B.Orderly s (E.evaluateSource evaluator source inputs s)
  callBlock : ∀ s block args, B.valid s → B.Live s (.block, block) →
    B.Orderly s (E.callBlock block args s)

namespace Books

variable {σ : Type} {B : Books σ} {s s' s'' : σ} {new gone new' gone' : List Token}

theorem Later.refl (h : B.valid s) : B.Later s s :=
  ⟨h, ⟨[], rfl⟩, ⟨[], rfl, List.nodup_nil, by simp⟩, fun _ _ hk => hk⟩

theorem Later.mem_issued (h : B.Later s s') {t : Token} (ht : t ∈ B.issued s) :
    t ∈ B.issued s' := by
  obtain ⟨new, hnew⟩ := h.issued
  rw [hnew]
  exact List.mem_append_right _ ht

theorem Later.mem_dropped (h : B.Later s s') {t : Token} (ht : t ∈ B.dropped s) :
    t ∈ B.dropped s' := by
  obtain ⟨gone, hgone, _⟩ := h.dropped
  rw [hgone]
  exact List.mem_append_right _ ht

theorem Later.trans (h : B.Later s s') (h' : B.Later s' s'') : B.Later s s'' := by
  obtain ⟨new, hnew⟩ := h.issued
  obtain ⟨new', hnew'⟩ := h'.issued
  obtain ⟨gone, hgone, hnodup, hold⟩ := h.dropped
  obtain ⟨gone', hgone', hnodup', hold'⟩ := h'.dropped
  refine ⟨h'.valid, ⟨new' ++ new, by rw [hnew', hnew, List.append_assoc]⟩,
    ⟨gone' ++ gone, by rw [hgone', hgone, List.append_assoc], ?_, ?_⟩,
    fun scope symbol hk => h'.knows scope symbol (h.knows scope symbol hk)⟩
  · refine List.nodup_append.mpr ⟨hnodup', hnodup, ?_⟩
    intro t ht u hu htu
    subst htu
    exact (hold' t ht).1 (by rw [hgone]; exact List.mem_append_left _ hu)
  · intro t ht
    rcases List.mem_append.mp ht with ht | ht
    · exact ⟨fun hd => (hold' t ht).1 (h.mem_dropped hd), (hold' t ht).2⟩
    · exact ⟨(hold t ht).1, h'.mem_issued (hold t ht).2⟩

/-- A call that takes back live handles, each once, leads to a later state. -/
theorem Moves.later (h : B.Moves s s' new gone) (hnodup : gone.Nodup)
    (hlive : ∀ t ∈ gone, B.Live s t) : B.Later s s' := by
  refine ⟨h.valid, ⟨new, h.issued⟩, ⟨gone, h.dropped, hnodup, ?_⟩, h.knows⟩
  intro t ht
  refine ⟨(hlive t ht).2, ?_⟩
  rw [h.issued]
  exact List.mem_append_right _ (hlive t ht).1

theorem Moves.later_nil (h : B.Moves s s' new []) : B.Later s s' :=
  h.later List.nodup_nil (by simp)

theorem Moves.trans (h : B.Moves s s' new gone) (h' : B.Moves s' s'' new' gone') :
    B.Moves s s'' (new' ++ new) (gone' ++ gone) where
  valid := h'.valid
  issued := by rw [h'.issued, h.issued, List.append_assoc]
  dropped := by rw [h'.dropped, h.dropped, List.append_assoc]
  knows := fun scope symbol hk => h'.knows scope symbol (h.knows scope symbol hk)
  home := fun f scope hf => h.home f scope (h'.home f scope hf)

theorem Moves.refl (h : B.valid s) : B.Moves s s [] [] :=
  ⟨h, rfl, rfl, fun _ _ hk => hk, fun _ _ hf => hf⟩

theorem Moves.live_iff (h : B.Moves s s' new gone) (t : Token) :
    B.Live s' t ↔ (t ∈ new ∨ t ∈ B.issued s) ∧ t ∉ gone ∧ t ∉ B.dropped s := by
  rw [Live, h.issued, h.dropped, List.mem_append, List.mem_append, not_or]

end Books

end EngineHost
