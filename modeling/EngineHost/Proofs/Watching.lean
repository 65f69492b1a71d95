import EngineHost.Proofs.Books

/-!
An engine that is watched. It does what it did before, and keeps notes of the calls of its entry points and
of the handles that it failed to take back.
-/
namespace EngineHost

/-- A call of one of an engine's entry points. -/
inductive EngineCall where
  | allocScope
  | allocEvaluator
  /-- A handle is given back. -/
  | drop (t : Token)
  | internSymbol (scope name : Value)
  | lookupSymbol (scope symbol : Value)
  | define (scope signature : Value) (function : FunctionId)
  | getSignature (scope name : Value)
  | compile (scope source : Value)
  | recompile (script source : Value)
  | typeInfo (script : Value)
  | evaluate (script : Value) (inputs : List (Value × Value))
  | callBlock (block : Value) (args : List Value)
  | evaluateSource (evaluator source : Value) (inputs : List (Value × Value))
  | typeOf (evaluator source : Value)
  | setVar (evaluator name value : Value)
  | getVars (evaluator : Value)

/-- What is noted of an engine, in the order in which it happened. -/
structure Notes where
  calls : List EngineCall
  /-- The handles that were given back in vain. -/
  refused : List Token

/-- The state of an engine, with the notes of how it came to be in it. -/
structure Watched (σ : Type) where
  state : σ
  notes : Notes

/-- The handle that a call did not get rid of. -/
def EngineCall.refusal {α : Type} : EngineCall → Except Failure α → List Token
  | .drop t, .error _ => [t]
  | _, _ => []

namespace Notes

def add {α : Type} (n : Notes) (call : EngineCall) (outcome : Except Failure α) : Notes :=
  ⟨n.calls ++ [call], n.refused ++ call.refusal outcome⟩

/-- Notes that have been continued. -/
structure Later (n n' : Notes) : Prop where
  calls : n.calls <+: n'.calls
  refused : n.refused <+: n'.refused

theorem Later.refl (n : Notes) : Later n n :=
  ⟨List.prefix_refl _, List.prefix_refl _⟩

theorem Later.trans {n n' n'' : Notes} (h : Later n n') (h' : Later n' n'') : Later n n'' :=
  ⟨h.calls.trans h'.calls, h.refused.trans h'.refused⟩

theorem later_add {α : Type} (n : Notes) (call : EngineCall) (outcome : Except Failure α) :
    Later n (n.add call outcome) :=
  ⟨List.prefix_append .., List.prefix_append ..⟩

/-- Where nothing is refused, nothing had been. -/
theorem Later.refused_nil {n n' : Notes} (h : Later n n') (hn' : n'.refused = []) : n.refused = [] :=
  List.prefix_nil.mp (hn' ▸ h.refused)

end Notes

variable {σ α : Type}

/-- A call that is noted with its end. -/
def noted (call : EngineCall) (x : EngineM σ α) : EngineM (Watched σ) α :=
  ExceptT.mk fun s =>
    let (outcome, state) := x.run.run s.state
    (outcome, ⟨state, s.notes.add call outcome⟩)

/-- An evaluation adds nothing to the notes itself; host functions that it calls do. -/
def Evaluation.watched : Evaluation σ α → Notes → Evaluation (Watched σ) α
  | .done result state, notes => .done result ⟨state, notes⟩
  | .ask f args state resume, notes =>
    .ask f args ⟨state, notes⟩ fun answer s => (resume answer s.state).watched s.notes

/-- An evaluation whose start is noted. -/
def started (call : EngineCall) (start : σ → Evaluation σ (Checked Value)) (s : Watched σ) :
    Evaluation (Watched σ) (Checked Value) :=
  (start s.state).watched (s.notes.add call (.ok ()))

namespace Engine

/-- The engine, watched. -/
def watched (E : Engine σ) : Engine (Watched σ) where
  allocScope := noted .allocScope E.allocScope
  dropScope h := noted (.drop (.scope, h)) (E.dropScope h)
  internSymbol scope name := noted (.internSymbol scope name) (E.internSymbol scope name)
  lookupSymbol scope symbol := noted (.lookupSymbol scope symbol) (E.lookupSymbol scope symbol)
  define scope signature f := noted (.define scope signature f) (E.define scope signature f)
  getSignature scope name := noted (.getSignature scope name) (E.getSignature scope name)
  compile scope source := noted (.compile scope source) (E.compile scope source)
  recompile script source := noted (.recompile script source) (E.recompile script source)
  typeInfo script := noted (.typeInfo script) (E.typeInfo script)
  evaluate script inputs := started (.evaluate script inputs) (E.evaluate script inputs)
  dropScript h := noted (.drop (.script, h)) (E.dropScript h)
  callBlock block args := started (.callBlock block args) (E.callBlock block args)
  dropBlock h := noted (.drop (.block, h)) (E.dropBlock h)
  allocEvaluator := noted .allocEvaluator E.allocEvaluator
  dropEvaluator h := noted (.drop (.evaluator, h)) (E.dropEvaluator h)
  evaluateSource evaluator source inputs :=
    started (.evaluateSource evaluator source inputs) (E.evaluateSource evaluator source inputs)
  typeOf evaluator source := noted (.typeOf evaluator source) (E.typeOf evaluator source)
  setVar evaluator name value := noted (.setVar evaluator name value) (E.setVar evaluator name value)
  getVars evaluator := noted (.getVars evaluator) (E.getVars evaluator)

/-- Gives one handle back. The arguments of a call have none. -/
def drop (E : Engine σ) (t : Token) : EngineM σ Unit :=
  match t.1 with
  | .scope => E.dropScope t.2
  | .script => E.dropScript t.2
  | .block => E.dropBlock t.2
  | .evaluator => E.dropEvaluator t.2
  | .args => throw (.shape .noSuchPart)

/-- Gives handles back in their order, up to the first that is refused. -/
def giveBack (E : Engine σ) : List Token → EngineM σ Unit
  | [] => pure ()
  | t :: rest => do
    E.drop t
    E.giveBack rest

section

variable {E : Engine σ} {t : Token} {ts : List Token}

theorem giveBack_cons_run (t : Token) (ts : List Token) (s : σ) :
    (E.giveBack (t :: ts)).run.run s =
      match (E.drop t).run.run s with
      | (.ok (), s') => (E.giveBack ts).run.run s'
      | (.error f, s') => (.error f, s') := by
  simp only [giveBack, ExceptT.run_bind, StateT.run_bind]
  rcases StateT.run (ExceptT.run (E.drop t)) s with ⟨r, s₁⟩
  cases r <;> rfl

theorem giveBack_append_run (ts ts' : List Token) (s : σ) :
    (E.giveBack (ts ++ ts')).run.run s =
      match (E.giveBack ts).run.run s with
      | (.ok (), s') => (E.giveBack ts').run.run s'
      | (.error f, s') => (.error f, s') := by
  induction ts generalizing s with
  | nil => rfl
  | cons t rest ih =>
    rw [List.cons_append, giveBack_cons_run, giveBack_cons_run]
    rcases (E.drop t).run.run s with ⟨r, s₁⟩
    cases r with
    | ok u => exact ih s₁
    | error f => rfl

theorem giveBack_singleton_run (t : Token) (s : σ) :
    (E.giveBack [t]).run.run s = (E.drop t).run.run s := by
  rw [giveBack_cons_run]
  rcases (E.drop t).run.run s with ⟨r, s₁⟩
  cases r <;> rfl

theorem drop_watched (hkind : t.1 ≠ .args) : E.watched.drop t = noted (.drop t) (E.drop t) := by
  obtain ⟨kind, h⟩ := t
  cases kind <;> first | rfl | exact absurd rfl hkind

theorem noted_run (call : EngineCall) (x : EngineM σ α) (s : Watched σ) :
    (noted call x).run.run s =
      ((x.run.run s.state).1, ⟨(x.run.run s.state).2, s.notes.add call (x.run.run s.state).1⟩) := rfl

/-- What is given back in full has been noted handle by handle. -/
theorem giveBack_watched_ok {s s' : Watched σ} (hkinds : ∀ t ∈ ts, t.1 ≠ .args)
    (h : (E.watched.giveBack ts).run.run s = (.ok (), s')) :
    s'.notes = ⟨s.notes.calls ++ ts.map .drop, s.notes.refused⟩ := by
  induction ts generalizing s with
  | nil =>
    obtain rfl := (Prod.mk.inj h).2
    simp
  | cons t rest ih =>
    rw [giveBack_cons_run, drop_watched (hkinds t (List.mem_cons_self ..)), noted_run] at h
    cases hr : ((E.drop t).run.run s.state).1 with
    | error f =>
      rw [hr] at h
      cases h
    | ok u =>
      rw [hr] at h
      have hnotes := ih (fun u hu => hkinds u (List.mem_cons_of_mem _ hu)) h
      simp only [hnotes, Notes.add, EngineCall.refusal, List.append_nil, List.map_cons,
        List.append_assoc, List.singleton_append]

/-- A handle that is refused has been noted as such. -/
theorem drop_watched_error {s s' : Watched σ} {f : Failure} (hkind : t.1 ≠ .args)
    (h : (E.watched.drop t).run.run s = (.error f, s')) :
    s'.notes = ⟨s.notes.calls ++ [.drop t], s.notes.refused ++ [t]⟩ := by
  rw [drop_watched hkind, noted_run] at h
  obtain ⟨hr, rfl⟩ := Prod.mk.inj h
  simp only [Notes.add, hr, EngineCall.refusal]

/-- What is given back in part has been noted up to the handle that was refused. -/
theorem giveBack_watched_error {s s' : Watched σ} {f : Failure} (hkinds : ∀ t ∈ ts, t.1 ≠ .args)
    (h : (E.watched.giveBack ts).run.run s = (.error f, s')) :
    ∃ given t missing, ts = given ++ t :: missing ∧
      s'.notes = ⟨s.notes.calls ++ given.map .drop ++ [.drop t], s.notes.refused ++ [t]⟩ := by
  induction ts generalizing s with
  | nil => cases h
  | cons t rest ih =>
    have hkind := hkinds t (List.mem_cons_self ..)
    rw [giveBack_cons_run] at h
    cases hdrop : (E.watched.drop t).run.run s with
    | mk r s₁ =>
      rw [hdrop] at h
      cases r with
      | error g =>
        obtain rfl := (Prod.mk.inj h).2
        refine ⟨[], t, rest, rfl, ?_⟩
        rw [drop_watched_error hkind hdrop, List.map_nil, List.append_nil]
      | ok u =>
        have hone := (giveBack_singleton_run (E := E.watched) t s).trans hdrop
        have hnotes := giveBack_watched_ok (fun u hu => List.mem_singleton.mp hu ▸ hkind) hone
        obtain ⟨given, x, missing, hsplit, hafter⟩ := ih (fun u hu => hkinds u (List.mem_cons_of_mem _ hu)) h
        refine ⟨t :: given, x, missing, by rw [hsplit]; rfl, ?_⟩
        rw [hafter, hnotes, List.map_cons, List.map_nil, List.map_cons, List.append_assoc,
          List.append_assoc, List.append_assoc]
        rfl

/-- However it ends, what has been noted before stays. -/
theorem giveBack_watched_later (hkinds : ∀ t ∈ ts, t.1 ≠ .args) (s : Watched σ) :
    s.notes.Later ((E.watched.giveBack ts).run.run s).2.notes := by
  cases hrun : (E.watched.giveBack ts).run.run s with
  | mk r s' =>
    cases r with
    | ok u =>
      rw [giveBack_watched_ok hkinds hrun]
      exact ⟨List.prefix_append .., List.prefix_refl _⟩
    | error f =>
      obtain ⟨given, t, missing, -, hnotes⟩ := giveBack_watched_error hkinds hrun
      rw [hnotes, List.append_assoc]
      exact ⟨List.prefix_append .., List.prefix_append ..⟩

end

end Engine

end EngineHost
