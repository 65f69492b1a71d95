import EngineHost.Proofs.Conduct

/-!
The smallest engine that obeys the laws: its handles are numbers, given out in their order. An evaluation
hands one callback to the function that was registered last and returns another.
-/
namespace EngineHost

open Host

structure Tickets where
  issued : List Token
  dropped : List Token
  functions : List (FunctionId × Value)

namespace Tickets

/-- The handle that comes next. -/
def next (s : Tickets) : Value := .int s.issued.length

def give (kind : ResourceKind) (s : Tickets) : Tickets :=
  { s with issued := (kind, s.next) :: s.issued }

def issue (kind : ResourceKind) : EngineM Tickets Value :=
  modifyGet fun s => (s.next, s.give kind)

def drop (kind : ResourceKind) (handle : Value) : EngineM Tickets Unit :=
  modify fun s => { s with dropped := (kind, handle) :: s.dropped }

/-- Ends with no value and a new callback. -/
def finish (s : Tickets) : Evaluation Tickets (Checked Value) :=
  .done (.ok (Envelope.ok (.list [.null, s.next]))) (s.give .block)

def evaluation (s : Tickets) : Evaluation Tickets (Checked Value) :=
  match s.functions with
  | [] => s.finish
  | (f, _) :: _ => .ask f [⟨.str "f", .null, s.next⟩] (s.give .block) fun _ s => s.finish

def engine : Engine Tickets where
  allocScope := issue .scope
  dropScope := drop .scope
  internSymbol _ name := pure name
  lookupSymbol _ symbol := pure symbol
  define scope _ f := modify fun s => { s with functions := (f, scope) :: s.functions }
  getSignature _ _ := pure .null
  compile _ _ := issue .script
  recompile _ _ := pure ()
  typeInfo _ := pure (Envelope.err (.str "unknown"))
  evaluate _ _ := evaluation
  dropScript := drop .script
  callBlock _ _ := finish
  dropBlock := drop .block
  allocEvaluator := issue .evaluator
  dropEvaluator := drop .evaluator
  evaluateSource _ _ _ := evaluation
  typeOf _ _ := pure (Envelope.err (.str "unknown"))
  setVar _ _ _ := pure ()
  getVars _ := pure (.mapping .plain [])

/-- Numbers are given out in their order, and taken back once. -/
structure Valid (s : Tickets) : Prop where
  numbered : ∀ t ∈ s.issued, ∃ n, n < s.issued.length ∧ t.2 = .int n
  dropped_issued : ∀ t ∈ s.dropped, t ∈ s.issued
  once : s.dropped.Nodup

def books : Books Tickets where
  valid := Valid
  issued s := s.issued
  dropped s := s.dropped
  home s f scope := (f, scope) ∈ s.functions
  knows _ _ symbol := symbol.isHashable

section Laws

variable {s : Tickets} {kind : ResourceKind}

theorem next_fresh (h : Valid s) : books.Fresh s [(kind, s.next)] := by
  refine ⟨by simp, ?_⟩
  intro t ht
  obtain rfl := List.mem_singleton.mp ht
  refine ⟨by simp [next], ?_⟩
  intro hissued
  obtain ⟨n, hlt, hn⟩ := h.numbered _ hissued
  simp only [next, Value.int.injEq] at hn
  omega

theorem give_moves (h : Valid s) : books.Moves s (s.give kind) [(kind, s.next)] [] where
  valid :=
    { numbered := by
        intro t ht
        rcases List.mem_cons.mp ht with rfl | ht
        · exact ⟨s.issued.length, by simp [give], rfl⟩
        · obtain ⟨n, hlt, hn⟩ := h.numbered t ht
          refine ⟨n, ?_, hn⟩
          simp only [give, List.length_cons]
          omega
      dropped_issued := fun t ht => List.mem_cons_of_mem _ (h.dropped_issued t ht)
      once := h.once }
  issued := rfl
  dropped := rfl
  knows := fun _ _ hk => hk
  home := fun _ _ hf => hf

theorem quiet {α : Type} (h : Valid s) (a : α) : books.Quiet s (.ok a, s) :=
  ⟨⟨List.nodup_nil, by simp⟩, .refl h⟩

theorem drop_moves (h : Valid s) {handle : Value} (hlive : books.Live s (kind, handle)) :
    ∃ s', (drop kind handle).run.run s = (.ok (), s') ∧ books.Moves s s' [] [(kind, handle)] := by
  refine ⟨_, rfl, ⟨h.numbered, ?_, ?_⟩, rfl, rfl, fun _ _ hk => hk, fun _ _ hf => hf⟩
  · intro t ht
    rcases List.mem_cons.mp ht with rfl | ht
    · exact hlive.1
    · exact h.dropped_issued t ht
  · exact List.nodup_cons.mpr ⟨hlive.2, h.once⟩

theorem finish_orderly (h : Valid s) : books.Orderly s s.finish := by
  refine .done ⟨next_fresh h, give_moves h⟩ ?_
  intro envelope he f hf
  obtain rfl := Except.ok.inj he
  cases hf

theorem evaluation_orderly (h : Valid s) : books.Orderly s s.evaluation := by
  unfold evaluation
  cases hs : s.functions with
  | nil => exact finish_orderly h
  | cons home rest =>
    obtain ⟨f, scope⟩ := home
    refine .ask (next_fresh h) (give_moves h) ⟨scope, ?_, ?_⟩ ?_
    · simp [books, give, hs]
    · intro r hr
      obtain rfl := List.mem_singleton.mp hr
      rfl
    · intro _ s' hlater
      exact finish_orderly hlater.valid

/-- Numbering handles is lawful. -/
theorem lawful : Lawful engine books where
  allocScope := fun _ h => ⟨next_fresh h, give_moves h⟩
  allocEvaluator := fun _ h => ⟨next_fresh h, give_moves h⟩
  compile := fun _ _ _ h _ => ⟨next_fresh h, give_moves h⟩
  dropScope := fun _ _ h hlive => drop_moves h hlive
  dropScript := fun _ _ h hlive => drop_moves h hlive
  dropBlock := fun _ _ h hlive => drop_moves h hlive
  dropEvaluator := fun _ _ h hlive => drop_moves h hlive
  internSymbol := fun _ _ name h => quiet h name
  lookupSymbol := fun _ _ symbol h => quiet h symbol
  lookupSymbol_known := fun _ _ symbol _ hk => ⟨hk, symbol, rfl, hk⟩
  define := by
    intro s scope signature f h _
    refine ⟨?_, ⟨⟨h.numbered, h.dropped_issued, h.once⟩, ⟨[], rfl⟩, ⟨[], rfl, List.nodup_nil, by simp⟩,
      fun _ _ hk => hk⟩, rfl, rfl, ?_⟩
    · intro e he
      cases he
    · intro g home hg
      rcases List.mem_cons.mp hg with hg | hg
      · exact .inr (Prod.mk.inj hg)
      · exact .inl hg
  getSignature := fun _ _ _ h _ => quiet h Value.null
  recompile := fun _ _ _ h _ => quiet h ()
  typeInfo := by
    intro s _ h _
    refine ⟨quiet h _, ?_⟩
    intro envelope he f hf
    obtain rfl := Except.ok.inj he
    cases hf
    rfl
  typeOf := by
    intro s _ _ h _
    refine ⟨quiet h _, ?_⟩
    intro envelope he f hf
    obtain rfl := Except.ok.inj he
    cases hf
    rfl
  setVar := fun _ _ _ _ h _ => quiet h ()
  getVars := fun _ _ h _ => quiet h _
  evaluate := fun _ _ _ h _ => evaluation_orderly h
  evaluateSource := fun _ _ _ _ h _ => evaluation_orderly h
  callBlock := fun _ _ _ h _ => finish_orderly h

end Laws

section Programs

/-- Programs over numbered handles that keep nothing and know one body. -/
abbrev embedding : Embedding := ⟨Tickets, Unit, Unit⟩

/-- A program that has not done anything yet. -/
def outset : World embedding := ⟨[], [], [], ⟨[], [], []⟩, (), []⟩

/-- The body calls the callback it is handed; bodies within are refused. -/
def callBack (base : Nat) : RunBody embedding := fun _ args => do
  let v ← since base .args args (Args.demand args (.str "f"))
  match v with
  | .object ref => since base .block ref.id (Block.call engine (fun _ _ => fail .tooDeep) ref.id [])
  | v => pure v

theorem callBack_runner (base : Nat) (may : ResourceKind → Prop) :
    Runner engine base may (callBack base) := by
  refine .nest .bottom fun _ args => .bind (.use (.demand args _)) fun v => ?_
  cases v with
  | object ref => exact .use (.callBlock ref.id [])
  | _ => exact .pure _

/-- The declaration of a function of one argument. -/
def declaration : List (BuildStep Unit) :=
  [.declare (.str "f") (.str "number") true false, .returns (.str "number"),
    .implement (some (.function ()))]

end Programs

end Tickets

end EngineHost
