import EngineHost.Proofs.Desks
import EngineHost.Proofs.Unwinding

/-!
What an operation on a namespace does is settled by the desk: in every world where the desk stands it has
the same outcome and leaves the same desk, and nothing of another namespace has changed.
-/
namespace EngineHost

open Host

variable {S : Embedding} {P K : Type} {α β : Type}

/-- An outcome, before the objects in an error are shown. -/
inductive Verdict (α : Type) where
  | exact (outcome : Except Failure α)
  | shown (f : Failure)

def Verdict.Meets (S : Embedding) : Verdict α → Except Failure α → Prop
  | .exact r, outcome => outcome = r
  | .shown f, outcome => f.isVolatile ∧ ∃ w : World S, outcome = .error (f.shownIn w)

theorem Verdict.Meets.alike {v : Verdict α} {r r' : Except Failure α} (h : v.Meets S r) (h' : v.Meets S r') :
    Alike S r r' := by
  cases v with
  | exact outcome =>
    obtain rfl : r = outcome := h
    obtain rfl : r' = r := h'
    exact .same _
  | shown f =>
    obtain ⟨hvolatile, w, rfl⟩ := h
    obtain ⟨-, u, rfl⟩ := h'
    exact .shown f hvolatile w u

def Verdict.map (f : α → β) : Verdict α → Verdict β
  | .exact outcome => .exact (outcome.map f)
  | .shown e => .shown e

theorem Verdict.Meets.map {v : Verdict α} {r : Except Failure α} (h : v.Meets S r) (f : α → β) :
    (v.map f).Meets S (r.map f) := by
  cases v with
  | exact outcome => exact congrArg (Except.map f) h
  | shown e =>
    obtain ⟨hvolatile, w, rfl⟩ := h
    exact ⟨hvolatile, w, rfl⟩

/-- Every failure raised in a world has a verdict that does not depend on the world. -/
theorem exists_verdict (S : Embedding) (α : Type) (f : Failure) :
    ∃ v : Verdict α, ∀ w : World S, v.Meets S (.error (f.shownIn w)) := by
  cases hf : f.isVolatile with
  | true => exact ⟨.shown f, fun w => ⟨hf, w, rfl⟩⟩
  | false =>
    by_cases hw : Nonempty (World S)
    · obtain ⟨u⟩ := hw
      exact ⟨.exact (.error (f.shownIn u)), fun w => congrArg Except.error (Failure.shownIn_steady w u hf)⟩
    · exact ⟨.shown f, fun w => absurd ⟨w⟩ hw⟩

/-- A computation about a program's namespace has this verdict and leaves this desk, wherever the first
desk stands. -/
def Leads (L : Compartments S.State P K) (d : Desk P K) (x : Tenant → Value → Host S α) (v : Verdict α)
    (d' : Desk P K) : Prop :=
  ∀ t issued w, d.In L t issued w →
    let (outcome, w') := exec (x t issued) w
    v.Meets S outcome ∧ d'.In L t issued w' ∧ Beside L t.scope issued w w'

/-- From one desk to a later one no script is added, and a live namespace stays live. -/
structure Desk.Later (d d' : Desk P K) : Prop where
  live : d.isLive → d'.isLive
  made : d'.made.length = d.made.length

theorem Desk.Later.refl (d : Desk P K) : d.Later d :=
  ⟨id, rfl⟩

theorem Desk.Later.trans {d d' d'' : Desk P K} (h : d.Later d') (h' : d'.Later d'') : d.Later d'' :=
  ⟨fun hlive => h'.live (h.live hlive), h'.made.trans h.made⟩

/-- Each part of a computation begins where the one before it has left the desk. -/
theorem Leads.bind {L : Compartments S.State P K} {d d₁ : Desk P K} {R : Desk P K → Prop} {v : Verdict α}
    {x : Tenant → Value → Host S α} {k : α → Tenant → Value → Host S β} (hx : Leads L d x v d₁) (hR : R d₁)
    (hk : ∀ a, ∃ v' d', Leads L d₁ (k a) v' d' ∧ R d') :
    ∃ v' d', Leads L d (fun t issued => x t issued >>= fun a => k a t issued) v' d' ∧ R d' := by
  have hstop : ∀ {t issued w f w₁}, exec (x t issued) w = (.error f, w₁) →
      exec (x t issued >>= fun a => k a t issued) w = (.error f, w₁) := by
    intro t issued w f w₁ hrun
    rw [exec_bind, hrun]
  match v with
  | .exact (.ok a) =>
    obtain ⟨v', d', hk, hR'⟩ := hk a
    refine ⟨v', d', fun t issued w h => ?_, hR'⟩
    have hx := hx t issued w h
    rcases hp : exec (x t issued) w with ⟨outcome, w₁⟩
    rw [hp] at hx
    obtain ⟨rfl, hin, hbeside⟩ := hx
    have hrun : exec (x t issued >>= fun a => k a t issued) w = exec (k a t issued) w₁ := by
      rw [exec_bind, hp]
    obtain ⟨hmeets, hin', hbeside'⟩ := hk t issued w₁ hin
    rw [hrun]
    exact ⟨hmeets, hin', hbeside.trans hbeside'⟩
  | .exact (.error f) =>
    refine ⟨.exact (.error f), d₁, fun t issued w h => ?_, hR⟩
    have hx := hx t issued w h
    rcases hp : exec (x t issued) w with ⟨outcome, w₁⟩
    rw [hp] at hx
    obtain ⟨rfl, hin, hbeside⟩ := hx
    rw [hstop hp]
    exact ⟨rfl, hin, hbeside⟩
  | .shown f =>
    refine ⟨.shown f, d₁, fun t issued w h => ?_, hR⟩
    have hx := hx t issued w h
    rcases hp : exec (x t issued) w with ⟨outcome, w₁⟩
    rw [hp] at hx
    obtain ⟨⟨hvolatile, u, rfl⟩, hin, hbeside⟩ := hx
    rw [hstop hp]
    exact ⟨⟨hvolatile, u, rfl⟩, hin, hbeside⟩

/-- What a computation does depends on nothing but the desk, and the desk after it is a later one. -/
def Determined (L : Compartments S.State P K) (d : Desk P K) (x : Tenant → Value → Host S α) : Prop :=
  ∃ v d', Leads L d x v d' ∧ d.Later d'

namespace Determined

variable {L : Compartments S.State P K} {d : Desk P K}

theorem bind {x : Tenant → Value → Host S α} {k : α → Tenant → Value → Host S β} (hx : Determined L d x)
    (hk : ∀ a d', d.Later d' → Determined L d' (k a)) :
    Determined L d fun t issued => x t issued >>= fun a => k a t issued := by
  obtain ⟨v, d₁, hx, hlater⟩ := hx
  refine hx.bind hlater fun a => ?_
  obtain ⟨v', d', hk, hlater'⟩ := hk a d₁ hlater
  exact ⟨v', d', hk, hlater.trans hlater'⟩

theorem stay {x : Tenant → Value → Host S α} (v : Verdict α)
    (hx : ∀ t issued w, d.In L t issued w → ∃ outcome, exec (x t issued) w = (outcome, w) ∧ v.Meets S outcome) :
    Determined L d x := by
  refine ⟨v, d, fun t issued w h => ?_, ⟨id, rfl⟩⟩
  obtain ⟨outcome, hrun, hmeets⟩ := hx t issued w h
  rw [hrun]
  exact ⟨hmeets, h, .turn (.refl h.valid) rfl⟩

theorem congr {x y : Tenant → Value → Host S α} (hy : Determined L d y)
    (hxy : ∀ t issued w, d.In L t issued w → exec (x t issued) w = exec (y t issued) w) : Determined L d x := by
  obtain ⟨v, d', hy, hlater⟩ := hy
  refine ⟨v, d', fun t issued w h => ?_, hlater⟩
  rw [hxy t issued w h]
  exact hy t issued w h

theorem pure (a : α) : Determined L d fun _ _ => (Pure.pure a : Host S α) :=
  stay (.exact (.ok a)) fun _ _ _ _ => ⟨_, rfl, rfl⟩

theorem fail (f : Failure) : Determined L d fun _ _ => (Host.fail f : Host S α) := by
  obtain ⟨v, hv⟩ := exists_verdict S α f
  exact stay v fun _ _ w _ => ⟨_, exec_fail_shown f w, hv w⟩

theorem check (c : Checked α) : Determined L d fun _ _ => (Host.check c : Host S α) := by
  cases c with
  | ok a => exact pure a
  | error f => exact fail f

theorem read (c : Checked α) : Determined L d fun _ _ => (ofExcept c : Host S α) := by
  cases c with
  | ok a => exact pure a
  | error f => exact stay (.exact (.error f)) fun _ _ _ _ => ⟨_, rfl, rfl⟩

/-- Writing to the log. -/
theorem write (e : LogEvent) : Determined L d fun _ _ => (Host.write e : Host S Unit) := by
  refine ⟨.exact (.ok ()), d, fun t issued w h => ?_, ⟨id, rfl⟩⟩
  exact ⟨rfl, h.congr rfl rfl, .turn (.refl h.valid) rfl⟩

/-- A call of the engine about the namespace. -/
theorem serve {call : Value → EngineM S.State α} {within : EngineM P α} (hlive : d.isLive)
    (hserves : ∀ issued, L.Serves issued (call issued) within) :
    Determined L d fun _ issued => (onEngine (call issued) : Host S α) := by
  refine ⟨.exact (within.run.run d.part).1, { d with part := (within.run.run d.part).2 },
    fun t issued w h => ?_, ⟨id, rfl⟩⟩
  obtain ⟨hlive', hdoes⟩ := hserves issued w.engine h.valid (h.live hlive)
  rw [h.part] at hdoes
  rw [exec_onEngine]
  exact ⟨hdoes.outcome, h.turn hdoes.toBecomes (fun _ _ _ _ _ _ h => h) fun _ => hlive',
    .turn hdoes.toAside rfl⟩

/-- A namespace that is live has its handle. -/
theorem liveHandle {k : Value → Tenant → Value → Host S α}
    (hk : d.isLive → Determined L d fun t issued => k issued t issued) :
    Determined L d fun t issued => Host.liveHandle t.scope >>= fun handle => k handle t issued := by
  cases hlive : d.isLive with
  | true =>
    obtain ⟨v, d', hk, hlive'⟩ := hk hlive
    refine ⟨v, d', fun t issued w h => ?_, hlive'⟩
    have hhandle : (d.node t issued).handle = some issued := by simp [Desk.node, hlive]
    rw [exec_bind, exec_liveHandle h.scope hhandle]
    exact hk t issued w h
  | false =>
    refine stay (.exact (.error (.host (.useAfterDestroy .scope)))) fun t issued w h => ?_
    have hgone : (d.node t issued).handle = none := by simp [Desk.node, hlive]
    rw [exec_bind, exec_liveHandle_gone h.scope hgone]
    exact ⟨_, rfl, rfl⟩

theorem symbolsOf {k : Value × Registry × SymbolTable → Tenant → Value → Host S α}
    (hk : Determined L d fun t issued => k (issued, d.types, d.symbols) t issued) :
    Determined L d fun t issued => Host.symbolsOf t.scope >>= fun known => k known t issued := by
  obtain ⟨v, d', hk, hlive'⟩ := hk
  refine ⟨v, d', fun t issued w h => ?_, hlive'⟩
  rw [exec_bind, exec_symbolsOf h.scope rfl]
  exact hk t issued w h

theorem typesOf {k : Registry → Tenant → Value → Host S α}
    (hk : Determined L d fun t issued => k d.types t issued) :
    Determined L d fun t issued => Scope.typesOf t.scope >>= fun types => k types t issued := by
  simp only [Scope.typesOf, bind_assoc, pure_bind]
  exact symbolsOf hk

theorem checkLive : Determined L d fun t _ => (Host.checkLive t.scope : Host S Unit) := by
  cases hlive : d.isLive with
  | true =>
    refine stay (.exact (.ok ())) fun t issued w h => ?_
    have hnode : (d.node t issued).isLive := by simp [Desk.node, Node.isLive, hlive]
    exact ⟨_, exec_checkLive h.scope hnode, rfl⟩
  | false =>
    refine stay (.exact (.error (.host (.useAfterDestroy .scope)))) fun t issued w h => ?_
    have hgone : (d.node t issued).isLive = false := by simp [Desk.node, Node.isLive, hlive]
    exact ⟨_, exec_checkLive_dead h.scope hgone, rfl⟩

/-- Aliases and symbols of the namespace are replaced. -/
theorem setRole (types : Registry) (symbols : SymbolTable) :
    Determined L d fun t issued => (Host.setRole t.scope (.scope issued types symbols) : Host S Unit) := by
  refine ⟨.exact (.ok ()), { d with types, symbols }, fun t issued w h => ?_, ⟨id, rfl⟩⟩
  rw [exec_setRole]
  exact ⟨rfl, h.rescope _ rfl rfl rfl id (fun _ hk => hk), .modify _ h.valid h.scope (.inl rfl)⟩

theorem map {x : Tenant → Value → Host S α} (f : α → β) (hx : Determined L d x) :
    Determined L d fun t issued => f <$> x t issued := by
  simp only [map_eq_pure_bind]
  exact hx.bind fun a _ _ => pure (f a)

theorem mapM {f : β → Tenant → Value → Host S α} (items : List β)
    (hf : ∀ b ∈ items, ∀ d' : Desk P K, d'.isLive → Determined L d' (f b)) (hlive : d.isLive) :
    Determined L d fun t issued => items.mapM fun b => f b t issued := by
  induction items generalizing d with
  | nil => exact pure []
  | cons b rest ih =>
    simp only [List.mapM_cons]
    refine (hf b List.mem_cons_self d hlive).bind fun a d₁ h₁ => ?_
    refine (ih (fun b hb => hf b (List.mem_cons_of_mem _ hb)) (h₁.live hlive)).bind fun as d₂ _ => ?_
    exact pure (a :: as)

end Determined

/-! ### Declaring and looking up -/

section Namespace

variable {L : Compartments S.State P K} {d : Desk P K} {E : Engine S.State} {C : Compartment P K}

theorem determined_defineType (name expr : Value) :
    Determined L d fun t _ => Scope.defineType t.scope name expr := by
  unfold Scope.defineType
  refine Determined.checkLive.bind fun _ d₁ _ => .symbolsOf (.bind (.check _) fun r d₂ _ => ?_)
  exact (Determined.setRole r.2 d₁.symbols).bind fun _ _ _ => .pure r.1

theorem determined_build (build : Build S.Body) (b : Builder S.Body) :
    Determined L d fun t _ => Build.run t.scope build b := by
  induction build generalizing d b with
  | finish => exact .pure b
  | raise f => exact .fail f
  | call step taken refused htaken hrefused =>
    simp only [Build.run]
    refine .typesOf ?_
    cases b.step d.types step with
    | ok b' => exact htaken b'
    | error f => exact hrefused f b

variable (hE : Compartmented E C L) (hlive : d.isLive)
include hE hlive

theorem determined_intern (symbols : SymbolTable) (name : Value) :
    Determined L d fun _ issued =>
      (symbols.intern (fun n => onEngine (E.internSymbol issued n)) name : Host S _) := by
  unfold SymbolTable.intern
  cases hkey : SymbolTable.checkKey name with
  | error f => exact .pure _
  | ok u =>
    cases hkept : SymbolTable.kept? name symbols.ids with
    | some symbol => exact .pure _
    | none => exact (Determined.serve hlive fun issued => hE.internSymbol issued name).bind fun _ _ _ => .pure _

theorem determined_nameOf (symbols : SymbolTable) (symbol : Value) :
    Determined L d fun _ issued =>
      (symbols.nameOf (fun s => onEngine (E.lookupSymbol issued s)) symbol : Host S _) := by
  unfold SymbolTable.nameOf
  cases hkey : SymbolTable.checkKey symbol with
  | error f => exact .pure _
  | ok u =>
    cases hkept : SymbolTable.kept? symbol symbols.names with
    | some name => exact .pure _
    | none => exact (Determined.serve hlive fun issued => hE.lookupSymbol issued symbol).bind fun _ _ _ => .pure _

theorem determined_internIn (name : Value) : Determined L d fun t _ => internIn E t.scope name := by
  unfold internIn
  refine .symbolsOf (.bind (determined_intern hE hlive d.symbols name) fun r d₁ _ => ?_)
  exact (Determined.setRole d.types r.2).bind fun _ _ _ => .check r.1

theorem determined_nameIn (symbol : Value) : Determined L d fun t _ => nameIn E t.scope symbol := by
  unfold nameIn
  refine .symbolsOf (.bind (determined_nameOf hE hlive d.symbols symbol) fun r d₁ _ => ?_)
  exact (Determined.setRole d.types r.2).bind fun _ _ _ => .check r.1

theorem determined_toWire (s : Signature) : Determined L d fun t _ => s.toWire (internIn E t.scope) := by
  unfold Signature.toWire
  refine (Determined.mapM s.args (fun a _ d₁ hlive₁ => ?_) hlive).bind fun _ _ _ => .pure _
  exact (determined_internIn hE hlive₁ a.name).bind fun _ _ _ => .pure _

theorem determined_ofWire (wire : Value) :
    Determined L d fun t _ => Signature.ofWire (nameIn E t.scope) wire := by
  unfold Signature.ofWire
  refine (Determined.read _).bind fun items d₁ h₁ => ?_
  refine (Determined.mapM items (fun item _ d₂ hlive₂ => ?_) (h₁.live hlive)).bind fun args _ _ =>
    (Determined.read _).bind fun returns _ _ => (Determined.read _).bind fun total _ _ => .pure _
  unfold Signature.argOfWire
  refine (Determined.read _).bind fun symbol d₃ h₃ => ?_
  exact (determined_nameIn hE (h₃.live hlive₂) symbol).bind fun _ _ _ => (Determined.read _).bind fun _ _ _ =>
    (Determined.read _).bind fun _ _ _ => (Determined.read _).bind fun _ _ _ => .pure _

/-- The engine is given a function, under a number that nothing else depends on. -/
theorem determined_register {k : Tenant → Value → Host S α} (definition : Definition S.Body) (wire : Value)
    (hk : ∀ d' : Desk P K, Determined L d' k) :
    Determined L d fun t issued => (do
      let number ← modifyGet fun w =>
        (w.functions.length, { w with functions := w.functions ++ [⟨t.scope, definition⟩] })
      onEngine (E.define issued wire number)
      k t issued) := by
  have hregister : Determined L d fun t issued => (do
      let number ← modifyGet fun w =>
        (w.functions.length, { w with functions := w.functions ++ [⟨t.scope, definition⟩] })
      onEngine (E.define issued wire number) : Host S Unit) := by
    refine ⟨.exact ((C.define wire).run.run d.part).1, { d with part := ((C.define wire).run.run d.part).2 },
      fun t issued w h => ?_, ⟨id, rfl⟩⟩
    obtain ⟨hlive', hdoes⟩ := hE.define issued wire w.functions.length w.engine h.valid (h.live hlive)
    rw [h.part] at hdoes
    have hin := h.turn hdoes.toBecomes (fun _ _ _ _ _ _ h => h) fun _ => hlive'
    exact ⟨hdoes.outcome, hin.congr rfl rfl, .turn hdoes.toAside rfl⟩
  simpa only [bind_assoc] using hregister.bind fun _ d' _ => hk d'

omit hlive in
theorem determined_define (build : Build S.Body) :
    Determined L d fun t _ => Scope.define E t.scope (Build.run t.scope build .empty) := by
  unfold Scope.define
  refine .liveHandle fun hlive => ?_
  refine (determined_build build .empty).bind fun builder d₁ h₁ => ?_
  refine (Determined.check _).bind fun definition d₂ h₂ => ?_
  refine (determined_toWire hE ((h₁.trans h₂).live hlive) _).bind fun wire d₃ h₃ => ?_
  refine determined_register hE (((h₁.trans h₂).trans h₃).live hlive) definition wire fun d₄ => ?_
  exact (Determined.check _).bind fun name _ _ => (Determined.write _).bind fun _ _ _ => .pure _

omit hlive in
theorem determined_getSignature (name : Value) :
    Determined L d fun t _ => Scope.getSignature E t.scope name := by
  unfold Scope.getSignature
  refine .liveHandle fun hlive => ?_
  refine (Determined.serve hlive fun issued => hE.getSignature issued name).bind fun wire d₁ h₁ => ?_
  split
  · exact .pure none
  · exact .map some (determined_ofWire hE (h₁.live hlive) _)

end Namespace

end EngineHost
