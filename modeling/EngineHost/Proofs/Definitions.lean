import EngineHost.Proofs.Confirmations
import EngineHost.Proofs.Drafts
import EngineHost.Proofs.Lookup
import EngineHost.Proofs.Reach
import EngineHost.Proofs.Rereading
import EngineHost.Proofs.SymbolCache
import EngineHost.Proofs.Tenants

/-!
Definitions of functions, whatever becomes of them. One that is refused, while it is declared or for what it
lacks, leaves no trace. One that is accepted asks the engine for the symbols that the scope does not know, then
has it store the signature; where the engine fails, no function has changed. What the engine is given reads as the
signature, but for the marks of its records.
-/
namespace EngineHost

open Host

/-! ### What is declared -/

namespace Build

variable {β : Type}

/-- What a declaration makes of a builder, or what it ends with. -/
def declared (r : Registry) : Build β → Builder β → Checked (Builder β)
  | .finish, b => .ok b
  | .raise f, _ => .error f
  | .call step taken refused, b =>
    match b.step r step with
    | .ok b => taken.declared r b
    | .error f => (refused f).declared r b

/-- The definition that a declaration leads to, if it is accepted. -/
def definition (build : Build β) (r : Registry) : Checked (Definition β) := do
  (← build.declared r .empty).validate

/-- Every step that a declaration may come to is such a step. -/
def Steps (P : BuildStep β → Prop) : Build β → Prop
  | .finish => True
  | .raise _ => True
  | .call step taken refused => P step ∧ taken.Steps P ∧ ∀ f, (refused f).Steps P

theorem steps_ofSteps {P : BuildStep β → Prop} {steps : List (BuildStep β)} (h : ∀ step ∈ steps, P step) :
    (ofSteps steps).Steps P := by
  induction steps with
  | nil => trivial
  | cons step rest ih =>
    obtain ⟨hfirst, hrest⟩ := List.forall_mem_cons.mp h
    exact ⟨hfirst, ih hrest, fun _ => trivial⟩

/-- What holds of an empty builder and is kept by every step holds of what is declared. -/
theorem Steps.declared {P : BuildStep β → Prop} {Q : Builder β → Prop} {r : Registry}
    (hstep : ∀ b step b', P step → Q b → b.step r step = .ok b' → Q b') (build : Build β) :
    build.Steps P → ∀ {b b'}, Q b → build.declared r b = .ok b' → Q b' := by
  induction build with
  | finish =>
    intro _ b b' hb h
    obtain rfl := Except.ok.inj h
    exact hb
  | raise f =>
    intro _ b b' _ h
    cases h
  | call step taken refused ihTaken ihRefused =>
    intro hsteps b b' hb h
    obtain ⟨hfirst, hTaken, hRefused⟩ := hsteps
    rw [Build.declared] at h
    cases hnext : b.step r step with
    | ok b₁ =>
      rw [hnext] at h
      exact ihTaken hTaken (hstep b step b₁ hfirst hb hnext) h
    | error f =>
      rw [hnext] at h
      exact ihRefused f (hRefused f) hb h

variable {S : Embedding} {w : World S} {id : ObjectId} {n : Node} {handle : Value} {types : Registry}
  {symbols : SymbolTable}

/-- Declaring changes nothing. -/
theorem exec_run (hn : w.nodes[id]? = some n) (hrole : n.role = .scope handle types symbols)
    (build : Build S.Body) (b : Builder S.Body) :
    exec (Build.run id build b) w = ((build.declared types b).mapError (Failure.shownIn w), w) := by
  induction build generalizing b with
  | finish => rfl
  | raise f => exact exec_fail_shown f w
  | call step taken refused ihTaken ihRefused =>
    have htypes : exec (Scope.typesOf id) w = (.ok types, w) := by
      rw [Scope.typesOf, exec_bind_ok (exec_symbolsOf hn hrole)]
      rfl
    rw [Build.run, exec_bind_ok htypes, Build.declared]
    cases b.step types step with
    | ok b' => exact ihTaken b'
    | error f => exact ihRefused f b

/-- A definition that is refused leaves the world as it was. -/
theorem exec_define_refused (E : Engine S.State) (hn : w.nodes[id]? = some n)
    (hrole : n.role = .scope handle types symbols) (hhandle : n.handle = some handle) {build : Build S.Body}
    {f : Failure} (h : build.definition types = .error f) :
    exec (Scope.define E id (Build.run id build .empty)) w = (.error (f.shownIn w), w) := by
  have hrun := exec_run hn hrole build .empty
  rw [Scope.define, exec_bind_ok (exec_liveHandle hn hhandle)]
  rw [definition] at h
  cases hdeclared : build.declared types .empty with
  | error g =>
    rw [hdeclared] at h hrun
    obtain rfl := Except.error.inj h
    exact exec_bind_error hrun
  | ok b =>
    rw [hdeclared] at h hrun
    have hrefused : b.validate = .error f := h
    rw [exec_bind_ok hrun, hrefused]
    exact exec_bind_error (exec_check_error f w)

end Build

/-! ### A signature that is read back -/

namespace ArgSpec

/-- With its type read back from the wire. -/
def reread (a : ArgSpec) : Checked ArgSpec := do
  return { a with type := ← Ty.ofWire a.type.toWire }

/-- With every mark replaced by its truth value. -/
def settle (a : ArgSpec) : ArgSpec :=
  { a with type := a.type.settle }

end ArgSpec

namespace Signature

/-- With its types read back from the wire. -/
def reread (s : Signature) : Checked Signature := do
  let args ← s.args.mapM ArgSpec.reread
  return { s with args, returns := ← Ty.ofWire s.returns.toWire }

/-- With every mark replaced by its truth value. -/
def settle (s : Signature) : Signature :=
  { s with args := s.args.map ArgSpec.settle, returns := s.returns.settle }

/-- The types of its arguments and of what it returns. -/
def types (s : Signature) : List Ty :=
  s.args.map ArgSpec.type ++ [s.returns]

/-- Its wire form, under these symbols. -/
def under (ids : List Value) (s : Signature) : Value :=
  s.wire (List.zipWith ArgSpec.wire ids s.args)

theorem mapM_reread {args : List ArgSpec} (htypes : ∀ a ∈ args, a.type.Legible) :
    args.mapM ArgSpec.reread = .ok (args.map ArgSpec.settle) := by
  induction args with
  | nil => rfl
  | cons a rest ih =>
    obtain ⟨htype, htypes⟩ := List.forall_mem_cons.mp htypes
    have ha : a.reread = .ok a.settle := by
      rw [ArgSpec.reread, htype.ofWire_toWire]
      rfl
    rw [List.mapM_cons, ha, ih htypes]
    rfl

/-- Types that can be read back come back settled. -/
theorem reread_legible {s : Signature} (htypes : ∀ t ∈ s.types, t.Legible) : s.reread = .ok s.settle := by
  obtain ⟨hargs, hreturns⟩ := List.forall_mem_append.mp htypes
  rw [reread, mapM_reread (List.forall_mem_map.mp hargs), (hreturns s.returns List.mem_cons_self).ofWire_toWire]
  rfl

theorem equalArgs_settle {args : List ArgSpec} (hnames : ∀ a ∈ args, a.name.isText)
    (htypes : ∀ a ∈ args, a.type.Legible) :
    equalArgs (args.map ArgSpec.settle) args ↔ ∀ a ∈ args, Ty.Settled a.type.records := by
  induction args with
  | nil => simp [equalArgs]
  | cons a rest ih =>
    obtain ⟨ha, hnames⟩ := List.forall_mem_cons.mp hnames
    obtain ⟨htype, htypes⟩ := List.forall_mem_cons.mp htypes
    have hname : a.name.equals a.name := (equals_text ha).mpr rfl
    simp only [List.map_cons, equalArgs, ArgSpec.equals, ArgSpec.settle, hname, beq_self_eq_true, Bool.true_and,
      Bool.and_true, Bool.and_eq_true, htype.settle_equals, List.forall_mem_cons]
    exact and_congr_right fun _ => ih hnames htypes

/-- It is equal then exactly when every mark in it equals its truth value. -/
theorem settle_equals {s : Signature} (hnames : ∀ a ∈ s.args, a.name.isText) (htypes : ∀ t ∈ s.types, t.Legible) :
    s.settle.equals s ↔ ∀ t ∈ s.types, Ty.Settled t.records := by
  obtain ⟨hargs, hreturns⟩ := List.forall_mem_append.mp htypes
  rw [List.forall_mem_map] at hargs
  simp only [settle, equals, beq_self_eq_true, Bool.and_true, Bool.and_eq_true, equalArgs_settle hnames hargs,
    (hreturns s.returns List.mem_cons_self).settle_equals, types, List.forall_mem_append, List.forall_mem_map,
    List.forall_mem_singleton]

end Signature

/-! ### What is accepted -/

namespace BuildStep

variable {β : Type}

/-- A step that declares its argument under a text. -/
def Named : BuildStep β → Prop
  | .declare name _ _ _ => name.isText
  | _ => True

/-- A step whose type is given by an expression. -/
def Expressed : BuildStep β → Prop
  | .declare _ expr _ _ => expr.Expression
  | .returns expr => expr.Expression
  | _ => True

end BuildStep

namespace Builder

variable {β : Type} {r : Registry} {b b' : Builder β} {step : BuildStep β}

/-- What a step adds to the arguments and to what is returned. -/
theorem step_ok (h : b.step r step = .ok b') :
    (b'.args = b.args ∨ ∃ name expr required variadic t, step = .declare name expr required variadic ∧
      r.resolve expr = .ok t ∧ b'.args = b.args ++ [⟨name, t, required, variadic⟩]) ∧
    (b'.returns? = b.returns? ∨ ∃ expr t, step = .returns expr ∧ r.resolve expr = .ok t ∧ b'.returns? = some t) := by
  cases step with
  | declare name expr required variadic =>
    obtain ⟨t, ht, h⟩ := Checked.bind_eq_ok h
    obtain rfl := Except.ok.inj h
    exact ⟨.inr ⟨name, expr, required, variadic, t, rfl, ht, rfl⟩, .inl rfl⟩
  | setTotal total =>
    obtain rfl := Except.ok.inj h
    exact ⟨.inl rfl, .inl rfl⟩
  | returns expr =>
    obtain ⟨t, ht, h⟩ := Checked.bind_eq_ok h
    obtain rfl := Except.ok.inj h
    exact ⟨.inl rfl, .inr ⟨expr, t, rfl, ht, rfl⟩⟩
  | implement callee =>
    obtain rfl := Except.ok.inj h
    exact ⟨.inl rfl, .inl rfl⟩

/-- The names that are accepted are distinct. -/
theorem validate_nodup {d : Definition β} (h : b.validate = .ok d) (hnames : ∀ a ∈ b.args, a.name.isText) :
    (b.args.map ArgSpec.name).Nodup := by
  obtain ⟨hne, -, -⟩ := validate_ok h
  have hnonempty : b.args.isEmpty = false := by simpa using hne
  rcases Draft.firstRepeated?_spec b.args [] hnames .nil with ⟨-, hdistinct⟩ | ⟨-, a, -, -, -, -, hfirst⟩
  · exact hdistinct
  · have hfirst : firstRepeated? [] b.args = .ok (some a.name) := hfirst
    simp only [validate, hnonempty, hfirst] at h
    cases h

end Builder

namespace Build

variable {β : Type} {build : Build β} {r : Registry} {d : Definition β}

theorem definition_ok (h : build.definition r = .ok d) :
    ∃ b, build.declared r .empty = .ok b ∧ b.validate = .ok d :=
  Checked.bind_eq_ok h

theorem declared_names (hsteps : build.Steps BuildStep.Named) {b : Builder β}
    (h : build.declared r .empty = .ok b) : ∀ a ∈ b.args, a.name.isText := by
  refine Steps.declared (Q := fun b => ∀ a ∈ b.args, a.name.isText) ?_ build hsteps (by simp [Builder.empty]) h
  intro b step b' hstep hb h
  obtain ⟨hargs | ⟨name, expr, required, variadic, t, rfl, -, hargs⟩, -⟩ := Builder.step_ok h
  · rwa [hargs]
  · rw [hargs]
    exact List.forall_mem_append.mpr ⟨hb, List.forall_mem_singleton.mpr hstep⟩

theorem declared_legible (hr : r.Legible) (hsteps : build.Steps BuildStep.Expressed) {b : Builder β}
    (h : build.declared r .empty = .ok b) :
    (∀ a ∈ b.args, a.type.Legible) ∧ ∀ t, b.returns? = some t → t.Legible := by
  refine Steps.declared (Q := fun b => (∀ a ∈ b.args, a.type.Legible) ∧ ∀ t, b.returns? = some t → t.Legible)
    ?_ build hsteps (by simp [Builder.empty]) h
  intro b step b' hstep hb h
  obtain ⟨hargs, hreturns⟩ := Builder.step_ok h
  constructor
  · obtain hargs | ⟨name, expr, required, variadic, t, rfl, ht, hargs⟩ := hargs
    · rw [hargs]
      exact hb.1
    · rw [hargs]
      exact List.forall_mem_append.mpr ⟨hb.1, List.forall_mem_singleton.mpr (hstep.legible hr t (.inl ht))⟩
  · obtain hreturns | ⟨expr, t, rfl, ht, hreturns⟩ := hreturns
    · rw [hreturns]
      exact hb.2
    · intro u hu
      obtain rfl := Option.some.inj (hreturns.symm.trans hu)
      exact hstep.legible hr t (.inl ht)

/-- Every type in what is accepted can be read back. -/
theorem definition_legible (hr : r.Legible) (hsteps : build.Steps BuildStep.Expressed)
    (h : build.definition r = .ok d) : ∀ t ∈ d.signature.types, t.Legible := by
  obtain ⟨b, hdeclared, hvalid⟩ := definition_ok h
  obtain ⟨-, hargs, hreturns⟩ := Builder.validate_ok hvalid
  obtain ⟨hlegible, hreturned⟩ := declared_legible hr hsteps hdeclared
  refine List.forall_mem_append.mpr ⟨?_, List.forall_mem_singleton.mpr (hreturned _ hreturns)⟩
  rw [hargs]
  exact List.forall_mem_map.mpr hlegible

end Build

/-! ### A definition that is accepted -/

section

variable {S : Embedding} {E : Engine S.State} {F : Files S.State} {id : ObjectId} {handle : Value}
  {types : Registry} {symbols symbols' : SymbolTable} {w w₁ : World S} {d : Definition S.Body}

/-- The names of a definition that are not in the table. -/
def Definition.asked {β : Type} (d : Definition β) (symbols : SymbolTable) : List Value :=
  symbols.unknown (d.signature.args.map ArgSpec.name)

/-- What becomes of a definition that is accepted, and of the world: the engine has interned the unknown names,
and if it did not fail it has been asked to store the signature under the symbols that it gave. -/
structure Registered (E : Engine S.State) (F : Files S.State) (id : ObjectId) (handle : Value) (types : Registry)
    (symbols : SymbolTable) (d : Definition S.Body) (w : World S) (ids : List Value)
    (q : Except Failure Signature × World S) : Prop where
  outcome : q.1 = ((E.register handle (d.asked symbols) (d.signature.under ids)
    w.functions.length).run.run w.engine).1.map fun _ => d.signature
  engine : q.2.engine = ((E.register handle (d.asked symbols) (d.signature.under ids)
    w.functions.length).run.run w.engine).2
  keeps : F.Keeps w.engine q.2.engine
  /-- The scope has changed in its table alone, and the table holds only what was confirmed. -/
  table : ∃ symbols', q.2.nodes = w.nodes.modify id (fun n => { n with role := .scope handle types symbols' }) ∧
    symbols'.Consistent (fun v => v.isText) (F.gave q.2.engine handle)
  functions : w.functions <+: q.2.functions
  /-- Where the engine failed, no function has changed. -/
  failed : ∀ f, q.1 = .error f → F.Quiet w.engine q.2.engine
  /-- Where all names were interned, the symbols are those that the engine gave. -/
  given : ∀ s, (E.internAll handle (d.asked symbols)).run.run w.engine = (.ok (), s) →
    Given F handle s d.signature.args ids ∧ F.Keeps s q.2.engine

theorem exec_toWire_ok {intern : Value → Host S Value} {s : Signature} {ids : List Value}
    (h : exec (s.args.mapM (Signature.argToWire intern)) w = (.ok (List.zipWith ArgSpec.wire ids s.args), w₁)) :
    exec (s.toWire intern) w = (.ok (s.under ids), w₁) := by
  rw [Signature.toWire, exec_bind_ok h]
  rfl

namespace Given

variable {s : S.State} {args : List ArgSpec} {ids : List Value}

/-- The engine can tell which function it is given. -/
theorem firstSymbol? {signature : Signature} (h : Given F handle s signature.args ids) (hne : signature.args ≠ []) :
    ∃ symbol name, EngineHost.firstSymbol? (signature.under ids) = some symbol ∧ F.gave s handle name symbol := by
  obtain ⟨a, rest, hargs⟩ := List.exists_cons_of_ne_nil hne
  rw [hargs] at h
  cases h with
  | @cons _ symbol _ _ hfirst _ =>
    refine ⟨symbol, a.name, ?_, hfirst.2⟩
    rw [Signature.under, hargs]
    rfl

theorem gave_of_mem (h : Given F handle s args ids) {symbol : Value} (hsymbol : symbol ∈ ids) :
    ∃ a ∈ args, F.gave s handle a.name symbol := by
  induction h with
  | nil => cases hsymbol
  | @cons a first _ _ hfirst _ ih =>
    rcases List.mem_cons.mp hsymbol with rfl | hsymbol
    · exact ⟨a, List.mem_cons_self, hfirst.2⟩
    · obtain ⟨b, hb, hgave⟩ := ih hsymbol
      exact ⟨b, List.mem_cons_of_mem _ hb, hgave⟩

/-- Distinct names have distinct symbols. -/
theorem nodup (hD : F.Distinguishes) (hvalid : F.valid s) (h : Given F handle s args ids)
    (hnames : ∀ a ∈ args, a.name.isText) (hdistinct : (args.map ArgSpec.name).Nodup) : ids.Nodup := by
  induction h with
  | nil => exact .nil
  | @cons a symbol rest _ hfirst hrest ih =>
    obtain ⟨ha, hnames⟩ := List.forall_mem_cons.mp hnames
    obtain ⟨hnew, hdistinct⟩ := List.nodup_cons.mp hdistinct
    refine List.nodup_cons.mpr ⟨fun hmem => hnew ?_, ih hnames hdistinct⟩
    obtain ⟨b, hb, hgave⟩ := gave_of_mem hrest hmem
    have hsame : a.name = b.name := hD s handle a.name b.name symbol hvalid ha (hnames b hb) hfirst.2 hgave
    exact hsame ▸ List.mem_map_of_mem hb

end Given

namespace Registered

variable {ids : List Value} {q : Except Failure Signature × World S}

/-- What succeeded was stored under the symbols that the engine gave. -/
theorem stored (h : Registered E F id handle types symbols d w ids q) {s : Signature} (hq : q.1 = .ok s) :
    s = d.signature ∧ Given F handle q.2.engine d.signature.args ids := by
  have houtcome := h.outcome
  rw [hq, Engine.register_run] at houtcome
  cases hp : (E.internAll handle (d.asked symbols)).run.run w.engine with
  | mk r s₁ =>
    rw [hp] at houtcome
    cases r with
    | error f => cases houtcome
    | ok u =>
      obtain ⟨hgiven, hkeeps⟩ := h.given s₁ hp
      refine ⟨?_, hgiven.mono hkeeps⟩
      cases hr : ((E.define handle (d.signature.under ids) w.functions.length).run.run s₁).1 with
      | error f =>
        rw [hr] at houtcome
        cases houtcome
      | ok u =>
        rw [hr] at houtcome
        exact Except.ok.inj houtcome

/-- An engine that does not fail stores it. -/
theorem served (hE : Confirming E F) (hS : Serves E F) (hvalid : F.valid w.engine) (hlive : F.live w.engine handle)
    (hnames : ∀ a ∈ d.signature.args, a.name.isText) (hne : d.signature.args ≠ [])
    (h : Registered E F id handle types symbols d w ids q) : q.1 = .ok d.signature := by
  have hasked : ∀ name ∈ d.asked symbols, name.isText := by
    intro name hname
    obtain ⟨a, ha, rfl⟩ := List.mem_map.mp (List.mem_of_mem_filter hname)
    exact hnames a ha
  obtain ⟨s, hinterned, hkeeps⟩ := Engine.internAll_ok hE hS hasked w.engine hvalid hlive
  obtain ⟨symbol, name, hfirst, hgave⟩ := (h.given s hinterned).1.firstSymbol? hne
  have hstored : ((E.define handle (d.signature.under ids) w.functions.length).run.run s).1 = .ok () :=
    hS.define s handle _ symbol name _ hkeeps.valid (hkeeps.live handle hlive) hfirst hgave
  rw [h.outcome, Engine.register_run, hinterned]
  simp only [hstored]
  rfl

end Registered

/-- The end of a definition: a function with a new number, that the engine stores or not. -/
theorem exec_store (E : Engine S.State) (id : ObjectId) (handle : Value) (hne : d.signature.args ≠ [])
    (wire : Value) :
    ∃ log, exec (do
        let number ← modifyGet fun w : World S =>
          (w.functions.length, { w with functions := w.functions ++ [⟨id, d⟩] })
        onEngine (E.define handle wire number)
        let name ← check d.signature.name
        write (.defined name d.signature)
        pure d.signature) w =
      (((E.define handle wire w.functions.length).run.run w.engine).1.map fun _ => d.signature,
        { w with
          engine := ((E.define handle wire w.functions.length).run.run w.engine).2
          functions := w.functions ++ [⟨id, d⟩]
          log }) := by
  obtain ⟨a, rest, hargs⟩ := List.exists_cons_of_ne_nil hne
  have hname : d.signature.name = .ok a.name := by
    simp [Signature.name, Signature.name?, hargs, pure, Except.pure]
  simp only [exec_bind, exec_modifyGet, exec_onEngine, hname, exec_check_ok, exec_write, exec_pure]
  rcases (E.define handle wire w.functions.length).run.run w.engine with ⟨r, s⟩
  cases r with
  | error f => exact ⟨_, rfl⟩
  | ok u => exact ⟨_, rfl⟩

namespace Registered

variable {ids : List Value} {s : S.State}

/-- The engine failed on one of the names. -/
theorem broken_off {f : Failure} (hinterned : (E.internAll handle (d.asked symbols)).run.run w.engine = (.error f, s))
    (hquiet : F.Quiet w.engine s) (htable : symbols'.Consistent (fun v => v.isText) (F.gave s handle)) :
    Registered E F id handle types symbols d w [] (.error f, withTable w id handle types symbols' s) := by
  have hregister : (E.register handle (d.asked symbols) (d.signature.under []) w.functions.length).run.run w.engine =
      (.error f, s) := by
    rw [Engine.register_run, hinterned]
  refine ⟨?_, ?_, hquiet.toKeeps, ⟨symbols', rfl, htable⟩, List.prefix_refl _, fun _ _ => hquiet, ?_⟩
  · rw [hregister]
    rfl
  · rw [hregister]
    rfl
  · intro s' hs'
    cases hinterned.symm.trans hs'

/-- The engine interned the names, and was asked to store the signature. -/
theorem of_interned (hE : Confirming E F) (hinterned : (E.internAll handle (d.asked symbols)).run.run w.engine =
      (.ok (), s)) (hquiet : F.Quiet w.engine s) (hlive : F.live s handle)
    (htable : symbols'.Consistent (fun v => v.isText) (F.gave s handle))
    (hgiven : Given F handle s d.signature.args ids) {q : Except Failure Signature × World S} {log : List LogEvent}
    (hq : q = (((E.define handle (d.signature.under ids) w.functions.length).run.run s).1.map fun _ => d.signature,
      { withTable w id handle types symbols' s with
        engine := ((E.define handle (d.signature.under ids) w.functions.length).run.run s).2
        functions := w.functions ++ [⟨id, d⟩]
        log })) : Registered E F id handle types symbols d w ids q := by
  have hregister : (E.register handle (d.asked symbols) (d.signature.under ids) w.functions.length).run.run w.engine =
      (E.define handle (d.signature.under ids) w.functions.length).run.run s := by
    rw [Engine.register_run, hinterned]
  obtain ⟨hkeeps, hfailed⟩ := hE.define s handle (d.signature.under ids) w.functions.length hquiet.valid hlive
  subst hq
  refine ⟨by rw [hregister], by rw [hregister], hquiet.toKeeps.trans hkeeps,
    ⟨symbols', rfl, htable.mono (hkeeps.gave handle)⟩, List.prefix_append .., ?_, ?_⟩
  · intro f hf
    cases hr : ((E.define handle (d.signature.under ids) w.functions.length).run.run s).1 with
    | ok u =>
      simp only [hr] at hf
      cases hf
    | error g => exact hquiet.trans (hfailed g hr)
  · intro s' hs'
    obtain ⟨-, rfl⟩ := Prod.mk.inj (hinterned.symm.trans hs')
    exact ⟨hgiven, hkeeps⟩

end Registered

/-- A definition that is accepted, however its declaration came about. -/
theorem Confirmed.define (hE : Confirming E F) {build : Host S (Builder S.Body)} {b : Builder S.Body}
    (hlive : exec (liveHandle id) w = (.ok handle, w)) (hbuild : exec build w = (.ok b, w₁))
    (h : Confirmed F id handle types symbols w₁) (hvalid : b.validate = .ok d)
    (hnames : ∀ a ∈ b.args, a.name.isText) :
    ∃ ids, Registered E F id handle types symbols d w₁ ids (exec (Scope.define E id build) w) := by
  obtain ⟨hne, hargs, -⟩ := Builder.validate_ok hvalid
  have hdistinct := Builder.validate_nodup hvalid hnames
  rw [← hargs] at hne hnames hdistinct
  obtain ⟨hquiet, symbols', h', hwritten⟩ := h.argsToWire (E := E) hE d.signature.args hnames hdistinct
  rw [Scope.define, exec_bind_ok hlive, exec_bind_ok hbuild, hvalid, exec_bind_ok (exec_check_ok d w₁)]
  cases hp : (E.internAll handle (d.asked symbols)).run.run w₁.engine with
  | mk r s =>
    have hasked := hp
    rw [Definition.asked] at hasked
    simp only [hasked] at hquiet h' hwritten
    cases r with
    | error f =>
      have hwire : exec (d.signature.toWire (Host.internIn E id)) w₁ =
          (.error f, withTable w₁ id handle types symbols' s) := exec_bind_error hwritten
      rw [exec_bind_error hwire]
      exact ⟨[], .broken_off hp hquiet h'.table⟩
    | ok u =>
      obtain ⟨ids, hwires, hgiven⟩ := hwritten
      rw [exec_bind_ok (exec_toWire_ok hwires)]
      obtain ⟨log, hstore⟩ := exec_store E id handle (w := withTable w₁ id handle types symbols' s) hne
        (d.signature.under ids)
      exact ⟨ids, .of_interned hE hp hquiet h'.live h'.table hgiven hstore⟩

namespace Confirmed

/-- An argument is read back under its own name. -/
theorem argOfWire (hE : Confirming E F) (hS : Serves E F) (hD : F.Distinguishes)
    (h : Confirmed F id handle types symbols w) {a : ArgSpec} {symbol : Value} (hname : a.name.isText)
    (hsymbol : IsSymbol symbol) (hgave : F.gave w.engine handle a.name symbol) :
    ∃ symbols' s, exec (Signature.argOfWire (Host.nameIn E id) (a.wire symbol)) w =
        (a.reread, withTable w id handle types symbols' s) ∧
      F.Quiet w.engine s ∧ Confirmed F id handle types symbols' (withTable w id handle types symbols' s) := by
  obtain ⟨r, symbols', s, hexec, hquiet, h', hread, hfound⟩ := h.nameIn hE hsymbol
  obtain ⟨n, rfl⟩ := hfound (hS.lookupSymbol w.engine handle a.name symbol h.valid h.live hgave)
  obtain ⟨hn, hgave_n⟩ := hread n rfl
  obtain rfl : n = a.name :=
    hD s handle n a.name symbol hquiet.valid hn hname hgave_n (hquiet.gave handle _ _ hgave)
  refine ⟨symbols', s, ?_, hquiet, h'⟩
  unfold Signature.argOfWire ArgSpec.reread
  simp only [exec_bind, a.wire_name, a.wire_type, a.wire_required, a.wire_variadic, exec_ofExcept_ok, hexec]
  cases Ty.ofWire a.type.toWire <;> rfl

theorem argsOfWire (hE : Confirming E F) (hS : Serves E F) (hD : F.Distinguishes) {args : List ArgSpec}
    {ids : List Value} : ∀ {symbols : SymbolTable} {w : World S}, Confirmed F id handle types symbols w →
    (∀ a ∈ args, a.name.isText) → Given F handle w.engine args ids →
    (exec ((List.zipWith ArgSpec.wire ids args).mapM (Signature.argOfWire (Host.nameIn E id))) w).1 =
      args.mapM ArgSpec.reread := by
  induction args generalizing ids with
  | nil =>
    intro symbols w _ _ hgiven
    cases hgiven
    rfl
  | cons a rest ih =>
    intro symbols w h hnames hgiven
    obtain ⟨hname, hnames⟩ := List.forall_mem_cons.mp hnames
    cases hgiven with
    | @cons _ symbol _ ids hfirst hrest =>
      obtain ⟨symbols', s, hexec, hquiet, h'⟩ := h.argOfWire hE hS hD hname hfirst.1 hfirst.2
      have hothers := ih h' hnames (Given.mono hrest hquiet.toKeeps)
      rw [List.zipWith_cons_cons, List.mapM_cons, List.mapM_cons, exec_bind, hexec]
      cases a.reread with
      | error f => rfl
      | ok b =>
        rw [← hothers]
        dsimp only
        rw [exec_bind]
        rcases exec (List.mapM _ _) _ with ⟨r, w'⟩
        cases r <;> rfl

/-- What the engine was given reads as the signature with its types read back. -/
theorem ofWire (hE : Confirming E F) (hS : Serves E F) (hD : F.Distinguishes)
    (h : Confirmed F id handle types symbols w) {s : Signature} {ids : List Value}
    (hnames : ∀ a ∈ s.args, a.name.isText) (hgiven : Given F handle w.engine s.args ids) :
    (exec (Signature.ofWire (Host.nameIn E id) (s.under ids)) w).1 = s.reread := by
  have hargs := h.argsOfWire hE hS hD hnames hgiven
  unfold Signature.ofWire Signature.under
  rw [s.wire_args, exec_bind_ok (exec_ofExcept_ok _ w), Signature.reread, ← hargs, exec_bind]
  rcases exec (List.mapM _ _) w with ⟨r, w'⟩
  cases r with
  | error f => rfl
  | ok args =>
    simp only [s.wire_returns, s.wire_total, exec_bind, exec_ofExcept_ok]
    cases Ty.ofWire s.returns.toWire <;> rfl

end Confirmed

/-! ### The worlds that a scope comes to -/

variable (E F id handle) in
/-- The worlds in which a scope is live, from its creation on, with any aliases and after any definitions, whatever
became of them. Names are texts; all that is asked of what else happens is that the engine keeps its word. -/
inductive Career : World S → Prop where
  | create {w₀ w : World S} (hvalid : F.valid w₀.engine) (hcreate : exec (Scope.create E) w₀ = (.ok id, w))
    (hlive : exec (liveHandle id) w = (.ok handle, w)) : Career w
  | defineType {w : World S} (hw : Career w) (name expr : Value) : Career (exec (Scope.defineType id name expr) w).2
  /-- While a function is declared, anything may happen that may happen otherwise. -/
  | define {w : World S} {build : Host S (Builder S.Body)} (hw : Career w) (hbuild : Career (exec build w).2)
    (hnames : ∀ b, (exec build w).1 = .ok b → ∀ a ∈ b.args, a.name.isText) :
    Career (exec (Scope.define E id build) w).2
  | internIn {w : World S} {name : Value} (hw : Career w) (hname : name.isText) :
    Career (exec (Host.internIn E id name) w).2
  | nameIn {w : World S} {symbol : Value} (hw : Career w) (hsymbol : IsSymbol symbol) :
    Career (exec (Host.nameIn E id symbol) w).2
  | elsewhere {w w' : World S} (hw : Career w) (hkeeps : F.Keeps w.engine w'.engine)
    (hscope : ∀ n, w.nodes[id]? = some n →
      ∃ n', w'.nodes[id]? = some n' ∧ n'.handle = n.handle ∧ n'.role = n.role) : Career w'

namespace Confirmed

theorem liveHandle (h : Confirmed F id handle types symbols w) :
    exec (Host.liveHandle id) w = (.ok handle, w) := by
  obtain ⟨n, hn, hhandle, -⟩ := h.node
  exact exec_liveHandle hn hhandle

/-- A new scope that is live knows nothing. -/
theorem create (hE : Confirming E F) {w₀ : World S} (hvalid : F.valid w₀.engine)
    (hcreate : exec (Scope.create E) w₀ = (.ok id, w)) (hlive : exec (Host.liveHandle id) w = (.ok handle, w)) :
    Confirmed F id handle .empty .empty w := by
  obtain ⟨hissued, hn⟩ := exec_create_live hcreate hlive
  have hlaw := hE.allocScope w₀.engine hvalid
  rw [hissued] at hlaw
  exact ⟨hlaw.1.valid, hlaw.2 handle rfl, ⟨_, hn, rfl, rfl⟩, SymbolTable.consistent_empty⟩

theorem after_internIn (hE : Confirming E F) (h : Confirmed F id handle types symbols w) {name : Value}
    (hname : name.isText) : ∃ symbols', Confirmed F id handle types symbols' (exec (Host.internIn E id name) w).2 := by
  obtain ⟨-, symbols', h', -, hend⟩ := h.internIn hE hname
  cases hp : ((E.internAll handle (symbols.unknown [name])).run.run w.engine).1 with
  | error f =>
    simp only [hp] at hend
    rw [hend]
    exact ⟨symbols', h'⟩
  | ok u =>
    simp only [hp] at hend
    obtain ⟨symbol, hexec, -⟩ := hend
    rw [hexec]
    exact ⟨symbols', h'⟩

/-- An alias changes nothing but the aliases. -/
theorem defineType (h : Confirmed F id handle types symbols w) (name expr : Value) :
    ∃ types', Confirmed F id handle types' symbols (exec (Scope.defineType id name expr) w).2 := by
  obtain ⟨n, hn, hhandle, hrole⟩ := h.node
  have hlive : n.isLive := by simp [Node.isLive, hrole, hhandle]
  rw [Scope.defineType, exec_bind_ok (exec_checkLive hn hlive), exec_bind_ok (exec_symbolsOf hn hrole)]
  rcases exec_check (types.define name expr) w with ⟨⟨t, types'⟩, -, hexec⟩ | ⟨f, g, -, hexec, -⟩
  · rw [exec_bind_ok hexec]
    exact ⟨types', h.retable (.refl h.valid) h.table⟩
  · rw [exec_bind_error hexec]
    exact ⟨types, h⟩

/-- What a definition leaves. -/
theorem registered {ids : List Value} {q : Except Failure Signature × World S}
    (h : Confirmed F id handle types symbols w) (hq : Registered E F id handle types symbols d w ids q) :
    ∃ symbols', Confirmed F id handle types symbols' q.2 := by
  obtain ⟨symbols', hnodes, htable⟩ := hq.table
  obtain ⟨n, hn, hhandle, -⟩ := h.node
  refine ⟨symbols', hq.keeps.valid, hq.keeps.live handle h.live,
    ⟨{ n with role := .scope handle types symbols' }, ?_, hhandle, rfl⟩, htable⟩
  rw [hnodes, List.getElem?_modify_eq, hn]
  rfl

/-- However a definition ends, only what is confirmed is kept. -/
theorem after_define (hE : Confirming E F) {build : Host S (Builder S.Body)}
    (h : Confirmed F id handle types symbols (exec build w).2)
    (hlive : exec (Host.liveHandle id) w = (.ok handle, w))
    (hnames : ∀ b, (exec build w).1 = .ok b → ∀ a ∈ b.args, a.name.isText) :
    ∃ symbols', Confirmed F id handle types symbols' (exec (Scope.define E id build) w).2 := by
  cases hbuild : exec build w with
  | mk r w₁ =>
    rw [hbuild] at h hnames
    cases r with
    | error f =>
      rw [Scope.define, exec_bind_ok hlive, exec_bind_error hbuild]
      exact ⟨symbols, h⟩
    | ok b =>
      cases hvalid : b.validate with
      | error f =>
        rw [Scope.define, exec_bind_ok hlive, exec_bind_ok hbuild, hvalid, exec_bind_error (exec_check_error f w₁)]
        exact ⟨symbols, h⟩
      | ok d =>
        obtain ⟨ids, hq⟩ := h.define hE hlive hbuild hvalid (hnames b rfl)
        exact h.registered hq

end Confirmed

/-- In all these worlds the table holds only what was confirmed. -/
theorem Career.confirmed (hE : Confirming E F) (h : Career E F id handle w) :
    ∃ types symbols, Confirmed F id handle types symbols w := by
  induction h with
  | create hvalid hcreate hlive => exact ⟨_, _, .create hE hvalid hcreate hlive⟩
  | defineType hw name expr ih =>
    obtain ⟨types, symbols, h⟩ := ih
    obtain ⟨types', h'⟩ := h.defineType name expr
    exact ⟨types', symbols, h'⟩
  | define hw hbuild hnames ih ihBuild =>
    obtain ⟨types, symbols, h⟩ := ih
    obtain ⟨types', symbols', h'⟩ := ihBuild
    obtain ⟨symbols'', h''⟩ := h'.after_define hE h.liveHandle hnames
    exact ⟨types', symbols'', h''⟩
  | internIn hw hname ih =>
    obtain ⟨types, symbols, h⟩ := ih
    obtain ⟨symbols', h'⟩ := h.after_internIn hE hname
    exact ⟨types, symbols', h'⟩
  | nameIn hw hsymbol ih =>
    obtain ⟨types, symbols, h⟩ := ih
    obtain ⟨r, symbols', s, hexec, -, h', -⟩ := h.nameIn hE hsymbol
    rw [hexec]
    exact ⟨types, symbols', h'⟩
  | elsewhere hw hkeeps hscope ih =>
    obtain ⟨types, symbols, h⟩ := ih
    exact ⟨types, symbols, h.rescoped hkeeps hscope⟩

/-- Definitions lead from such a world to another, refused or not. -/
theorem Career.definition (hE : Confirming E F) (h : Career E F id handle w) {build : Build S.Body}
    (hnamed : build.Steps BuildStep.Named) :
    Career E F id handle (exec (Scope.define E id (Build.run id build .empty)) w).2 := by
  obtain ⟨types, symbols, hconfirmed⟩ := h.confirmed hE
  obtain ⟨n, hn, -, hrole⟩ := hconfirmed.node
  have hrun := Build.exec_run hn hrole build .empty
  refine .define h (by rwa [hrun]) fun b hb => ?_
  rw [hrun] at hb
  cases hdeclared : build.declared types .empty with
  | error f =>
    rw [hdeclared] at hb
    cases hb
  | ok b' =>
    rw [hdeclared] at hb
    obtain rfl := Except.ok.inj hb
    exact Build.declared_names hnamed hdeclared

/-- The calls that a definition takes: the names that are not in the table, in their order, then the signature. -/
def Definition.calls {β : Type} (d : Definition β) (symbols : SymbolTable) (handle : Value) (ids : List Value)
    (number : FunctionId) : List EngineCall :=
  (d.asked symbols).map (.internSymbol handle) ++ [.define handle (d.signature.under ids) number]

end

section

variable {S : Embedding} {E : Engine S.State} {F : Files S.State} {id : ObjectId} {handle : Value}
  {types : Registry} {symbols : SymbolTable} {w : World S.watched} {n : Node}

/-- The calls are noted, as far as the engine comes. -/
theorem Registered.calls {F : Files (Watched S.State)} {d : Definition S.watched.Body} {ids : List Value}
    {q : Except Failure Signature × World S.watched}
    (h : Registered E.watched F id handle types symbols d w ids q) :
    q.2.engine.notes.calls = w.engine.notes.calls ++ d.calls symbols handle ids w.functions.length ∨
      (∃ f, q.1 = .error f) ∧ ∃ made, made ≠ [] ∧ made <+: d.asked symbols ∧
        q.2.engine.notes.calls = w.engine.notes.calls ++ made.map (.internSymbol handle) := by
  rw [h.outcome, h.engine]
  rcases Engine.register_watched (E := E) handle (d.asked symbols) (d.signature.under ids) w.functions.length
    w.engine with hall | ⟨⟨f, hf⟩, made, hmade⟩
  · rw [List.append_assoc] at hall
    exact .inl hall
  · refine .inr ⟨⟨f, ?_⟩, made, hmade⟩
    rw [hf]
    rfl

/-- In any world that a scope comes to: a definition that is refused leaves the world as it was. One that is
accepted asks for every unknown name once, then has the signature stored; where the engine fails, no function has
changed, and the table holds only what was confirmed. An engine that does not fail and tells names apart stores it
under distinct symbols, and from then on what it was given reads as the signature, but for the marks of records. -/
theorem refused_or_registered (hE : Confirming E F) (hw : Career E.watched F.watched id handle w)
    (hn : w.nodes[id]? = some n) (hrole : n.role = .scope handle types symbols) (build : Build S.watched.Body) :
    let q := exec (Scope.define E.watched id (Build.run id build .empty)) w
    (∀ f, build.definition types = .error f → q = (.error (f.shownIn w), w)) ∧
    ∀ d, build.definition types = .ok d → build.Steps BuildStep.Named →
      (d.asked symbols).Nodup ∧ ∃ ids, Registered E.watched F.watched id handle types symbols d w ids q ∧
        (q.2.engine.notes.calls = w.engine.notes.calls ++ d.calls symbols handle ids w.functions.length ∨
          (∃ f, q.1 = .error f) ∧ ∃ made, made ≠ [] ∧ made <+: d.asked symbols ∧
            q.2.engine.notes.calls = w.engine.notes.calls ++ made.map (.internSymbol handle)) ∧
        (Serves E F → q.1 = .ok d.signature ∧ Given F.watched handle q.2.engine d.signature.args ids ∧
          (F.Distinguishes → ids.Nodup ∧ ∀ w' : World S.watched, Career E.watched F.watched id handle w' →
            F.watched.Keeps q.2.engine w'.engine →
              (exec (Signature.ofWire (Host.nameIn (S := S.watched) E.watched id) (d.signature.under ids)) w').1 =
                d.signature.reread)) ∧
        (types.Attained → build.Steps BuildStep.Expressed → d.signature.reread = .ok d.signature.settle ∧
          (d.signature.settle.equals d.signature ↔ ∀ t ∈ d.signature.types, Ty.Settled t.records)) := by
  intro q
  obtain ⟨types', symbols', h⟩ := hw.confirmed hE.watched
  obtain ⟨n', hn', hhandle, hrole'⟩ := h.node
  obtain rfl := Option.some.inj (hn.symm.trans hn')
  obtain ⟨-, rfl, rfl⟩ := Role.scope.inj (hrole.symm.trans hrole')
  have hrefused := fun f (hf : build.definition types = .error f) =>
    Build.exec_define_refused (S := S.watched) E.watched hn hrole hhandle hf
  refine ⟨hrefused, fun d hd hnamed => ?_⟩
  obtain ⟨b, hdeclared, hvalid⟩ := Build.definition_ok hd
  obtain ⟨hne, hargs, -⟩ := Builder.validate_ok hvalid
  have hnames := Build.declared_names hnamed hdeclared
  have hdistinct := Builder.validate_nodup hvalid hnames
  have hrun : exec (Build.run id build .empty) w = (.ok b, w) := by
    rw [Build.exec_run hn hrole, hdeclared]
    rfl
  obtain ⟨ids, hq⟩ := h.define hE.watched h.liveHandle hrun hvalid hnames
  rw [← hargs] at hne hnames hdistinct
  refine ⟨hdistinct.filter _, ids, hq, hq.calls, fun hS => ?_, fun htypes hexpressed => ?_⟩
  · have hok := hq.served hE.watched hS.watched h.valid h.live hnames hne
    obtain ⟨-, hgiven⟩ := hq.stored hok
    have hnodup := fun hD : F.Distinguishes =>
      Given.nodup (S := S.watched) hD.watched hq.keeps.valid hgiven hnames hdistinct
    refine ⟨hok, hgiven, fun hD => ⟨hnodup hD, fun w' hw' hkeeps => ?_⟩⟩
    obtain ⟨_, _, h'⟩ := hw'.confirmed hE.watched
    exact h'.ofWire hE.watched hS.watched hD.watched hnames (hgiven.mono hkeeps)
  · have hlegible := Build.definition_legible htypes.legible hexpressed hd
    exact ⟨Signature.reread_legible hlegible, Signature.settle_equals hnames hlegible⟩

end

/-! ### Definitions in a cabinet -/

namespace Cabinet

theorem confirming : Confirming numbered files where
  allocScope := by
    intro s h
    obtain ⟨hkeeps, hnew⟩ := filing.allocScope s h
    exact ⟨hkeeps, fun scope hscope => (hnew scope hscope).1⟩
  internSymbol := filing.internSymbol
  lookupSymbol := by
    intro s scope symbol h _ hsymbol
    rw [numbered_lookupSymbol]
    refine ⟨.refl h, fun name hname => ?_⟩
    cases hnamed : s.named? symbol with
    | none =>
      rw [hnamed] at hname
      cases hname
    | some n =>
      rw [hnamed] at hname
      obtain rfl := Except.ok.inj hname
      obtain ⟨k, hk, hn⟩ := named?_eq_some.mp hnamed
      exact ⟨h n (List.mem_of_getElem? hn), k, hk, hn⟩
  define := by
    intro s scope wire function h hlive
    rw [show numbered.define scope wire function = engine.define scope wire function from rfl, define_run]
    cases hfile : s.file? scope wire with
    | none => exact ⟨.refl h, fun _ _ => .refl h⟩
    | some s' => exact ⟨file?_keeps h hfile, nofun⟩

theorem serves : Serves numbered files where
  internSymbol := fun s scope name _ _ _ => ⟨.int (s.position name), rfl⟩
  lookupSymbol := by
    intro s scope name symbol h _ hgave
    exact ⟨name, by rw [numbered_lookupSymbol, named?_eq_some.mpr hgave]; rfl⟩
  define := by
    intro s scope wire symbol name function h hlive hsymbol hgave
    obtain ⟨k, rfl, hk⟩ := hlive
    obtain ⟨j, rfl, hj⟩ := hgave
    have hname : (firstSymbol? wire).bind s.name? = some name := by
      rw [hsymbol]
      exact hj
    rw [show numbered.define (.int k) wire function = engine.define (.int k) wire function from rfl, define_run]
    simp only [file?, hname]

theorem distinguishes : files.Distinguishes := by
  intro s scope m n symbol h hm hn hgave_m hgave_n
  exact (equals_text hm).mp (filing.one_name s scope m n symbol h hm hn hgave_m hgave_n)

/-- A watched cabinet that nothing has been put in. -/
def unopened : World embedding.watched := ⟨[], [], [], ⟨⟨[], []⟩, ⟨[], []⟩⟩, (), []⟩

/-- With a first scope. -/
def opened : World embedding.watched := (exec (Scope.create numbered.watched) unopened).2

/-- Declares a function of these arguments, all of one type. -/
def declaring (names : List Value) (expr : Value) : Build Unit :=
  Build.ofSteps (names.map (fun name => .declare name expr true false) ++
    [.returns (.str "number"), .implement (some (.function ()))])

/-- Some function has been defined. -/
def furnished : World embedding.watched :=
  (exec (Scope.define numbered.watched 0
    (Build.run (S := embedding.watched) 0 (declaring [.str "add", .str "to"] (.str "number")) .empty)) opened).2

def furnishedTable : SymbolTable :=
  ⟨[(.str "add", .int 0), (.str "to", .int 1)], [(.int 0, .str "add"), (.int 1, .str "to")]⟩

theorem career_opened : Career numbered.watched files.watched 0 (.int 0) opened := by
  have hvalid : files.watched.valid unopened.engine := by
    intro n hn
    cases hn
  have hcreate : exec (Scope.create numbered.watched) unopened = (.ok 0, opened) := rfl
  exact .create hvalid hcreate rfl

theorem declaring_steps {P : BuildStep Unit → Prop} {names : List Value} {expr : Value}
    (hdeclare : ∀ name ∈ names, P (.declare name expr true false)) (hreturns : P (.returns (.str "number")))
    (himplement : P (.implement (some (.function ())))) : (declaring names expr).Steps P := by
  refine Build.steps_ofSteps (List.forall_mem_append.mpr ⟨List.forall_mem_map.mpr hdeclare, ?_⟩)
  exact List.forall_mem_cons.mpr ⟨hreturns, List.forall_mem_singleton.mpr himplement⟩

theorem declaring_named {names : List Value} (expr : Value) (h : ∀ name ∈ names, name.isText) :
    (declaring names expr).Steps BuildStep.Named :=
  declaring_steps h trivial trivial

theorem career_furnished : Career numbered.watched files.watched 0 (.int 0) furnished :=
  career_opened.definition confirming.watched (declaring_named _ (by decide))

def furnishedScope : Node :=
  ⟨.scope (.int 0) .empty furnishedTable, some (.int 0), []⟩

/-- A function whose second argument has a name that is known, and a first one that is not. -/
def scaling : Definition Unit :=
  ⟨⟨[⟨.str "scale", .list (.primitive .number), true, false⟩, ⟨.str "to", .list (.primitive .number), true, false⟩],
    .primitive .number, false⟩, .function ()⟩

theorem refused_or_registered_scaling :
    let build := declaring [.str "scale", .str "to"] (.listOf (.str "number"))
    let q := exec (Scope.define numbered.watched 0 (Build.run (S := embedding.watched) 0 build .empty)) furnished
    Confirming numbered files ∧ Career numbered.watched files.watched 0 (.int 0) furnished ∧
      furnished.nodes[0]? = some furnishedScope ∧
      (declaring [] .null).definition .empty = .error (.host (.builder (.str "<anonymous>") .noArguments)) ∧
      exec (Scope.define numbered.watched 0 (Build.run (S := embedding.watched) 0 (declaring [] .null) .empty))
        furnished = (.error (.host (.builder (.str "<anonymous>") .noArguments)), furnished) ∧
      build.definition .empty = .ok scaling ∧ build.Steps BuildStep.Named ∧ Serves numbered files ∧
      files.Distinguishes ∧ Registry.empty.Attained ∧ build.Steps BuildStep.Expressed ∧
      q.1 = .ok scaling.signature ∧ scaling.asked furnishedTable = [.str "scale"] ∧
      ∃ ids, ids.Nodup ∧
        q.2.engine.notes.calls = furnished.engine.notes.calls ++ scaling.calls furnishedTable (.int 0) ids 1 ∧
        (exec (Signature.ofWire (Host.nameIn (S := embedding.watched) numbered.watched 0)
          (scaling.signature.under ids)) q.2).1 = .ok scaling.signature.settle ∧
        scaling.signature.settle.equals scaling.signature := by
  intro build q
  have hnode : furnished.nodes[0]? = some furnishedScope := by cbv
  have hnone : (declaring [] .null).definition .empty =
      .error (.host (.builder (.str "<anonymous>") .noArguments)) := by cbv
  have hsome : build.definition .empty = .ok scaling := by cbv
  have hnamed : build.Steps BuildStep.Named := declaring_named _ (by decide)
  have hnumber : (Value.str "number").Expression := .name rfl
  have hexpressed : build.Steps BuildStep.Expressed :=
    declaring_steps (fun _ _ => .listOf hnumber) hnumber trivial
  obtain ⟨hrefused, -⟩ :=
    refused_or_registered (S := embedding) confirming career_furnished hnode rfl (declaring [] .null)
  obtain ⟨-, haccepted⟩ := refused_or_registered (S := embedding) confirming career_furnished hnode rfl build
  obtain ⟨-, ids, -, hcalls, hserved, hsettled⟩ := haccepted scaling hsome hnamed
  obtain ⟨hok, -, htold⟩ := hserved serves
  obtain ⟨hnodup, hread⟩ := htold distinguishes
  obtain ⟨hsettle, hequals⟩ := hsettled .empty hexpressed
  have hcareer := career_furnished.definition confirming.watched hnamed
  obtain ⟨_, _, hconfirmed⟩ := hcareer.confirmed confirming.watched
  have hnumbered : furnished.functions.length = 1 := by cbv
  refine ⟨confirming, career_furnished, hnode, hnone, hrefused _ hnone, hsome, hnamed, serves, distinguishes, .empty,
    hexpressed, hok, by cbv, ids, hnodup, ?_, ?_, ?_⟩
  · rcases hcalls with hcalls | ⟨⟨f, hf⟩, -⟩
    · rwa [hnumbered] at hcalls
    · cases hok.symm.trans hf
  · rw [hread q.2 hcareer (.refl hconfirmed.valid), hsettle]
  · refine hequals.mpr ?_
    simp [Signature.types, scaling, Ty.Settled, Ty.records]

/-- What was declared with a record marked by a text is read back as one marked by a boolean. -/
theorem registered_other_mark :
    let build : Build Unit := declaring [.str "f"] (.recordOf [(.str "x", .str "number")] (.str "yes"))
    let q := exec (Scope.define numbered.watched 0 (Build.run (S := embedding.watched) 0 build .empty)) opened
    let wire := (Signature.markedBy (.str "yes")).under [.int 0]
    Confirming numbered files ∧ Serves numbered files ∧ files.Distinguishes ∧
      Career numbered.watched files.watched 0 (.int 0) opened ∧ q.1 = .ok (.markedBy (.str "yes")) ∧
      q.2.engine.notes.calls = [.allocScope, .internSymbol (.int 0) (.str "f"), .define (.int 0) wire 0] ∧
      (exec (Signature.ofWire (Host.nameIn (S := embedding.watched) numbered.watched 0) wire) q.2).1 =
        .ok (.markedBy (.bool true)) ∧
      (Signature.markedBy (.bool true)).equals (.markedBy (.str "yes")) = false := by
  refine ⟨confirming, serves, distinguishes, career_opened, ?_, ?_, ?_, ?_⟩
  · cbv
  · cbv
  · cbv
  · cbv

end Cabinet

end EngineHost
