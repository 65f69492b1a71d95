import Mathlib
import EngineHost.Proofs.Vocabulary
import EngineHost.Proofs.Watching

/-!
What an engine has confirmed. Its answers about names and symbols hold from then on, though it may fail at any time
and may give one symbol to several names. Whatever happens to a scope, its table holds only what was confirmed.
-/
namespace EngineHost

open Host

variable {σ : Type}

/-- Answers about names and symbols hold from then on, and change no function; nor does a definition that fails. -/
structure Confirming (E : Engine σ) (F : Files σ) : Prop where
  allocScope : ∀ s, F.valid s →
    let p := E.allocScope.run.run s
    F.Keeps s p.2 ∧ ∀ scope, p.1 = .ok scope → F.live p.2 scope
  internSymbol : ∀ s scope name, F.valid s → F.live s scope → name.isText →
    let p := (E.internSymbol scope name).run.run s
    F.Quiet s p.2 ∧ ∀ symbol, p.1 = .ok symbol → IsSymbol symbol ∧ F.gave p.2 scope name symbol
  lookupSymbol : ∀ s scope symbol, F.valid s → F.live s scope → IsSymbol symbol →
    let p := (E.lookupSymbol scope symbol).run.run s
    F.Quiet s p.2 ∧ ∀ name, p.1 = .ok name → name.isText ∧ F.gave p.2 scope name symbol
  define : ∀ s scope wire function, F.valid s → F.live s scope →
    let p := (E.define scope wire function).run.run s
    F.Keeps s p.2 ∧ ∀ f, p.1 = .error f → F.Quiet s p.2

theorem Files.Quiet.trans {F : Files σ} {s s' s'' : σ} (h : F.Quiet s s') (h' : F.Quiet s' s'') : F.Quiet s s'' where
  toKeeps := h.toKeeps.trans h'.toKeeps
  stored := fun scope name => (h'.stored scope name).trans (h.stored scope name)

/-- Names are told apart by their symbols. -/
def Files.Distinguishes (F : Files σ) : Prop :=
  ∀ s scope m n symbol, F.valid s → m.isText → n.isText → F.gave s scope m symbol → F.gave s scope n symbol → m = n

/-- An engine that does not fail where names, symbols that it gave and signatures under such symbols are concerned. -/
structure Serves (E : Engine σ) (F : Files σ) : Prop where
  internSymbol : ∀ s scope name, F.valid s → F.live s scope → name.isText →
    ∃ symbol, ((E.internSymbol scope name).run.run s).1 = .ok symbol
  lookupSymbol : ∀ s scope name symbol, F.valid s → F.live s scope → F.gave s scope name symbol →
    ∃ n, ((E.lookupSymbol scope symbol).run.run s).1 = .ok n
  define : ∀ s scope wire symbol name function, F.valid s → F.live s scope → firstSymbol? wire = some symbol →
    F.gave s scope name symbol → ((E.define scope wire function).run.run s).1 = .ok ()

namespace Files

variable {F : Files σ}

/-- The notes of a watched engine do not matter. -/
def watched (F : Files σ) : Files (Watched σ) where
  valid s := F.valid s.state
  live s := F.live s.state
  gave s := F.gave s.state
  stored s := F.stored s.state

theorem Keeps.watched {s s' : σ} (h : F.Keeps s s') (n n' : Notes) : F.watched.Keeps ⟨s, n⟩ ⟨s', n'⟩ :=
  ⟨h.valid, h.live, h.gave⟩

theorem Quiet.watched {s s' : σ} (h : F.Quiet s s') (n n' : Notes) : F.watched.Quiet ⟨s, n⟩ ⟨s', n'⟩ :=
  ⟨h.toKeeps.watched n n', h.stored⟩

theorem Distinguishes.watched (h : F.Distinguishes) : F.watched.Distinguishes :=
  fun s => h s.state

end Files

variable {E : Engine σ} {F : Files σ}

theorem Confirming.watched (hE : Confirming E F) : Confirming E.watched F.watched where
  allocScope := by
    intro s h
    obtain ⟨hkeeps, hlive⟩ := hE.allocScope s.state h
    exact ⟨hkeeps.watched _ _, hlive⟩
  internSymbol := by
    intro s scope name h hlive hname
    obtain ⟨hquiet, hgave⟩ := hE.internSymbol s.state scope name h hlive hname
    exact ⟨hquiet.watched _ _, hgave⟩
  lookupSymbol := by
    intro s scope symbol h hlive hsymbol
    obtain ⟨hquiet, hgave⟩ := hE.lookupSymbol s.state scope symbol h hlive hsymbol
    exact ⟨hquiet.watched _ _, hgave⟩
  define := by
    intro s scope wire function h hlive
    obtain ⟨hkeeps, hfailed⟩ := hE.define s.state scope wire function h hlive
    exact ⟨hkeeps.watched _ _, fun f hf => (hfailed f hf).watched _ _⟩

theorem Serves.watched (hE : Serves E F) : Serves E.watched F.watched where
  internSymbol s := hE.internSymbol s.state
  lookupSymbol s := hE.lookupSymbol s.state
  define s := hE.define s.state

namespace Engine

/-- Interns names, one after the other. -/
def internAll (E : Engine σ) (scope : Value) : List Value → EngineM σ Unit
  | [] => pure ()
  | name :: rest => do
    let _ ← E.internSymbol scope name
    E.internAll scope rest

/-- Interns names, then defines a function. -/
def register (E : Engine σ) (scope : Value) (names : List Value) (wire : Value) (function : FunctionId) :
    EngineM σ Unit := do
  E.internAll scope names
  E.define scope wire function

theorem internAll_cons_run (E : Engine σ) (scope name : Value) (rest : List Value) (s : σ) :
    (E.internAll scope (name :: rest)).run.run s =
      match (E.internSymbol scope name).run.run s with
      | (.ok _, s') => (E.internAll scope rest).run.run s'
      | (.error f, s') => (.error f, s') := by
  simp only [internAll, ExceptT.run_bind, StateT.run_bind]
  rcases StateT.run (ExceptT.run (E.internSymbol scope name)) s with ⟨r, s₁⟩
  cases r <;> rfl

theorem internAll_append_run (E : Engine σ) (scope : Value) (names names' : List Value) (s : σ) :
    (E.internAll scope (names ++ names')).run.run s =
      match (E.internAll scope names).run.run s with
      | (.ok _, s') => (E.internAll scope names').run.run s'
      | (.error f, s') => (.error f, s') := by
  induction names generalizing s with
  | nil => rfl
  | cons name rest ih =>
    rw [List.cons_append, internAll_cons_run, internAll_cons_run]
    rcases StateT.run (ExceptT.run (E.internSymbol scope name)) s with ⟨r, s₁⟩
    cases r with
    | ok symbol => exact ih s₁
    | error f => rfl

theorem register_run (E : Engine σ) (scope : Value) (names : List Value) (wire : Value) (function : FunctionId)
    (s : σ) :
    (E.register scope names wire function).run.run s =
      match (E.internAll scope names).run.run s with
      | (.ok _, s') => (E.define scope wire function).run.run s'
      | (.error f, s') => (.error f, s') := by
  simp only [register, ExceptT.run_bind, StateT.run_bind]
  rcases StateT.run (ExceptT.run (E.internAll scope names)) s with ⟨r, s₁⟩
  cases r <;> rfl

/-- An engine that does not fail interns them all. -/
theorem internAll_ok (hE : Confirming E F) (hS : Serves E F) {scope : Value} {names : List Value}
    (hnames : ∀ name ∈ names, name.isText) :
    ∀ s, F.valid s → F.live s scope → ∃ s', (E.internAll scope names).run.run s = (.ok (), s') ∧ F.Keeps s s' := by
  induction names with
  | nil => exact fun s hvalid _ => ⟨s, rfl, .refl hvalid⟩
  | cons name rest ih =>
    intro s hvalid hlive
    obtain ⟨hname, hrest⟩ := List.forall_mem_cons.mp hnames
    obtain ⟨hquiet, -⟩ := hE.internSymbol s scope name hvalid hlive hname
    obtain ⟨symbol, hsymbol⟩ := hS.internSymbol s scope name hvalid hlive hname
    obtain ⟨s', hok, hkeeps⟩ := ih hrest _ hquiet.valid (hquiet.live scope hlive)
    refine ⟨s', ?_, hquiet.toKeeps.trans hkeeps⟩
    rw [internAll_cons_run, ← Prod.mk.eta (p := (E.internSymbol scope name).run.run s), hsymbol]
    exact hok

/-- Each name is noted, up to the one that the engine fails on. -/
theorem internAll_watched (scope : Value) (names : List Value) : ∀ s : Watched σ,
    let p := (E.watched.internAll scope names).run.run s
    (p.1 = .ok () ∧ p.2.notes.calls = s.notes.calls ++ names.map (.internSymbol scope)) ∨
      ∃ f made, p.1 = .error f ∧ made ≠ [] ∧ made <+: names ∧
        p.2.notes.calls = s.notes.calls ++ made.map (.internSymbol scope) := by
  induction names with
  | nil => exact fun s => .inl ⟨rfl, (List.append_nil _).symm⟩
  | cons name rest ih =>
    intro s
    simp only [internAll_cons_run]
    cases hr : (E.watched.internSymbol scope name).run.run s with
    | mk r s₁ =>
      have hnoted : s₁.notes.calls = s.notes.calls ++ [.internSymbol scope name] :=
        (congrArg (fun q => q.2.notes.calls) hr).symm
      cases r with
      | error f =>
        exact .inr ⟨f, [name], rfl, nofun, ⟨rest, rfl⟩, hnoted⟩
      | ok symbol =>
        rcases ih s₁ with ⟨hok, hcalls⟩ | ⟨f, made, hfail, -, hmade, hcalls⟩
        · refine .inl ⟨hok, ?_⟩
          rw [hcalls, hnoted, List.append_assoc]
          rfl
        · refine .inr ⟨f, name :: made, hfail, nofun, (List.prefix_cons_inj name).mpr hmade, ?_⟩
          rw [hcalls, hnoted, List.append_assoc]
          rfl

/-- The names and the definition are noted, as far as the engine comes. -/
theorem register_watched (scope : Value) (names : List Value) (wire : Value) (function : FunctionId)
    (s : Watched σ) :
    let p := (E.watched.register scope names wire function).run.run s
    p.2.notes.calls = s.notes.calls ++ names.map (.internSymbol scope) ++ [.define scope wire function] ∨
      (∃ f, p.1 = .error f) ∧ ∃ made, made ≠ [] ∧ made <+: names ∧
        p.2.notes.calls = s.notes.calls ++ made.map (.internSymbol scope) := by
  simp only [register_run]
  have hmade := internAll_watched (E := E) scope names s
  cases hp : (E.watched.internAll scope names).run.run s with
  | mk r s₁ =>
    simp only [hp] at hmade
    cases r with
    | error f =>
      obtain ⟨hok, -⟩ | ⟨_, made, -, hne, hprefix, hcalls⟩ := hmade
      · cases hok
      · exact .inr ⟨⟨f, rfl⟩, made, hne, hprefix, hcalls⟩
    | ok u =>
      obtain ⟨-, hcalls⟩ | ⟨_, _, hfail, -⟩ := hmade
      · refine .inl ?_
        rw [← hcalls]
        rfl
      · cases hfail

end Engine

/-! ### A scope -/

variable {S : Embedding} {E : Engine S.State} {F : Files S.State} {id : ObjectId} {handle : Value}
  {types : Registry} {symbols : SymbolTable} {w w' : World S}

theorem denotes_text {gave : Value → Value → Prop} {name symbol : Value} :
    Denotes (fun v => v.isText) gave name symbol ↔ IsSymbol symbol ∧ name.isText ∧ gave name symbol := by
  constructor
  · rintro ⟨hsymbol, n, hn, hgave, hequals⟩
    obtain rfl := (equals_text hn).mp hequals
    exact ⟨hsymbol, hn, hgave⟩
  · rintro ⟨hsymbol, hname, hgave⟩
    exact ⟨hsymbol, name, hname, hgave, (equals_text hname).mpr rfl⟩

/-- The names, in their order, that have no symbol in the table. -/
def SymbolTable.unknown (t : SymbolTable) (names : List Value) : List Value :=
  names.filter fun name => (Value.lookup? name t.ids).isNone

/-- A live scope whose table holds only what was confirmed. -/
structure Confirmed (F : Files S.State) (id : ObjectId) (handle : Value) (types : Registry) (symbols : SymbolTable)
    (w : World S) : Prop where
  valid : F.valid w.engine
  live : F.live w.engine handle
  node : ∃ n, w.nodes[id]? = some n ∧ n.handle = some handle ∧ n.role = .scope handle types symbols
  table : symbols.Consistent (fun v => v.isText) (F.gave w.engine handle)

theorem withTable_withTable (w : World S) (id : Nat) (types types' : Registry) (t t' : SymbolTable)
    (s s' : S.State) :
    withTable (withTable w id handle types t s) id handle types' t' s' = withTable w id handle types' t' s' := by
  simp [withTable, List.modify_modify_eq, Function.comp_def]

namespace Confirmed

/-- The engine goes on. -/
theorem engine {s : S.State} (h : Confirmed F id handle types symbols w) (hkeeps : F.Keeps w.engine s) :
    Confirmed F id handle types symbols { w with engine := s } where
  valid := hkeeps.valid
  live := hkeeps.live handle h.live
  node := h.node
  table := h.table.mono (hkeeps.gave handle)

/-- Nothing but the scope and the engine matters. -/
theorem rescoped (h : Confirmed F id handle types symbols w) (hkeeps : F.Keeps w.engine w'.engine)
    (hscope : ∀ n, w.nodes[id]? = some n →
      ∃ n', w'.nodes[id]? = some n' ∧ n'.handle = n.handle ∧ n'.role = n.role) :
    Confirmed F id handle types symbols w' where
  valid := hkeeps.valid
  live := hkeeps.live handle h.live
  node := by
    obtain ⟨n, hn, hhandle, hrole⟩ := h.node
    obtain ⟨n', hn', hhandle', hrole'⟩ := hscope n hn
    exact ⟨n', hn', hhandle'.trans hhandle, hrole'.trans hrole⟩
  table := h.table.mono (hkeeps.gave handle)

/-- The scope may have other types, and another table that holds only what was confirmed. -/
theorem retable {s : S.State} {types' : Registry} {symbols' : SymbolTable}
    (h : Confirmed F id handle types symbols w) (hkeeps : F.Keeps w.engine s)
    (htable : symbols'.Consistent (fun v => v.isText) (F.gave s handle)) :
    Confirmed F id handle types' symbols' (withTable w id handle types' symbols' s) where
  valid := hkeeps.valid
  live := hkeeps.live handle h.live
  node := by
    obtain ⟨n, hn, hhandle, -⟩ := h.node
    refine ⟨{ n with role := .scope handle types' symbols' }, ?_, hhandle, rfl⟩
    rw [withTable, List.getElem?_modify_eq, hn]
    rfl
  table := htable

theorem withTable_self (h : Confirmed F id handle types symbols w) (s : S.State) :
    withTable w id handle types symbols s = { w with engine := s } := by
  obtain ⟨n, hn, -, hrole⟩ := h.node
  exact Host.withTable_self hn hrole s

/-- A symbol that is kept is none but the one that was given. -/
theorem kept (h : Confirmed F id handle types symbols w) {name symbol : Value} (hname : name.isText)
    (hknown : Value.lookup? name symbols.ids = some symbol) : SymbolTable.kept? name symbols.ids = some symbol := by
  obtain ⟨⟨i, rfl⟩, -⟩ := h.table.ids name symbol hname hknown
  simp only [SymbolTable.kept?, hknown]

/-- A name that is known is not asked for. -/
theorem internIn_known (h : Confirmed F id handle types symbols w) {name symbol : Value} (hname : name.isText)
    (hknown : Value.lookup? name symbols.ids = some symbol) :
    exec (Host.internIn E id name) w = (.ok symbol, w) := by
  obtain ⟨n, hn, -, hrole⟩ := h.node
  exact exec_internIn_kept hn hrole (naming_text.hashable name hname) (h.kept hname hknown)

/-- Any other is asked for once, and what the engine answers is kept. -/
theorem internIn_unknown (hE : Confirming E F) (h : Confirmed F id handle types symbols w) {name : Value}
    (hname : name.isText) (hunknown : Value.lookup? name symbols.ids = none) :
    let p := (E.internSymbol handle name).run.run w.engine
    F.Quiet w.engine p.2 ∧
    match p.1 with
    | .error f => exec (Host.internIn E id name) w = (.error f, { w with engine := p.2 })
    | .ok symbol => ∃ symbols', exec (Host.internIn E id name) w =
          (.ok symbol, withTable w id handle types symbols' p.2) ∧
        Confirmed F id handle types symbols' (withTable w id handle types symbols' p.2) ∧
        IsSymbol symbol ∧ F.gave p.2 handle name symbol ∧
        ∀ other : Value, other.isText → other ≠ name →
          Value.lookup? other symbols'.ids = Value.lookup? other symbols.ids := by
  intro p
  obtain ⟨n, hn, -, hrole⟩ := h.node
  obtain ⟨hquiet, hanswer⟩ := hE.internSymbol w.engine handle name h.valid h.live hname
  refine ⟨hquiet, ?_⟩
  have hkey := naming_text.checkKey hname
  have hkept : SymbolTable.kept? name symbols.ids = none := by
    simp only [SymbolTable.kept?, hunknown]
  have hintern := exec_internIn_new (E := E) hn hrole (naming_text.hashable name hname) hkept
  rw [← Prod.mk.eta (p := (E.internSymbol handle name).run.run w.engine)] at hintern
  cases hp : p.1 with
  | error f => rwa [hp] at hintern
  | ok symbol =>
    rw [hp] at hintern
    obtain ⟨hsymbol, hgave⟩ := hanswer symbol hp
    have hdenotes : Denotes (fun v => v.isText) (F.gave p.2 handle) name symbol :=
      denotes_text.mpr ⟨hsymbol, hname, hgave⟩
    obtain ⟨symbols', hremember, hconsistent⟩ :=
      (h.table.mono (hquiet.gave handle)).remember naming_text hname hdenotes
    simp only [naming_symbols.hashable symbol hsymbol, if_true, hremember] at hintern
    refine ⟨symbols', hintern, h.retable hquiet.toKeeps hconsistent, hsymbol, hgave, ?_⟩
    intro other hother hne
    have hids : symbols'.ids = Value.insertEntry name symbol symbols.ids := by
      rw [SymbolTable.remember, hkey, naming_symbols.checkKey hsymbol] at hremember
      exact (congrArg (fun q => q.2.ids) hremember).symm
    rw [hids, naming_text.lookup?_insertEntry hname hother symbols.ids h.table.names_only, if_neg]
    exact fun hequals => hne ((equals_text hname).mp hequals).symm

/-- A name is interned as far as it is not known, and only what is confirmed is kept. -/
theorem internIn (hE : Confirming E F) (h : Confirmed F id handle types symbols w) {name : Value}
    (hname : name.isText) :
    let p := (E.internAll handle (symbols.unknown [name])).run.run w.engine
    F.Quiet w.engine p.2 ∧ ∃ symbols', let w' := withTable w id handle types symbols' p.2
      Confirmed F id handle types symbols' w' ∧
      (∀ other : Value, other.isText → other ≠ name →
        Value.lookup? other symbols'.ids = Value.lookup? other symbols.ids) ∧
      match p.1 with
      | .error f => exec (Host.internIn E id name) w = (.error f, w')
      | .ok _ => ∃ symbol, exec (Host.internIn E id name) w = (.ok symbol, w') ∧ IsSymbol symbol ∧
          F.gave w'.engine handle name symbol := by
  cases hknown : Value.lookup? name symbols.ids with
  | some symbol =>
    have hasked : symbols.unknown [name] = [] := by simp [SymbolTable.unknown, hknown]
    obtain ⟨hsymbol, -, hgave⟩ := denotes_text.mp (h.table.ids name symbol hname hknown)
    rw [hasked]
    refine ⟨.refl h.valid, symbols, h.retable (.refl h.valid) h.table, fun _ _ _ => rfl, symbol, ?_, hsymbol, hgave⟩
    exact (h.internIn_known hname hknown).trans (congrArg (Prod.mk _) (h.withTable_self w.engine).symm)
  | none =>
    have hasked : symbols.unknown [name] = [name] := by simp [SymbolTable.unknown, hknown]
    obtain ⟨hquiet, hask⟩ := h.internIn_unknown (E := E) hE hname hknown
    rw [hasked, Engine.internAll_cons_run]
    cases hp : (E.internSymbol handle name).run.run w.engine with
    | mk r s =>
      simp only [hp] at hquiet hask
      cases r with
      | error f =>
        refine ⟨hquiet, symbols, h.retable hquiet.toKeeps (h.table.mono (hquiet.gave handle)), fun _ _ _ => rfl, ?_⟩
        exact hask.trans (congrArg (Prod.mk _) (h.withTable_self s).symm)
      | ok symbol =>
        obtain ⟨symbols', hexec, h', hsymbol, hgave, hothers⟩ := hask
        exact ⟨hquiet, symbols', h', hothers, symbol, hexec, hsymbol, hgave⟩

/-- Finding the name behind a symbol keeps only what is confirmed. -/
theorem nameIn (hE : Confirming E F) (h : Confirmed F id handle types symbols w) {symbol : Value}
    (hsymbol : IsSymbol symbol) :
    ∃ r symbols' s, exec (Host.nameIn E id symbol) w = (r, withTable w id handle types symbols' s) ∧
      F.Quiet w.engine s ∧ Confirmed F id handle types symbols' (withTable w id handle types symbols' s) ∧
      (∀ name, r = .ok name → name.isText ∧ F.gave s handle name symbol) ∧
      ((∃ name, ((E.lookupSymbol handle symbol).run.run w.engine).1 = .ok name) → ∃ name, r = .ok name) := by
  obtain ⟨n, hn, -, hrole⟩ := h.node
  have hkey := naming_symbols.checkKey hsymbol
  unfold Host.nameIn SymbolTable.nameOf
  rw [exec_bind, exec_symbolsOf hn hrole]
  simp only [hkey]
  cases hkept : SymbolTable.kept? symbol symbols.names with
  | some name =>
    obtain ⟨hname, hdenotes⟩ := h.table.names symbol name hsymbol (SymbolTable.kept?_eq_some hkept)
    refine ⟨.ok name, symbols, w.engine, rfl, .refl h.valid, ?_, ?_, fun _ => ⟨name, rfl⟩⟩
    · exact h.retable (.refl h.valid) h.table
    · intro name' hname'
      obtain rfl := Except.ok.inj hname'
      exact ⟨hname, (denotes_text.mp hdenotes).2.2⟩
  | none =>
    obtain ⟨hquiet, hanswer⟩ := hE.lookupSymbol w.engine handle symbol h.valid h.live hsymbol
    have hask := exec_onEngine (E.lookupSymbol handle symbol) w
    cases hp : ((E.lookupSymbol handle symbol).run.run w.engine).1 with
    | error f =>
      rw [hp] at hask
      refine ⟨.error f, symbols, _, ?_, hquiet, h.retable hquiet.toKeeps (h.table.mono (hquiet.gave handle)),
        nofun, fun ⟨_, hok⟩ => nomatch hok⟩
      simp only [exec_bind, hask]
      rw [h.withTable_self]
    | ok name =>
      rw [hp] at hask
      obtain ⟨hname, hgave⟩ := hanswer name hp
      obtain ⟨symbols', hremember, hconsistent⟩ := (h.table.mono (hquiet.gave handle)).remember naming_text hname
        (denotes_text.mpr ⟨hsymbol, hname, hgave⟩)
      refine ⟨.ok name, symbols', _, ?_, hquiet, h.retable hquiet.toKeeps hconsistent, ?_, fun _ => ⟨name, rfl⟩⟩
      · simp only [exec_bind, hask, exec_pure, hremember]
        rfl
      · intro name' hname'
        obtain rfl := Except.ok.inj hname'
        exact ⟨hname, hgave⟩

end Confirmed

/-! ### A definition -/

/-- The engine gave these symbols to the names of these arguments. -/
abbrev Given (F : Files S.State) (handle : Value) (s : S.State) (args : List ArgSpec) (ids : List Value) : Prop :=
  List.Forall₂ (fun a symbol => IsSymbol symbol ∧ F.gave s handle a.name symbol) args ids

theorem Given.mono {s s' : S.State} {args : List ArgSpec} {ids : List Value} (h : Given F handle s args ids)
    (hkeeps : F.Keeps s s') : Given F handle s' args ids :=
  h.imp fun a symbol hgave => ⟨hgave.1, hkeeps.gave handle a.name symbol hgave.2⟩

/-- How writing arguments ends, if interning their names ended so: under the symbols that the engine gave, or with
its failure. -/
def Written (F : Files S.State) (handle : Value) (args : List ArgSpec) (w' : World S) (r : Except Failure Unit)
    (q : Except Failure (List Value) × World S) : Prop :=
  match r with
  | .error f => q = (.error f, w')
  | .ok _ => ∃ ids, q = (.ok (List.zipWith ArgSpec.wire ids args), w') ∧ Given F handle w'.engine args ids

theorem Written.cons {x : Host S (List Value)} {a : ArgSpec} {args : List ArgSpec} {r : Except Failure Unit}
    {symbol : Value} (h : Written F handle args w' r (exec x w)) (hsymbol : IsSymbol symbol)
    (hgave : F.gave w'.engine handle a.name symbol) :
    Written F handle (a :: args) w' r (exec (do return a.wire symbol :: (← x)) w) := by
  cases r with
  | error f => exact exec_bind_error h
  | ok u =>
    obtain ⟨ids, hexec, hgiven⟩ := h
    refine ⟨symbol :: ids, ?_, .cons ⟨hsymbol, hgave⟩ hgiven⟩
    rw [exec_bind_ok hexec]
    rfl

/-- Arguments are written as far as the engine gives symbols; only unknown names are asked for. -/
theorem Confirmed.argsToWire (hE : Confirming E F) (args : List ArgSpec) : ∀ {symbols : SymbolTable} {w : World S},
    Confirmed F id handle types symbols w → (∀ a ∈ args, a.name.isText) → (args.map ArgSpec.name).Nodup →
    let p := (E.internAll handle (symbols.unknown (args.map ArgSpec.name))).run.run w.engine
    F.Quiet w.engine p.2 ∧ ∃ symbols', let w' := withTable w id handle types symbols' p.2
      Confirmed F id handle types symbols' w' ∧
        Written F handle args w' p.1 (exec (args.mapM (Signature.argToWire (Host.internIn E id))) w) := by
  induction args with
  | nil =>
    intro symbols w h _ _
    refine ⟨.refl h.valid, symbols, h.retable (.refl h.valid) h.table, [], ?_, .nil⟩
    exact congrArg (Prod.mk _) (h.withTable_self w.engine).symm
  | cons a rest ih =>
    intro symbols w h hnames hdistinct
    obtain ⟨ha, hrest⟩ := List.forall_mem_cons.mp hnames
    obtain ⟨hnew, hdistinct⟩ := List.nodup_cons.mp hdistinct
    have hasked : symbols.unknown ((a :: rest).map ArgSpec.name) =
        symbols.unknown [a.name] ++ symbols.unknown (rest.map ArgSpec.name) :=
      List.filter_append [a.name] (rest.map ArgSpec.name)
    obtain ⟨hquiet, symbols₁, h₁, hothers, hask⟩ := h.internIn (E := E) hE ha
    rw [List.mapM_cons, hasked, Engine.internAll_append_run]
    cases hp : (E.internAll handle (symbols.unknown [a.name])).run.run w.engine with
    | mk r s₁ =>
      simp only [hp] at hquiet h₁ hask
      cases r with
      | error f =>
        have hfirst : exec (Signature.argToWire (Host.internIn E id) a) w =
            (.error f, withTable w id handle types symbols₁ s₁) := exec_bind_error hask
        exact ⟨hquiet, symbols₁, h₁, exec_bind_error hfirst⟩
      | ok u =>
        obtain ⟨symbol, hexec, hsymbol, hgave⟩ := hask
        have hfirst : exec (Signature.argToWire (Host.internIn E id) a) w =
            (.ok (a.wire symbol), withTable w id handle types symbols₁ s₁) := exec_bind_ok hexec
        -- The first name is none of the others, so they are as unknown as before.
        have hsame : symbols₁.unknown (rest.map ArgSpec.name) = symbols.unknown (rest.map ArgSpec.name) := by
          refine List.filter_congr fun name hname => ?_
          obtain ⟨b, hb, rfl⟩ := List.mem_map.mp hname
          rw [hothers b.name (hrest b hb) fun heq => hnew (heq ▸ hname)]
        obtain ⟨hquiet', symbols', h', hwritten⟩ := ih h₁ hrest hdistinct
        rw [hsame] at hquiet' h' hwritten
        rw [withTable_withTable] at h' hwritten
        rw [exec_bind_ok hfirst]
        exact ⟨hquiet.trans hquiet', symbols', h', hwritten.cons hsymbol (hquiet'.gave handle _ _ hgave)⟩

end EngineHost
