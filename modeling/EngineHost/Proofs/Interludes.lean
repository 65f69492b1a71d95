import EngineHost.Proofs.Definitions
import EngineHost.Proofs.Destroyed
import EngineHost.Proofs.Expansion

/-!
Definitions with an interlude. While a function is declared the program may do anything, also to the scope that
the function is for. The scope is asked once, before that, whether it is live; the rest of the definition goes on
in whatever world the declaration has left, under the handle that the scope had. Where the scope is still live this
is as if the definition had begun then. Where it has been destroyed, the engine is asked all the same.
-/
namespace EngineHost

open Host

/-! ### Names -/

namespace Builder

variable {β : Type} {b : Builder β} {d : Definition β}

theorem hashable_of_firstRepeated? (args : List ArgSpec) : ∀ {seen : List Value},
    firstRepeated? seen args = .ok none → ∀ a ∈ args, a.name.isHashable := by
  induction args with
  | nil => exact fun _ => by simp
  | cons a rest ih =>
    intro seen h
    rw [firstRepeated?] at h
    split at h
    · cases h
    · next hkey =>
      split at h
      · cases h
      · exact List.forall_mem_cons.mpr ⟨by simpa using hkey, ih h⟩

/-- The names that are accepted can be keys. -/
theorem validate_hashable (h : b.validate = .ok d) : ∀ a ∈ b.args, a.name.isHashable := by
  obtain ⟨hne, -, -⟩ := validate_ok h
  have hnonempty : b.args.isEmpty = false := by simpa using hne
  simp only [validate, hnonempty, Bool.false_eq_true, if_false] at h
  obtain ⟨repeated, hrepeated, h⟩ := Checked.bind_eq_ok h
  cases repeated with
  | some name => cases h
  | none => exact hashable_of_firstRepeated? b.args hrepeated

end Builder

theorem lookup?_insertEntry_text {name other : Value} (value : Value) (hname : name.isText) (hother : other.isText)
    (hne : other ≠ name) (entries : List (Value × Value)) :
    Value.lookup? other (Value.insertEntry name value entries) = Value.lookup? other entries := by
  have hdistinct : ∀ k : Value, k.equals name → k.equals other = false := by
    intro k hk
    obtain rfl := (equals_text_right hname).mp hk
    exact Bool.eq_false_iff.mpr fun h => hne ((equals_text_right hother).mp h).symm
  induction entries with
  | nil =>
    have hself : name.equals name := (equals_text hname).mpr rfl
    simp [Value.insertEntry, Value.lookup?, hdistinct name hself]
  | cons e rest ih =>
    obtain ⟨k, v⟩ := e
    cases hk : k.equals name with
    | true => simp [Value.insertEntry, Value.lookup?, hk, hdistinct k hk]
    | false => simp [Value.insertEntry, Value.lookup?, hk, ih]

namespace SymbolTable

variable {t : SymbolTable} {name symbol : Value}

/-- The names, in their order, that a table has no answer for. -/
def unkept (t : SymbolTable) (names : List Value) : List Value :=
  names.filter fun name => (kept? name t.ids).isNone

theorem unkept_cons_kept (names : List Value) (h : kept? name t.ids = some symbol) :
    t.unkept (name :: names) = t.unkept names := by
  simp [unkept, h]

theorem unkept_cons_new (names : List Value) (h : kept? name t.ids = none) :
    t.unkept (name :: names) = name :: t.unkept names := by
  simp [unkept, h]

/-- To keep a symbol for one name says nothing about the others. -/
theorem unkept_remember {names : List Value} (hname : name.isText) (hnames : ∀ other ∈ names, other.isText)
    (hnew : name ∉ names) : (t.remember name symbol).2.unkept names = t.unkept names := by
  refine List.filter_congr fun other hother => ?_
  have hlookup := lookup?_insertEntry_text symbol hname (hnames other hother) (fun h => hnew (h ▸ hother)) t.ids
  have hkey : checkKey name = .ok () := naming_text.checkKey hname
  unfold remember
  cases checkKey symbol <;> simp only [hkey, kept?, hlookup]

end SymbolTable

/-! ### What is asked under a handle -/

variable {σ : Type}

/-- What can keep an engine from registering a function under a handle, in some state or other: it fails to give a
name a symbol, gives one that cannot be a key, or fails to store a signature. -/
inductive Engine.Fails (E : Engine σ) (handle : Value) : Failure → Prop where
  | intern {s : σ} {name : Value} {f : Failure} (h : ((E.internSymbol handle name).run.run s).1 = .error f) :
    Fails E handle f
  | symbol {s : σ} {name symbol : Value} (h : ((E.internSymbol handle name).run.run s).1 = .ok symbol)
    (hkey : symbol.isHashable = false) : Fails E handle (.shape .wrongKind)
  | define {s : σ} {wire : Value} {number : FunctionId} {f : Failure}
    (h : ((E.define handle wire number).run.run s).1 = .error f) : Fails E handle f

/-! ### The rest of a definition -/

/-- What a definition does once its declaration has been built, under the handle that the scope had before. -/
def Host.Scope.conclude {S : Embedding} (E : Engine S.State) (id : ObjectId) (handle : Value)
    (builder : Builder S.Body) : Host S Signature := do
  let definition ← check builder.validate
  let wire ← definition.signature.toWire (internIn E id)
  let number ← modifyGet fun w =>
    (w.functions.length, { w with functions := w.functions ++ [⟨id, definition⟩] })
  onEngine (E.define handle wire number)
  let name ← check definition.signature.name
  write (.defined name definition.signature)
  pure definition.signature

/-- The scope is asked whether it is live before anything else, and not again. -/
theorem define_eq {S : Embedding} (E : Engine S.State) (id : ObjectId) (build : Host S (Builder S.Body)) :
    Scope.define E id build = (do
      let handle ← liveHandle id
      let builder ← build
      Scope.conclude E id handle builder) := rfl

theorem exec_define_built {S : Embedding} {E : Engine S.State} {id : ObjectId} {handle : Value} {w w' : World S}
    {build : Host S (Builder S.Body)} {b : Builder S.Body} (hlive : exec (liveHandle id) w = (.ok handle, w))
    (hbuilt : exec build w = (.ok b, w')) :
    exec (Scope.define E id build) w = exec (Scope.conclude E id handle b) w' := by
  rw [define_eq, exec_bind_ok hlive, exec_bind_ok hbuilt]

def Definition.names {β : Type} (d : Definition β) : List Value :=
  d.signature.args.map ArgSpec.name

section

variable {S : Embedding} {E : Engine S.State} {id : ObjectId} {handle : Value} {types : Registry}
  {symbols : SymbolTable} {w : World S.watched} {n : Node} {α β : Type} {names : List Value}

/-- The end of a computation that has symbols for names asked for under a handle. The engine serves all of them, or
it is asked no further. -/
inductive Asked (E : Engine S.State) (id : ObjectId) (handle : Value) (types : Registry) (w : World S.watched)
    (names : List Value) : Except Failure α × World S.watched → Prop where
  | served {a : α} {symbols : SymbolTable} {s : Watched S.State}
    (calls : s.notes.calls = w.engine.notes.calls ++ names.map (.internSymbol handle)) :
    Asked E id handle types w names (.ok a, withTable w id handle types symbols s)
  | broken {f : Failure} {symbols : SymbolTable} {s : Watched S.State} {made : List Value}
    (fails : E.Fails handle f) (some_made : made ≠ []) (made_first : made <+: names)
    (calls : s.notes.calls = w.engine.notes.calls ++ made.map (.internSymbol handle)) :
    Asked E id handle types w names (.error f, withTable w id handle types symbols s)

namespace Asked

/-- What is done with the answer does not matter. -/
theorem map {p : Except Failure α × World S.watched} (h : Asked E id handle types w names p) (k : α → β) :
    Asked E id handle types w names (p.1.map k, p.2) := by
  cases h with
  | served calls => exact .served calls
  | broken fails some_made made_first calls => exact .broken fails some_made made_first calls

/-- One name is asked for before the others. -/
theorem cons {name : Value} {symbols : SymbolTable} {s : Watched S.State}
    (hcalls : s.notes.calls = w.engine.notes.calls ++ [.internSymbol handle name])
    {p : Except Failure α × World S.watched}
    (h : Asked E id handle types (withTable w id handle types symbols s) names p) :
    Asked E id handle types w (name :: names) p := by
  have hsplit : ∀ made : List Value, s.notes.calls ++ made.map (.internSymbol handle) =
      w.engine.notes.calls ++ (name :: made).map (.internSymbol handle) := by
    intro made
    rw [hcalls, List.append_assoc]
    rfl
  cases h with
  | served calls =>
    rw [withTable_withTable]
    exact .served (calls.trans (hsplit names))
  | broken fails some_made made_first calls =>
    rw [withTable_withTable]
    exact .broken fails (by simp) ((List.prefix_cons_inj name).mpr made_first) (calls.trans (hsplit _))

end Asked

theorem node_withTable (hn : w.nodes[id]? = some n) (symbols' : SymbolTable) (s : Watched S.State) :
    (withTable w id handle types symbols' s).nodes[id]? = some { n with role := .scope handle types symbols' } := by
  rw [withTable, List.getElem?_modify_eq, hn]
  rfl

/-- A name that is not kept is asked for. Either this fails, or the answer is kept from then on. -/
theorem internIn_new {name : Value} (hn : w.nodes[id]? = some n) (hrole : n.role = .scope handle types symbols)
    (hname : name.isHashable) (hkept : SymbolTable.kept? name symbols.ids = none) :
    (∃ f symbols' s, exec (Host.internIn (S := S.watched) E.watched id name) w =
        (.error f, withTable w id handle types symbols' s) ∧ E.Fails handle f ∧
      s.notes.calls = w.engine.notes.calls ++ [.internSymbol handle name]) ∨
    ∃ symbol s, exec (Host.internIn (S := S.watched) E.watched id name) w =
        (.ok symbol, withTable w id handle types (symbols.remember name symbol).2 s) ∧
      s.notes.calls = w.engine.notes.calls ++ [.internSymbol handle name] := by
  have hintern := exec_internIn_new (S := S.watched) (E := E.watched) hn hrole hname hkept
  cases hp : (E.watched.internSymbol handle name).run.run w.engine with
  | mk r s =>
    have hcalls : s.notes.calls = w.engine.notes.calls ++ [.internSymbol handle name] :=
      (congrArg (fun q => q.2.notes.calls) hp).symm
    have hanswer : ((E.internSymbol handle name).run.run w.engine.state).1 = r := congrArg Prod.fst hp
    rw [hp] at hintern
    cases r with
    | error f =>
      have hself := withTable_self hn hrole s
      exact .inl ⟨f, symbols, s, hself ▸ hintern, .intern hanswer, hcalls⟩
    | ok symbol =>
      cases hsymbol : symbol.isHashable with
      | true =>
        simp only [hsymbol, if_true] at hintern
        exact .inr ⟨symbol, s, hintern, hcalls⟩
      | false =>
        simp only [hsymbol, Bool.false_eq_true, if_false] at hintern
        exact .inl ⟨_, _, s, hintern, .symbol hanswer hsymbol, hcalls⟩

theorem exec_argsToWire_cons {S : Embedding} (intern : Value → Host S Value) (a : ArgSpec) (rest : List ArgSpec)
    (w : World S) :
    exec ((a :: rest).mapM (Signature.argToWire intern)) w =
      match exec (intern a.name) w with
      | (.ok symbol, w') => exec (List.cons (a.wire symbol) <$> rest.mapM (Signature.argToWire intern)) w'
      | (.error f, w') => (.error f, w') := by
  rw [List.mapM_cons, exec_bind, Signature.argToWire, exec_bind]
  cases exec (intern a.name) w with
  | mk r w' =>
    cases r with
    | error f => rfl
    | ok symbol => exact congrArg (exec · w') (bind_pure_comp (List.cons (a.wire symbol)) _)

theorem exec_toWire {S : Embedding} (intern : Value → Host S Value) (s : Signature) (w : World S) :
    exec (s.toWire intern) w =
      ((exec (s.args.mapM (Signature.argToWire intern)) w).1.map (fun wires => s.wire wires),
        (exec (s.args.mapM (Signature.argToWire intern)) w).2) := by
  rw [← exec_map, ← bind_pure_comp]
  rfl

/-- Arguments are written under the symbols of their names. The engine is asked for those that are not kept; nothing
depends on whether the scope is live. -/
theorem asked_args (args : List ArgSpec) : ∀ {symbols : SymbolTable} {w : World S.watched} {n : Node},
    w.nodes[id]? = some n → n.role = .scope handle types symbols → (∀ a ∈ args, a.name.isHashable) →
    ∃ names, names.Sublist (args.map ArgSpec.name) ∧
      ((∀ a ∈ args, a.name.isText) → (args.map ArgSpec.name).Nodup →
        names = symbols.unkept (args.map ArgSpec.name)) ∧
      Asked E id handle types w names
        (exec (args.mapM (Signature.argToWire (Host.internIn (S := S.watched) E.watched id))) w) := by
  induction args with
  | nil =>
    intro symbols w n hn hrole _
    refine ⟨[], .refl _, fun _ _ => rfl, ?_⟩
    have hself := withTable_self hn hrole w.engine
    have hserved : Asked (α := List Value) E id handle types w []
        (.ok [], withTable w id handle types symbols w.engine) := .served (List.append_nil _).symm
    rwa [hself] at hserved
  | cons a rest ih =>
    intro symbols w n hn hrole hnames
    obtain ⟨ha, hrest⟩ := List.forall_mem_cons.mp hnames
    rw [List.map_cons, exec_argsToWire_cons]
    cases hkept : SymbolTable.kept? a.name symbols.ids with
    | some symbol =>
      obtain ⟨names, hsub, htexts, hasked⟩ := ih hn hrole hrest
      refine ⟨names, hsub.cons _, fun htext hdistinct => ?_, ?_⟩
      · rw [SymbolTable.unkept_cons_kept _ hkept]
        exact htexts (List.forall_mem_cons.mp htext).2 (List.nodup_cons.mp hdistinct).2
      · rw [exec_internIn_kept hn hrole ha hkept]
        dsimp only
        rw [exec_map]
        exact hasked.map _
    | none =>
      have hall := SymbolTable.unkept_cons_new (rest.map ArgSpec.name) hkept
      rcases internIn_new (E := E) hn hrole ha hkept with
        ⟨f, symbols', s, hstop, hfails, hcalls⟩ | ⟨symbol, s, hanswer, hcalls⟩
      · -- What else would have been asked for does not matter: the names that are not kept now will do.
        refine ⟨_, List.filter_sublist, fun _ _ => rfl, ?_⟩
        have hone : [a.name] <+: symbols.unkept (a.name :: rest.map ArgSpec.name) := by
          rw [hall]
          exact ⟨_, rfl⟩
        rw [hstop]
        exact .broken hfails (by simp) hone hcalls
      · -- The table has grown by this name, which is none of the others.
        obtain ⟨names, hsub, htexts, hasked⟩ := ih (node_withTable hn (symbols.remember a.name symbol).2 s) rfl hrest
        refine ⟨a.name :: names, hsub.cons_cons _, fun htext hdistinct => ?_, ?_⟩
        · obtain ⟨hname, htext⟩ := List.forall_mem_cons.mp htext
          obtain ⟨hnew, hdistinct⟩ := List.nodup_cons.mp hdistinct
          rw [hall, htexts htext hdistinct,
            SymbolTable.unkept_remember hname (List.forall_mem_map.mpr htext) hnew]
        · rw [hanswer]
          dsimp only
          rw [exec_map]
          exact .cons hcalls (hasked.map _)

/-- All that the rest of a definition can come to. What the engine is asked names the handle, and is some call in
any case. Of the objects only the scope's table changes. -/
inductive Concluded (E : Engine S.State) (id : ObjectId) (handle : Value) (types : Registry)
    (d : Definition S.Body) (w : World S.watched) (names : List Value) :
    Except Failure Signature × World S.watched → Prop where
  /-- The names have symbols, and the function is stored. -/
  | registered {wire : Value} {symbols : SymbolTable} {s : Watched S.State} {log : List LogEvent}
    (calls : s.notes.calls = w.engine.notes.calls ++ names.map (.internSymbol handle) ++
      [.define handle wire w.functions.length]) :
    Concluded E id handle types d w names (.ok d.signature,
      { withTable w id handle types symbols s with functions := w.functions ++ [⟨id, d⟩], log })
  /-- The names have symbols, and the engine fails to store the function. -/
  | unstored {f : Failure} {wire : Value} {symbols : SymbolTable} {s : Watched S.State} {log : List LogEvent}
    (fails : E.Fails handle f)
    (calls : s.notes.calls = w.engine.notes.calls ++ names.map (.internSymbol handle) ++
      [.define handle wire w.functions.length]) :
    Concluded E id handle types d w names (.error f,
      { withTable w id handle types symbols s with functions := w.functions ++ [⟨id, d⟩], log })
  /-- The engine fails at one of the names. -/
  | unnamed {f : Failure} {symbols : SymbolTable} {s : Watched S.State} {made : List Value}
    (fails : E.Fails handle f) (some_made : made ≠ []) (made_first : made <+: names)
    (calls : s.notes.calls = w.engine.notes.calls ++ made.map (.internSymbol handle)) :
    Concluded E id handle types d w names (.error f, withTable w id handle types symbols s)

/-- The rest of a definition takes no account of whether the scope is live. -/
theorem concluded {b : Builder S.watched.Body} {d : Definition S.Body} (hn : w.nodes[id]? = some n)
    (hrole : n.role = .scope handle types symbols) (hvalid : b.validate = .ok d) :
    ∃ names, names.Sublist d.names ∧
      ((∀ a ∈ d.signature.args, a.name.isText) → names = symbols.unkept d.names) ∧
      Concluded E id handle types d w names (exec (Scope.conclude (S := S.watched) E.watched id handle b) w) := by
  obtain ⟨hne, hargs, -⟩ := Builder.validate_ok hvalid
  have hnames := Builder.validate_hashable hvalid
  have hdistinct := Builder.validate_nodup hvalid
  rw [← hargs] at hne hnames hdistinct
  obtain ⟨names, hsub, htexts, hasked⟩ := asked_args (E := E) d.signature.args hn hrole hnames
  refine ⟨names, hsub, fun htext => htexts htext (hdistinct htext), ?_⟩
  have hwritten := hasked.map fun wires => d.signature.wire wires
  rw [← exec_toWire] at hwritten
  rw [Scope.conclude, hvalid, exec_bind_ok (exec_check_ok d w), exec_bind]
  generalize exec (d.signature.toWire _) w = p at hwritten
  cases hwritten with
  | broken fails some_made made_first calls => exact .unnamed fails some_made made_first calls
  | @served wire symbols' s calls =>
    have hcalls : ((E.watched.define handle wire w.functions.length).run.run s).2.notes.calls =
        w.engine.notes.calls ++ names.map (.internSymbol handle) ++ [.define handle wire w.functions.length] := by
      rw [← calls]
      rfl
    obtain ⟨log, hstore⟩ := exec_store (S := S.watched) E.watched id handle
      (w := withTable w id handle types symbols' s) hne wire
    dsimp only [withTable] at hstore ⊢
    rw [hstore]
    cases hr : (E.watched.define handle wire w.functions.length).run.run s with
    | mk r s' =>
      rw [hr] at hcalls
      cases r with
      | ok u => exact .registered hcalls
      | error f => exact .unstored (.define (congrArg Prod.fst hr)) hcalls

end

/-! ### While the scope is live -/

namespace Tracks

variable {S : Embedding} {E : Engine S.State} {F : Files S.State} {id : ObjectId} {handle : Value}
  {expected : Value → Option Signature} {w : World S}

/-- An engine that does not fail gives a symbol that can be kept. -/
theorem named (hE : Filing E F fun v => v.isText) (hS : Serves E F) {name : Value} (hname : name.isText)
    (h : Tracks F (fun v => v.isText) id handle expected w) :
    ∃ symbol, (exec (Host.internIn E id name) w).1 = .ok symbol := by
  obtain ⟨n, hn, _, types, symbols, hrole, _, _⟩ := h.node
  have hkey := naming_text.hashable name hname
  cases hkept : SymbolTable.kept? name symbols.ids with
  | some symbol => exact ⟨symbol, congrArg Prod.fst (exec_internIn_kept hn hrole hkey hkept)⟩
  | none =>
    obtain ⟨symbol, hsymbol⟩ := hS.internSymbol w.engine handle name h.valid h.live hname
    have hlaw := hE.internSymbol w.engine handle name h.valid h.live hname
    have hintern := exec_internIn_new (E := E) hn hrole hkey hkept
    cases hp : (E.internSymbol handle name).run.run w.engine with
    | mk r s =>
      rw [hp] at hsymbol hlaw hintern
      obtain rfl : r = .ok symbol := hsymbol
      have hgiven := (hlaw.2 symbol rfl).1
      have hsymbol_key := naming_symbols.hashable symbol hgiven
      simp only [hsymbol_key, if_true] at hintern
      exact ⟨symbol, congrArg Prod.fst hintern⟩

theorem written (hE : Filing E F fun v => v.isText) (hS : Serves E F) (args : List ArgSpec) : ∀ {w : World S},
    (∀ a ∈ args, a.name.isText) → Tracks F (fun v => v.isText) id handle expected w →
    ∃ wires, (exec (args.mapM (Signature.argToWire (Host.internIn E id))) w).1 = .ok wires := by
  induction args with
  | nil => exact fun _ _ => ⟨[], rfl⟩
  | cons a rest ih =>
    intro w hnames h
    obtain ⟨ha, hrest⟩ := List.forall_mem_cons.mp hnames
    obtain ⟨symbol, hsymbol⟩ := h.named hE hS ha
    have hleaves := Leaves.internIn hE naming_text ha h
    rw [exec_argsToWire_cons]
    cases hp : exec (Host.internIn E id a.name) w with
    | mk r w' =>
      rw [hp] at hsymbol hleaves
      obtain rfl : r = .ok symbol := hsymbol
      obtain ⟨wires, hwires⟩ := ih hrest hleaves.tracks
      refine ⟨a.wire symbol :: wires, ?_⟩
      dsimp only
      rw [exec_map, hwires]
      rfl

/-- An engine that does not fail registers the function. -/
theorem concludes (hE : Filing E F fun v => v.isText) (hS : Serves E F) {b : Builder S.Body} {d : Definition S.Body}
    (hb : b.Regular fun v => v.isText) (hvalid : b.validate = .ok d)
    (h : Tracks F (fun v => v.isText) id handle expected w) :
    (exec (Scope.conclude E id handle b) w).1 = .ok d.signature := by
  obtain ⟨hs, hne⟩ := hb.validate hvalid
  obtain ⟨a, rest, hargs⟩ := List.exists_cons_of_ne_nil hne
  obtain ⟨wires, hwires⟩ := h.written hE hS d.signature.args fun a ha => (hs.args a ha).1
  have hwire : (exec (d.signature.toWire (Host.internIn E id)) w).1 = .ok (d.signature.wire wires) := by
    rw [exec_toWire, hwires]
    rfl
  have hleaves := Leaves.toWire hE naming_text hs h
  rw [Scope.conclude, hvalid, exec_bind_ok (exec_check_ok d w), exec_bind]
  cases hp : exec (d.signature.toWire (Host.internIn E id)) w with
  | mk r w' =>
    rw [hp] at hwire hleaves
    obtain rfl : r = .ok (d.signature.wire wires) := hwire
    obtain ⟨symbol, hsymbol, -, name, -, hgave, -⟩ := (hleaves.given _ rfl).firstSymbol? hargs
    have hstored := hS.define w'.engine handle (d.signature.wire wires) symbol name w'.functions.length
      hleaves.tracks.valid hleaves.tracks.live hsymbol hgave
    obtain ⟨log, hstore⟩ := exec_store E id handle (w := w') hne (d.signature.wire wires)
    dsimp only
    rw [hstore, hstored]
    rfl

/-- So what was on file when the declaration was complete stays, but for what the function takes the place of. -/
theorem defines (hE : Filing E F fun v => v.isText) (hS : Serves E F) {w w' : World S}
    {build : Host S (Builder S.Body)} {b : Builder S.Body} {d : Definition S.Body} {n : Node}
    (hn : w.nodes[id]? = some n) (hhandle : n.handle = some handle) (hbuilt : exec build w = (.ok b, w'))
    (hb : b.Regular fun v => v.isText) (hvalid : b.validate = .ok d)
    (h : Tracks F (fun v => v.isText) id handle expected w') :
    let q := exec (Scope.define E id build) w
    q.1 = .ok d.signature ∧ Tracks F (fun v => v.isText) id handle (d.signature.over expected) q.2 := by
  intro q
  have hrest : q = exec (Scope.conclude E id handle b) w' := exec_define_built (exec_liveHandle hn hhandle) hbuilt
  have hok : q.1 = .ok d.signature := by
    rw [hrest]
    exact h.concludes hE hS hb hvalid
  have hafter : Tracks F (fun v => v.isText) id handle expected (exec build w).2 := by
    rwa [hbuilt]
  have hregular : ∀ b', (exec build w).1 = .ok b' → b'.Regular fun v => v.isText := by
    intro b' hb'
    rw [hbuilt] at hb'
    obtain rfl := Except.ok.inj hb'
    exact hb
  have hdefines := defines_define hE naming_text hn hhandle hafter hregular
  rw [show exec (Scope.define E id build) w = (.ok d.signature, q.2) from Prod.ext hok rfl] at hdefines
  exact ⟨hok, hdefines.2⟩

end Tracks

/-! ### Any declaration -/

section

variable {S : Embedding} {E : Engine S.State} {run : RunBody S.watched} {id : ObjectId} {handle : Value}
  {w₀ w₁ w w' : World S.watched}

/-- A scope as its creation leaves it. -/
theorem node_of_create {S : Embedding} {E : Engine S.State} {w₀ w₁ : World S}
    (hcreate : exec (Scope.create E) w₀ = (.ok id, w₁)) :
    ∃ issued, w₁.nodes[id]? = some ⟨.scope issued .empty .empty, handleOf issued, []⟩ := by
  rw [Scope.create, exec_bind, exec_onEngine] at hcreate
  cases hp : (E.allocScope.run.run w₀.engine).1 with
  | error f =>
    rw [hp] at hcreate
    cases hcreate
  | ok issued =>
    simp only [hp, exec_bind, exec_addNode, exec_write, exec_pure] at hcreate
    obtain ⟨hid, rfl⟩ := Prod.mk.inj hcreate
    obtain rfl := Except.ok.inj hid
    exact ⟨issued, List.getElem?_concat_length⟩

/-- From then on it has been destroyed, or has the handle that its names are interned under. -/
theorem node_since_create {nodes nodes' : List Node} {issued : Value} (ho : Outlasts nodes nodes')
    (hn : nodes[id]? = some ⟨.scope issued .empty .empty, handleOf issued, []⟩) :
    ∃ n types symbols, nodes'[id]? = some n ∧ n.role = .scope issued types symbols ∧
      (n.handle = none ∨ n.handle = some issued) := by
  obtain ⟨n, hn', hages⟩ := ho id _ hn
  obtain ⟨types, symbols, hrole⟩ := scope_of_fixedRole hages.role
  refine ⟨n, types, symbols, hn', hrole, ?_⟩
  rcases hages.handle with hsame | hgone
  · rw [hsame]
    cases issued <;> simp [handleOf]
  · exact .inl hgone

/-- A live scope has the handle that its names are interned under, and later it has this or none. -/
theorem node_of_live (hw : Reachable E w₀) (hcreate : exec (Scope.create E.watched) w₀ = (.ok id, w₁))
    (hsteps : Relation.ReflTransGen (Step E) w₁ w) (hlive : exec (liveHandle id) w = (.ok handle, w)) :
    Tended w ∧ ∃ n types symbols, w.nodes[id]? = some n ∧ n.role = .scope handle types symbols ∧
      n.handle = some handle ∧ ∀ {nodes' : List Node}, Outlasts w.nodes nodes' →
        ∃ n types symbols, nodes'[id]? = some n ∧ n.role = .scope handle types symbols ∧
          (n.handle = none ∨ n.handle = some handle) := by
  obtain ⟨issued, hnew⟩ := node_of_create hcreate
  have hcreated := (Step.newScope (E := E) w₀).tends hw.tended
  rw [hcreate] at hcreated
  obtain ⟨htended, ho⟩ := tends_run hsteps hcreated.1
  obtain ⟨n, types, symbols, hn, hrole, hhandle⟩ := node_since_create ho hnew
  have hgiven := handle_of_liveHandle hlive hn
  obtain rfl : issued = handle := by
    rcases hhandle with hgone | hsame
    · cases hgiven.symm.trans hgone
    · exact Option.some.inj (hsame.symm.trans hgiven)
  exact ⟨htended, n, types, symbols, hn, hrole, hgiven, fun ho' => node_since_create (ho.trans ho') hnew⟩

/-- A definition, whatever the program does while the function is declared. What the declaration fails with, or
what it lacks, ends the definition. Otherwise the rest of it goes on in the world that the declaration has left,
under the handle that the scope had, whether or not the scope has been destroyed meanwhile: it has the engine intern
those names that the scope's table does not have by then, and store the function. If the scope has been destroyed,
a definition that began now would be refused. If it is live, a definition that began now would do the same; and if
the engine does not fail, the function is registered, and what was defined meanwhile stays as it is. -/
theorem define_after_declaration (hw : Reachable E w₀)
    (hcreate : exec (Scope.create E.watched) w₀ = (.ok id, w₁))
    (hsteps : Relation.ReflTransGen (Step E) w₁ w) (hlive : exec (liveHandle id) w = (.ok handle, w))
    (hrun : Programs E.watched run) {build : Host S.watched (Builder S.Body)}
    (hbuild : Program E.watched run build) :
    let q := exec (Scope.define (S := S.watched) E.watched id build) w
    let w' := (exec build w).2
    (∀ f, (exec build w).1 = .error f → q = (.error f, w')) ∧
    ∀ b, (exec build w).1 = .ok b →
      (∀ f, b.validate = .error f → q = (.error (f.shownIn w'), w')) ∧
      ∀ d, b.validate = .ok d → ∃ n types symbols names,
        w'.nodes[id]? = some n ∧ n.role = .scope handle types symbols ∧
        names.Sublist d.names ∧ ((∀ a ∈ b.args, a.name.isText) → names = symbols.unkept d.names) ∧
        Concluded E id handle types d w' names q ∧
        (n.handle = none ∧ exec (Scope.define (S := S.watched) E.watched id (pure b)) w' =
            (.error (.host (.useAfterDestroy .scope)), w') ∨
          n.handle = some handle ∧ q = exec (Scope.define (S := S.watched) E.watched id (pure b)) w') ∧
        ∀ F expected, Filing E.watched F (fun v => v.isText) → Serves E.watched F →
          Tracks F (fun v => v.isText) id handle expected w' → b.Regular (fun v => v.isText) →
            q.1 = .ok d.signature ∧ Tracks F (fun v => v.isText) id handle (d.signature.over expected) q.2 := by
  intro q w'
  obtain ⟨htended, n₀, types₀, symbols₀, hn₀, -, hgiven, hlasts⟩ := node_of_live hw hcreate hsteps hlive
  have hmeanwhile := (hbuild.turns hrun.turns w).proceeds htended
  obtain ⟨n, types, symbols, hn, hrole, hhandle⟩ := hlasts (tends_run hmeanwhile htended).2
  refine ⟨fun f hf => ?_, fun b hb => ?_⟩
  · have hfailed : exec build w = (.error f, w') := Prod.ext hf rfl
    exact (exec_bind_ok hlive).trans (exec_bind_error hfailed)
  · have hbuilt : exec build w = (.ok b, w') := Prod.ext hb rfl
    have hrest : q = exec (Scope.conclude (S := S.watched) E.watched id handle b) w' :=
      exec_define_built hlive hbuilt
    refine ⟨fun f hf => ?_, fun d hd => ?_⟩
    · rw [hrest, Scope.conclude, hf]
      exact exec_bind_error (exec_check_error f w')
    · obtain ⟨names, hsub, htexts, hconcluded⟩ := concluded (E := E) hn hrole hd
      rw [(Builder.validate_ok hd).2.1] at htexts
      refine ⟨n, types, symbols, names, hn, hrole, hsub, htexts, hrest ▸ hconcluded, ?_,
        fun F expected hE hS htracks hregular => htracks.defines hE hS hn₀ hgiven hbuilt hregular hd⟩
      rcases hhandle with hgone | hlive'
      · have hdestroyed : Destroyed .scope id w' := ⟨n, hn, by rw [hrole]; rfl, hgone⟩
        exact .inl ⟨hgone, hdestroyed.liveHandle_bind _⟩
      · have hagain : exec (Scope.define (S := S.watched) E.watched id (pure b)) w' = _ :=
          exec_define_built (exec_liveHandle hn hlive') (exec_pure b w')
        exact .inr ⟨hlive', hrest.trans hagain.symm⟩

end

/-- The notes of a watched engine do not matter to what it files. -/
theorem Filing.watched {E : Engine σ} {F : Files σ} {isName : Value → Prop} (hE : Filing E F isName) :
    Filing E.watched F.watched isName where
  allocScope := by
    intro s h
    obtain ⟨hkeeps, hnew⟩ := hE.allocScope s.state h
    exact ⟨hkeeps.watched _ _, hnew⟩
  internSymbol := by
    intro s scope name h hlive hname
    obtain ⟨hquiet, hgave⟩ := hE.internSymbol s.state scope name h hlive hname
    exact ⟨hquiet.watched _ _, hgave⟩
  one_name := fun s => hE.one_name s.state
  lookupSymbol := by
    intro s scope name symbol h hlive hname hgave
    obtain ⟨n, s', hrun, hquiet, hn⟩ := hE.lookupSymbol s.state scope name symbol h hlive hname hgave
    refine ⟨n, ⟨s', s.notes.add (.lookupSymbol scope symbol) (.ok n : Except Failure Value)⟩, ?_,
      hquiet.watched _ _, hn⟩
    show (noted _ _).run.run s = _
    rw [Engine.noted_run, hrun]
  define := by
    intro s scope wire function h hlive
    obtain ⟨hkeeps, hstored⟩ := hE.define s.state scope wire function h hlive
    exact ⟨hkeeps.watched _ _, hstored⟩
  getSignature := by
    intro s scope name h hlive hname
    obtain ⟨s', hrun, hquiet⟩ := hE.getSignature s.state scope name h hlive hname
    refine ⟨⟨s', s.notes.add (.getSignature scope name)
      (.ok ((F.stored s.state scope name).getD .null) : Except Failure Value)⟩, ?_, hquiet.watched _ _⟩
    show (noted _ _).run.run s = _
    rw [Engine.noted_run, hrun]
    rfl

namespace Cabinet

theorem filing_numbered : Filing numbered files fun v => v.isText where
  allocScope := filing.allocScope
  internSymbol := filing.internSymbol
  one_name := filing.one_name
  lookupSymbol := by
    intro s scope name symbol h _ hname hgave
    refine ⟨name, s, ?_, .refl h, hname, (equals_text hname).mpr rfl⟩
    rw [numbered_lookupSymbol, named?_eq_some.mpr hgave]
    rfl
  define := filing.define
  getSignature := filing.getSignature

/-- Declares a function of one number. -/
def declares (name : Value) : Host embedding.watched (Builder Unit) :=
  Scope.declareAll 0 [.declare name (.str "number") true false, .returns (.str "number"),
    .implement (some (.function ()))]

/-- Defines another function while the first one is declared. -/
def digressing : Host embedding.watched (Builder Unit) := do
  let _ ← since 0 .scope 0 (Scope.define numbered.watched 0 (declares (.str "add")))
  declares (.str "to")

/-- Destroys the scope while the function is declared. -/
def vanishing : Host embedding.watched (Builder Unit) := do
  Host.destroy numbered.watched 0
  declares (.str "to")

/-- A signature with one number as its argument. -/
def ofNumber (name : Value) : Signature :=
  ⟨[⟨name, .primitive .number, true, false⟩], .primitive .number, false⟩

def noBodies : RunBody embedding.watched := fun _ _ => fail .tooDeep

theorem program_declares (name : Value) : Program numbered.watched noBodies (declares name) :=
  .declareAll 0 _

theorem program_digressing : Program numbered.watched noBodies digressing :=
  .bind (.define 0 (program_declares _)) fun _ => program_declares _

theorem program_vanishing : Program numbered.watched noBodies vanishing :=
  .bind (.destroy 0) fun _ => program_declares _

def numberBuilder (name : Value) : Builder Unit :=
  ⟨(ofNumber name).args, false, some (.primitive .number), some (.function ())⟩

theorem regular_numberBuilder {name : Value} (h : name.isText) :
    (numberBuilder name).Regular fun v => v.isText where
  args := List.forall_mem_singleton.mpr ⟨h, rfl⟩
  returns := by
    intro t ht
    obtain rfl := Option.some.inj ht
    rfl

theorem tracks_opened : Tracks files.watched (fun v => v.isText) 0 (.int 0) (fun _ => none) opened := by
  have hvalid : files.watched.valid unopened.engine := by
    intro n hn
    cases hn
  have hcreate : exec (Scope.create numbered.watched) unopened = (.ok 0, opened) := rfl
  obtain ⟨handle, h⟩ := tracks_create filing_numbered.watched hvalid hcreate rfl
  obtain ⟨n, hn, hhandle, -⟩ := h.node
  have hnode : opened.nodes[0]? = some ⟨.scope (.int 0) .empty .empty, some (.int 0), []⟩ := rfl
  obtain rfl := Option.some.inj (hnode.symm.trans hn)
  obtain rfl := Option.some.inj hhandle
  exact h

/-- After the digression the other function is on file. -/
theorem tracks_digressing : Tracks files.watched (fun v => v.isText) 0 (.int 0)
    ((ofNumber (.str "add")).over fun _ => none) (exec digressing opened).2 := by
  have hdefined : exec (Scope.define numbered.watched 0 (declares (.str "add"))) opened =
      (.ok (ofNumber (.str "add")), (exec digressing opened).2) := by cbv
  have hbuild : Tracks files.watched (fun v => v.isText) 0 (.int 0) (fun _ => none)
      (exec (declares (.str "add")) opened).2 := tracks_opened
  have hregular : ∀ b, (exec (declares (.str "add")) opened).1 = .ok b → b.Regular fun v => v.isText := by
    intro b hb
    obtain rfl : numberBuilder (.str "add") = b := Except.ok.inj hb
    exact regular_numberBuilder rfl
  have hnode : opened.nodes[0]? = some ⟨.scope (.int 0) .empty .empty, some (.int 0), []⟩ := rfl
  have hdefines := defines_define filing_numbered.watched naming_text hnode rfl hbuild hregular
  rw [hdefined] at hdefines
  exact hdefines.2

/-- A function is defined while another one is declared; both are registered. -/
theorem define_after_digressing :
    let q := exec (Scope.define numbered.watched 0 digressing) opened
    let w' := (exec digressing opened).2
    Reachable numbered unopened ∧ exec (Scope.create numbered.watched) unopened = (.ok 0, opened) ∧
      exec (liveHandle 0) opened = (.ok (.int 0), opened) ∧
      Programs (S := embedding.watched) numbered.watched noBodies ∧
      Program (S := embedding.watched) numbered.watched noBodies digressing ∧
      (exec digressing opened).1 = .ok (numberBuilder (.str "to")) ∧
      Filing numbered.watched files.watched (fun v => v.isText) ∧ Serves numbered.watched files.watched ∧
      Tracks files.watched (fun v => v.isText) 0 (.int 0) ((ofNumber (.str "add")).over fun _ => none) w' ∧
      (numberBuilder (.str "to")).Regular (fun v => v.isText) ∧
      q.1 = .ok (ofNumber (.str "to")) ∧
      Tracks files.watched (fun v => v.isText) 0 (.int 0)
        ((ofNumber (.str "to")).over ((ofNumber (.str "add")).over fun _ => none)) q.2 := by
  intro q w'
  have hreachable : Reachable numbered unopened := ⟨unopened, rfl, .refl⟩
  have hbuilt : (exec digressing opened).1 = .ok (numberBuilder (.str "to")) := by cbv
  have hregular : (numberBuilder (.str "to")).Regular fun v => v.isText := regular_numberBuilder rfl
  obtain ⟨-, hdeclared⟩ := define_after_declaration (S := embedding) hreachable rfl .refl rfl .bottom
    program_digressing
  obtain ⟨-, hvalid⟩ := hdeclared _ hbuilt
  obtain ⟨n, types, symbols, names, -, -, -, -, -, -, hregistered⟩ := hvalid ⟨ofNumber (.str "to"), .function ()⟩ rfl
  exact ⟨hreachable, rfl, rfl, .bottom, program_digressing, hbuilt, filing_numbered.watched, serves.watched,
    tracks_digressing, hregular,
    hregistered _ _ filing_numbered.watched serves.watched tracks_digressing hregular⟩

/-- A function is defined in a scope that has been destroyed while it was declared: the engine is asked for a symbol
and to store the signature, under a handle that it has taken back, and the definition succeeds. -/
theorem defines_in_vain :
    let w' := (exec vanishing opened).2
    let q := exec (Scope.define numbered.watched 0 vanishing) opened
    Program (S := embedding.watched) numbered.watched noBodies vanishing ∧
      (exec vanishing opened).1 = .ok (numberBuilder (.str "to")) ∧
      Destroyed .scope 0 w' ∧ w'.engine.notes.calls = [.allocScope, .drop (.scope, .int 0)] ∧
      q.1 = .ok (ofNumber (.str "to")) ∧
      q.2.engine.notes.calls = w'.engine.notes.calls ++
        [.internSymbol (.int 0) (.str "to"), .define (.int 0) ((ofNumber (.str "to")).under [.int 0]) 0] := by
  refine ⟨program_vanishing, ?_, ⟨_, by cbv, rfl, rfl⟩, ?_, ?_, ?_⟩
  · cbv
  · cbv
  · cbv
  · cbv

end Cabinet

end EngineHost
