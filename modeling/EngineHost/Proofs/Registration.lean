import EngineHost.Host.Operations
import EngineHost.Proofs.Declarations

/-!
Registration and look-up in one scope. For every name there is a signature, or none, that a look-up has to
answer; every operation on the scope keeps to that, and a definition that succeeds puts its own signature
in the place of the one before.
-/
namespace EngineHost

open Host

variable {S : Embedding} {E : Engine S.State} {F : Files S.State} {isName : Value → Prop}
  {id : ObjectId} {handle : Value} {expected : Value → Option Signature} {α β : Type} {w w' : World S}

namespace SymbolTable

variable {name : Value}

theorem checkKey_hashable (h : name.isHashable) : checkKey name = .ok () := by
  simp [checkKey, h, pure, Except.pure]

theorem remember_outcome (t : SymbolTable) (symbol : Value) (hname : name.isHashable) :
    (t.remember name symbol).1 = if symbol.isHashable then .ok () else .error (.shape .wrongKind) := by
  unfold remember
  rw [checkKey_hashable hname]
  cases hsymbol : symbol.isHashable with
  | true => rw [checkKey_hashable hsymbol]; rfl
  | false => simp [checkKey, hsymbol, throw, throwThe, MonadExceptOf.throw]

end SymbolTable

section Table

variable {n : Node} {name symbol : Value} {types : Registry} {symbols : SymbolTable}

/-- A name that is kept is not asked for, whether or not the scope is live. -/
theorem exec_internIn_kept (hn : w.nodes[id]? = some n) (hrole : n.role = .scope handle types symbols)
    (hname : name.isHashable) (hkept : SymbolTable.kept? name symbols.ids = some symbol) :
    exec (Host.internIn E id name) w = (.ok symbol, w) := by
  have hkey := SymbolTable.checkKey_hashable hname
  unfold Host.internIn SymbolTable.intern
  rw [exec_bind_ok (exec_symbolsOf hn hrole)]
  simp only [hkey, hkept]
  exact congrArg (Prod.mk _) (withTable_self hn hrole w.engine)

/-- Any other is asked for, whether or not the scope is live. -/
theorem exec_internIn_new (hn : w.nodes[id]? = some n) (hrole : n.role = .scope handle types symbols)
    (hname : name.isHashable) (hkept : SymbolTable.kept? name symbols.ids = none) :
    exec (Host.internIn E id name) w =
      match (E.internSymbol handle name).run.run w.engine with
      | (.error f, s) => (.error f, { w with engine := s })
      | (.ok symbol, s) =>
        (if symbol.isHashable then .ok symbol else .error (.shape .wrongKind),
          withTable w id handle types (symbols.remember name symbol).2 s) := by
  have hkey := SymbolTable.checkKey_hashable hname
  unfold Host.internIn SymbolTable.intern
  rw [exec_bind_ok (exec_symbolsOf hn hrole)]
  simp only [hkey, hkept, exec_bind, exec_onEngine]
  cases (E.internSymbol handle name).run.run w.engine with
  | mk r s =>
    cases r with
    | error f => rfl
    | ok symbol =>
      have houtcome := symbols.remember_outcome symbol hname
      cases hremember : symbols.remember name symbol with
      | mk outcome symbols' =>
        rw [hremember] at houtcome
        dsimp only at houtcome
        simp only [exec_pure, exec_setRole, hremember, houtcome]
        cases symbol.isHashable <;> rfl

/-- A scope interns a name, or the engine fails to; its table stays right. -/
theorem exec_internIn_table (hE : Filing E F isName) (hN : Naming isName) (hvalid : F.valid w.engine)
    (hlive : F.live w.engine handle) (hn : w.nodes[id]? = some n)
    (hrole : n.role = .scope handle types symbols)
    (hsymbols : symbols.Consistent isName (F.gave w.engine handle)) (hname : isName name) :
    ∃ r s' symbols', exec (Host.internIn E id name) w = (r, withTable w id handle types symbols' s') ∧
      F.Quiet w.engine s' ∧ symbols'.Consistent isName (F.gave s' handle) ∧
      ∀ symbol, r = .ok symbol → Denotes isName (F.gave s' handle) name symbol := by
  have hkey := hN.hashable name hname
  cases hkept : SymbolTable.kept? name symbols.ids with
  | some symbol =>
    have hdenotes := hsymbols.ids name symbol hname (SymbolTable.kept?_eq_some hkept)
    refine ⟨.ok symbol, w.engine, symbols, ?_, .refl hvalid, hsymbols, fun symbol' hsymbol' => ?_⟩
    · rw [exec_internIn_kept hn hrole hkey hkept, withTable_self hn hrole]
    · obtain rfl := Except.ok.inj hsymbol'
      exact hdenotes
  | none =>
    have hlaw := hE.internSymbol w.engine handle name hvalid hlive hname
    rw [exec_internIn_new hn hrole hkey hkept]
    cases hp : (E.internSymbol handle name).run.run w.engine with
    | mk outcome s' =>
      rw [hp] at hlaw
      obtain ⟨hquiet, hgave⟩ := hlaw
      have hkeeps := hsymbols.mono (hquiet.gave handle)
      cases outcome with
      | error f =>
        exact ⟨.error f, s', symbols, by rw [withTable_self hn hrole], hquiet, hkeeps, by rintro _ ⟨⟩⟩
      | ok symbol =>
        obtain ⟨hsymbol, hgave⟩ := hgave symbol rfl
        have hdenotes : Denotes isName (F.gave s' handle) name symbol :=
          ⟨hsymbol, name, hname, hgave, hN.refl name hname⟩
        obtain ⟨symbols', hremember, hsymbols'⟩ := hkeeps.remember hN hname hdenotes
        simp only [naming_symbols.hashable symbol hsymbol, if_true, hremember]
        refine ⟨.ok symbol, s', symbols', rfl, hquiet, hsymbols', fun symbol' hsymbol' => ?_⟩
        obtain rfl := Except.ok.inj hsymbol'
        exact hdenotes

/-- A scope reads a symbol that denotes a name as that name; its table stays right. -/
theorem exec_nameIn_table (hE : Filing E F isName) (hN : Naming isName) (hvalid : F.valid w.engine)
    (hlive : F.live w.engine handle) (hn : w.nodes[id]? = some n)
    (hrole : n.role = .scope handle types symbols)
    (hsymbols : symbols.Consistent isName (F.gave w.engine handle)) (hname : isName name)
    (hdenotes : Denotes isName (F.gave w.engine handle) name symbol) :
    ∃ m s' symbols', exec (Host.nameIn E id symbol) w = (.ok m, withTable w id handle types symbols' s') ∧
      F.Quiet w.engine s' ∧ symbols'.Consistent isName (F.gave s' handle) ∧ isName m ∧ m.equals name := by
  have hkey := naming_symbols.checkKey hdenotes.1
  unfold Host.nameIn SymbolTable.nameOf
  rw [exec_bind, exec_symbolsOf hn hrole]
  simp only [hkey]
  cases hkept : SymbolTable.kept? symbol symbols.names with
  | some m =>
    obtain ⟨hm_name, hm_denotes⟩ :=
      hsymbols.names symbol m hdenotes.1 (SymbolTable.kept?_eq_some hkept)
    have hone := fun m n y hm hn => hE.one_name w.engine handle m n y hvalid hm hn
    exact ⟨m, w.engine, symbols, rfl, .refl hvalid, hsymbols, hm_name,
      hm_denotes.unique hN hone hm_name hname hdenotes⟩
  | none =>
    obtain ⟨hsymbol, m, hm, hgave, hequals⟩ := hdenotes
    obtain ⟨k, s', hp, hquiet, hk_name, hk_equals⟩ :=
      hE.lookupSymbol w.engine handle m symbol hvalid hlive hm hgave
    have hk_name_equals : k.equals name := hN.trans k m name hk_name hm hname hk_equals hequals
    have hk_denotes : Denotes isName (F.gave s' handle) k symbol :=
      ⟨hsymbol, m, hm, hquiet.gave handle m symbol hgave, hN.symm k m hk_name hm hk_equals⟩
    obtain ⟨symbols', hremember, hsymbols'⟩ :=
      (hsymbols.mono (hquiet.gave handle)).remember hN hk_name hk_denotes
    simp only [exec_bind, exec_onEngine, hp, hremember]
    exact ⟨k, s', symbols', rfl, hquiet, hsymbols', hk_name, hk_name_equals⟩

end Table

/-- What is stored under a name is the expected signature on the wire, or nothing. -/
def Filed (isName : Value → Prop) (gave : Value → Value → Prop) :
    Option Signature → Option Value → Prop
  | none, none => True
  | some s, some wire => s.Regular isName ∧ s.Writes isName gave wire
  | _, _ => False

theorem Filed.mono {gave gave' : Value → Value → Prop} {s : Option Signature} {wire : Option Value}
    (h : Filed isName gave s wire) (hmore : ∀ n y, gave n y → gave' n y) :
    Filed isName gave' s wire := by
  cases s with
  | none =>
    cases wire with
    | none => trivial
    | some wire => exact h
  | some s =>
    cases wire with
    | none => exact h
    | some wire => exact ⟨h.1, h.2.mono hmore⟩

/-- A scope whose aliases are regular and whose table of symbols is consistent. -/
def IsScope (F : Files S.State) (isName : Value → Prop) (handle : Value) (s : S.State) (n : Node) :
    Prop :=
  n.handle = some handle ∧ ∃ types symbols, n.role = .scope handle types symbols ∧ types.Regular ∧
    symbols.Consistent isName (F.gave s handle)

/-- The engine has filed what is expected, and the scope can read it. -/
structure Tracks (F : Files S.State) (isName : Value → Prop) (id : ObjectId) (handle : Value)
    (expected : Value → Option Signature) (w : World S) : Prop where
  valid : F.valid w.engine
  live : F.live w.engine handle
  node : ∃ n, w.nodes[id]? = some n ∧ IsScope F isName handle w.engine n
  filed : ∀ name, isName name →
    Filed isName (F.gave w.engine handle) (expected name) (F.stored w.engine handle name)

namespace Tracks

theorem keeps_node {s' : S.State} (h : Tracks F isName id handle expected w)
    (hkeeps : F.Keeps w.engine s') :
    ∃ n, w.nodes[id]? = some n ∧ IsScope F isName handle s' n := by
  obtain ⟨n, hn, hhandle, types, symbols, hrole, htypes, hsymbols⟩ := h.node
  exact ⟨n, hn, hhandle, types, symbols, hrole, htypes, hsymbols.mono (hkeeps.gave handle)⟩

/-- A call of the engine, after which the files are as they should be. -/
theorem engine {s' : S.State} {expected' : Value → Option Signature}
    (h : Tracks F isName id handle expected w) (hkeeps : F.Keeps w.engine s')
    (hfiled : ∀ name, isName name →
      Filed isName (F.gave s' handle) (expected' name) (F.stored s' handle name)) :
    Tracks F isName id handle expected' { w with engine := s' } where
  valid := hkeeps.valid
  live := hkeeps.live handle h.live
  node := h.keeps_node hkeeps
  filed := hfiled

/-- A call of the engine that stores nothing here. -/
theorem unfiled {s' : S.State} (h : Tracks F isName id handle expected w)
    (hkeeps : F.Keeps w.engine s')
    (hstored : ∀ name, F.stored s' handle name = F.stored w.engine handle name) :
    Tracks F isName id handle expected { w with engine := s' } := by
  refine h.engine hkeeps ?_
  intro name hname
  rw [hstored]
  exact (h.filed name hname).mono (hkeeps.gave handle)

theorem quiet {s' : S.State} (h : Tracks F isName id handle expected w)
    (hquiet : F.Quiet w.engine s') :
    Tracks F isName id handle expected { w with engine := s' } :=
  h.unfiled hquiet.toKeeps (hquiet.stored handle)

/-- Nothing but the objects and the engine matters. -/
theorem congr (h : Tracks F isName id handle expected w) (hnodes : w'.nodes = w.nodes)
    (hengine : w'.engine = w.engine) : Tracks F isName id handle expected w' where
  valid := hengine ▸ h.valid
  live := hengine ▸ h.live
  node := hnodes ▸ hengine ▸ h.node
  filed := hengine ▸ h.filed

/-- The scope may change its aliases and its table, as long as they stay in order. -/
theorem recast {types : Registry} {symbols : SymbolTable} (h : Tracks F isName id handle expected w)
    (htypes : types.Regular) (hsymbols : symbols.Consistent isName (F.gave w.engine handle)) :
    Tracks F isName id handle expected
      { w with nodes := w.nodes.modify id fun n => { n with role := .scope handle types symbols } } where
  valid := h.valid
  live := h.live
  node := by
    obtain ⟨n, hn, hhandle, _⟩ := h.node
    refine ⟨{ n with role := .scope handle types symbols }, ?_, hhandle, types, symbols, rfl, htypes,
      hsymbols⟩
    rw [List.getElem?_modify_eq, hn]
    rfl
  filed := h.filed

/-- It may do so when the engine has been asked. -/
theorem retable {s' : S.State} {types : Registry} {symbols : SymbolTable}
    (h : Tracks F isName id handle expected w) (hquiet : F.Quiet w.engine s') (htypes : types.Regular)
    (hsymbols : symbols.Consistent isName (F.gave s' handle)) :
    Tracks F isName id handle expected (withTable w id handle types symbols s') :=
  (h.quiet hquiet).recast htypes hsymbols

end Tracks

variable (F isName id handle expected) in
/-- The end of a computation that leaves the expectations as they are. -/
structure Leaves (given : α → S.State → Prop) (w : World S) (p : Except Failure α × World S) : Prop where
  tracks : Tracks F isName id handle expected p.2
  keeps : F.Keeps w.engine p.2.engine
  given : ∀ a, p.1 = .ok a → given a p.2.engine

namespace Leaves

theorem ok {given : α → S.State → Prop} {a : α} (h : Tracks F isName id handle expected w')
    (hkeeps : F.Keeps w.engine w'.engine) (ha : given a w'.engine) :
    Leaves F isName id handle expected given w (.ok a, w') := by
  refine ⟨h, hkeeps, ?_⟩
  intro b hb
  obtain rfl := Except.ok.inj hb
  exact ha

theorem error {given : α → S.State → Prop} {f : Failure} (h : Tracks F isName id handle expected w')
    (hkeeps : F.Keeps w.engine w'.engine) :
    Leaves F isName id handle expected given w (.error f, w') := by
  refine ⟨h, hkeeps, ?_⟩
  intro a ha
  cases ha

theorem bind {given : α → S.State → Prop} {given' : β → S.State → Prop} {x : Host S α}
    {k : α → Host S β} (hx : Leaves F isName id handle expected given w (exec x w))
    (hk : ∀ a w₁, Tracks F isName id handle expected w₁ → F.Keeps w.engine w₁.engine →
      given a w₁.engine → Leaves F isName id handle expected given' w₁ (exec (k a) w₁)) :
    Leaves F isName id handle expected given' w (exec (x >>= k) w) := by
  rw [exec_bind]
  cases hp : exec x w with
  | mk outcome w₁ =>
    rw [hp] at hx
    cases outcome with
    | error f => exact .error hx.tracks hx.keeps
    | ok a =>
      have hnext := hk a w₁ hx.tracks hx.keeps (hx.given a rfl)
      exact ⟨hnext.tracks, hx.keeps.trans hnext.keeps, hnext.given⟩

/-- Interning a name gives a symbol that denotes it, or fails. -/
theorem internIn (hE : Filing E F isName) (hN : Naming isName) {name : Value} (hname : isName name)
    (h : Tracks F isName id handle expected w) :
    Leaves F isName id handle expected (fun symbol s => Denotes isName (F.gave s handle) name symbol) w
      (exec (Host.internIn E id name) w) := by
  obtain ⟨n, hn, _, types, symbols, hrole, htypes, hsymbols⟩ := h.node
  obtain ⟨r, s', symbols', hexec, hquiet, hsymbols', hdenotes⟩ :=
    exec_internIn_table hE hN h.valid h.live hn hrole hsymbols hname
  rw [hexec]
  exact ⟨h.retable hquiet htypes hsymbols', hquiet.toKeeps, hdenotes⟩

/-- Arguments are written under symbols of their names, one after the other. -/
theorem argsToWire (hE : Filing E F isName) (hN : Naming isName) (args : List ArgSpec) :
    ∀ w, (∀ a ∈ args, isName a.name) → Tracks F isName id handle expected w →
      Leaves F isName id handle expected
        (fun wires s => List.Forall₂ (ArgSpec.Writes isName (F.gave s handle)) args wires) w
        (exec (args.mapM (Signature.argToWire (Host.internIn E id))) w) := by
  induction args with
  | nil =>
    intro w _ h
    exact .ok h (.refl h.valid) .nil
  | cons a rest ih =>
    intro w hnames h
    rw [List.mapM_cons]
    have hfirst : Leaves F isName id handle expected
        (fun wire s => a.Writes isName (F.gave s handle) wire) w
        (exec (Signature.argToWire (Host.internIn E id) a) w) := by
      refine bind (internIn hE hN (hnames a List.mem_cons_self) h) ?_
      intro symbol w₁ h₁ _ hdenotes
      exact .ok h₁ (.refl h₁.valid) ⟨symbol, hdenotes, rfl⟩
    refine bind hfirst ?_
    intro wire w₁ h₁ _ hwire
    refine bind (ih w₁ (fun b hb => hnames b (List.mem_cons_of_mem _ hb)) h₁) ?_
    intro wires w₂ h₂ hkeeps hwires
    exact .ok h₂ (.refl h₂.valid) (.cons (hwire.mono (hkeeps.gave handle)) hwires)

theorem toWire (hE : Filing E F isName) (hN : Naming isName) {s : Signature}
    (hs : s.Regular isName) (h : Tracks F isName id handle expected w) :
    Leaves F isName id handle expected
      (fun wire state => s.Writes isName (F.gave state handle) wire) w
      (exec (s.toWire (Host.internIn E id)) w) := by
  refine bind (argsToWire hE hN s.args w (fun a ha => (hs.args a ha).1) h) ?_
  intro args w₁ h₁ _ hargs
  exact .ok h₁ (.refl h₁.valid) ⟨args, hargs, rfl⟩

end Leaves

/-- A symbol that denotes a name is read as that name. -/
theorem exec_nameIn (hE : Filing E F isName) (hN : Naming isName) {name symbol : Value}
    (hname : isName name) (h : Tracks F isName id handle expected w)
    (hdenotes : Denotes isName (F.gave w.engine handle) name symbol) :
    ∃ n w', exec (Host.nameIn E id symbol) w = (.ok n, w') ∧
      Tracks F isName id handle expected w' ∧ F.Keeps w.engine w'.engine ∧ isName n ∧
      n.equals name := by
  obtain ⟨node, hn, _, types, symbols, hrole, htypes, hsymbols⟩ := h.node
  obtain ⟨n, s', symbols', hexec, hquiet, hsymbols', hn_name, hequals⟩ :=
    exec_nameIn_table hE hN h.valid h.live hn hrole hsymbols hname hdenotes
  exact ⟨n, _, hexec, h.retable hquiet htypes hsymbols', hquiet.toKeeps, hn_name, hequals⟩

theorem exec_ofExcept_ok (a : α) (w : World S) :
    exec (ofExcept (.ok a : Checked α) : Host S α) w = (.ok a, w) := rfl

theorem atKey_ofFields (key key' : String) (value : Value) (rest : List (String × Value)) :
    (Value.ofFields ((key', value) :: rest)).atKey key =
      if key' = key then .ok value else (Value.ofFields rest).atKey key := by
  by_cases hkey : key' = key
  · simp [Value.ofFields, Value.atKey, Value.get?, hkey, pure, Except.pure]
  · simp [Value.ofFields, Value.atKey, Value.get?, hkey]

section Wire

variable (a : ArgSpec) (symbol : Value) (s : Signature) (wires : List Value)

theorem ArgSpec.wire_name : (a.wire symbol).atKey "name" = .ok symbol := by
  simp [ArgSpec.wire, atKey_ofFields]

theorem ArgSpec.wire_type : ((a.wire symbol).atKey "ty" >>= Ty.ofWire) = Ty.ofWire a.type.toWire := by
  have hty : (a.wire symbol).atKey "ty" = .ok a.type.toWire := by simp [ArgSpec.wire, atKey_ofFields]
  rw [hty]
  rfl

theorem ArgSpec.wire_required : (a.wire symbol).atKey "required" = .ok (.bool a.required) := by
  simp [ArgSpec.wire, atKey_ofFields]

theorem ArgSpec.wire_variadic : (a.wire symbol).atKey "variadic" = .ok (.bool a.variadic) := by
  simp [ArgSpec.wire, atKey_ofFields]

theorem Signature.wire_args : ((s.wire wires).atKey "args" >>= Value.elements) = .ok wires := by
  have hlist : (s.wire wires).atKey "args" = .ok (.list wires) := by simp [Signature.wire, atKey_ofFields]
  rw [hlist]
  rfl

theorem Signature.wire_returns :
    ((s.wire wires).atKey "returns" >>= Ty.ofWire) = Ty.ofWire s.returns.toWire := by
  have hty : (s.wire wires).atKey "returns" = .ok s.returns.toWire := by simp [Signature.wire, atKey_ofFields]
  rw [hty]
  rfl

theorem Signature.wire_total : (s.wire wires).atKey "total" = .ok (.bool s.total) := by
  simp [Signature.wire, atKey_ofFields]

end Wire

/-- An argument is read back as it was written. -/
theorem exec_argOfWire (hE : Filing E F isName) (hN : Naming isName) {a : ArgSpec} {wire : Value}
    (ha : a.Regular isName) (h : Tracks F isName id handle expected w)
    (hwrites : a.Writes isName (F.gave w.engine handle) wire) :
    ∃ b w', exec (Signature.argOfWire (Host.nameIn E id) wire) w = (.ok b, w') ∧
      Tracks F isName id handle expected w' ∧ F.Keeps w.engine w'.engine ∧ b.Regular isName ∧
      b.Same a := by
  obtain ⟨symbol, hdenotes, rfl⟩ := hwrites
  obtain ⟨n, w', hexec, h', hkeeps, hn, hequals⟩ := exec_nameIn hE hN ha.1 h hdenotes
  refine ⟨⟨n, a.type, a.required, a.variadic⟩, w', ?_, h', hkeeps, ⟨hn, ha.2⟩,
    ⟨hequals, rfl, rfl, rfl⟩⟩
  have htype : ((a.wire symbol).atKey "ty" >>= Ty.ofWire) = .ok a.type :=
    (a.wire_type symbol).trans (Ty.ofWire_toWire a.type ha.2)
  unfold Signature.argOfWire
  simp only [exec_bind, a.wire_name, htype, a.wire_required, a.wire_variadic, exec_ofExcept_ok, hexec]
  rfl

theorem exec_argsOfWire (hE : Filing E F isName) (hN : Naming isName) {args : List ArgSpec}
    {wires : List Value} (hargs : ∀ a ∈ args, a.Regular isName)
    (h : Tracks F isName id handle expected w)
    (hwrites : List.Forall₂ (ArgSpec.Writes isName (F.gave w.engine handle)) args wires) :
    ∃ bs w', exec (wires.mapM (Signature.argOfWire (Host.nameIn E id))) w = (.ok bs, w') ∧
      Tracks F isName id handle expected w' ∧ F.Keeps w.engine w'.engine ∧
      (∀ b ∈ bs, b.Regular isName) ∧ List.Forall₂ ArgSpec.Same bs args := by
  induction args generalizing wires w with
  | nil =>
    cases hwrites
    exact ⟨[], w, rfl, h, .refl h.valid, by simp, .nil⟩
  | cons a rest ih =>
    cases hwrites with
    | @cons _ wire _ wires hwire hwires =>
      obtain ⟨b, w₁, hexec, h₁, hkeeps₁, hb, hsame⟩ :=
        exec_argOfWire hE hN (hargs a List.mem_cons_self) h hwire
      have hwires₁ := hwires.imp fun _ _ hx => hx.mono (hkeeps₁.gave handle)
      obtain ⟨bs, w₂, hexec₂, h₂, hkeeps₂, hbs, hsames⟩ :=
        ih (fun c hc => hargs c (List.mem_cons_of_mem _ hc)) h₁ hwires₁
      refine ⟨b :: bs, w₂, ?_, h₂, hkeeps₁.trans hkeeps₂, ?_, .cons hsame hsames⟩
      · simp only [List.mapM_cons, exec_bind, hexec, hexec₂, exec_pure]
      · intro c hc
        rcases List.mem_cons.mp hc with rfl | hc
        · exact hb
        · exact hbs c hc

/-- A signature is read back as it was written, but for the spelling of names. -/
theorem exec_ofWire (hE : Filing E F isName) (hN : Naming isName) {s : Signature} {wire : Value}
    (hs : s.Regular isName) (h : Tracks F isName id handle expected w)
    (hwrites : s.Writes isName (F.gave w.engine handle) wire) :
    ∃ s' w', exec (Signature.ofWire (Host.nameIn E id) wire) w = (.ok s', w') ∧
      Tracks F isName id handle expected w' ∧ F.Keeps w.engine w'.engine ∧ s'.Regular isName ∧
      s'.Same s := by
  obtain ⟨wires, hargs, rfl⟩ := hwrites
  obtain ⟨bs, w', hexec, h', hkeeps, hbs, hsames⟩ := exec_argsOfWire hE hN hs.args h hargs
  refine ⟨⟨bs, s.returns, s.total⟩, w', ?_, h', hkeeps, ⟨hbs, hs.returns⟩, ⟨hsames, rfl, rfl⟩⟩
  have hreturns : ((s.wire wires).atKey "returns" >>= Ty.ofWire) = .ok s.returns :=
    (s.wire_returns wires).trans (Ty.ofWire_toWire s.returns hs.returns)
  unfold Signature.ofWire
  simp only [exec_bind, s.wire_args, hreturns, s.wire_total, exec_ofExcept_ok, hexec]
  rfl

/-- The answer that a look-up owes: a signature equal to the expected one, or none. -/
def Fulfils : Option Signature → Checked (Option Signature) → Prop
  | none, .ok none => True
  | some s, .ok (some s') => s'.equals s
  | _, _ => False

/-- What is expected once a definition has returned a signature. -/
def Signature.over (s : Signature) (expected : Value → Option Signature) (name : Value) :
    Option Signature :=
  if s.name?.any (·.equals name) then some s else expected name

namespace Leaves

theorem check {given : α → S.State → Prop} {c : Checked α} (h : Tracks F isName id handle expected w)
    (hc : ∀ a, c = .ok a → given a w.engine) :
    Leaves F isName id handle expected given w (exec (Host.check c) w) := by
  rcases exec_check c w with ⟨a, ha, hexec⟩ | ⟨f, g, _, hexec, _⟩
  · rw [hexec]
    exact .ok h (.refl h.valid) (hc a ha)
  · rw [hexec]
    exact .error h (.refl h.valid)

theorem defineType {name expr : Value} (hexpr : expr.Proper)
    (h : Tracks F isName id handle expected w) :
    Leaves F isName id handle expected (fun t _ => t.Regular) w
      (exec (Scope.defineType id name expr) w) := by
  obtain ⟨n, hn, hhandle, types, symbols, hrole, htypes, hsymbols⟩ := h.node
  have hlive : n.isLive = true := by simp [Node.isLive, hrole, hhandle]
  unfold Scope.defineType
  rw [exec_bind, exec_checkLive hn hlive]
  show Leaves F isName id handle expected (fun (t : Ty) _ => t.Regular) w (exec (symbolsOf id >>= _) w)
  rw [exec_bind, exec_symbolsOf hn hrole]
  rcases exec_check (types.define name expr) w with ⟨r, hr, hexec⟩ | ⟨f, g, _, hexec, _⟩
  · obtain ⟨t, types'⟩ := r
    obtain ⟨ht, htypes'⟩ := Registry.regular_define htypes hexpr hr
    simp only [exec_bind, hexec, exec_setRole, exec_pure]
    exact .ok (h.recast htypes' hsymbols) (.refl h.valid) ht
  · simp only [exec_bind, hexec]
    exact .error h (.refl h.valid)

theorem declare {b : Builder S.Body} {step : BuildStep S.Body} (hb : b.Regular isName)
    (hstep : step.Proper isName) (h : Tracks F isName id handle expected w) :
    Leaves F isName id handle expected (fun b' _ => b'.Regular isName) w
      (exec (Scope.declare id b step) w) := by
  obtain ⟨n, hn, _, types, symbols, hrole, htypes, _⟩ := h.node
  unfold Scope.declare Scope.typesOf
  simp only [exec_bind, exec_symbolsOf hn hrole, exec_pure]
  refine check h ?_
  intro b' hb'
  exact hb.step htypes hstep hb'

end Leaves

/-- A look-up answers what is expected. -/
theorem exec_getSignature (hE : Filing E F isName) (hN : Naming isName) {name : Value}
    (hname : isName name) (h : Tracks F isName id handle expected w) :
    ∃ answer w', exec (Scope.getSignature E id name) w = (.ok answer, w') ∧
      Tracks F isName id handle expected w' ∧ F.Keeps w.engine w'.engine ∧
      (∀ s, answer = some s → s.Regular isName) ∧ Fulfils (expected name) (.ok answer) := by
  obtain ⟨n, hn, hhandle, _⟩ := h.node
  obtain ⟨s', hp, hquiet⟩ := hE.getSignature w.engine handle name h.valid h.live hname
  have hfiled := h.filed name hname
  have h' := h.quiet hquiet
  unfold Scope.getSignature
  simp only [exec_bind, exec_liveHandle hn hhandle, exec_onEngine, hp]
  cases hs : expected name with
  | none =>
    cases hwire : F.stored w.engine handle name with
    | none => exact ⟨none, _, rfl, h', hquiet.toKeeps, by simp, trivial⟩
    | some wire =>
      rw [hs, hwire] at hfiled
      exact hfiled.elim
  | some s =>
    cases hwire : F.stored w.engine handle name with
    | none =>
      rw [hs, hwire] at hfiled
      exact hfiled.elim
    | some wire =>
      rw [hs, hwire] at hfiled
      obtain ⟨hregular, hwrites⟩ := hfiled
      obtain ⟨t, w₁, hexec, h₁, hkeeps₁, ht, hsame⟩ :=
        exec_ofWire hE hN hregular h' (hwrites.mono (hquiet.gave handle))
      obtain ⟨wires, _, rfl⟩ := hwrites
      refine ⟨some t, w₁, ?_, h₁, hquiet.toKeeps.trans hkeeps₁, ?_, hsame.equals hregular⟩
      · show exec (some <$> Signature.ofWire (Host.nameIn E id) (s.wire wires)) _ = _
        rw [exec_map, hexec]
        rfl
      · intro u hu
        obtain rfl := Option.some.inj hu
        exact ht

/-- What the engine stored under the name of the first argument takes the place of what was expected. -/
theorem filed_over (hN : Naming isName) {s : Signature} {a : ArgSpec} {rest : List ArgSpec}
    {first wire : Value} {gave : Value → Value → Prop} {stored stored' : Value → Option Value}
    (hs : s.Regular isName) (hargs : s.args = a :: rest) (hwrites : s.Writes isName gave wire)
    (hfirst : isName first) (hequals : first.equals a.name)
    (hstored : ∀ name, isName name →
      stored' name = if first.equals name then some wire else stored name)
    (hfiled : ∀ name, isName name → Filed isName gave (expected name) (stored name)) :
    ∀ name, isName name → Filed isName gave (s.over expected name) (stored' name) := by
  intro name hname
  have ha : isName a.name := (hs.args a (by rw [hargs]; exact List.mem_cons_self)).1
  have hover : s.over expected name = if a.name.equals name then some s else expected name := by
    simp [Signature.over, Signature.name?, hargs]
  have hsame : first.equals name = a.name.equals name :=
    hN.equals_congr hfirst ha hname hequals
  rw [hover, hstored name hname, hsame]
  split
  · exact ⟨hs, hwrites⟩
  · exact hfiled name hname

/-- Handing a regular signature to the engine: a success puts it in the place of what was expected. -/
theorem Tracks.define (hE : Filing E F isName) (hN : Naming isName) {s : Signature} {wire : Value}
    {a : ArgSpec} {rest : List ArgSpec} (hs : s.Regular isName) (hargs : s.args = a :: rest)
    (h : Tracks F isName id handle expected w)
    (hwrites : s.Writes isName (F.gave w.engine handle) wire) (number : FunctionId) :
    match (E.define handle wire number).run.run w.engine with
    | (.error _, s') => Tracks F isName id handle expected { w with engine := s' }
    | (.ok _, s') => Tracks F isName id handle (s.over expected) { w with engine := s' } := by
  have hlaw := hE.define w.engine handle wire number h.valid h.live
  cases hp : (E.define handle wire number).run.run w.engine with
  | mk outcome s' =>
    rw [hp] at hlaw
    obtain ⟨hkeeps, hstored⟩ := hlaw
    cases outcome with
    | error f => exact h.unfiled hkeeps hstored
    | ok _ =>
      obtain ⟨symbol, hsymbol, _, first, hfirst, hgave, hequals⟩ := hwrites.firstSymbol? hargs
      refine h.engine hkeeps ?_
      refine filed_over hN hs hargs (hwrites.mono (hkeeps.gave handle)) hfirst hequals
        (hstored symbol first hsymbol hfirst hgave) ?_
      intro name hname
      exact (h.filed name hname).mono (hkeeps.gave handle)

/-- What a definition does to the expectations that its declaration leaves: a success puts the returned
signature in the place of the one before, a failure changes nothing. -/
def Defines (F : Files S.State) (isName : Value → Prop) (id : ObjectId) (handle : Value)
    (expected : Value → Option Signature) : Checked Signature × World S → Prop
  | (.error _, w) => Tracks F isName id handle expected w
  | (.ok s, w) => s.Regular isName ∧ Tracks F isName id handle (s.over expected) w

theorem defines_define (hE : Filing E F isName) (hN : Naming isName) {build : Host S (Builder S.Body)}
    {n : Node} (hn : w.nodes[id]? = some n) (hhandle : n.handle = some handle)
    (hbuild : Tracks F isName id handle expected (exec build w).2)
    (hbuilder : ∀ b, (exec build w).1 = .ok b → b.Regular isName) :
    Defines F isName id handle expected (exec (Scope.define E id build) w) := by
  unfold Scope.define
  rw [exec_bind, exec_liveHandle hn hhandle]
  simp only [exec_bind]
  cases hp : exec build w with
  | mk outcome w₁ =>
    rw [hp] at hbuild hbuilder
    cases outcome with
    | error f => exact hbuild
    | ok b =>
      rcases exec_check b.validate w₁ with ⟨d, hd, hexec⟩ | ⟨f, g, _, hexec, _⟩
      swap
      · simp only [hexec]
        exact hbuild
      obtain ⟨hs, hne⟩ := (hbuilder b rfl).validate hd
      obtain ⟨a, rest, hargs⟩ := List.exists_cons_of_ne_nil hne
      have hwire := Leaves.toWire hE hN hs hbuild
      simp only [hexec]
      cases hq : exec (d.signature.toWire (Host.internIn E id)) w₁ with
      | mk outcome w₂ =>
        rw [hq] at hwire
        cases outcome with
        | error f => exact hwire.tracks
        | ok wire =>
          have hregistered : Tracks F isName id handle expected
              { w₂ with functions := w₂.functions ++ [⟨id, d⟩] } := hwire.tracks.congr rfl rfl
          have hdefine := hregistered.define hE hN hs hargs (hwire.given wire rfl) w₂.functions.length
          simp only [exec_modifyGet, exec_onEngine]
          cases hr : (E.define handle wire w₂.functions.length).run.run w₂.engine with
          | mk outcome s' =>
            simp only [hr] at hdefine ⊢
            cases outcome with
            | error f => exact hdefine
            | ok _ =>
              have hname : d.signature.name = .ok a.name := by
                simp [Signature.name, Signature.name?, hargs, pure, Except.pure]
              simp only [hname, exec_check_ok, exec_write, exec_pure]
              exact ⟨hs, hdefine.congr rfl rfl⟩

end EngineHost
