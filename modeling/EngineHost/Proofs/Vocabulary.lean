import EngineHost.Proofs.Registration

/-!
What a scope understands of the engine's symbols, whatever types it knows. Every operation on the scope keeps
its table right, and keeps what the engine has stored under symbols that it gave.
-/
namespace EngineHost

open Host

variable {S : Embedding} {E : Engine S.State} {F : Files S.State} {isName : Value → Prop} {id : ObjectId}
  {handle : Value} {w w' : World S} {α β : Type}

/-- The wire form of some signature, whatever its types are. -/
def Phrased (isName : Value → Prop) (gave : Value → Value → Prop) (wire : Value) : Prop :=
  ∃ s : Signature, (∀ a ∈ s.args, isName a.name) ∧ s.Writes isName gave wire

theorem Phrased.mono {gave gave' : Value → Value → Prop} {wire : Value} (h : Phrased isName gave wire)
    (hmore : ∀ n y, gave n y → gave' n y) : Phrased isName gave' wire := by
  obtain ⟨s, hnames, hwrites⟩ := h
  exact ⟨s, hnames, hwrites.mono hmore⟩

/-- The scope is live and its table right, and all that is stored for it can be read. -/
structure Understands (F : Files S.State) (isName : Value → Prop) (id : ObjectId) (handle : Value)
    (w : World S) : Prop where
  valid : F.valid w.engine
  live : F.live w.engine handle
  node : ∃ n, w.nodes[id]? = some n ∧ n.handle = some handle ∧ ∃ types symbols,
    n.role = .scope handle types symbols ∧ symbols.Consistent isName (F.gave w.engine handle)
  stored : ∀ name wire, isName name → F.stored w.engine handle name = some wire →
    Phrased isName (F.gave w.engine handle) wire

namespace Understands

/-- A call of the engine, after which what is stored can be read. -/
theorem engine {s' : S.State} (h : Understands F isName id handle w) (hkeeps : F.Keeps w.engine s')
    (hstored : ∀ name wire, isName name → F.stored s' handle name = some wire →
      Phrased isName (F.gave s' handle) wire) : Understands F isName id handle { w with engine := s' } where
  valid := hkeeps.valid
  live := hkeeps.live handle h.live
  node := by
    obtain ⟨n, hn, hhandle, types, symbols, hrole, hsymbols⟩ := h.node
    exact ⟨n, hn, hhandle, types, symbols, hrole, hsymbols.mono (hkeeps.gave handle)⟩
  stored := hstored

/-- A call of the engine that stores nothing here. -/
theorem unstored {s' : S.State} (h : Understands F isName id handle w) (hkeeps : F.Keeps w.engine s')
    (hstored : ∀ name, F.stored s' handle name = F.stored w.engine handle name) :
    Understands F isName id handle { w with engine := s' } := by
  refine h.engine hkeeps fun name wire hname hwire => ?_
  exact (h.stored name wire hname (hstored name ▸ hwire)).mono (hkeeps.gave handle)

theorem quiet {s' : S.State} (h : Understands F isName id handle w) (hquiet : F.Quiet w.engine s') :
    Understands F isName id handle { w with engine := s' } :=
  h.unstored hquiet.toKeeps (hquiet.stored handle)

/-- Nothing but the scope and the engine matters. -/
theorem rescoped (h : Understands F isName id handle w) (hengine : w'.engine = w.engine)
    (hscope : ∀ n, w.nodes[id]? = some n →
      ∃ n', w'.nodes[id]? = some n' ∧ n'.handle = n.handle ∧ n'.role = n.role) :
    Understands F isName id handle w' where
  valid := hengine ▸ h.valid
  live := hengine ▸ h.live
  node := by
    obtain ⟨n, hn, hhandle, types, symbols, hrole, hsymbols⟩ := h.node
    obtain ⟨n', hn', hhandle', hrole'⟩ := hscope n hn
    exact ⟨n', hn', hhandle'.trans hhandle, types, symbols, hrole'.trans hrole, hengine ▸ hsymbols⟩
  stored := hengine ▸ h.stored

/-- The scope may have other types, and another table that is right. -/
theorem retable {s' : S.State} {types : Registry} {symbols : SymbolTable}
    (h : Understands F isName id handle w) (hquiet : F.Quiet w.engine s')
    (hsymbols : symbols.Consistent isName (F.gave s' handle)) :
    Understands F isName id handle (withTable w id handle types symbols s') where
  valid := hquiet.valid
  live := hquiet.live handle h.live
  node := by
    obtain ⟨n, hn, hhandle, -⟩ := h.node
    refine ⟨{ n with role := .scope handle types symbols }, ?_, hhandle, types, symbols, rfl, hsymbols⟩
    rw [withTable, List.getElem?_modify_eq, hn]
    rfl
  stored := (h.quiet hquiet).stored

end Understands

variable (F isName id handle) in
/-- The end of a computation after which the scope understands as before. -/
structure Stays (given : α → S.State → Prop) (w : World S) (p : Except Failure α × World S) : Prop where
  understands : Understands F isName id handle p.2
  keeps : F.Keeps w.engine p.2.engine
  given : ∀ a, p.1 = .ok a → given a p.2.engine

namespace Stays

theorem ok {given : α → S.State → Prop} {a : α} (h : Understands F isName id handle w')
    (hkeeps : F.Keeps w.engine w'.engine) (ha : given a w'.engine) :
    Stays F isName id handle given w (.ok a, w') := by
  refine ⟨h, hkeeps, fun b hb => ?_⟩
  obtain rfl := Except.ok.inj hb
  exact ha

/-- What is checked or computed from values alone. -/
theorem check {given : α → S.State → Prop} {c : Checked α} (h : Understands F isName id handle w)
    (hc : ∀ a, c = .ok a → given a w.engine) : Stays F isName id handle given w (exec (Host.check c) w) := by
  rcases exec_check c w with ⟨a, ha, hexec⟩ | ⟨f, g, -, hexec, -⟩
  · rw [hexec]
    exact .ok h (.refl h.valid) (hc a ha)
  · rw [hexec]
    exact ⟨h, .refl h.valid, nofun⟩

theorem read (c : Checked α) (h : Understands F isName id handle w) :
    Stays F isName id handle (fun _ _ => True) w (exec (ofExcept c) w) := by
  cases c with
  | ok a => exact .ok h (.refl h.valid) trivial
  | error f => exact ⟨h, .refl h.valid, fun _ _ => trivial⟩

theorem bind {given : α → S.State → Prop} {given' : β → S.State → Prop} {x : Host S α} {k : α → Host S β}
    (hx : Stays F isName id handle given w (exec x w))
    (hk : ∀ a w₁, Understands F isName id handle w₁ → F.Keeps w.engine w₁.engine → given a w₁.engine →
      Stays F isName id handle given' w₁ (exec (k a) w₁)) :
    Stays F isName id handle given' w (exec (x >>= k) w) := by
  rw [exec_bind]
  cases hp : exec x w with
  | mk outcome w₁ =>
    rw [hp] at hx
    cases outcome with
    | error f => exact ⟨hx.understands, hx.keeps, nofun⟩
    | ok a =>
      have hnext := hk a w₁ hx.understands hx.keeps (hx.given a rfl)
      exact ⟨hnext.understands, hx.keeps.trans hnext.keeps, hnext.given⟩

section Naming

variable (hE : Filing E F isName) (hN : Naming isName)

include hE hN

theorem internIn {name : Value} (hname : isName name) (h : Understands F isName id handle w) :
    Stays F isName id handle (fun symbol s => Denotes isName (F.gave s handle) name symbol) w
      (exec (Host.internIn E id name) w) := by
  obtain ⟨n, hn, -, types, symbols, hrole, hsymbols⟩ := h.node
  obtain ⟨r, s', symbols', hexec, hquiet, hsymbols', hdenotes⟩ :=
    exec_internIn_table hE hN h.valid h.live hn hrole hsymbols hname
  rw [hexec]
  exact ⟨h.retable hquiet hsymbols', hquiet.toKeeps, hdenotes⟩

theorem nameIn {name symbol : Value} (hname : isName name)
    (hdenotes : Denotes isName (F.gave w.engine handle) name symbol)
    (h : Understands F isName id handle w) :
    Stays F isName id handle (fun m _ => isName m ∧ m.equals name) w (exec (Host.nameIn E id symbol) w) := by
  obtain ⟨n, hn, -, types, symbols, hrole, hsymbols⟩ := h.node
  obtain ⟨m, s', symbols', hexec, hquiet, hsymbols', hm⟩ :=
    exec_nameIn_table hE hN h.valid h.live hn hrole hsymbols hname hdenotes
  rw [hexec]
  exact .ok (h.retable hquiet hsymbols') hquiet.toKeeps hm

/-- Arguments are written under symbols of their names, one after the other. -/
theorem argsToWire (args : List ArgSpec) (hnames : ∀ a ∈ args, isName a.name)
    (h : Understands F isName id handle w) :
    Stays F isName id handle
      (fun wires s => List.Forall₂ (ArgSpec.Writes isName (F.gave s handle)) args wires) w
      (exec (args.mapM (Signature.argToWire (Host.internIn E id))) w) := by
  induction args generalizing w with
  | nil => exact .ok h (.refl h.valid) .nil
  | cons a rest ih =>
    rw [List.mapM_cons]
    have hfirst : Stays F isName id handle (fun wire s => a.Writes isName (F.gave s handle) wire) w
        (exec (Signature.argToWire (Host.internIn E id) a) w) := by
      refine bind (internIn hE hN (hnames a List.mem_cons_self) h) fun symbol w₁ h₁ _ hdenotes => ?_
      exact .ok h₁ (.refl h₁.valid) ⟨symbol, hdenotes, rfl⟩
    refine bind hfirst fun wire w₁ h₁ _ hwire => ?_
    refine bind (ih (fun b hb => hnames b (List.mem_cons_of_mem _ hb)) h₁) fun wires w₂ h₂ hkeeps hwires => ?_
    exact .ok h₂ (.refl h₂.valid) (.cons (hwire.mono (hkeeps.gave handle)) hwires)

theorem toWire {s : Signature} (hnames : ∀ a ∈ s.args, isName a.name)
    (h : Understands F isName id handle w) :
    Stays F isName id handle (fun wire state => s.Writes isName (F.gave state handle) wire) w
      (exec (s.toWire (Host.internIn E id)) w) := by
  refine bind (argsToWire hE hN s.args hnames h) fun args w₁ h₁ _ hargs => ?_
  exact .ok h₁ (.refl h₁.valid) ⟨args, hargs, rfl⟩

/-- Reading an argument may fail, but not over its name. -/
theorem argOfWire {a : ArgSpec} {wire : Value} (hname : isName a.name)
    (hwrites : a.Writes isName (F.gave w.engine handle) wire) (h : Understands F isName id handle w) :
    Stays F isName id handle (fun _ _ => True) w
      (exec (Signature.argOfWire (Host.nameIn E id) wire) w) := by
  obtain ⟨symbol, hdenotes, rfl⟩ := hwrites
  unfold Signature.argOfWire
  rw [a.wire_name, exec_bind, exec_ofExcept_ok]
  refine bind (nameIn hE hN hname hdenotes h) fun name w₁ h₁ _ _ => ?_
  refine bind (read _ h₁) fun type w₂ h₂ _ _ => bind (read _ h₂) fun required w₃ h₃ _ _ => ?_
  exact bind (read _ h₃) fun variadic w₄ h₄ _ _ => .ok h₄ (.refl h₄.valid) trivial

theorem argsOfWire {args : List ArgSpec} {wires : List Value} (hnames : ∀ a ∈ args, isName a.name)
    (hwrites : List.Forall₂ (ArgSpec.Writes isName (F.gave w.engine handle)) args wires)
    (h : Understands F isName id handle w) :
    Stays F isName id handle (fun _ _ => True) w
      (exec (wires.mapM (Signature.argOfWire (Host.nameIn E id))) w) := by
  induction args generalizing wires w with
  | nil =>
    cases hwrites
    exact .ok h (.refl h.valid) trivial
  | cons a rest ih =>
    cases hwrites with
    | cons hfirst hrest =>
      rw [List.mapM_cons]
      refine bind (argOfWire hE hN (hnames a List.mem_cons_self) hfirst h) fun _ w₁ h₁ hkeeps _ => ?_
      have hlater := hrest.imp fun _ _ hx => hx.mono (hkeeps.gave handle)
      refine bind (ih (fun b hb => hnames b (List.mem_cons_of_mem _ hb)) hlater h₁) fun _ w₂ h₂ _ _ => ?_
      exact .ok h₂ (.refl h₂.valid) trivial

theorem ofWire {wire : Value} (hphrased : Phrased isName (F.gave w.engine handle) wire)
    (h : Understands F isName id handle w) :
    Stays F isName id handle (fun _ _ => True) w (exec (Signature.ofWire (Host.nameIn E id) wire) w) := by
  obtain ⟨s, hnames, wires, hwrites, rfl⟩ := hphrased
  unfold Signature.ofWire
  rw [s.wire_args, exec_bind, exec_ofExcept_ok]
  refine bind (argsOfWire hE hN hnames hwrites h) fun args w₁ h₁ _ _ => ?_
  refine bind (read _ h₁) fun returns w₂ h₂ _ _ => bind (read _ h₂) fun total w₃ h₃ _ _ => ?_
  exact .ok h₃ (.refl h₃.valid) trivial

theorem getSignature {name : Value} (hname : isName name) (h : Understands F isName id handle w) :
    Stays F isName id handle (fun _ _ => True) w (exec (Scope.getSignature E id name) w) := by
  obtain ⟨n, hn, hhandle, -⟩ := h.node
  obtain ⟨s', hp, hquiet⟩ := hE.getSignature w.engine handle name h.valid h.live hname
  have h' := h.quiet hquiet
  unfold Scope.getSignature
  simp only [exec_bind, exec_liveHandle hn hhandle, exec_onEngine, hp]
  cases hwire : F.stored w.engine handle name with
  | none => exact .ok h' hquiet.toKeeps trivial
  | some wire =>
    have hphrased := (h.stored name wire hname hwire).mono (hquiet.gave handle)
    have hread := ofWire hE hN hphrased h'
    obtain ⟨s, -, wires, -, rfl⟩ := hphrased
    show Stays F isName id handle _ w
      (exec (some <$> Signature.ofWire (Host.nameIn E id) (s.wire wires)) { w with engine := s' })
    rw [exec_map]
    exact ⟨hread.understands, hquiet.toKeeps.trans hread.keeps, fun _ _ => trivial⟩

omit hN in
/-- What the engine stores for a definition can be read. -/
theorem engineDefine {s : Signature} {wire : Value} (hnames : ∀ a ∈ s.args, isName a.name)
    (hne : s.args ≠ []) (hwrites : s.Writes isName (F.gave w.engine handle) wire) (number : FunctionId)
    (h : Understands F isName id handle w) :
    Stays F isName id handle (fun _ _ => True) w (exec (onEngine (E.define handle wire number)) w) := by
  have hlaw := hE.define w.engine handle wire number h.valid h.live
  rw [exec_onEngine]
  cases hp : (E.define handle wire number).run.run w.engine with
  | mk outcome s' =>
    rw [hp] at hlaw
    obtain ⟨hkeeps, hstored⟩ := hlaw
    cases outcome with
    | error f => exact ⟨h.unstored hkeeps hstored, hkeeps, nofun⟩
    | ok u =>
      obtain ⟨a, rest, hargs⟩ := List.exists_cons_of_ne_nil hne
      obtain ⟨symbol, hsymbol, -, first, hfirst, hgave, -⟩ := hwrites.firstSymbol? hargs
      refine ⟨h.engine hkeeps fun name wire' hname hwire' => ?_, hkeeps, fun _ _ => trivial⟩
      rw [hstored symbol first hsymbol hfirst hgave name hname] at hwire'
      split at hwire'
      · obtain rfl := Option.some.inj hwire'
        exact ⟨s, hnames, hwrites.mono (hkeeps.gave handle)⟩
      · exact (h.stored name wire' hname hwire').mono (hkeeps.gave handle)

/-- A definition, however the declaration came about. -/
theorem define {build : Host S (Builder S.Body)} {b : Builder S.Body} {w₁ : World S}
    (h : Understands F isName id handle w) (hbuild : exec build w = (.ok b, w₁))
    (h₁ : Understands F isName id handle w₁) (hnames : ∀ a ∈ b.args, isName a.name) :
    Stays F isName id handle (fun s _ => s.args = b.args ∧ s.args ≠ []) w₁
      (exec (Scope.define E id build) w) := by
  obtain ⟨n, hn, hhandle, -⟩ := h.node
  unfold Scope.define
  rw [exec_bind, exec_liveHandle hn hhandle]
  dsimp only
  rw [exec_bind, hbuild]
  dsimp only
  have hdeclared : Stays F isName id handle
      (fun (d : Definition S.Body) _ => d.signature.args = b.args ∧ d.signature.args ≠ []) w₁
      (exec (Host.check b.validate) w₁) := by
    refine check h₁ fun d hd => ?_
    obtain ⟨hne, hargs, -⟩ := Builder.validate_ok hd
    exact ⟨hargs, hargs ▸ hne⟩
  refine bind hdeclared fun d w₂ h₂ _ hd => ?_
  have hd_names : ∀ a ∈ d.signature.args, isName a.name := hd.1 ▸ hnames
  refine bind (toWire hE hN hd_names h₂) fun wire w₃ h₃ _ hwrites => ?_
  have hregistered : Stays F isName id handle (fun _ _ => True) w₃
      (exec (modifyGet fun w => (w.functions.length, { w with functions := w.functions ++ [⟨id, d⟩] })) w₃) :=
    .ok (h₃.rescoped rfl fun n hn => ⟨n, hn, rfl, rfl⟩) (.refl h₃.valid) trivial
  refine bind hregistered fun number w₄ h₄ hkeeps _ => ?_
  have hwrites₄ := hwrites.mono (hkeeps.gave handle)
  refine bind (engineDefine hE hd_names hd.2 hwrites₄ number h₄) fun _ w₅ h₅ _ _ => ?_
  have hname : Stays F isName id handle (fun _ _ => True) w₅ (exec (Host.check d.signature.name) w₅) :=
    check h₅ fun _ _ => trivial
  refine bind hname fun name w₆ h₆ _ _ => ?_
  rw [exec_bind, exec_write]
  exact .ok (h₆.rescoped rfl fun n hn => ⟨n, hn, rfl, rfl⟩) (.refl h₆.valid) hd

end Naming

end Stays

/-- An alias changes what types the scope knows. -/
theorem Understands.defineType (h : Understands F isName id handle w) (name expr : Value) :
    Understands F isName id handle (exec (Scope.defineType id name expr) w).2 := by
  obtain ⟨n, hn, hhandle, types, symbols, hrole, hsymbols⟩ := h.node
  have hlive : n.isLive := by simp [Node.isLive, hrole, hhandle]
  unfold Scope.defineType
  rw [exec_bind, exec_checkLive hn hlive]
  dsimp only
  rw [exec_bind, exec_symbolsOf hn hrole]
  rcases exec_check (types.define name expr) w with ⟨r, -, hexec⟩ | ⟨f, g, -, hexec, -⟩
  · simp only [exec_bind, hexec, exec_setRole, exec_pure]
    exact h.retable (.refl h.valid) hsymbols
  · simp only [exec_bind, hexec]
    exact h

theorem handle_of_liveHandle (h : exec (liveHandle id) w = (.ok handle, w)) {n : Node}
    (hn : w.nodes[id]? = some n) : n.handle = some handle := by
  cases hgiven : n.handle with
  | none =>
    rw [exec_liveHandle_gone hn hgiven] at h
    cases h
  | some given =>
    rw [exec_liveHandle hn hgiven] at h
    rw [Except.ok.inj (congrArg Prod.fst h)]

/-- A new scope that is live knows nothing. -/
theorem exec_create_live {w₀ : World S} (hcreate : exec (Scope.create E) w₀ = (.ok id, w))
    (hhandle : exec (liveHandle id) w = (.ok handle, w)) :
    E.allocScope.run.run w₀.engine = (.ok handle, w.engine) ∧
      w.nodes[id]? = some ⟨.scope handle .empty .empty, some handle, []⟩ := by
  simp only [Scope.create, exec_bind, exec_onEngine] at hcreate
  cases hp : E.allocScope.run.run w₀.engine with
  | mk outcome s' =>
    rw [hp] at hcreate
    cases outcome with
    | error f => cases hcreate
    | ok issued =>
      simp only [exec_addNode, exec_write, exec_pure] at hcreate
      obtain ⟨hid, rfl⟩ := Prod.mk.inj hcreate
      obtain rfl := Except.ok.inj hid
      have hn : (w₀.nodes ++ [(⟨.scope issued .empty .empty, handleOf issued, []⟩ : Node)])[
          w₀.nodes.length]? = some ⟨.scope issued .empty .empty, handleOf issued, []⟩ := by simp
      have hgiven : handleOf issued = some handle := handle_of_liveHandle hhandle hn
      obtain rfl : issued = handle := by
        cases issued <;> simp_all [handleOf]
      exact ⟨rfl, hgiven ▸ hn⟩

/-- A new scope that is live understands. -/
theorem understands_create (hE : Filing E F isName) {w₀ : World S} (hvalid : F.valid w₀.engine)
    (hcreate : exec (Scope.create E) w₀ = (.ok id, w)) (hhandle : exec (liveHandle id) w = (.ok handle, w)) :
    Understands F isName id handle w := by
  obtain ⟨hissued, hn⟩ := exec_create_live hcreate hhandle
  have hlaw := hE.allocScope w₀.engine hvalid
  rw [hissued] at hlaw
  obtain ⟨hkeeps, hnew⟩ := hlaw
  obtain ⟨hlive, hempty⟩ := hnew handle rfl
  refine ⟨hkeeps.valid, hlive, ⟨_, hn, rfl, .empty, .empty, rfl, SymbolTable.consistent_empty⟩, ?_⟩
  intro name wire _ hwire
  rw [hempty name] at hwire
  cases hwire

end EngineHost
