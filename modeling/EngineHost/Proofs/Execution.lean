import EngineHost.Host.Operations

/-!
What a computation of a host program does to the world it starts in. `exec` is its outcome and the world
it leaves; the lemmas take a computation apart, step by step.
-/
namespace EngineHost

/-- A failure whose message can be told to the engine. -/
def Failure.Tellable (f : Failure) : Prop := f.message?.isSome = true

theorem HostError.message_mapValues_isText (f : Value → Value) (e : HostError) :
    (e.mapValues f).message.isText = e.message.isText := by
  cases e with
  | builder function problem => cases problem <;> rfl
  | _ => rfl

namespace Host

variable {S : Embedding} {α β : Type}

/-- The outcome of a computation, and the world it leaves. -/
def exec (x : Host S α) (w : World S) : Except Failure α × World S :=
  x.run.run w

theorem exec_pure (a : α) (w : World S) : exec (pure a : Host S α) w = (.ok a, w) := rfl

theorem exec_bind (x : Host S α) (f : α → Host S β) (w : World S) :
    exec (x >>= f) w =
      match exec x w with
      | (.ok a, w') => exec (f a) w'
      | (.error e, w') => (.error e, w') := by
  simp only [exec, ExceptT.run_bind, StateT.run_bind]
  rcases StateT.run (ExceptT.run x) w with ⟨r, w'⟩
  cases r <;> rfl

theorem exec_bind_ok {x : Host S α} {f : α → Host S β} {w w' : World S} {a : α}
    (h : exec x w = (.ok a, w')) : exec (x >>= f) w = exec (f a) w' := by
  rw [exec_bind, h]

theorem exec_bind_error {x : Host S α} {f : α → Host S β} {w w' : World S} {e : Failure}
    (h : exec x w = (.error e, w')) : exec (x >>= f) w = (.error e, w') := by
  rw [exec_bind, h]

theorem exec_map (x : Host S α) (f : α → β) (w : World S) :
    exec (f <$> x) w = ((exec x w).1.map f, (exec x w).2) := by
  rw [← bind_pure_comp, exec_bind]
  rcases exec x w with ⟨r, w'⟩
  cases r <;> rfl

theorem exec_get (w : World S) : exec (get : Host S (World S)) w = (.ok w, w) := rfl

theorem exec_modify (f : World S → World S) (w : World S) :
    exec (modify f : Host S Unit) w = (.ok (), f w) := rfl

theorem exec_modifyGet (f : World S → α × World S) (w : World S) :
    exec (modifyGet f : Host S α) w = (.ok (f w).1, (f w).2) := rfl

theorem exec_attempt (x : Host S α) (w : World S) :
    exec (attempt x) w = (.ok (exec x w).1, (exec x w).2) := rfl

theorem exec_onEngine (call : EngineM S.State α) (w : World S) :
    exec (onEngine call : Host S α) w =
      ((call.run.run w.engine).1, { w with engine := (call.run.run w.engine).2 }) := rfl

theorem exec_write (e : LogEvent) (w : World S) :
    exec (write e) w = (.ok (), { w with log := w.log ++ [e.replaceObjects (showObject w)] }) := rfl

theorem exec_modifyNode (id : ObjectId) (f : Node → Node) (w : World S) :
    exec (modifyNode id f) w = (.ok (), { w with nodes := w.nodes.modify id f }) := rfl

theorem exec_setRole (id : ObjectId) (role : Role) (w : World S) :
    exec (setRole id role) w =
      (.ok (), { w with nodes := w.nodes.modify id fun n => { n with role } }) := rfl

theorem exec_addNode (role : Role) (handle : Option Value) (w : World S) :
    exec (addNode role handle) w =
      (.ok w.nodes.length, { w with nodes := w.nodes ++ [⟨role, handle, []⟩] }) := rfl

/-- A failure leaves the world, and can be told if it could before its objects were shown. -/
theorem exec_fail (f : Failure) (w : World S) :
    ∃ g, exec (fail f : Host S α) w = (.error g, w) ∧ (g.Tellable ↔ f.Tellable) := by
  cases f with
  | host e =>
    refine ⟨.host (e.mapValues (reveal w)), rfl, ?_⟩
    simp only [Failure.Tellable, Failure.message?]
    rw [HostError.message_mapValues_isText]
    by_cases h : e.message.isText = true <;> simp [h]
  | _ => exact ⟨_, rfl, Iff.rfl⟩

theorem exec_check_ok (a : α) (w : World S) : exec (check (.ok a) : Host S α) w = (.ok a, w) := rfl

/-- A checked value leaves the world, and fails only as the check does. -/
theorem exec_check (c : Checked α) (w : World S) :
    (∃ a, c = .ok a ∧ exec (check c) w = (.ok a, w)) ∨
      ∃ f g, c = .error f ∧ exec (check c) w = (.error g, w) ∧ (g.Tellable ↔ f.Tellable) := by
  cases c with
  | ok a => exact .inl ⟨a, rfl, rfl⟩
  | error f =>
    obtain ⟨g, hg, hiff⟩ := exec_fail (α := α) f w
    exact .inr ⟨f, g, rfl, hg, hiff⟩

theorem exec_node_some {w : World S} {id : ObjectId} {n : Node} (h : w.nodes[id]? = some n) :
    exec (node id) w = (.ok n, w) := by
  simp only [node, exec_bind, exec_get, h]
  rfl

theorem exec_node_none {w : World S} {id : ObjectId} (h : w.nodes[id]? = none) :
    exec (node id) w = (.error (.shape .wrongKind), w) := by
  simp only [node, exec_bind, exec_get, h]
  rfl

theorem exec_checkLive {w : World S} {id : Nat} {n : Node} (hn : w.nodes[id]? = some n)
    (hlive : n.isLive) : exec (checkLive id) w = (.ok (), w) := by
  simp only [checkLive, exec_bind, exec_node_some hn, hlive, if_true, exec_pure]

theorem exec_liveHandle {w : World S} {id : Nat} {n : Node} {h : Value} (hn : w.nodes[id]? = some n)
    (hh : n.handle = some h) : exec (liveHandle id) w = (.ok h, w) := by
  simp only [liveHandle, exec_bind, exec_node_some hn, hh, exec_pure]

theorem exec_useAfterDestroy (kind : ResourceKind) (w : World S) :
    exec (useAfterDestroy kind : Host S α) w = (.error (.host (.useAfterDestroy kind)), w) := rfl

/-- What is not live any more is refused by its kind. -/
theorem exec_checkLive_dead {w : World S} {id : Nat} {n : Node} (hn : w.nodes[id]? = some n)
    (hdead : n.isLive = false) :
    exec (checkLive id) w = (.error (.host (.useAfterDestroy n.role.kind)), w) := by
  simp only [checkLive, exec_bind, exec_node_some hn, hdead, Bool.false_eq_true, if_false,
    exec_useAfterDestroy]

/-- What has no handle any more is refused by its kind. -/
theorem exec_liveHandle_gone {w : World S} {id : Nat} {n : Node} (hn : w.nodes[id]? = some n)
    (hgone : n.handle = none) :
    exec (liveHandle id) w = (.error (.host (.useAfterDestroy n.role.kind)), w) := by
  simp only [liveHandle, exec_bind, exec_node_some hn, hgone, exec_useAfterDestroy]

theorem exec_symbolsOf {w : World S} {id : Nat} {n : Node} {issued : Value} {types : Registry}
    {symbols : SymbolTable} (hn : w.nodes[id]? = some n) (hrole : n.role = .scope issued types symbols) :
    exec (symbolsOf id) w = (.ok (issued, types, symbols), w) := by
  simp only [symbolsOf, exec_bind, exec_node_some hn, hrole, exec_pure]

/-- The scope with another table, and the engine where it is now. -/
def withTable (w : World S) (id : Nat) (issued : Value) (types : Registry) (t : SymbolTable)
    (s : S.State) : World S :=
  { w with
    engine := s
    nodes := w.nodes.modify id fun n => { n with role := .scope issued types t } }

theorem withTable_self {w : World S} {id : Nat} {n : Node} {issued : Value} {types : Registry}
    {t : SymbolTable} (hn : w.nodes[id]? = some n) (hrole : n.role = .scope issued types t) (s : S.State) :
    withTable w id issued types t s = { w with engine := s } := by
  have hnodes : w.nodes.modify id (fun n => { n with role := .scope issued types t }) = w.nodes := by
    refine List.ext_getElem? fun i => ?_
    rw [List.getElem?_modify]
    split
    · next h =>
      obtain rfl := h
      rw [hn, ← hrole]
      rfl
    · cases w.nodes[i]? <;> rfl
  rw [withTable, hnodes]

end Host

end EngineHost
