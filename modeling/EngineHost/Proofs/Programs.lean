import EngineHost.Proofs.Conduct
import EngineHost.Proofs.Reach

/-!
Programs of the host with nothing held back: they fail with anything, and end any resource at any time,
inside host functions as well. What they do to the objects is a sequence of steps, so every world that
they come to is reachable.
-/
namespace EngineHost

open Host

section

variable {S : Embedding} (E : Engine S.State)

/-- Programs of the host, at the top or as the body of a host function. -/
inductive Program (run : RunBody S) : {α : Type} → Host S α → Prop where
  | pure {α : Type} (a : α) : Program run (pure a : Host S α)
  | raise {α : Type} (f : Failure) : Program run (fail f : Host S α)
  | bind {α β : Type} {x : Host S α} {k : α → Host S β} (hx : Program run x)
    (hk : ∀ a, Program run (k a)) : Program run (x >>= k)
  | attempt {α : Type} {x : Host S α} (hx : Program run x) : Program run (attempt x)
  | look : Program run (get : Host S (World S))
  | keep (f : S.Own → S.Own) : Program run (modify fun w : World S => { w with own := f w.own })
  | newScope : Program run (Scope.create E)
  | newEvaluator : Program run (Evaluator.create E)
  | define (id : Nat) {build : Host S (Builder S.Body)} (hbuild : Program run build) :
    Program run (since 0 .scope id (Scope.define E id build))
  | use {kind : ResourceKind} {id : Nat} {α : Type} {x : Host S α}
    (h : Use E run (fun _ => True) kind id x) : Program run (since 0 kind id x)
  | next (cursor : Nat) : Program run (Args.next cursor)
  | destroy (id : Nat) : Program run (Host.destroy E id)
  | recompile (id : Nat) (source : Value) :
    Program run (since 0 .script id (Script.recompile E id source))
  | release (args : Nat) : Program run (since 0 .args args (Args.release E args))

/-- Ways to run bodies: none at all, or programs that run bodies in such a way. -/
inductive Programs : RunBody S → Prop where
  | bottom : Programs fun _ _ => fail .tooDeep
  | nest {run run' : RunBody S} (hrun : Programs run)
    (hbodies : ∀ body args, Program E run (run' body args)) :
    Programs run'

end

variable {S : Embedding} {E : Engine S.State} {w w' : World S.watched} {α β : Type}

/-- A computation that leaves the objects as they are. -/
def Spares (x : Host S.watched α) : Prop :=
  ∀ w, (exec x w).2.nodes = w.nodes ∧ w.engine.notes.Later (exec x w).2.engine.notes

namespace Spares

theorem looks {x : Host S.watched α} (hx : Looks x) : Spares x := by
  intro w
  rw [hx w]
  exact ⟨rfl, .refl _⟩

theorem bind {x : Host S.watched α} {k : α → Host S.watched β} (hx : Spares x) (hk : ∀ a, Spares (k a)) :
    Spares (x >>= k) := by
  intro w
  obtain ⟨hnodes, hlater⟩ := hx w
  rw [exec_bind]
  cases hp : exec x w with
  | mk r w' =>
    rw [hp] at hnodes hlater
    cases r with
    | ok a =>
      obtain ⟨hnodes', hlater'⟩ := hk a w'
      exact ⟨hnodes'.trans hnodes, hlater.trans hlater'⟩
    | error f => exact ⟨hnodes, hlater⟩

theorem noted (call : EngineCall) (x : EngineM S.State α) :
    Spares (onEngine (S := S.watched) (noted call x)) := by
  intro w
  rw [exec_onEngine]
  exact ⟨rfl, noted_later rfl⟩

theorem write (e : LogEvent) : Spares (S := S) (Host.write e) :=
  fun _ => ⟨rfl, .refl _⟩

end Spares

/-- What happens to the objects of a program, one thing at a time, where the reading of an argument is one
thing: the callback that it may make of a handle, and that the handle has been read. -/
inductive Turn (E : Engine S.State) : World S.watched → World S.watched → Prop where
  | aside {w w' : World S.watched} (hnodes : w'.nodes = w.nodes)
    (hlater : w.engine.notes.Later w'.engine.notes) : Turn E w w'
  | newScope (w : World S.watched) : Turn E w (exec (Scope.create E.watched) w).2
  | newEvaluator (w : World S.watched) : Turn E w (exec (Evaluator.create E.watched) w).2
  | compile {w : World S.watched} {id : Nat} {n : Node} (source : Value) (hn : w.nodes[id]? = some n)
    (hkind : n.role.kind = .scope) : Turn E w (exec (Scope.compile E.watched id source) w).2
  | newArgs (w : World S.watched) (signature : Signature) (entries : List Entry) :
    Turn E w (exec (addNode (.args ⟨signature, entries, [], false⟩) none) w).2
  | receive {w : World S.watched} {id : Nat} {n : Node} (value block : Value)
    (hn : w.nodes[id]? = some n)
    (hkind : n.role.kind = .script ∨ n.role.kind = .evaluator ∨ n.role.kind = .args) :
    Turn E w (exec (receive id value block) w).2
  | read {w : World S.watched} {id : Nat} {n : Node} (position : Nat) (hn : w.nodes[id]? = some n)
    (hkind : n.role.kind = .args) : Turn E w (exec (Args.valueAt id position) w).2
  | setScope {w : World S.watched} {id : Nat} {n : Node} {issued : Value} {types : Registry}
    {symbols : SymbolTable} (types' : Registry) (symbols' : SymbolTable) (hn : w.nodes[id]? = some n)
    (hrole : n.role = .scope issued types symbols) :
    Turn E w (exec (setRole id (.scope issued types' symbols')) w).2
  | destroy (w : World S.watched) (id : Nat) : Turn E w (exec (Host.destroy E.watched id) w).2
  | recompile {w : World S.watched} {id : Nat} {n : Node} (source : Value)
    (hn : w.nodes[id]? = some n) (hkind : n.role.kind = .script) :
    Turn E w (exec (Script.recompile E.watched id source) w).2
  | release {w : World S.watched} {id : Nat} {n : Node} (hn : w.nodes[id]? = some n)
    (hkind : n.role.kind = .args) : Turn E w (exec (Args.release E.watched id) w).2

/-- Reading an argument is two steps at most. -/
theorem steps_valueAt {id : Nat} {n : Node} (position : Nat) (hn : w.nodes[id]? = some n)
    (hkind : n.role.kind = .args) (hw : Tended w) :
    Relation.ReflTransGen (Step E) w (exec (Args.valueAt id position) w).2 := by
  obtain ⟨call, hrole⟩ := args_of_kind hkind
  rw [Args.valueAt, exec_bind, exec_callOf hn hrole]
  dsimp only
  split
  · exact .refl
  · exact .single (.aside (congrArg World.nodes (Looks.fail _ w)) (by rw [Looks.fail _ w]; exact .refl _))
  · rename_i entry _ _
    have hreceive : Step E w (exec (receive id entry.value entry.block) w).2 :=
      .receive entry.value entry.block hn (.inr (.inr hkind))
    obtain ⟨n', hn', hages⟩ := (hreceive.tends hw).2 id n hn
    rw [exec_bind]
    cases hp : exec (receive id entry.value entry.block) w with
    | mk r w' =>
      rw [hp] at hreceive hn'
      cases r with
      | error f => exact .single hreceive
      | ok v =>
        obtain ⟨call', hrole'⟩ := args_of_kind ((kind_congr hages.role).trans hkind)
        have hkeep : Step E w' (exec (setRole id
            (.args { call' with decoded := call'.decoded ++ [(position, v)] })) w').2 := by
          refine .renew hn' (by rw [hrole']; rfl) ?_
          simp [Node.isLive, hrole']
        dsimp only
        rw [exec_bind, exec_callOf hn' hrole']
        exact .tail (.single hreceive) hkeep

theorem Turn.steps (h : Turn E w w') (hw : Tended w) : Relation.ReflTransGen (Step E) w w' := by
  cases h with
  | aside hnodes hlater => exact .single (.aside hnodes hlater)
  | newScope => exact .single (.newScope w)
  | newEvaluator => exact .single (.newEvaluator w)
  | compile source hn hkind => exact .single (.compile source hn hkind)
  | newArgs signature entries => exact .single (.newArgs w signature entries)
  | receive value block hn hkind => exact .single (.receive value block hn hkind)
  | read position hn hkind => exact steps_valueAt position hn hkind hw
  | setScope types' symbols' hn hrole =>
    exact .single (.renew hn (by rw [hrole]; rfl) (by simp [Node.isLive, hrole]))
  | destroy id => exact .single (.destroy w id)
  | recompile source hn hkind => exact .single (.recompile source hn hkind)
  | release hn hkind => exact .single (.release hn hkind)

theorem Turn.tends (h : Turn E w w') : Tends w w' :=
  fun hw => tends_run (h.steps hw) hw

/-- Turns one after the other. -/
abbrev Progress (E : Engine S.State) : World S.watched → World S.watched → Prop :=
  Relation.ReflTransGen (Turn E)

/-- By induction on them; each keeps the world tended. -/
theorem Progress.steps (h : Progress E w w') (hw : Tended w) : Relation.ReflTransGen (Step E) w w' := by
  induction h with
  | refl => exact .refl
  | tail _ hturn ih => exact ih.trans (hturn.steps (tends_run ih hw).1)

theorem Progress.tends (h : Progress E w w') : Tends w w' :=
  fun hw => tends_run (h.steps hw) hw

variable (E) in
/-- A computation that goes on by steps. -/
def Proceeds (w : World S.watched) (x : Host S.watched α) : Prop :=
  Tended w → Relation.ReflTransGen (Step E) w (exec x w).2

variable (E) in
/-- A computation that goes on by turns. -/
def Turns (w : World S.watched) (x : Host S.watched α) : Prop :=
  Tended w → Progress E w (exec x w).2

namespace Turns

theorem step {x : Host S.watched α} (h : Turn E w (exec x w).2) : Turns E w x :=
  fun _ => .single h

theorem spares {x : Host S.watched α} (hx : Spares x) : Turns E w x :=
  step (.aside (hx w).1 (hx w).2)

theorem looks {x : Host S.watched α} (hx : Looks x) : Turns E w x :=
  spares (.looks hx)

theorem bind {x : Host S.watched α} {k : α → Host S.watched β} (hx : Turns E w x)
    (hk : ∀ a w', Outlasts w.nodes w'.nodes → Turns E w' (k a)) : Turns E w (x >>= k) := by
  intro hw
  have hsteps := hx hw
  obtain ⟨hw', ho⟩ := hsteps.tends hw
  rw [exec_bind]
  cases hp : exec x w with
  | mk r w' =>
    rw [hp] at hsteps hw' ho
    cases r with
    | ok a => exact hsteps.trans (hk a w' ho hw')
    | error f => exact hsteps

theorem spares_bind {x : Host S.watched α} {k : α → Host S.watched β} (hx : Spares x)
    (hk : ∀ a w', w'.nodes = w.nodes → Turns E w' (k a)) : Turns E w (x >>= k) := by
  intro hw
  have hsteps := spares (E := E) hx hw
  have hnodes := (hx w).1
  obtain ⟨hw', -⟩ := hsteps.tends hw
  rw [exec_bind]
  cases hp : exec x w with
  | mk r w' =>
    rw [hp] at hsteps hw' hnodes
    cases r with
    | ok a => exact hsteps.trans (hk a w' hnodes hw')
    | error f => exact hsteps

theorem attempt {x : Host S.watched α} (hx : Turns E w x) : Turns E w (attempt x) := by
  intro hw
  rw [exec_attempt]
  exact hx hw

theorem map {x : Host S.watched α} (k : α → β) (hx : Turns E w x) : Turns E w (k <$> x) := by
  rw [← bind_pure_comp]
  exact bind hx fun _ _ _ => looks (.pure _)

theorem mapM {k : α → Host S.watched β} (hk : ∀ a w, Turns E w (k a)) (xs : List α) :
    Turns E w (xs.mapM k) := by
  induction xs generalizing w with
  | nil => exact looks (.pure _)
  | cons x rest ih =>
    rw [List.mapM_cons]
    exact bind (hk x w) fun _ _ _ => bind ih fun _ _ _ => looks (.pure _)

theorem node_bind {id : Nat} {k : Node → Host S.watched β}
    (hk : ∀ n, w.nodes[id]? = some n → Turns E w (k n)) : Turns E w (node id >>= k) := by
  intro hw
  rw [exec_bind]
  cases hn : w.nodes[id]? with
  | none =>
    rw [exec_node_none hn]
  | some n =>
    rw [exec_node_some hn]
    exact hk n hn hw

theorem since {kind : ResourceKind} {id : Nat} {x : Host S.watched α}
    (hx : ∀ n, w.nodes[id]? = some n → n.role.kind = kind → Turns E w x) :
    Turns E w (Host.since 0 kind id x) := by
  intro hw
  unfold Host.since
  rw [exec_bind, exec_get]
  dsimp only
  cases hn : w.nodes[id]? with
  | none => exact looks (.fail _) hw
  | some n =>
    dsimp only
    split
    · rename_i hguard
      exact hx n hn hguard.2 hw
    · exact looks (.fail _) hw

theorem fail_bind {f : Failure} {k : α → Host S.watched β} : Turns E w (fail f >>= k) := by
  intro _
  obtain ⟨g, hg, -⟩ := exec_fail (α := α) f w
  rw [exec_bind, hg]

theorem symbolsOf_bind {id : Nat} {k : Value × Registry × SymbolTable → Host S.watched β}
    (hk : ∀ n issued types symbols, w.nodes[id]? = some n → n.role = .scope issued types symbols →
      Turns E w (k (issued, types, symbols))) : Turns E w (symbolsOf id >>= k) := by
  unfold symbolsOf
  rw [bind_assoc]
  refine node_bind fun n hn => ?_
  cases hrole : n.role with
  | scope issued types symbols => exact hk n issued types symbols hn hrole
  | _ => exact fail_bind

theorem setScope {id : Nat} {n : Node} {issued : Value} {types types' : Registry}
    {symbols symbols' : SymbolTable} (hn : w.nodes[id]? = some n)
    (hrole : n.role = .scope issued types symbols) :
    Turns E w (setRole id (.scope issued types' symbols')) :=
  step (.setScope types' symbols' hn hrole)

section Symbols

theorem internIn {id : Nat} {name : Value} : Turns E w (Host.internIn E.watched id name) := by
  refine symbolsOf_bind fun n issued types symbols hn hrole => ?_
  refine spares_bind ?_ fun r w₁ hnodes => ?_
  · unfold SymbolTable.intern
    split
    · exact .looks (.pure _)
    · exact .looks (.pure _)
    · exact .bind (.noted _ _) fun _ => .looks (.pure _)
  · exact bind (setScope (hnodes ▸ hn) hrole) fun _ _ _ => looks (.check _)

theorem nameIn {id : Nat} {symbol : Value} : Turns E w (Host.nameIn E.watched id symbol) := by
  refine symbolsOf_bind fun n issued types symbols hn hrole => ?_
  refine spares_bind ?_ fun r w₁ hnodes => ?_
  · unfold SymbolTable.nameOf
    split
    · exact .looks (.pure _)
    · exact .looks (.pure _)
    · exact .bind (.noted _ _) fun _ => .looks (.pure _)
  · exact bind (setScope (hnodes ▸ hn) hrole) fun _ _ _ => looks (.check _)

theorem ofExcept (c : Checked α) : Turns E w (MonadExcept.ofExcept c : Host S.watched α) := by
  cases c with
  | ok a => exact looks (.pure a)
  | error f => exact looks fun _ => rfl

theorem ofWire {id : Nat} (wire : Value) :
    Turns E w (Signature.ofWire (Host.nameIn E.watched id) wire) := by
  unfold Signature.ofWire
  refine bind (ofExcept _) fun items _ _ => bind (mapM ?_ items) fun args _ _ => ?_
  · intro item w
    unfold Signature.argOfWire
    refine bind (ofExcept _) fun _ _ _ => bind nameIn fun _ _ _ => ?_
    refine bind (ofExcept _) fun _ _ _ => bind (ofExcept _) fun _ _ _ => ?_
    exact bind (ofExcept _) fun _ _ _ => looks (.pure _)
  · refine bind (ofExcept _) fun _ _ _ => ?_
    exact bind (ofExcept _) fun _ _ _ => looks (.pure _)

theorem toWire {id : Nat} (signature : Signature) :
    Turns E w (signature.toWire (Host.internIn E.watched id)) := by
  refine bind (mapM (fun a w => ?_) signature.args) fun args _ _ => looks (.pure _)
  exact bind internIn fun _ _ _ => looks (.pure _)

theorem defineType {id : Nat} {name expr : Value} : Turns E w (Scope.defineType id name expr) := by
  refine spares_bind (.looks (.checkLive id)) fun _ w₁ _ => ?_
  refine symbolsOf_bind fun n issued types symbols hn hrole => ?_
  refine spares_bind (.looks (.check _)) fun r w₂ hnodes => ?_
  exact bind (setScope (hnodes ▸ hn) hrole) fun _ _ _ => looks (.pure _)

theorem getSignature {id : Nat} {name : Value} :
    Turns E w (Scope.getSignature E.watched id name) := by
  refine bind (looks (.liveHandle id)) fun handle _ _ => bind (spares (.noted _ _)) fun wire _ _ => ?_
  split
  · exact looks (.pure _)
  · exact map some (ofWire wire)

/-- What a definition does with a finished declaration. -/
theorem register {id : Nat} {handle : Value} (builder : Builder S.Body) : Turns E w (do
    let definition ← check builder.validate
    let wire ← definition.signature.toWire (Host.internIn E.watched id)
    let number ← modifyGet fun w : World S.watched =>
      (w.functions.length, { w with functions := w.functions ++ [⟨id, definition⟩] })
    onEngine (E.watched.define handle wire number)
    let name ← check definition.signature.name
    write (.defined name definition.signature)
    pure definition.signature : Host S.watched Signature) := by
  refine bind (looks (.check _)) fun definition _ _ => bind (toWire definition.signature) fun wire _ _ => ?_
  refine spares_bind (fun _ => ⟨rfl, .refl _⟩) fun number _ _ => ?_
  refine bind (spares (.noted _ _)) fun _ _ _ => bind (looks (.check _)) fun name _ _ => ?_
  exact bind (spares (.write _)) fun _ _ _ => looks (.pure _)

theorem define {id : Nat} {build : Host S.watched (Builder S.Body)}
    (hbuild : ∀ w, Turns E w build) : Turns E w (Scope.define E.watched id build) := by
  refine bind (looks (.liveHandle id)) fun handle w₁ _ => bind (hbuild w₁) fun builder _ _ => ?_
  exact register (E := E) builder

end Symbols

section Reading

variable {id : Nat} {n : Node}

theorem callOf_bind {k : Call → Host S.watched β}
    (hk : ∀ n call, w.nodes[id]? = some n → n.role = .args call → Turns E w (k call)) :
    Turns E w (callOf id >>= k) := by
  unfold callOf
  rw [bind_assoc]
  refine node_bind fun n hn => ?_
  cases hrole : n.role with
  | args call => exact hk n call hn hrole
  | _ => exact fail_bind

theorem valueAt {position : Nat} (hn : w.nodes[id]? = some n) (hkind : n.role.kind = .args) :
    Turns E w (Args.valueAt id position) :=
  step (.read position hn hkind)

theorem valuesAt (positions : List Nat) (hn : w.nodes[id]? = some n) (hkind : n.role.kind = .args) :
    Turns E w (Args.valuesAt id positions) := by
  induction positions generalizing w n with
  | nil => exact looks (.pure _)
  | cons i rest ih =>
    refine bind (valueAt hn hkind) fun v w₁ ho => ?_
    obtain ⟨n₁, hn₁, hkind₁⟩ := ho.kind hn
    exact bind (ih hn₁ (hkind₁.trans hkind)) fun _ _ _ => looks (.pure _)

theorem lookup {name : Value} (hn : w.nodes[id]? = some n) (hkind : n.role.kind = .args) :
    Turns E w (Args.lookup id name) := by
  refine spares_bind (.looks (.liveCall id)) fun call w₁ hnodes => ?_
  have hn₁ : w₁.nodes[id]? = some n := hnodes ▸ hn
  split
  · exact looks (.bind (.check _) fun _ => .fail _)
  · split
    · exact looks (.pure _)
    · split
      · exact bind (valuesAt _ hn₁ hkind) fun _ _ _ => looks (.pure _)
      · exact valueAt hn₁ hkind

theorem demand {name : Value} (hn : w.nodes[id]? = some n) (hkind : n.role.kind = .args) :
    Turns E w (Args.demand id name) := by
  refine bind (lookup hn hkind) fun v _ _ => ?_
  split
  · exact looks (.fail _)
  · exact looks (.pure _)

theorem maybe {name fallback : Value} (hn : w.nodes[id]? = some n) (hkind : n.role.kind = .args) :
    Turns E w (Args.maybe id name fallback) := by
  refine bind (lookup hn hkind) fun v _ _ => ?_
  split
  · exact looks (.pure _)
  · exact looks (.pure _)

theorem items (hn : w.nodes[id]? = some n) (hkind : n.role.kind = .args) :
    Turns E w (Args.items id) := by
  refine spares_bind (.looks (.liveCall id)) fun call w₁ hnodes => ?_
  exact bind (valuesAt _ (hnodes ▸ hn) hkind) fun _ _ _ => looks (.pure _)

theorem setCursor {cursor : Nat} {c : Cursor} : Turns E w (Args.setCursor cursor c) := by
  have hspares : Spares (S := S) (Args.setCursor cursor c) := fun _ => ⟨rfl, .refl _⟩
  exact spares hspares

theorem advance {cursor : Nat} {c : Cursor} : Turns E w (Args.advance cursor c) := by
  refine callOf_bind fun m call hm hrole => ?_
  split
  · exact looks (.pure _)
  · refine bind (valueAt hm (by rw [hrole]; rfl)) fun v _ _ => ?_
    exact bind setCursor fun _ _ _ => looks (.pure _)

theorem next {cursor : Nat} : Turns E w (Args.next cursor) := by
  unfold Args.next
  refine spares_bind (.looks fun _ => rfl) fun w' w₁ _ => ?_
  split
  · exact looks (.fail _)
  · split
    · exact looks (.pure _)
    · refine bind setCursor fun _ _ _ => ?_
      split
      · exact advance
      · exact bind (looks (.checkLive _)) fun _ _ _ => advance

end Reading

section Calls

variable {run : RunBody S.watched}

theorem encodeArgs (index : Nat) (vs : List Value) :
    Looks (S := S.watched) (Block.encodeArgs index vs) := by
  induction vs generalizing index with
  | nil => exact .pure _
  | cons v rest ih => exact .bind (.check _) fun _ => .bind (ih _) fun _ => .pure _

theorem encodeInputs (inputs : Value) : Looks (S := S.watched) (Host.encodeInputs inputs) := by
  unfold Host.encodeInputs
  split
  · refine .bind (fun _ => rfl) fun w => ?_
    split
    · refine .bind (.checkLive _) fun _ => ?_
      split
      · exact .pure _
      · exact .fail _
    · exact .fail _
  · exact .check _

theorem failureEnvelope (f : Failure) : Looks (S := S.watched) (Host.failureEnvelope f) := by
  unfold Host.failureEnvelope
  split
  · exact .pure _
  · exact .pure _
  · exact .fail _

theorem runCallee (hrun : ∀ body args w, Turns E w (run body args)) (callee : Callee S.Body) (args : Nat) :
    Turns E w (Host.runCallee run callee args) := by
  unfold Host.runCallee
  split
  · exact hrun _ _ w
  · exact bind (looks (.liveHandle _)) fun _ _ _ => looks (.check _)
  · exact looks (.fail _)

theorem answer (hrun : ∀ body args w, Turns E w (run body args)) (definition : Definition S.Body)
    (args : Nat) : Turns E w (Host.answer run definition args) := by
  have himplement : Turns E w (Host.runCallee run definition.implementation args >>= encode .top) :=
    bind (runCallee hrun _ _) fun _ _ _ => looks (.check _)
  refine bind (attempt himplement) fun outcome w₁ _ => ?_
  split
  · exact looks (.pure _)
  · dsimp only
    split
    · exact bind (spares (.write _)) fun _ _ _ => looks (failureEnvelope _)
    · exact looks (failureEnvelope _)

theorem newArgs_bind {scope : Nat} {signature : Signature} {raw : List RawArg} {k : Nat → Host S.watched β}
    (hk : ∀ (id : Nat) (n : Node) (w' : World S.watched), w'.nodes[id]? = some n → n.role.kind = .args →
      Turns E w' (k id)) : Turns E w (Host.newArgs E.watched scope signature raw >>= k) := by
  unfold Host.newArgs
  rw [bind_assoc]
  refine bind (mapM (fun r w => bind nameIn fun _ _ _ => looks (.pure _)) raw) fun entries w₁ _ => ?_
  intro hw
  have hstep : Turn E w₁ (exec (addNode (.args ⟨signature, entries, [], false⟩) none) w₁).2 :=
    .newArgs w₁ signature entries
  rw [exec_addNode] at hstep
  rw [exec_bind, exec_addNode]
  exact .head hstep (hk _ _ _ List.getElem?_concat_length rfl (hstep.tends hw).1)

theorem newArgs {scope : Nat} {signature : Signature} {raw : List RawArg} :
    Turns E w (Host.newArgs E.watched scope signature raw) := by
  have hbind : Turns E w (Host.newArgs E.watched scope signature raw >>= pure) :=
    newArgs_bind fun id _ _ _ _ => looks (.pure id)
  rwa [bind_pure] at hbind

theorem releaseArgs {id : Nat} {n : Node} (hn : w.nodes[id]? = some n) (hkind : n.role.kind = .args) :
    Turns E w (Host.releaseArgs E.watched id) := by
  refine spares_bind (.looks (.callOf id)) fun call w₁ hnodes => ?_
  split
  · exact looks (.pure _)
  · exact step (.release (hnodes ▸ hn) hkind)

theorem invoke (hrun : ∀ body args w, Turns E w (run body args)) (f : FunctionId)
    (raw : List RawArg) : Turns E w (Host.invoke E.watched run f raw) := by
  refine bind (looks ?_) fun fn w₁ _ => newArgs_bind fun args n w₂ hn hkind => ?_
  · refine .bind (fun _ => rfl) fun w => ?_
    split
    · exact .pure _
    · exact .fail _
  · refine bind (answer hrun _ _) fun result w₃ ho => ?_
    obtain ⟨n₃, hn₃, hkind₃⟩ := ho.kind hn
    refine bind (attempt (releaseArgs hn₃ (hkind₃.trans hkind))) fun outcome w₄ _ => ?_
    split
    · exact looks (.pure _)
    · dsimp only
      split
      · exact bind (spares (.write _)) fun _ _ _ => looks (failureEnvelope _)
      · exact looks (failureEnvelope _)

/-- An evaluation, by the tree of its calls. -/
theorem runEvaluation {call : FunctionId → List RawArg → Host S.watched Value}
    (hcall : ∀ f raw w, Turns E w (call f raw)) (ev : Evaluation S.State (Checked Value)) {notes : Notes}
    (hlater : w.engine.notes.Later notes) : Turns E w (Host.runEvaluation call (ev.watched notes)) := by
  induction ev generalizing w notes with
  | done result state =>
    have hstep : Turn E w { w with engine := ⟨state, notes⟩ } := .aside rfl hlater
    intro hw
    refine .head hstep (looks (w := { w with engine := ⟨state, notes⟩ }) (.check result) ?_)
    exact (hstep.tends hw).1
  | ask f raw state resume ih =>
    have hstep : Turn E w { w with engine := ⟨state, notes⟩ } := .aside rfl hlater
    have hrest : Turns E { w with engine := ⟨state, notes⟩ } (do
        let outcome ← Host.attempt (call f raw)
        Host.runEvaluation call ((resume outcome (← get).engine.state).watched (← get).engine.notes)) := by
      refine bind (attempt (hcall f raw _)) fun outcome w₁ _ => ?_
      exact ih outcome w₁.engine.state (.refl _)
    intro hw
    exact .head hstep (hrest (hstep.tends hw).1)

theorem evaluating {call : EngineCall} {start : S.State → Evaluation S.State (Checked Value)}
    (hrun : ∀ body args w, Turns E w (run body args)) :
    Turns E w (Host.evaluating E.watched run (started call start)) :=
  runEvaluation (fun f raw _ => invoke hrun f raw) (start w.engine.state) (Notes.later_add ..)

theorem receivePair {id : Nat} {n : Node} {envelope : Value} (hn : w.nodes[id]? = some n)
    (hkind : n.role.kind = .script ∨ n.role.kind = .evaluator ∨ n.role.kind = .args) :
    Turns E w (Host.receivePair id envelope) := by
  refine spares_bind (.looks (.check _)) fun r w₁ hnodes => ?_
  exact step (.receive _ _ (hnodes ▸ hn) hkind)

/-- An evaluation whose answer goes to an owner. -/
theorem exchange {id : Nat} {n : Node} {call : EngineCall}
    {start : S.State → Evaluation S.State (Checked Value)}
    (hrun : ∀ body args w, Turns E w (run body args)) (hn : w.nodes[id]? = some n)
    (hkind : n.role.kind = .script ∨ n.role.kind = .evaluator ∨ n.role.kind = .args) :
    Turns E w (Host.evaluating E.watched run (started call start) >>= Host.receivePair id) := by
  refine bind (evaluating hrun) fun envelope w₁ ho => ?_
  obtain ⟨n₁, hn₁, hkind₁⟩ := ho.kind hn
  exact receivePair hn₁ (hkind₁ ▸ hkind)

/-- What a callback gives goes to its owner. -/
theorem receiveOwned {id : Nat} (envelope : Value) :
    Turns E w (Block.ownerOf id >>= fun owner => Host.receivePair owner envelope) := by
  unfold Block.ownerOf
  rw [bind_assoc]
  refine node_bind fun n hn => ?_
  cases hrole : n.role with
  | block owner =>
    intro hw
    obtain ⟨-, m, hm, hmay⟩ := hw.kin.parent id owner n hn (by rw [hrole]; rfl)
    rw [hrole] at hmay
    exact receivePair hm hmay hw
  | _ => exact fail_bind

theorem callBlock {id : Nat} {args : List Value} (hrun : ∀ body args w, Turns E w (run body args)) :
    Turns E w (Block.call E.watched run id args) := by
  refine bind (looks (.liveHandle id)) fun handle w₁ _ => bind (looks (encodeArgs 0 args)) fun encoded w₂ _ => ?_
  exact bind (evaluating hrun) fun envelope w₃ _ => receiveOwned envelope

theorem typeInfoOf (source envelope : Value) : Looks (S := S.watched) (Host.typeInfoOf source envelope) :=
  .bind (.check _) fun _ => .check _

theorem use {kind : ResourceKind} {id : Nat} {n : Node} {x : Host S.watched α}
    (hrun : ∀ body args w, Turns E w (run body args))
    (hx : Use E.watched run (fun _ => True) kind id x) (hn : w.nodes[id]? = some n)
    (hkind : n.role.kind = kind) : Turns E w x := by
  cases hx with
  | defineType _ name expr => exact defineType
  | getSignature _ name => exact getSignature
  | compile _ source _ => exact step (.compile source hn hkind)
  | typeInfo _ =>
    refine bind (looks (.liveHandle id)) fun _ _ _ => bind (spares (.noted _ _)) fun _ _ _ => ?_
    exact bind (looks (.scriptOf id)) fun _ _ _ => looks (typeInfoOf _ _)
  | evalScript _ inputs =>
    refine spares_bind (.looks (.liveHandle id)) fun handle w₁ hnodes => ?_
    refine spares_bind (.looks (encodeInputs inputs)) fun encoded w₂ hnodes₂ => ?_
    exact exchange hrun (hnodes₂ ▸ hnodes ▸ hn) (.inl hkind)
  | evalSource _ source inputs =>
    refine spares_bind (.looks (.liveHandle id)) fun handle w₁ hnodes => ?_
    refine spares_bind (.looks (encodeInputs inputs)) fun encoded w₂ hnodes₂ => ?_
    exact exchange hrun (hnodes₂ ▸ hnodes ▸ hn) (.inr (.inl hkind))
  | typeOf _ source =>
    refine bind (looks (.liveHandle id)) fun _ _ _ => bind (spares (.noted _ _)) fun _ _ _ => ?_
    exact looks (typeInfoOf _ _)
  | set _ name value =>
    refine bind (looks (.liveHandle id)) fun _ _ _ => bind (looks (.check _)) fun _ _ _ => ?_
    exact spares (.noted _ _)
  | vars _ =>
    refine bind (looks (.liveHandle id)) fun _ _ _ => bind (spares (.noted _ _)) fun _ _ _ => ?_
    exact looks (.bind (.check _) fun _ => .check _)
  | callBlock _ args => exact callBlock hrun
  | demand _ name => exact demand hn hkind
  | maybe _ name fallback => exact maybe hn hkind
  | size _ => exact looks (.bind (.liveCall id) fun _ => .pure _)
  | contains _ name => exact looks (.bind (.liveCall id) fun _ => .pure _)
  | items _ => exact items hn hkind
  | iterate _ => exact spares fun _ => ⟨rfl, .refl _⟩

end Calls

end Turns

/-- Programs go on by turns if the bodies that are run meanwhile do. -/
theorem Program.turns {run : RunBody S.watched} (hrun : ∀ body args w, Turns E w (run body args))
    {x : Host S.watched α} (hx : Program E.watched run x) (w : World S.watched) : Turns E w x := by
  induction hx generalizing w with
  | pure a => exact .looks (.pure a)
  | raise f => exact .looks (.fail f)
  | bind hx hk ihx ihk => exact .bind (ihx w) fun a w₁ _ => ihk a w₁
  | attempt hx ih => exact .attempt (ih w)
  | look => exact .looks fun _ => rfl
  | keep f => exact .spares fun _ => ⟨rfl, .refl _⟩
  | newScope => exact .step (.newScope w)
  | newEvaluator => exact .step (.newEvaluator w)
  | define id hbuild ih => exact .since fun n hn hkind => .define ih
  | use h => exact .since fun n hn hkind => .use hrun h hn hkind
  | next cursor => exact .next
  | destroy id => exact .step (.destroy w id)
  | recompile id source => exact .since fun n hn hkind => .step (.recompile source hn hkind)
  | release args => exact .since fun n hn hkind => .step (.release hn hkind)

/-- However deep calls are nested, bodies go on by turns. -/
theorem Programs.turns {run : RunBody S.watched} (hrun : Programs E.watched run) (body : S.Body)
    (args : Nat) (w : World S.watched) : Turns E w (run body args) := by
  induction hrun generalizing body args w with
  | bottom => exact .looks (.fail _)
  | nest hrun hbodies ih => exact (hbodies body args).turns ih w

namespace Program

variable {S : Embedding} {E : Engine S.State} {run : RunBody S} {α : Type}

theorem check (c : Checked α) : Program E run (Host.check c) := by
  cases c with
  | ok a => exact .pure a
  | error f => exact .raise f

theorem typesOf (id : Nat) : Program E run (Scope.typesOf id) := by
  unfold Scope.typesOf Host.symbolsOf node
  refine .bind (.bind (.bind .look fun w => ?_) fun n => ?_) fun r => .pure _
  · cases w.nodes[id]? with
    | none => exact .raise _
    | some n => exact .pure n
  · cases n.role with
    | scope issued types symbols => exact .pure _
    | _ => exact .raise _

/-- Declaring a function step by step is a program. -/
theorem declareAll (id : Nat) (steps : List (BuildStep S.Body)) :
    Program E run (Scope.declareAll id steps) := by
  unfold Scope.declareAll
  generalize Builder.empty = b
  induction steps generalizing b with
  | nil => exact .pure b
  | cons step rest ih =>
    rw [List.foldlM_cons]
    exact .bind (.bind (.typesOf id) fun types => .check _) ih

end Program

/-- Turns are made of steps. -/
theorem Turns.proceeds {x : Host S.watched α} (hx : Turns E w x) : Proceeds E w x :=
  fun hw => (hx hw).steps hw

/-- From a reachable world a program comes to a reachable world. -/
theorem Reachable.program {run : RunBody S.watched} (hw : Reachable E w) (hrun : Programs E.watched run)
    {x : Host S.watched α} (hx : Program E.watched run x) : Reachable E (exec x w).2 := by
  have hafter := (hx.turns hrun.turns w).proceeds hw.tended
  obtain ⟨w₀, hempty, hbefore⟩ := hw
  exact ⟨w₀, hempty, hbefore.trans hafter⟩

end EngineHost
