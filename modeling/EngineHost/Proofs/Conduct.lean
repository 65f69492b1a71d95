import EngineHost.Proofs.Dealings

/-!
How host functions behave. A body is any program over the library's operations, on objects that it may
know and in any order; it fails only with what can be told, and ends nothing but its own arguments and
the callbacks among them. Bodies run on bodies, down to a depth at which calls are refused.
-/
namespace EngineHost

open Host

variable {S : Embedding}

namespace Host

/-- An operation on an object of a kind, not among the oldest ones. -/
def since {α : Type} (base : Nat) (kind : ResourceKind) (id : Nat) (x : Host S α) : Host S α := do
  match (← get).nodes[id]? with
  | some n => if base ≤ id ∧ n.role.kind = kind then x else fail (.shape .wrongKind)
  | none => fail (.shape .wrongKind)

/-- An operation on a callback that belongs to a call. -/
def ofCall {α : Type} (base : Nat) (call : Option Nat) (id : Nat) (x : Host S α) : Host S α := do
  match (← get).nodes[id]? with
  | some n =>
    if base ≤ id ∧ n.role.kind = .block ∧ n.role.parent? = call then x else fail (.shape .wrongKind)
  | none => fail (.shape .wrongKind)

/-- A step of an iteration over arguments that are not among the oldest objects. -/
def nextSince (base : Nat) (cursor : Nat) : Host S (Option Value) := do
  match (← get).cursors[cursor]? with
  | some c => if base ≤ c.args then Args.next cursor else fail (.shape .wrongKind)
  | none => fail (.shape .wrongKind)

end Host

section

variable (E : Engine S.State) (run : RunBody S) (may : ResourceKind → Prop)

/-- What can be done with an object of a kind without ending anything. -/
inductive Use : ResourceKind → Nat → {α : Type} → Host S α → Prop where
  | defineType (id : Nat) (name expr : Value) : Use .scope id (Scope.defineType id name expr)
  | getSignature (id : Nat) (name : Value) : Use .scope id (Scope.getSignature E id name)
  | compile (id : Nat) (source : Value) (hmay : may .script) : Use .scope id (Scope.compile E id source)
  | typeInfo (id : Nat) : Use .script id (Script.typeInfo E id)
  | evalScript (id : Nat) (inputs : Value) : Use .script id (Script.eval E run id inputs)
  | evalSource (id : Nat) (source inputs : Value) :
    Use .evaluator id (Evaluator.eval E run id source inputs)
  | typeOf (id : Nat) (source : Value) : Use .evaluator id (Evaluator.typeOf E id source)
  | set (id : Nat) (name value : Value) : Use .evaluator id (Evaluator.set E id name value)
  | vars (id : Nat) : Use .evaluator id (Evaluator.vars E id)
  | callBlock (id : Nat) (args : List Value) : Use .block id (Block.call E run id args)
  | demand (id : Nat) (name : Value) : Use .args id (Args.demand id name)
  | maybe (id : Nat) (name fallback : Value) : Use .args id (Args.maybe id name fallback)
  | size (id : Nat) : Use .args id (Args.size id)
  | contains (id : Nat) (name : Value) : Use .args id (Args.contains id name)
  | items (id : Nat) : Use .args id (Args.items id)
  | iterate (id : Nat) : Use .args id (Args.iterate id)

/-- Programs of the host, within one call or outside of all. -/
inductive Conduct (base : Nat) (mine : Option Nat) : {α : Type} → Host S α → Prop where
  | pure {α : Type} (a : α) : Conduct base mine (pure a : Host S α)
  | raise {α : Type} (f : Failure) (ht : f.Tellable) : Conduct base mine (fail f : Host S α)
  | bind {α β : Type} {x : Host S α} {k : α → Host S β} (hx : Conduct base mine x)
    (hk : ∀ a, Conduct base mine (k a)) : Conduct base mine (x >>= k)
  | attempt {α : Type} {x : Host S α} (hx : Conduct base mine x) : Conduct base mine (attempt x)
  /-- A program can see everything that it holds. -/
  | look : Conduct base mine (get : Host S (World S))
  /-- What a program keeps for itself is its own affair. -/
  | keep (f : S.Own → S.Own) : Conduct base mine (modify fun w : World S => { w with own := f w.own })
  | newScope (hmay : may .scope) : Conduct base mine (Scope.create E)
  | newEvaluator (hmay : may .evaluator) : Conduct base mine (Evaluator.create E)
  | define (id : Nat) {build : Host S (Builder S.Body)} (hbuild : Conduct base mine build) :
    Conduct base mine (since base .scope id (Scope.define E id build))
  | use {kind : ResourceKind} {id : Nat} {α : Type} {x : Host S α} (h : Use E run may kind id x) :
    Conduct base mine (since base kind id x)
  | next (cursor : Nat) : Conduct base mine (nextSince base cursor)
  | destroy (id : Nat) (hmine : mine.isSome) : Conduct base mine (ofCall base mine id (destroy E id))
  | release (args : Nat) (hmine : mine = some args) : Conduct base mine (Args.release E args)

end

section

variable (E : Engine S.State) (base : Nat) (may : ResourceKind → Prop)

/-- Ways to run bodies: none at all, or programs that run bodies in such a way. -/
inductive Runner : RunBody S → Prop where
  | bottom : Runner fun _ _ => fail .tooDeep
  | nest {run run' : RunBody S} (hrun : Runner run)
    (hbodies : ∀ body args, Conduct E run may base (some args) (run' body args)) : Runner run'

end

variable {E : Engine S.State} {B : Books S.State} {base : Nat} {may : ResourceKind → Prop}
  {mine : Option Nat} {others : Token → Prop} {flying : List Token} {α : Type} {x : Host S α}
  {w w₀ : World S} {run : RunBody S}

namespace Kept

theorem since {kind : ResourceKind} {id : Nat}
    (hx : ∀ n, base ≤ id → w.nodes[id]? = some n → n.role.kind = kind →
      Kept B base may mine others flying nothing w (exec x w))
    (h : Accounts B base may others flying w) :
    Kept B base may mine others flying nothing w (exec (Host.since base kind id x) w) := by
  unfold Host.since
  rw [exec_bind, exec_get]
  dsimp only
  cases hn : w.nodes[id]? with
  | none => exact .fail rfl (.refl h.valid) h
  | some n =>
    dsimp only
    split
    · rename_i hguard
      exact hx n hguard.1 hn hguard.2
    · exact .fail rfl (.refl h.valid) h

/-- Uses of live objects end nothing, and destroyed ones are refused. -/
theorem use (hE : Lawful E B) (hrun : Sound B base may run) {kind : ResourceKind} {id : Nat}
    (hx : Use E run may kind id x) {n : Node} (hb : base ≤ id) (hn : w.nodes[id]? = some n)
    (hkind : n.role.kind = kind) (h : Accounts B base may others flying w) :
    Kept B base may mine others flying nothing w (exec x w) := by
  have hf : Follows B base mine w w := .refl h.valid
  cases hx with
  | defineType _ name expr => exact defineType hf h
  | getSignature _ name => exact getSignature hE hb hn hkind h
  | compile _ source hmay => exact compile hE hmay h hb hn hkind
  | typeInfo _ => exact typeInfo hE hb hn hkind h
  | evalScript _ inputs => exact (evalScript hE hrun hb hn hkind h).widen
  | evalSource _ source inputs => exact (evalSource hE hrun hb hn hkind h).widen
  | typeOf _ source => exact typeOf hE hb hn hkind h
  | set _ name value => exact (set hE hb hn hkind h).widen
  | vars _ => exact vars hE hb hn hkind h
  | callBlock _ args => exact (callBlock hE hrun hb hn hkind h).widen
  | demand _ name => exact demand hb hf h
  | maybe _ name fallback => exact maybe hb hf h
  | size _ => exact size hf h
  | contains _ name => exact contains hf h
  | items _ => exact items hb hf h
  | iterate _ => exact iterate hf h

theorem nextSince {cursor : Nat} (h : Accounts B base may others flying w) :
    Kept B base may mine others flying nothing w (exec (Host.nextSince base cursor) w) := by
  unfold Host.nextSince
  rw [exec_bind, exec_get]
  dsimp only
  cases hc : w.cursors[cursor]? with
  | none => exact .fail rfl (.refl h.valid) h
  | some c =>
    dsimp only
    split
    · rename_i hb
      refine next ?_ (.refl h.valid) h
      intro c' hc'
      obtain rfl := Option.some.inj (hc.symm.trans hc')
      exact hb
    · exact .fail rfl (.refl h.valid) h

/-- A callback of the call is destroyed; one that has been is refused. -/
theorem destroyOwn (hE : Lawful E B) {id a : Nat} (h : Accounts B base may others flying w) :
    Kept B base may (some a) others flying nothing w
      (exec (ofCall base (some a) id (destroy E id)) w) := by
  unfold ofCall
  rw [exec_bind, exec_get]
  dsimp only
  cases hn : w.nodes[id]? with
  | none => exact .fail rfl (.refl h.valid) h
  | some n =>
    dsimp only
    split
    · rename_i hguard
      obtain ⟨hb, hkind, hparent⟩ := hguard
      obtain ⟨p, hrole⟩ := block_of_kind hkind
      obtain rfl : p = a := by
        rw [hrole] at hparent
        exact Option.some.inj hparent
      by_cases hlive : n.handle.isSome = true
      · obtain ⟨w', hexec, h', hf'⟩ := exec_destroy_block hE h hb hn hlive hrole
        rw [hexec]
        exact .done hf' h'
      · unfold destroy
        rw [exec_bind, exec_get]
        refine liveHandle_bind hn (.refl h.valid) h fun handle hh => ?_
        rw [hh] at hlive
        exact absurd rfl hlive
    · exact .fail rfl (.refl h.valid) h

/-- Arguments that have been released already are refused. -/
theorem release (hE : Lawful E B) {a : Nat} {n : Node} (hb : base ≤ a) (hn : w.nodes[a]? = some n)
    (hkind : n.role.kind = .args) (h : Accounts B base may others flying w) :
    Kept B base may (some a) others flying nothing w (exec (Args.release E a) w) := by
  obtain ⟨call, hrole⟩ := args_of_kind hkind
  cases hreleased : call.released with
  | false =>
    obtain ⟨w', hexec, h', hf', -⟩ := exec_release hE h hb hn hrole hreleased
    rw [hexec]
    exact .done hf' h'
  | true =>
    unfold Args.release liveCall
    rw [bind_assoc]
    refine checkLive_bind (.refl h.valid) h fun m hm hlive => ?_
    obtain rfl := Option.some.inj (hn.symm.trans hm)
    simp [Node.isLive, hrole, hreleased] at hlive

end Kept

namespace Conduct

theorem check {c : Checked α} (ht : Tells c) : Conduct E run may base mine (Host.check c) := by
  cases c with
  | ok a => exact .pure a
  | error f => exact .raise f (ht f rfl)

theorem typesOf (id : Nat) : Conduct E run may base mine (Scope.typesOf id) := by
  unfold Scope.typesOf Host.symbolsOf node
  refine .bind (.bind (.bind .look fun w => ?_) fun n => ?_) fun r => .pure _
  · cases w.nodes[id]? with
    | none => exact .raise _ rfl
    | some n => exact .pure n
  · cases n.role with
    | scope issued types symbols => exact .pure _
    | _ => exact .raise _ rfl

/-- Declaring a function step by step is such a program. -/
theorem declareAll (id : Nat) (steps : List (BuildStep S.Body)) :
    Conduct E run may base mine (Scope.declareAll id steps) := by
  unfold Scope.declareAll
  generalize Builder.empty = b
  induction steps generalizing b with
  | nil => exact .pure b
  | cons step rest ih =>
    rw [List.foldlM_cons]
    exact .bind (.bind (.typesOf id) fun types => .check (Builder.tells_step types b step)) ih

end Conduct

/-- The object of the call that a program runs for. -/
def Runs (base : Nat) (mine : Option Nat) (w : World S) : Prop :=
  ∀ a, mine = some a → base ≤ a ∧ ∃ n, w.nodes[a]? = some n ∧ n.role.kind = .args

theorem Runs.follows {w' : World S} (hr : Runs base mine w) (hf : Follows B base mine w w') :
    Runs base mine w' := by
  intro a ha
  obtain ⟨hb, n, hn, hkind⟩ := hr a ha
  obtain ⟨n', hn', hc⟩ := hf.nodes a n hn
  exact ⟨hb, n', hn', hc.kind.trans hkind⟩

/-- Programs keep the accounts. -/
theorem Conduct.kept (hE : Lawful E B) (hrun : Sound B base may run) (hx : Conduct E run may base mine x)
    (hr : Runs base mine w) (h : Accounts B base may others flying w) :
    Kept B base may mine others flying nothing w (exec x w) := by
  induction hx generalizing w with
  | pure a => exact .done (.refl h.valid) h
  | raise f ht => exact .fail ht (.refl h.valid) h
  | bind hx hk ihx ihk =>
    refine .bind (ihx hr h) fun a w₁ _ hf₁ h₁ => ?_
    exact .after hf₁ (ihk a (hr.follows hf₁) h₁)
  | attempt hx ih => exact .attempt (ih hr h)
  | look => exact .done (.refl h.valid) h
  | keep f => exact .aside (exec_modify _ w) rfl rfl rfl (.refl h.valid) h
  | newScope hmay => exact .createScope hE hmay h
  | newEvaluator hmay => exact .createEvaluator hE hmay h
  | define id hbuild ih =>
    refine .since (fun n hb hn hkind => ?_) h
    refine .define hE hb hn hkind ?_ (ih hr h) h
    intro hmine
    obtain ⟨-, m, hm, hargs⟩ := hr id hmine
    obtain rfl := Option.some.inj (hn.symm.trans hm)
    rw [hargs] at hkind
    cases hkind
  | use hx => exact .since (fun n hb hn hkind => .use hE hrun hx hb hn hkind h) h
  | next cursor => exact .nextSince h
  | destroy id hmine =>
    obtain ⟨a, rfl⟩ := Option.isSome_iff_exists.mp hmine
    exact .destroyOwn hE h
  | release args hmine =>
    subst hmine
    obtain ⟨hb, n, hn, hkind⟩ := hr args rfl
    exact .release hE hb hn hkind h

/-- However deep calls are nested, bodies keep the accounts. -/
theorem Runner.sound (hE : Lawful E B) (hrun : Runner E base may run) : Sound B base may run := by
  induction hrun with
  | bottom =>
    intro others flying body args n w h _ _ _
    exact .fail rfl (.refl h.valid) h
  | nest hrun hbodies ih =>
    intro others flying body args n w h hb hn hkind
    refine (hbodies body args).kept hE ih ?_ h
    intro a ha
    obtain rfl := Option.some.inj ha
    exact ⟨hb, n, hn, hkind⟩

end EngineHost
