import EngineHost.Proofs.Tickets

/-!
Whole runs of a host program. Resources are made, used and destroyed in any order, and after every
operation the handles that are live in the engine are those of the resources that have not been
destroyed.
-/
namespace EngineHost

open Host

variable {S : Embedding} {E : Engine S.State} {B : Books S.State} {base : Nat}
  {may : ResourceKind → Prop} {others : Token → Prop} {flying : List Token} {α : Type}
  {w w' : World S} {run : RunBody S}

/-- What a host program does from outside of all calls, on resources of any age. -/
inductive Operation (S : Embedding) where
  | newScope
  | newEvaluator
  | defineType (scope : ObjectId) (name expr : Value)
  | define (scope : ObjectId) (build : Host S (Builder S.Body))
  | getSignature (scope : ObjectId) (name : Value)
  | compile (scope : ObjectId) (source : Value)
  | typeInfo (script : ObjectId)
  | evalScript (script : ObjectId) (inputs : Value)
  | recompile (script : ObjectId) (source : Value)
  | evalSource (evaluator : ObjectId) (source inputs : Value)
  | typeOf (evaluator : ObjectId) (source : Value)
  | set (evaluator : ObjectId) (name value : Value)
  | vars (evaluator : ObjectId)
  | callBlock (block : ObjectId) (args : List Value)
  | destroy (resource : ObjectId)

namespace Operation

variable (E run) in
/-- The world that an operation leaves, whether it succeeds or fails. -/
def perform (op : Operation S) (w : World S) : World S :=
  match op with
  | .newScope => (exec (Scope.create E) w).2
  | .newEvaluator => (exec (Evaluator.create E) w).2
  | .defineType id name expr => (exec (since 0 .scope id (Scope.defineType id name expr)) w).2
  | .define id build => (exec (since 0 .scope id (Scope.define E id build)) w).2
  | .getSignature id name => (exec (since 0 .scope id (Scope.getSignature E id name)) w).2
  | .compile id source => (exec (since 0 .scope id (Scope.compile E id source)) w).2
  | .typeInfo id => (exec (since 0 .script id (Script.typeInfo E id)) w).2
  | .evalScript id inputs => (exec (since 0 .script id (Script.eval E run id inputs)) w).2
  | .recompile id source => (exec (since 0 .script id (Script.recompile E id source)) w).2
  | .evalSource id source inputs =>
    (exec (since 0 .evaluator id (Evaluator.eval E run id source inputs)) w).2
  | .typeOf id source => (exec (since 0 .evaluator id (Evaluator.typeOf E id source)) w).2
  | .set id name value => (exec (since 0 .evaluator id (Evaluator.set E id name value)) w).2
  | .vars id => (exec (since 0 .evaluator id (Evaluator.vars E id)) w).2
  | .callBlock id args => (exec (since 0 .block id (Block.call E run id args)) w).2
  | .destroy id => (exec (Host.destroy E id) w).2

variable (E run) in
/-- While a function is declared, the program may do anything but destroy or recompile resources. -/
def Permitted : Operation S → Prop
  | .define _ build => Conduct E run (fun _ => True) 0 none build
  | _ => True

variable (E run) in
/-- The world after some operations, one after the other. -/
def performAll (ops : List (Operation S)) (w : World S) : World S :=
  ops.foldl (fun w op => op.perform E run w) w

end Operation

variable (B) in
/-- A program that has not done anything yet. -/
structure Blank (w : World S) : Prop where
  nodes : w.nodes = []
  valid : B.valid w.engine
  issued : B.issued w.engine = []
  dropped : B.dropped w.engine = []
  home : ∀ f scope, ¬ B.home w.engine f scope

variable (B) in
/-- Between operations no call is open, so the accounts of the whole program balance with nothing on its
way. -/
structure Settled (w : World S) : Prop where
  accounts : Accounts B 0 (fun _ => True) (fun _ => False) [] w
  closed : ∀ (id : Nat) (n : Node), w.nodes[id]? = some n → ¬ IsOpen n
  once : (B.dropped w.engine).Nodup

variable (B) in
/-- The engine's handles and the program's resources agree. -/
structure Balanced (w : World S) : Prop where
  /-- Symbols and their names apart, the engine was asked for nothing with a handle that was not live:
  its laws say nothing about what that would lead to. -/
  valid : B.valid w.engine
  live_iff : ∀ kind handle, B.Live w.engine (kind, handle) ↔
    ∃ (id : Nat) (n : Node), w.nodes[id]? = some n ∧ n.role.kind = kind ∧ n.handle = some handle
  sole : ∀ (id id' : Nat) (n n' : Node), w.nodes[id]? = some n → w.nodes[id']? = some n' →
    n.role.kind = n'.role.kind → n.handle = n'.handle → n.handle.isSome → id = id'
  script : ∀ (id home : Nat) (n : Node) (source : Value), w.nodes[id]? = some n →
    n.role = .script home source → n.handle.isSome →
    ∃ m, w.nodes[home]? = some m ∧ m.role.kind = .scope ∧ m.handle.isSome ∧
      refOf id .script ∈ m.owned
  block : ∀ (id owner : Nat) (n : Node), w.nodes[id]? = some n → n.role = .block owner →
    n.handle.isSome →
    ∃ m, w.nodes[owner]? = some m ∧ (m.role.kind = .script ∨ m.role.kind = .evaluator) ∧
      m.handle.isSome ∧ refOf id .block ∈ m.owned
  /-- What is in a list is not destroyed, and the list is that of its one owner. -/
  owned : ∀ (owner : Nat) (m : Node), w.nodes[owner]? = some m → ∀ v ∈ m.owned,
    ∃ (id : Nat) (n : Node), v = refOf id n.role.kind ∧ w.nodes[id]? = some n ∧ n.handle.isSome ∧
      n.role.parent? = some owner
  owned_nodup : ∀ (owner : Nat) (m : Node), w.nodes[owner]? = some m → m.owned.Nodup
  dropped_issued : ∀ t ∈ B.dropped w.engine, t ∈ B.issued w.engine
  once : (B.dropped w.engine).Nodup

namespace Settled

theorem blank (hw : Blank B w) : Settled B w where
  accounts :=
    { base_le := Nat.zero_le _
      valid := hw.valid
      dropped_issued := by simp [hw.dropped]
      ledger :=
        { live_iff := by simp [Books.Live, hw.issued, Held, hw.nodes]
          sole := by simp [Held, hw.nodes]
          flying_nodup := List.nodup_nil
          flying_apart := by simp
          others_apart := by simp }
      forest := ⟨by simp [hw.nodes], by simp [hw.nodes]⟩
      owner := by simp [hw.nodes]
      args := by simp [hw.nodes]
      scopes := by simp [hw.nodes]
      made := by simp [hw.nodes]
      homes := fun f scope hf => absurd hf (hw.home f scope) }
  closed := by simp [hw.nodes]
  once := by simp [hw.dropped]

/-- Later, what is taken back is still taken back once. -/
theorem once_later (h : Settled B w) (hlater : B.Later w.engine w'.engine) :
    (B.dropped w'.engine).Nodup := by
  obtain ⟨gone, hgone, hnodup, hnew⟩ := hlater.dropped
  rw [hgone]
  refine List.nodup_append.mpr ⟨hnodup, h.once, ?_⟩
  intro t ht u hu htu
  subst htu
  exact (hnew t ht).1 hu

/-- Computations that keep the accounts and end nothing. -/
theorem kept {p : Except Failure α × World S} (h : Settled B w)
    (hp : Kept B 0 (fun _ => True) none (fun _ => False) [] nothing w p) : Settled B p.2 where
  accounts := by
    cases hr : p.1 with
    | ok a => exact hp.succeeds a hr
    | error f => exact (hp.fails f hr).2
  closed := by
    intro id n' hn' ho
    rcases hp.follows.calls id n' hn' ho with hmine | ⟨n, hn, ho'⟩
    · cases hmine
    · exact h.closed id n hn ho'
  once := h.once_later hp.follows.later

/-- Resources go with their handles. -/
theorem goes {gone : List Nat} (h : Settled B w) (hnodup : gone.Nodup)
    (hnodes : Nodewise (Goes gone) w.nodes w'.nodes) (htakes : Takes B (tokensOf w.nodes gone) w w')
    (haccounts : Accounts B 0 (fun _ => True) (fun _ => False) [] w') : Settled B w' where
  accounts := haccounts
  closed := by
    intro id n' hn' ho
    obtain ⟨n, hn, hg⟩ := hnodes.back hn'
    obtain ⟨call, hrole, hreleased⟩ := ho
    exact h.closed id n hn ⟨call, hg.role.symm.trans hrole, hreleased⟩
  once := by
    have hready := h.accounts.ready (fun id _ => Nat.zero_le id) hnodup
    refine h.once_later (htakes.engine.later (List.nodup_reverse.mpr hready.nodup) ?_)
    intro t ht
    exact (hready.live t (List.mem_reverse.mp ht)).2

/-- Destroying a resource, whatever became of it before. -/
theorem destroy (hE : Lawful E B) (h : Settled B w) (id : Nat) :
    Settled B (exec (Host.destroy E id) w).2 := by
  by_cases hlive : ∃ n, w.nodes[id]? = some n ∧ n.handle.isSome
  · obtain ⟨n, hn, hh⟩ := hlive
    obtain ⟨w', hexec, htakes, hgoes, haccounts⟩ :=
      exec_destroy_live hE h.accounts (Nat.zero_le id) hn hh
    rw [hexec]
    exact h.goes (teardown_nodup h.accounts.forest (Nat.zero_le id)) hgoes htakes haccounts
  · refine h.kept (α := Unit) (w := w) ?_
    have hf : Follows B 0 none w w := .refl h.accounts.valid
    unfold Host.destroy
    rw [exec_bind, exec_get]
    dsimp only
    unfold destroyWithin liveHandle
    rw [bind_assoc]
    refine .node_bind hf h.accounts fun n hn => ?_
    cases hh : n.handle with
    | some handle => exact absurd ⟨n, hn, by rw [hh]; rfl⟩ hlive
    | none => exact .fail_bind rfl hf h.accounts

/-- The old callbacks of a script go first; what the engine makes of the new source changes nothing
else. -/
theorem recompile (hE : Lawful E B) (h : Settled B w) {id : Nat} {n : Node}
    (hn : w.nodes[id]? = some n) (hkind : n.role.kind = .script) (source : Value) :
    Settled B (exec (Script.recompile E id source) w).2 := by
  cases hh : n.handle with
  | none =>
    refine h.kept (α := Unit) (w := w) (.liveHandle_bind hn (.refl h.accounts.valid) h.accounts ?_)
    intro handle hh'
    cases hh.symm.trans hh'
  | some handle =>
    obtain ⟨w₁, hrelease, htakes, hgoes, h₁⟩ := exec_releaseOwned hE h.accounts (Nat.zero_le id) hn
    have hsettled : Settled B w₁ :=
      h.goes (below_nodup h.accounts.forest (Nat.zero_le id) hn) hgoes htakes h₁
    obtain ⟨n₁, hn₁, hg⟩ := hgoes.each id n hn
    have hout : id ∉ below w.nodes (w.nodes.length + 1) n :=
      not_mem_below h.accounts.forest (Nat.zero_le id) hn
    have hlive := h₁.live_handle (Nat.zero_le id) hn₁ ((hg.handle.trans (if_neg hout)).trans hh)
    rw [hg.role, hkind] at hlive
    unfold Script.recompile
    rw [exec_bind, exec_liveHandle hn hh]
    dsimp only
    rw [exec_bind, hrelease]
    refine hsettled.kept ?_
    refine .bind (.onEngine (.refl h₁.valid) h₁ (hE.recompile _ handle source h₁.valid hlive))
      fun _ w₂ _ hf₂ h₂ => ?_
    obtain ⟨n₂, hn₂, hc⟩ := hf₂.nodes id n₁ hn₁
    have hkind₂ : n₂.role.kind = .script := by rw [hc.kind, hg.role, hkind]
    obtain ⟨home, source', hrole⟩ := script_of_kind hkind₂
    unfold Script.scriptOf
    rw [bind_assoc]
    rw [exec_bind, exec_node_some hn₂]
    simp only [hrole, pure_bind]
    refine .bind (.recast hn₂ (recast_script hrole) hf₂ h₂) fun _ w₃ _ hf₃ h₃ => ?_
    exact .node_bind hf₃ h₃ fun m _ => .write hf₃ h₃

/-- Programs that destroy nothing outside of calls. -/
theorem conduct (hE : Lawful E B) (hrun : Runner E 0 (fun _ => True) run) (h : Settled B w)
    {x : Host S α} (hx : Conduct E run (fun _ => True) 0 none x) : Settled B (exec x w).2 :=
  h.kept (hx.kept hE (hrun.sound hE) (by intro a ha; cases ha) h.accounts)

/-- One operation. -/
theorem perform (hE : Lawful E B) (hrun : Runner E 0 (fun _ => True) run) (h : Settled B w)
    {op : Operation S} (hop : op.Permitted E run) : Settled B (op.perform E run w) := by
  have hconduct := fun {α : Type} {x : Host S α} => h.conduct hE hrun (x := x)
  cases op with
  | newScope => exact hconduct (.newScope trivial)
  | newEvaluator => exact hconduct (.newEvaluator trivial)
  | defineType id name expr => exact hconduct (.use (.defineType id name expr))
  | define id build => exact hconduct (.define id hop)
  | getSignature id name => exact hconduct (.use (.getSignature id name))
  | compile id source => exact hconduct (.use (.compile id source trivial))
  | typeInfo id => exact hconduct (.use (.typeInfo id))
  | evalScript id inputs => exact hconduct (.use (.evalScript id inputs))
  | recompile id source =>
    change Settled B (exec (since 0 .script id (Script.recompile E id source)) w).2
    unfold since
    rw [exec_bind, exec_get]
    dsimp only
    cases hn : w.nodes[id]? with
    | none => exact h.kept (α := Unit) (w := w) (.fail rfl (.refl h.accounts.valid) h.accounts)
    | some n =>
      dsimp only
      split
      · rename_i hguard
        exact h.recompile hE hn hguard.2 source
      · exact h.kept (α := Unit) (w := w) (.fail rfl (.refl h.accounts.valid) h.accounts)
  | evalSource id source inputs => exact hconduct (.use (.evalSource id source inputs))
  | typeOf id source => exact hconduct (.use (.typeOf id source))
  | set id name value => exact hconduct (.use (.set id name value))
  | vars id => exact hconduct (.use (.vars id))
  | callBlock id args => exact hconduct (.use (.callBlock id args))
  | destroy id => exact h.destroy hE id

/-- A run of operations in any order. -/
theorem performAll (hE : Lawful E B) (hrun : Runner E 0 (fun _ => True) run) (h : Settled B w)
    {ops : List (Operation S)} (hops : ∀ op ∈ ops, op.Permitted E run) :
    Settled B (Operation.performAll E run ops w) := by
  induction ops generalizing w with
  | nil => exact h
  | cons op rest ih =>
    exact ih (h.perform hE hrun (hops op (List.mem_cons_self ..)))
      (fun op' hop' => hops op' (List.mem_cons_of_mem _ hop'))

/-- The owner of a live resource lives, and has it in its list. -/
theorem owner_live (h : Settled B w) {id p : Nat} {n : Node} (hn : w.nodes[id]? = some n)
    (hlive : n.handle.isSome) (hparent : n.role.parent? = some p) :
    ∃ m, w.nodes[p]? = some m ∧ MayOwn m.role n.role ∧ m.role.kind ≠ .args ∧ m.handle.isSome ∧
      refOf id n.role.kind ∈ m.owned := by
  obtain ⟨-, m, hm, hmlive, hmay, hmem⟩ := h.accounts.owner id p n (Nat.zero_le id) hn hlive hparent
  have hkind : m.role.kind ≠ .args := fun hargs =>
    h.closed p m hm ((isOpen_iff m).mpr ⟨hargs, hmlive⟩)
  exact ⟨m, hm, hmay, hkind, isLive_of_handle hkind ▸ hmlive, hmem⟩

theorem balanced (h : Settled B w) : Balanced B w where
  valid := h.accounts.valid
  live_iff := by
    intro kind handle
    rw [h.accounts.ledger.live_iff]
    constructor
    · intro hheld
      obtain ⟨⟨id, q⟩, -, n, hn, hh⟩ := (hheld.resolve_left not_false).resolve_left (by simp)
      cases q with
      | none => exact ⟨id, n, hn, hh.1, hh.2⟩
      | some i =>
        obtain ⟨call, entry, hrole, hopen, -⟩ := hh
        exact absurd ⟨call, hrole, hopen⟩ (h.closed id n hn)
    · intro hnode
      obtain ⟨id, n, hn, hkind, hh⟩ := hnode
      exact .inr (.inr ⟨(id, none), Nat.zero_le id, n, hn, hkind, hh⟩)
  sole := by
    intro id id' n n' hn hn' hkind hh hlive
    obtain ⟨handle, hsome⟩ := Option.isSome_iff_exists.mp hlive
    have hplace := h.accounts.ledger.sole (n.role.kind, handle) (id, none) (id', none)
      ⟨Nat.zero_le id, n, hn, rfl, hsome⟩
      ⟨Nat.zero_le id', n', hn', hkind.symm, hh.symm.trans hsome⟩
    exact congrArg Prod.fst hplace
  script := by
    intro id home n source hn hrole hlive
    obtain ⟨m, hm, hmay, -, hmlive, hmem⟩ := h.owner_live hn hlive (by rw [hrole]; rfl)
    rw [hrole] at hmay hmem
    exact ⟨m, hm, hmay, hmlive, hmem⟩
  block := by
    intro id owner n hn hrole hlive
    obtain ⟨m, hm, hmay, hkind, hmlive, hmem⟩ := h.owner_live hn hlive (by rw [hrole]; rfl)
    rw [hrole] at hmay hmem
    refine ⟨m, hm, ?_, hmlive, hmem⟩
    rcases hmay with hscript | hevaluator | hargs
    · exact .inl hscript
    · exact .inr hevaluator
    · exact absurd hargs hkind
  owned := by
    intro owner m hm v hv
    obtain ⟨id, n, hid, hn, hlive, hparent, -⟩ := h.accounts.forest.owned owner m (Nat.zero_le owner) hm v hv
    exact ⟨id, n, hid, hn, hlive, hparent⟩
  owned_nodup := fun owner m hm => h.accounts.forest.nodup owner m (Nat.zero_le owner) hm
  dropped_issued := h.accounts.dropped_issued
  once := h.once

end Settled

/-- After every run the engine's handles and the program's resources agree. -/
theorem performAll_balanced (hE : Lawful E B) (hrun : Runner E 0 (fun _ => True) run)
    (hw : Blank B w) (ops : List (Operation S)) (hops : ∀ op ∈ ops, op.Permitted E run) :
    Balanced B (Operation.performAll E run ops w) :=
  ((Settled.blank hw).performAll hE hrun hops).balanced

/-- A run in which a script calls a function back, is recompiled, and goes with its namespace. -/
theorem performAll_balanced_tickets :
    let ops : List (Operation Tickets.embedding) := [.newScope,
      .define 0 (Scope.declareAll 0 Tickets.declaration), .compile 0 (.str "f()"),
      .evalScript 1 .null, .callBlock 5 [], .recompile 1 (.str ""), .destroy 0, .evalScript 1 .null]
    Lawful Tickets.engine Tickets.books ∧
      Runner Tickets.engine 0 (fun _ => True) (Tickets.callBack 0) ∧
      Blank Tickets.books Tickets.outset ∧
      (∀ op ∈ ops, op.Permitted Tickets.engine (Tickets.callBack 0)) ∧
      Balanced Tickets.books
        (Operation.performAll Tickets.engine (Tickets.callBack 0) ops Tickets.outset) := by
  intro ops
  have hrunner := Tickets.callBack_runner 0 fun _ => True
  have hblank : Blank Tickets.books Tickets.outset :=
    ⟨rfl, ⟨by simp [Tickets.outset], by simp [Tickets.outset], by simp [Tickets.outset]⟩, rfl, rfl,
      by simp [Tickets.books, Tickets.outset]⟩
  have hpermitted : ∀ op ∈ ops, op.Permitted Tickets.engine (Tickets.callBack 0) := by
    simp only [ops, List.forall_mem_cons, Operation.Permitted]
    exact ⟨trivial, .declareAll 0 _, trivial, trivial, trivial, trivial, trivial, trivial, by simp⟩
  exact ⟨Tickets.lawful, hrunner, hblank, hpermitted,
    performAll_balanced Tickets.lawful hrunner hblank ops hpermitted⟩

end EngineHost
