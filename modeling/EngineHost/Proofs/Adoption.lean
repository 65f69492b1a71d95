import Mathlib
import EngineHost.Proofs.Tickets

/-!
Callbacks that the engine answers an evaluation with. Meanwhile host functions may have ended anything;
whether the callback gets an owner depends on what is still live when the answer arrives.
-/
namespace EngineHost

open Host

variable {S : Embedding} {E : Engine S.State} {run : RunBody S} {w w₁ : World S}

variable (E run) in
/-- An operation has come to the engine's answer, and has an owner for what is in it. -/
inductive Answered (w : World S) (envelope : Value) (w₁ : World S) : Host S Value → Nat → Prop where
  | script {id : Nat} {h inputs : Value} {encoded : List (Value × Value)}
    (hlive : exec (liveHandle id) w = (.ok h, w))
    (hinputs : exec (encodeInputs inputs) w = (.ok encoded, w))
    (hanswer : exec (evaluating E run (E.evaluate h encoded)) w = (.ok envelope, w₁)) :
    Answered w envelope w₁ (Script.eval E run id inputs) id
  | evaluator {id : Nat} {h source inputs : Value} {encoded : List (Value × Value)}
    (hlive : exec (liveHandle id) w = (.ok h, w))
    (hinputs : exec (encodeInputs inputs) w = (.ok encoded, w))
    (hanswer : exec (evaluating E run (E.evaluateSource h source encoded)) w = (.ok envelope, w₁)) :
    Answered w envelope w₁ (Evaluator.eval E run id source inputs) id
  | block {id owner : Nat} {h : Value} {args encoded : List Value}
    (hlive : exec (liveHandle id) w = (.ok h, w))
    (hargs : exec (Block.encodeArgs 0 args) w = (.ok encoded, w))
    (hanswer : exec (evaluating E run (E.callBlock h encoded)) w = (.ok envelope, w₁))
    (howner : exec (Block.ownerOf id) w₁ = (.ok owner, w₁)) :
    Answered w envelope w₁ (Block.call E run id args) owner

theorem Answered.exec {envelope : Value} {x : Host S Value} {owner : Nat}
    (h : Answered E run w envelope w₁ x owner) :
    Host.exec x w = Host.exec (receivePair owner envelope) w₁ := by
  cases h with
  | script hlive hinputs hanswer => simp only [Script.eval, exec_bind, hlive, hinputs, hanswer]
  | evaluator hlive hinputs hanswer => simp only [Evaluator.eval, exec_bind, hlive, hinputs, hanswer]
  | block hlive hargs hanswer howner => simp only [Block.call, exec_bind, hlive, hargs, hanswer, howner]

/-- The world in which a callback has got an object, which belongs to an owner. -/
def withBlock (owner : Nat) (handle : Value) (w : World S) : World S :=
  { w with
    nodes := adopted (some owner) (refOf w.nodes.length .block)
      (w.nodes ++ [⟨.block owner, some handle, []⟩]) }

/-- A live owner takes the callback over; if the owner has gone, so has the only chance to release it. -/
theorem Answered.adoption {envelope value handle : Value} {x : Host S Value} {owner : Nat} {m : Node}
    (h : Answered E run w envelope w₁ x owner) (hpair : Envelope.unwrapPair envelope = .ok (value, handle))
    (hne : handle ≠ .null) (hm : w₁.nodes[owner]? = some m) :
    Host.exec x w =
      if m.isLive then (.ok (refOf w₁.nodes.length .block), withBlock owner handle w₁)
      else (.error (.host (.useAfterDestroy m.role.kind)), w₁) := by
  rw [h.exec, receivePair, exec_bind, hpair, exec_check_ok]
  simp only [receive_block hne]
  by_cases hlive : m.isLive = true
  · rw [if_pos hlive, exec_wrapBlock hm hlive hne]
    rfl
  · rw [if_neg hlive]
    simp only [wrapBlock, checkLive, exec_bind, exec_node_some hm, hlive, useAfterDestroy]
    rfl

namespace Tickets

/-- The world in which a scope has a function, and a script that calls it. -/
def equipped : World embedding :=
  let equip : Host embedding Nat := do
    let scope ← Scope.create engine
    let _ ← Scope.define engine scope (Scope.declareAll scope declaration)
    Scope.compile engine scope (.str "f()")
  (exec equip outset).2

/-- The script is evaluated and answered with a callback. -/
theorem equipped_answered (run : RunBody embedding) (w₁ : World embedding)
    (h : exec (evaluating engine run (engine.evaluate (.int 1) [])) equipped =
      (.ok (Envelope.ok (.list [.null, .int 3])), w₁)) :
    Answered engine run equipped (Envelope.ok (.list [.null, .int 3])) w₁
      (Script.eval engine run 1 (.mapping .plain [])) 1 := by
  have hlive : exec (liveHandle 1) equipped = (.ok (.int 1), equipped) := Prod.ext (by cbv) rfl
  have hinputs : exec (encodeInputs (.mapping .plain [])) equipped = (.ok [], equipped) :=
    Prod.ext (by cbv) rfl
  exact .script hlive hinputs h

/-- A body that looks at nothing. -/
def idle : RunBody embedding := fun _ _ => pure (.int 0)

/-- A body that destroys the script. -/
def vandal : RunBody embedding := fun _ _ => do
  Host.destroy engine 1
  pure (.int 0)

/-- How it ends when the script is evaluated and such a body runs meanwhile. -/
def ransacked : Except Failure Value × World embedding :=
  exec (Script.eval engine vandal 1 (.mapping .plain [])) equipped

end Tickets

/-- While the function leaves it alone, the script takes over the callback it is answered with. -/
theorem adoption_equipped :
    ∃ w₁, (exec (evaluating Tickets.engine Tickets.idle (Tickets.engine.evaluate (.int 1) []))
        Tickets.equipped).2 = w₁ ∧
      exec (Script.eval Tickets.engine Tickets.idle 1 (.mapping .plain [])) Tickets.equipped =
        (.ok (refOf w₁.nodes.length .block), withBlock 1 (.int 3) w₁) := by
  have h := Tickets.equipped_answered Tickets.idle _ (Prod.ext (by cbv) rfl)
  have hpair : Envelope.unwrapPair (Envelope.ok (.list [.null, .int 3])) = .ok (.null, .int 3) := by cbv
  exact ⟨_, rfl, Answered.adoption (m := ⟨.script 0 (.str "f()"), some (.int 1), []⟩) h hpair (by simp)
    (by cbv)⟩

/-- If the function destroys the script, the callback is issued, held by nobody and never taken back. -/
theorem answer_lost :
    Tickets.ransacked.1 = .error (.host (.useAfterDestroy .script)) ∧
      Tickets.ransacked.2.engine.issued =
        [(.block, .int 3), (.block, .int 2), (.script, .int 1), (.scope, .int 0)] ∧
      Tickets.ransacked.2.engine.dropped = [(.block, .int 2), (.script, .int 1)] ∧
      Tickets.ransacked.2.nodes.map Node.handle = [some (.int 0), none, none] := by
  refine ⟨?_, ?_, ?_, ?_⟩
  all_goals cbv

end EngineHost
