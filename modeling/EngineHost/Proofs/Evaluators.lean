import EngineHost.Proofs.Handover

/-!
The operations of an evaluator. Each looks up its handle first, then comes what it needs of its arguments, and
then one call of the engine, whose answer is taken apart.
-/
namespace EngineHost.Host

variable {S : Embedding} {E : Engine S.State} {w : World S} {id : Nat} {n : Node} {handle : Value}

theorem exec_create_error {f : Failure} {s : S.State}
    (h : E.allocEvaluator.run.run w.engine = (.error f, s)) :
    exec (Evaluator.create E) w = (.error f, { w with engine := s }) := by
  have hask := exec_onEngine E.allocEvaluator w
  rw [h] at hask
  exact exec_bind_error hask

theorem exec_create_ok {s : S.State} (h : E.allocEvaluator.run.run w.engine = (.ok handle, s)) :
    ∃ log, exec (Evaluator.create E) w = (.ok w.nodes.length, { w with
      engine := s, nodes := w.nodes ++ [⟨.evaluator, handleOf handle, []⟩], log := log }) := by
  have hask := exec_onEngine E.allocEvaluator w
  rw [h] at hask
  exact ⟨_, (exec_bind_ok hask).trans (exec_bind_ok (exec_addNode ..))⟩

/-! ### With an evaluator that is live -/

section Live

variable (hn : w.nodes[id]? = some n) (hh : n.handle = some handle)

include hn hh

/-- A value that cannot cross is refused before the engine hears of it. -/
theorem exec_set (name v : Value) :
    (∃ e, Wire.encode (.ofValue name) v = .ok e ∧ exec (Evaluator.set E id name v) w =
      (((E.setVar handle name e).run.run w.engine).1,
        { w with engine := ((E.setVar handle name e).run.run w.engine).2 })) ∨
    ∃ f g, Wire.encode (.ofValue name) v = .error f ∧ exec (Evaluator.set E id name v) w = (.error g, w) := by
  rw [Evaluator.set, exec_bind_ok (exec_liveHandle hn hh)]
  rcases exec_check (Wire.encode (.ofValue name) v) w with ⟨e, he, hcheck⟩ | ⟨f, g, hf, hcheck, -⟩
  · refine .inl ⟨e, he, ?_⟩
    rw [encode, exec_bind_ok hcheck, exec_onEngine]
  · exact .inr ⟨f, g, hf, exec_bind_error hcheck⟩

theorem exec_eval_ok (run : RunBody S) (source inputs : Value) {encoded : List (Value × Value)}
    (hinputs : exec (encodeInputs inputs) w = (.ok encoded, w)) :
    exec (Evaluator.eval E run id source inputs) w =
      exec (evaluating E run (E.evaluateSource handle source encoded) >>= receivePair id) w := by
  rw [Evaluator.eval, exec_bind_ok (exec_liveHandle hn hh), exec_bind_ok hinputs]

theorem exec_eval_error (run : RunBody S) (source inputs : Value) {f : Failure}
    (hinputs : exec (encodeInputs inputs) w = (.error f, w)) :
    exec (Evaluator.eval E run id source inputs) w = (.error f, w) := by
  rw [Evaluator.eval, exec_bind_ok (exec_liveHandle hn hh)]
  exact exec_bind_error hinputs

theorem exec_typeOf (source : Value) :
    let q := (E.typeOf handle source).run.run w.engine
    (∃ info, q.1 >>= Envelope.unwrap >>= TypeInfo.ofWire source = .ok info ∧
      exec (Evaluator.typeOf E id source) w = (.ok info, { w with engine := q.2 })) ∨
    ∃ f, exec (Evaluator.typeOf E id source) w = (.error f, { w with engine := q.2 }) := by
  intro q
  have hask : exec (onEngine (E.typeOf handle source) : Host S Value) w = (q.1, { w with engine := q.2 }) :=
    exec_onEngine _ w
  rw [Evaluator.typeOf, exec_bind_ok (exec_liveHandle hn hh)]
  cases hq : q.1 with
  | error f =>
    rw [hq] at hask
    exact .inr ⟨f, exec_bind_error hask⟩
  | ok envelope =>
    rw [hq] at hask
    rw [exec_bind_ok hask, typeInfoOf]
    rcases exec_check (Envelope.unwrap envelope) { w with engine := q.2 } with ⟨payload, hpayload, hexec⟩ |
        ⟨f, g, -, hexec, -⟩
    · rw [exec_bind_ok hexec]
      rcases exec_check (TypeInfo.ofWire source payload) { w with engine := q.2 } with ⟨info, hinfo, hexec⟩ |
          ⟨f, g, -, hexec, -⟩
      · refine .inl ⟨info, ?_, hexec⟩
        show Envelope.unwrap envelope >>= TypeInfo.ofWire source = .ok info
        rw [hpayload]
        exact hinfo
      · exact .inr ⟨g, hexec⟩
    · exact .inr ⟨g, exec_bind_error hexec⟩

theorem exec_vars {kind : MappingKind} {vars : List (Value × Value)} {s : S.State}
    (h : (E.getVars handle).run.run w.engine = (.ok (.mapping kind vars), s)) :
    exec (Evaluator.vars E id) w = exec (check (Wire.decodeEntries vars)) { w with engine := s } := by
  have hask := exec_onEngine (E.getVars handle) w
  rw [h] at hask
  rw [Evaluator.vars, exec_bind_ok (exec_liveHandle hn hh), exec_bind_ok hask]
  exact exec_bind_ok (exec_check_ok vars _)

end Live

end EngineHost.Host
