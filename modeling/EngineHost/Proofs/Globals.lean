import EngineHost.Proofs.Entries
import EngineHost.Proofs.Evaluators
import EngineHost.Proofs.Offences
import EngineHost.Proofs.Reach
import EngineHost.Proofs.Scopeless
import EngineHost.Proofs.Variables

/-!
An evaluator in use. It is set variables, evaluates and is asked about, in any order, and much of that fails. Its
variables are what was set: every name by its first setting, with its last value. Nothing else leaves a trace.
-/
namespace EngineHost

open Calendar Host

/-! ### What an evaluator can be used for -/

inductive Act where
  | set (name value : Value)
  | eval (source inputs : Value)
  | typeOf (source : Value)
  | vars

inductive Act.Answer where
  | done
  | value (v : Value)
  | types (info : TypeInfo)
  | entries (vars : List (Value × Value))

/-- One use of an evaluator: how it ended, and what the engine was called for. -/
structure Deed where
  act : Act
  outcome : Except Failure Act.Answer
  asked : List EngineCall

/-- The variable that has been set. -/
def Deed.setting? : Deed → Option (Value × Value)
  | ⟨.set name v, .ok _, _⟩ => some (name, v)
  | _ => none

namespace Act

variable {S : Embedding}

def perform (E : Engine S.State) (run : RunBody S) (id : ObjectId) : Act → Host S Answer
  | .set name v => do
    Evaluator.set E id name v
    pure .done
  | .eval source inputs => .value <$> Evaluator.eval E run id source inputs
  | .typeOf source => .types <$> Evaluator.typeOf E id source
  | .vars => .entries <$> Evaluator.vars E id

def run (E : Engine S.State) (body : RunBody S.watched) (id : ObjectId) (act : Act) (w : World S.watched) :
    Deed × World S.watched :=
  let (outcome, w') := exec (act.perform E.watched body id) w
  (⟨act, outcome, w'.engine.notes.calls.drop w.engine.notes.calls.length⟩, w')

/-- One after the other, whatever comes of each. -/
def runAll (E : Engine S.State) (body : RunBody S.watched) (id : ObjectId) :
    List Act → World S.watched → List Deed × World S.watched
  | [], w => ([], w)
  | act :: rest, w =>
    let (deed, w₁) := act.run E body id w
    let (deeds, w') := runAll E body id rest w₁
    (deed :: deeds, w')

/-- Names are texts, and what they are set to has moments of the years 1 to 9999 only. -/
def Proper : Act → Prop
  | .set name v => name.isText ∧ ∀ t ∈ v.instants, Representable t
  | _ => True

end Act

/-- Inputs and what crosses of them: each value under its name. What is no mapping can only stand for none. -/
inductive Encodes : Value → List (Value × Value) → Prop where
  | named {kind : MappingKind} {entries wires : List (Value × Value)}
    (h : List.Forall₂ (fun entry wire => entry.1.isText ∧ Sends entry wire) entries wires) :
    Encodes (.mapping kind entries) wires
  | nothing {inputs : Value} (h : inputs.entries? = none) : Encodes inputs []

/-- What the engine is called for. What cannot cross is not brought before it. -/
inductive Deed.Asks (handle : Value) : Deed → Prop where
  | set {name v e : Value} (outcome : Except Failure Act.Answer) (h : Wire.encode (.ofValue name) v = .ok e) :
    Asks handle ⟨.set name v, outcome, [.setVar handle name e]⟩
  | refusedSet {name v : Value} (f : Failure) (h : ∀ place e, Wire.encode place v ≠ .ok e) :
    Asks handle ⟨.set name v, .error f, []⟩
  | eval {inputs : Value} {wires : List (Value × Value)} (source : Value) (outcome : Except Failure Act.Answer)
    (h : Encodes inputs wires) : Asks handle ⟨.eval source inputs, outcome, [.evaluateSource handle source wires]⟩
  | refusedEval {inputs : Value} (source : Value) (f : Failure)
    (h : inputs.entries?.isSome → ∀ wires, ¬ Encodes inputs wires) :
    Asks handle ⟨.eval source inputs, .error f, []⟩
  | typeOf (source : Value) (outcome : Except Failure Act.Answer) :
    Asks handle ⟨.typeOf source, outcome, [.typeOf handle source]⟩
  | vars (outcome : Except Failure Act.Answer) : Asks handle ⟨.vars, outcome, [.getVars handle]⟩

/-- What was set, and what is read back of it: the canonical form, under the same name. -/
def ComesBack (setting shown : Value × Value) : Prop :=
  setting.1 = shown.1 ∧ ∃ place e, Wire.encode place setting.2 = .ok e ∧ Wire.decode e = .ok shown.2

/-- An engine whose evaluators have the variables that they were given, and no others. -/
structure KeepsGlobals {σ : Type} (E : Engine σ) (K : Variables σ) : Prop extends KeepsVariables E K where
  /-- A variable that could not be set is as it was. -/
  setVar_error : ∀ s handle name wire vars f s', K.valid s → K.kept s handle = some vars →
    (E.setVar handle name wire).run.run s = (.error f, s') → K.kept s' handle = some vars
  typeOf : ∀ s handle source vars, K.valid s → K.kept s handle = some vars →
    let (_, s') := (E.typeOf handle source).run.run s
    K.valid s' ∧ K.kept s' handle = some vars
  /-- An evaluator knows no host functions, so what it evaluates comes to its end by itself. Inputs are gone by
  then. -/
  evaluateSource : ∀ s handle source inputs vars, K.valid s → K.kept s handle = some vars →
    ∃ result s', E.evaluateSource handle source inputs s = .done result s' ∧ K.valid s' ∧
      K.kept s' handle = some vars

/-! ### What crosses -/

section Crossing

variable {place : Place} {entries wires shown : List (Value × Value)} {S : Embedding}

theorem sends_of_encodeEntries (h : Wire.encodeEntries place entries = .ok wires) :
    List.Forall₂ (fun entry wire => entry.1.isText ∧ Sends entry wire) entries wires := by
  induction entries generalizing wires with
  | nil =>
    obtain rfl := Except.ok.inj h
    exact .nil
  | cons entry rest ih =>
    obtain ⟨key, v⟩ := entry
    rw [Wire.encodeEntries] at h
    split at h
    · next htext =>
      obtain ⟨e, he, h⟩ := Checked.bind_eq_ok h
      obtain ⟨more, hmore, h⟩ := Checked.bind_eq_ok h
      obtain rfl := Except.ok.inj h
      exact .cons ⟨htext, rfl, _, he⟩ (ih hmore)
    · cases h

/-- What crosses from one place crosses from every other. -/
theorem encodeEntries_of_sends
    (h : List.Forall₂ (fun entry wire => entry.1.isText ∧ Sends entry wire) entries wires) :
    ∃ wires', Wire.encodeEntries place entries = .ok wires' := by
  induction h with
  | nil => exact ⟨[], rfl⟩
  | @cons entry wire _ _ hfirst _ ih =>
    obtain ⟨key, v⟩ := entry
    obtain ⟨htext, -, p, he⟩ := hfirst
    obtain ⟨more, hmore⟩ := ih
    obtain ⟨e, he⟩ := (Wire.encode_ok_iff (place.atKey key.text) v).mpr
      ((Wire.encode_ok_iff p v).mp ⟨_, he⟩)
    refine ⟨(key, e) :: more, ?_⟩
    rw [Wire.encodeEntries, if_pos htext, he, hmore]
    rfl

theorem encodeInputs_mapping (kind : MappingKind) (entries : List (Value × Value)) :
    Wire.encodeInputs (.mapping kind entries) = Wire.encodeEntries .top entries := by
  cases entries <;> rfl

/-- What is no mapping stands for no inputs, or is refused. -/
theorem exec_encodeInputs_none {inputs : Value} (hinputs : inputs.entries? = none) (w : World S) :
    exec (encodeInputs inputs) w = (.ok [], w) ∨ ∃ f, exec (encodeInputs inputs) w = (.error f, w) := by
  have hfail : ∀ f, ∃ g, exec (fail f : Host S (List (Value × Value))) w = (.error g, w) := by
    intro f
    obtain ⟨g, hg, -⟩ := exec_fail (α := List (Value × Value)) f w
    exact ⟨g, hg⟩
  have hcheck : ∀ v : Value, v.entries? = none → exec (check (Wire.encodeInputs v)) w = (.ok [], w) ∨
      ∃ f, exec (check (Wire.encodeInputs v)) w = (.error f, w) := by
    intro v hv
    rw [Wire.encodeInputs, hv]
    split
    · exact .inl rfl
    · exact .inr (hfail (.shape .noSuchPart))
  cases inputs with
  | object ref =>
    rw [encodeInputs, exec_bind, exec_get]
    dsimp only
    split
    · have hlooks := Looks.checkLive ref.id w
      rcases hlive : exec (checkLive ref.id) w with ⟨outcome, w'⟩
      rw [hlive] at hlooks
      obtain rfl : w' = w := hlooks
      cases outcome with
      | error f => exact .inr ⟨f, exec_bind_error hlive⟩
      | ok u =>
        rw [exec_bind_ok hlive]
        split
        · exact .inl rfl
        · exact .inr (hfail _)
    · exact .inr (hfail _)
  | mapping kind entries => cases hinputs
  | _ => exact hcheck _ hinputs

/-- Inputs leave the world, whether they cross or not. -/
theorem exec_encodeInputs (inputs : Value) (w : World S) :
    (∃ wires, exec (encodeInputs inputs) w = (.ok wires, w) ∧ Encodes inputs wires) ∨
    ∃ f, exec (encodeInputs inputs) w = (.error f, w) ∧
      (inputs.entries?.isSome → ∀ wires, ¬ Encodes inputs wires) := by
  cases hinputs : inputs.entries? with
  | some entries =>
    obtain ⟨kind, rfl⟩ : ∃ kind, inputs = .mapping kind entries := by
      cases inputs with
      | mapping kind entries' => exact ⟨kind, by rw [Option.some.inj hinputs]⟩
      | _ => cases hinputs
    show (∃ wires, exec (check (Wire.encodeInputs (.mapping kind entries))) w = _ ∧ _) ∨
      ∃ f, exec (check (Wire.encodeInputs (.mapping kind entries))) w = _ ∧ _
    rw [encodeInputs_mapping]
    rcases exec_check (Wire.encodeEntries .top entries) w with ⟨wires, hwires, hexec⟩ | ⟨f, g, hf, hexec, -⟩
    · exact .inl ⟨wires, hexec, .named (sends_of_encodeEntries hwires)⟩
    · refine .inr ⟨g, hexec, fun _ wires hencodes => ?_⟩
      cases hencodes with
      | named h =>
        obtain ⟨wires', hwires'⟩ := encodeEntries_of_sends h
        exact nomatch hwires'.symm.trans hf
      | nothing h => cases h
  | none =>
    rcases exec_encodeInputs_none hinputs w with hexec | ⟨f, hexec⟩
    · exact .inl ⟨[], hexec, .nothing hinputs⟩
    · exact .inr ⟨f, hexec, nofun⟩

theorem comesBack_of_decodeEntries (hsends : List.Forall₂ Sends entries wires)
    (h : Wire.decodeEntries wires = .ok shown) : List.Forall₂ ComesBack entries shown := by
  induction hsends generalizing shown with
  | nil =>
    obtain rfl := Except.ok.inj h
    exact .nil
  | @cons entry wire _ _ hfirst _ ih =>
    obtain ⟨key, v⟩ := entry
    obtain ⟨key', e⟩ := wire
    obtain ⟨rfl, place, he⟩ := hfirst
    obtain ⟨back, hback, h⟩ := Checked.bind_eq_ok h
    obtain ⟨more, hmore, h⟩ := Checked.bind_eq_ok h
    obtain rfl := Except.ok.inj h
    exact .cons ⟨rfl, place, e, he, hback⟩ (ih hmore)

theorem mem_instantsOfEntries {t : Int} (ht : t ∈ Value.instantsOfEntries entries) :
    ∃ e ∈ entries, t ∈ e.2.instants := by
  induction entries with
  | nil => cases ht
  | cons e rest ih =>
    obtain ⟨key, v⟩ := e
    rcases List.mem_append.mp ht with ht | ht
    · exact ⟨(key, v), List.mem_cons_self, ht⟩
    · obtain ⟨e, he, ht⟩ := ih ht
      exact ⟨e, List.mem_cons_of_mem _ he, ht⟩

end Crossing

/-! ### One use, and all of them -/

section Uses

variable {S : Embedding} {E : Engine S.State} {K : Variables S.State} {body : RunBody S.watched}
  {w w' : World S.watched} {id : Nat} {handle : Value} {vars entries : List (Value × Value)}

/-- The evaluator is live under this handle, and the engine keeps these variables for it. -/
structure InUse (K : Variables S.State) (id : ObjectId) (handle : Value) (vars : List (Value × Value))
    (w : World S.watched) : Prop where
  valid : K.valid w.engine.state
  node : ∃ n, w.nodes[id]? = some n ∧ n.role = .evaluator ∧ n.handle = some handle
  kept : K.kept w.engine.state handle = some vars

/-- What one use comes to: only a variable that was set changes what is kept. -/
structure Deed.Done (K : Variables S.State) (id : ObjectId) (handle : Value) (vars : List (Value × Value))
    (deed : Deed) (w' : World S.watched) : Prop where
  asks : deed.Asks handle
  unset : deed.setting? = none → InUse K id handle vars w'
  set : ∀ name v, deed.setting? = some (name, v) →
    ∃ e, Wire.encode (.ofValue name) v = .ok e ∧ InUse K id handle (Value.insertEntry name e vars) w'

theorem InUse.engine {s : Watched S.State} (h : InUse K id handle entries w) (hvalid : K.valid s.state)
    (hkept : K.kept s.state handle = some vars) : InUse K id handle vars { w with engine := s } :=
  ⟨hvalid, h.node, hkept⟩

/-- An answer of the engine is received without the engine. -/
theorem InUse.received (h : InUse K id handle vars w) (answer : Checked Value) :
    let (_, w') := exec (check answer >>= receivePair id) w
    w'.engine = w.engine ∧ InUse K id handle vars w' := by
  obtain ⟨n, hn, hrole, hhandle⟩ := h.node
  have hlive : n.isLive := by simp [Node.isLive, hrole, hhandle]
  rcases exec_check answer w with ⟨envelope, -, hexec⟩ | ⟨f, g, -, hexec, -⟩
  · rw [exec_bind_ok hexec, receivePair]
    rcases exec_check (Envelope.unwrapPair envelope) w with ⟨⟨value, block⟩, -, hexec⟩ |
        ⟨f, g, -, hexec, -⟩
    · rw [exec_bind_ok hexec]
      dsimp only
      by_cases hblock : block = .null
      · subst hblock
        have hlooks : (exec (receive id value .null) w).2 = w := Looks.check (Wire.decode value) w
        rw [hlooks]
        exact ⟨rfl, h⟩
      · rw [receive_block hblock, exec_wrapBlock hn hlive hblock]
        let owner : Node := given (some id) (refOf w.nodes.length .block) id n
        have howner : (adopted (some id) (refOf w.nodes.length .block)
            (w.nodes ++ [⟨.block id, some block, []⟩]))[id]? = some owner := added_old hn
        exact ⟨rfl, h.valid, ⟨owner, howner, hrole, hhandle⟩, h.kept⟩
    · rw [exec_bind_error hexec]
      exact ⟨rfl, h⟩
  · rw [exec_bind_error hexec]
    exact ⟨rfl, h⟩

/-- What has been set after it. -/
def Deed.settle (entries : List (Value × Value)) (d : Deed) : List (Value × Value) :=
  match d.setting? with
  | some (name, v) => Value.insertEntry name v entries
  | none => entries

/-- How one use ends. -/
def Act.Ending (E : Engine S.State) (K : Variables S.State) (body : RunBody S.watched) (id : ObjectId)
    (handle : Value) (vars : List (Value × Value)) (act : Act) (w : World S.watched) : Prop :=
  let (deed, w') := act.run E body id w
  Deed.Done K id handle vars deed w'

theorem Act.Ending.of {act : Act} {outcome : Except Failure Act.Answer} {asked : List EngineCall}
    (h : exec (act.perform E.watched body id) w = (outcome, w'))
    (hcalls : w'.engine.notes.calls = w.engine.notes.calls ++ asked)
    (hdone : Deed.Done K id handle vars ⟨act, outcome, asked⟩ w') : Act.Ending E K body id handle vars act w := by
  rw [Act.Ending, Act.run, h]
  simp only [hcalls, List.drop_left]
  exact hdone

theorem Deed.Done.sends {deed : Deed} (h : deed.Done K id handle vars w')
    (hsends : List.Forall₂ Sends entries vars) :
    ∃ vars', InUse K id handle vars' w' ∧ List.Forall₂ Sends (deed.settle entries) vars' := by
  rw [Deed.settle]
  cases hset : deed.setting? with
  | none => exact ⟨vars, h.unset hset, hsends⟩
  | some setting =>
    obtain ⟨name, v⟩ := setting
    obtain ⟨e, he, hafter⟩ := h.set name v hset
    exact ⟨_, hafter, Sends.insertEntry hsends ⟨_, he⟩⟩

section Steps

variable (hE : KeepsGlobals E K) (h : InUse K id handle vars w)

include hE h

theorem set_ends (name v : Value) : Act.Ending E K body id handle vars (Act.set name v) w := by
  obtain ⟨n, hn, -, hhandle⟩ := h.node
  rcases exec_set (E := E.watched) hn hhandle name v with ⟨e, he, hexec⟩ | ⟨f, g, hf, hexec⟩
  · have hlaw := hE.setVar w.engine.state handle name e vars h.valid h.kept
    have hkeeps := hE.setVar_error w.engine.state handle name e vars
    have hrun := Engine.noted_run (.setVar handle name e) (E.setVar handle name e) w.engine
    rcases hq : (E.setVar handle name e).run.run w.engine.state with ⟨outcome, s⟩
    rw [hq] at hlaw hrun
    rw [show (E.watched.setVar handle name e).run.run w.engine = _ from hrun] at hexec
    cases outcome with
    | ok u =>
      refine .of (exec_bind_ok hexec) rfl ⟨.set _ he, nofun, ?_⟩
      rintro name' v' hset
      obtain ⟨rfl, rfl⟩ := Prod.mk.inj (Option.some.inj hset)
      exact ⟨e, he, h.engine hlaw.1 (hlaw.2 rfl)⟩
    | error f =>
      have hafter := hkeeps f s h.valid h.kept hq
      exact .of (exec_bind_error hexec) rfl ⟨.set _ he, fun _ => h.engine hlaw.1 hafter, nofun⟩
  · refine .of (exec_bind_error hexec) (List.append_nil _).symm
      ⟨.refusedSet g fun place e he => ?_, fun _ => h, nofun⟩
    obtain ⟨e', he'⟩ := (Wire.encode_ok_iff (.ofValue name) v).mpr ((Wire.encode_ok_iff place v).mp ⟨e, he⟩)
    exact nomatch he'.symm.trans hf

theorem eval_ends (source inputs : Value) : Act.Ending E K body id handle vars (Act.eval source inputs) w := by
  obtain ⟨n, hn, -, hhandle⟩ := h.node
  rcases exec_encodeInputs inputs w with ⟨wires, hinputs, hencodes⟩ | ⟨f, hinputs, hrefused⟩
  · obtain ⟨result, s, hdone, hvalid, hkept⟩ :=
      hE.evaluateSource w.engine.state handle source wires vars h.valid h.kept
    let after : Watched S.State :=
      ⟨s, w.engine.notes.add (.evaluateSource handle source wires) (.ok () : Except Failure Unit)⟩
    have hstart : E.watched.evaluateSource handle source wires w.engine = .done result after := by
      show (E.evaluateSource handle source wires w.engine.state).watched _ = _
      rw [hdone]
      rfl
    have hafter : InUse K id handle vars { w with engine := after } := h.engine hvalid hkept
    have hevaluating : exec (evaluating E.watched body (E.watched.evaluateSource handle source wires)) w =
        exec (check result) { w with engine := after } := by
      rw [evaluating, exec_bind, exec_get]
      dsimp only
      rw [hstart]
      rfl
    have hexec := exec_eval_ok (E := E.watched) hn hhandle body source inputs hinputs
    rw [exec_bind, hevaluating, ← exec_bind] at hexec
    have hreceived := hafter.received result
    rcases hq : exec (check result >>= receivePair id) { w with engine := after } with ⟨outcome, w'⟩
    rw [hq] at hreceived hexec
    have hperform : exec ((Act.eval source inputs).perform E.watched body id) w =
        (outcome.map Act.Answer.value, w') := by
      rw [Act.perform, exec_map, hexec]
    exact .of hperform (congrArg (·.notes.calls) hreceived.1)
      ⟨.eval source _ hencodes, fun _ => hreceived.2, nofun⟩
  · have hexec := exec_eval_error (E := E.watched) hn hhandle body source inputs hinputs
    have hperform : exec ((Act.eval source inputs).perform E.watched body id) w = (.error f, w) := by
      rw [Act.perform, exec_map, hexec]
      rfl
    exact .of hperform (List.append_nil _).symm ⟨.refusedEval source f hrefused, fun _ => h, nofun⟩

theorem typeOf_ends (source : Value) : Act.Ending E K body id handle vars (Act.typeOf source) w := by
  obtain ⟨n, hn, -, hhandle⟩ := h.node
  have hlaw := hE.typeOf w.engine.state handle source vars h.valid h.kept
  have huse := h.engine (s := ((E.watched.typeOf handle source).run.run w.engine).2) hlaw.1 hlaw.2
  have hperform : ∃ outcome, exec ((Act.typeOf source).perform E.watched body id) w =
      (outcome, { w with engine := ((E.watched.typeOf handle source).run.run w.engine).2 }) := by
    rw [Act.perform, exec_map]
    rcases exec_typeOf (E := E.watched) hn hhandle source with ⟨info, -, hexec⟩ | ⟨f, hexec⟩
    · exact ⟨_, by rw [hexec]⟩
    · exact ⟨_, by rw [hexec]⟩
  obtain ⟨outcome, hperform⟩ := hperform
  exact .of hperform rfl ⟨.typeOf source _, fun _ => huse, nofun⟩

/-- Listing the variables reads back what is kept. -/
theorem exec_vars_kept : ∃ after : Watched S.State, InUse K id handle vars { w with engine := after } ∧
    after.notes.calls = w.engine.notes.calls ++ [.getVars handle] ∧
    exec (Evaluator.vars E.watched id) w = exec (check (Wire.decodeEntries vars)) { w with engine := after } := by
  obtain ⟨n, hn, -, hhandle⟩ := h.node
  obtain ⟨kind, s, hget, hvalid, hkept⟩ := hE.getVars w.engine.state handle vars h.valid h.kept
  have hrun := Engine.noted_run (.getVars handle) (E.getVars handle) w.engine
  rw [hget] at hrun
  have hexec := exec_vars (E := E.watched) hn hhandle hrun
  refine ⟨_, ?_, ?_, hexec⟩
  · exact h.engine hvalid hkept
  · rfl

theorem vars_ends : Act.Ending E K body id handle vars .vars w := by
  obtain ⟨after, huse, hcalls, hexec⟩ := exec_vars_kept hE h
  have hlooks := Looks.check (Wire.decodeEntries vars) { w with engine := after }
  rcases hq : exec (check (Wire.decodeEntries vars)) { w with engine := after } with ⟨outcome, w'⟩
  rw [hq] at hlooks hexec
  obtain rfl : w' = _ := hlooks
  have hperform : exec (Act.vars.perform E.watched body id) w =
      (outcome.map Act.Answer.entries, { w with engine := after }) := by
    rw [Act.perform, exec_map, hexec]
  exact .of hperform hcalls ⟨.vars _, fun _ => huse, nofun⟩

theorem act_ends (act : Act) : Act.Ending E K body id handle vars act w := by
  cases act with
  | set name v => exact set_ends hE h name v
  | eval source inputs => exact eval_ends hE h source inputs
  | typeOf source => exact typeOf_ends hE h source
  | vars => exact vars_ends hE h

end Steps

/-- However often it is used, the engine keeps what was set. -/
theorem inUse_runAll (hE : KeepsGlobals E K) {acts : List Act} {deeds : List Deed}
    (h : InUse K id handle vars w) (hsends : List.Forall₂ Sends entries vars)
    (hrun : Act.runAll E body id acts w = (deeds, w')) :
    (∀ deed ∈ deeds, deed.act ∈ acts ∧ deed.Asks handle) ∧
    ∃ vars', InUse K id handle vars' w' ∧ List.Forall₂ Sends (deeds.foldl Deed.settle entries) vars' := by
  induction acts generalizing w vars entries deeds with
  | nil =>
    obtain ⟨rfl, rfl⟩ := Prod.mk.inj hrun
    exact ⟨List.forall_mem_nil _, vars, h, hsends⟩
  | cons act rest ih =>
    obtain ⟨rfl, rfl⟩ := Prod.mk.inj hrun
    have hdone : Deed.Done K id handle vars (act.run E body id w).1 (act.run E body id w).2 := act_ends hE h act
    obtain ⟨vars₁, h₁, hsends₁⟩ := hdone.sends hsends
    obtain ⟨hdeeds, vars₂, h₂, hsends₂⟩ := ih h₁ hsends₁ rfl
    refine ⟨?_, vars₂, h₂, hsends₂⟩
    intro deed hdeed
    rcases List.mem_cons.mp hdeed with rfl | hdeed
    · exact ⟨List.mem_cons_self, hdone.asks⟩
    · exact ⟨List.mem_cons_of_mem _ (hdeeds deed hdeed).1, (hdeeds deed hdeed).2⟩

theorem foldl_settle (deeds : List Deed) :
    deeds.foldl Deed.settle [] = Value.collectEntries (deeds.filterMap Deed.setting?) := by
  rw [Value.collectEntries, List.foldl_filterMap]
  refine congrArg (fun f => deeds.foldl f []) (funext₂ fun entries deed => ?_)
  rw [Deed.settle]
  cases deed.setting? <;> rfl

/-- Settings are those of proper uses. -/
theorem proper_of_setting {acts : List Act} {deeds : List Deed} (hacts : ∀ act ∈ acts, act.Proper)
    (hdeeds : ∀ deed ∈ deeds, deed.act ∈ acts) :
    ∀ s ∈ deeds.filterMap Deed.setting?, s.1.isText ∧ ∀ t ∈ s.2.instants, Representable t := by
  intro s hs
  obtain ⟨⟨act, outcome, asked⟩, hdeed, hset⟩ := List.mem_filterMap.mp hs
  have hproper := hacts act (hdeeds _ hdeed)
  cases act with
  | set name v =>
    cases outcome with
    | ok answer =>
      obtain rfl := Option.some.inj hset
      exact hproper
    | error f => cases hset
  | _ => cases hset

theorem inUse_create (hE : KeepsGlobals E K) {w₀ : World S.watched} (hvalid : K.valid w₀.engine.state)
    (hcreate : exec (Evaluator.create E.watched) w₀ = (.ok id, w)) : ∃ handle, InUse K id handle [] w := by
  have hlaw := hE.allocEvaluator w₀.engine.state hvalid
  have hrun := Engine.noted_run .allocEvaluator E.allocEvaluator w₀.engine
  rcases hq : E.allocEvaluator.run.run w₀.engine.state with ⟨outcome, s⟩
  rw [hq] at hlaw hrun
  cases outcome with
  | error f => cases (exec_create_error (S := S.watched) (E := E.watched) hrun).symm.trans hcreate
  | ok handle =>
    obtain ⟨hs, hkept⟩ := hlaw
    obtain ⟨hnull, hempty⟩ := hkept handle rfl
    obtain ⟨log, hexec⟩ := exec_create_ok (S := S.watched) (E := E.watched) hrun
    obtain ⟨hid, rfl⟩ := Prod.mk.inj (hexec.symm.trans hcreate)
    obtain rfl := Except.ok.inj hid
    exact ⟨handle, hs, ⟨_, List.getElem?_concat_length .., rfl, handleOf_ne_null hnull⟩, hempty⟩

/-- The variables of an evaluator are the names that were ever set, by their first setting, each with the canonical
form of its last value. The engine is called for what could cross, as it crossed; what fails, and what only
evaluates or asks, changes nothing. -/
theorem variables_by_settings (hE : KeepsGlobals E K) {w₀ : World S.watched} {acts : List Act}
    {deeds : List Deed} (hvalid : K.valid w₀.engine.state)
    (hcreate : exec (Evaluator.create E.watched) w₀ = (.ok id, w)) (hacts : ∀ act ∈ acts, act.Proper)
    (hrun : Act.runAll E body id acts w = (deeds, w')) :
    (∃ entries shown, Latest (deeds.filterMap Deed.setting?) entries ∧ List.Forall₂ ComesBack entries shown ∧
      (exec (Evaluator.vars E.watched id) w').1 = .ok shown) ∧
    ∃ n handle, w.nodes[id]? = some n ∧ n.handle = some handle ∧ (∀ deed ∈ deeds, deed.Asks handle) ∧
      ∀ (act : Act) (deed : Deed) (w'' : World S.watched), act.run E body id w' = (deed, w'') →
        deed.setting? = none →
        K.kept w''.engine.state handle = K.kept w'.engine.state handle ∧
        (exec (Evaluator.vars E.watched id) w'').1 = (exec (Evaluator.vars E.watched id) w').1 := by
  obtain ⟨handle, hnew⟩ := inUse_create hE hvalid hcreate
  obtain ⟨hdeeds, vars, huse, hsends⟩ := inUse_runAll hE hnew .nil hrun
  have hproper := proper_of_setting hacts fun deed hdeed => (hdeeds deed hdeed).1
  rw [foldl_settle] at hsends
  let entries := Value.collectEntries (deeds.filterMap Deed.setting?)
  have hlatest : Latest (deeds.filterMap Deed.setting?) entries :=
    latest_collectEntries _ fun s hs => (hproper s hs).1
  have htimes : ∀ t ∈ Value.instantsOfEntries entries, Representable t := by
    intro t ht
    obtain ⟨e, he, ht⟩ := mem_instantsOfEntries ht
    exact (hproper e (hlatest.mem_writes he)).2 t ht
  obtain ⟨shown, hshown⟩ := (Sends.fares hsends).ok_iff.mpr htimes
  have hreads : ∀ w, InUse K id handle vars w → (exec (Evaluator.vars E.watched id) w).1 = .ok shown := by
    intro w h
    obtain ⟨after, -, -, hexec⟩ := exec_vars_kept hE h
    rw [hexec, hshown]
    rfl
  obtain ⟨n, hn, -, hhandle⟩ := hnew.node
  refine ⟨⟨entries, shown, hlatest, comesBack_of_decodeEntries hsends hshown, hreads w' huse⟩,
    n, handle, hn, hhandle, fun deed hdeed => (hdeeds deed hdeed).2, ?_⟩
  intro act deed w'' hact hunset
  have hending : Act.Ending E K body id handle vars act w' := act_ends hE huse act
  rw [Act.Ending, hact] at hending
  have hafter : InUse K id handle vars w'' := hending.unset hunset
  exact ⟨hafter.kept.trans huse.kept.symm, (hreads w'' hafter).trans (hreads w' huse).symm⟩

end Uses

namespace Scripted

theorem run_get_bind {β : Type} (f : State → Action β) (s : State) :
    (get >>= f : Action β).run.run s = (f s).run.run s :=
  rfl

theorem run_typesOf (source : Value) (s : State) : ((typesOf source).run.run s).2 = s := by
  rw [typesOf, requireKey]
  by_cases hkey : source.isHashable
  · rw [if_pos hkey, pure_bind, run_get_bind]
    cases find? source s.programs with
    | none => rfl
    | some program =>
      obtain ⟨expr?, types?⟩ := program
      cases types? <;> rfl
  · rw [if_neg hkey]
    rfl

theorem keepsGlobals_engine : KeepsGlobals engine globals where
  toKeepsVariables := keepsVariables_engine
  setVar_error := by
    intro s handle name wire vars f s' hs hkept hrun
    obtain ⟨i, rfl, hfind⟩ := exists_of_known? hkept
    rw [run_setVar hs hfind] at hrun
    by_cases hname : name.isHashable
    · rw [if_pos hname] at hrun
      cases hrun
    · rw [if_neg hname] at hrun
      obtain rfl := (Prod.mk.inj hrun).2
      exact hkept
  typeOf := by
    intro s handle source vars hs hkept
    obtain ⟨i, rfl, hfind⟩ := exists_of_known? hkept
    let s' := s.logged "type_of" [.int i, source]
    have hrun : (engine.typeOf (.int i) source).run.run s = (typesOf source).run.run s' :=
      (run_entry hs _ _ _ _).trans (run_require (s := s') hfind)
    have hstill := run_typesOf source s'
    rcases hq : (typesOf source).run.run s' with ⟨outcome, s''⟩
    rw [hq] at hstill
    obtain rfl : s'' = s' := hstill
    rw [hrun, hq]
    exact ⟨hs, hkept⟩
  evaluateSource := by
    intro s handle source inputs vars hs hkept
    obtain ⟨i, rfl, hfind⟩ := exists_of_known? hkept
    let s' := s.logged "evaluate_source" [.int i, source, inputsValue inputs]
    have hrun : engine.evaluateSource (.int i) source inputs s =
        conclude (evalSource source (envOf (inputs ++ vars)) none) s' := by
      have henter : (enter "evaluate_source" [.int i, source, inputsValue inputs]).run s = (.ok none, s') := by
        refine (run_enter ..).trans ?_
        rw [hs.1, hs.2.1]
        rfl
      have hprepare : (do
          let vars ← require "evaluator" (.int i) (← get).evaluators
          pure (evalSource source (envOf (inputs ++ vars)) none) : Action (Eval Item)).run s' =
            (.ok (evalSource source (envOf (inputs ++ vars)) none), s') :=
        run_require (s := s') hfind
      show evaluation _ _ _ s = _
      rw [evaluation, henter]
      dsimp only
      rw [hprepare]
    have henv : ∀ e ∈ envOf (inputs ++ vars), Scopeless e.2 := by
      intro e he
      obtain ⟨⟨name, v⟩, -, rfl⟩ := List.mem_map.mp he
      exact .value v
    obtain ⟨answer, hdone | ⟨closure, hdone⟩⟩ := conclude_still (still_evalSource source henv) s'
    · exact ⟨answer, _, hrun.trans hdone, hs, hkept⟩
    · exact ⟨answer, _, hrun.trans hdone, ⟨hs.1, hs.2.1, hs.2.2.mono (Nat.le_succ _)⟩, hkept⟩

/-- A world with one program, which reads a variable. -/
def study : World plainHost.watched :=
  ⟨[], [], [], ⟨.initial [(.str "x", ⟨some (.var (.str "x")), none⟩)], ⟨[], []⟩⟩, (), []⟩

/-- With an evaluator. -/
def studied : World plainHost.watched := (exec (Evaluator.create engine.watched) study).2

/-- Two variables are set, one of them again after it was hidden. One value cannot cross, and neither can one of
the inputs. -/
def lesson : List Act :=
  [.set (.str "x") (.int 1), .set (.str "at") (.tuple [.date ⟨2021, 6, 1⟩]),
   .eval (.str "x") (.mapping .plain [(.str "x", .int 2)]),
   .set (.str "at") .null, .eval (.str "x") (.mapping .plain [(.str "y", .null)]), .typeOf (.str "x"),
   .set (.str "x") (.list [.bool true]), .vars]

theorem proper_lesson : ∀ act ∈ lesson, act.Proper := by
  have htime : Value.instantsOfList [.date ⟨2021, 6, 1⟩] = [1622505600000000] := by cbv
  have hnone : Value.instantsOfList [.bool true] = [] := rfl
  have hrange : Representable 1622505600000000 := ⟨by decide, by decide⟩
  simp [lesson, Act.Proper, Value.instants, htime, hnone, hrange, Value.isText]

theorem variables_of_lesson :
    let q := Act.runAll engine (fun _ _ => pure .null) 0 lesson studied
    KeepsGlobals engine globals ∧ globals.valid study.engine.state ∧
    exec (Evaluator.create engine.watched) study = (.ok 0, studied) ∧ (∀ act ∈ lesson, act.Proper) ∧
    q.1.filterMap Deed.setting? =
      [(.str "x", .int 1), (.str "at", .tuple [.date ⟨2021, 6, 1⟩]), (.str "x", .list [.bool true])] ∧
    (∃ entries shown, Latest (q.1.filterMap Deed.setting?) entries ∧ List.Forall₂ ComesBack entries shown ∧
      (exec (Evaluator.vars engine.watched 0) q.2).1 = .ok shown) ∧
    ∃ handle, ∀ deed ∈ q.1, deed.Asks handle := by
  intro q
  have hvalid : globals.valid study.engine.state := ⟨rfl, rfl, nofun⟩
  have hcreate : exec (Evaluator.create engine.watched) study = (.ok 0, studied) := rfl
  have hsettings : q.1.filterMap Deed.setting? =
      [(.str "x", .int 1), (.str "at", .tuple [.date ⟨2021, 6, 1⟩]), (.str "x", .list [.bool true])] := by
    simp only [q, lesson]
    cbv
  obtain ⟨hvars, n, handle, -, -, hasks, -⟩ :=
    variables_by_settings keepsGlobals_engine hvalid hcreate proper_lesson (Prod.eta q).symm
  exact ⟨keepsGlobals_engine, hvalid, hcreate, proper_lesson, hsettings, hvars, handle, hasks⟩

end Scripted

end EngineHost
