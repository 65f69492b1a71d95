import Mathlib
import EngineHost.Proofs.Evaluators
import EngineHost.Proofs.Instants
import EngineHost.Proofs.ScriptedScopes

/-!
The variables of an evaluator. The engine keeps them in their wire form, as they were given; to list them
is to read them all back, so one variable at an instant that cannot be read is enough to break it off.
-/
namespace EngineHost

open Calendar

/-- What the laws of variables speak of, in a state of the engine. -/
structure Variables (σ : Type) where
  /-- States that the engine can be in. -/
  valid : σ → Prop
  /-- The variables of a live evaluator, in the order in which they were first set. -/
  kept : σ → Value → Option (List (Value × Value))

/-- An engine that keeps variables as they were given. -/
structure KeepsVariables {σ : Type} (E : Engine σ) (K : Variables σ) : Prop where
  /-- A new evaluator has no variables. -/
  allocEvaluator : ∀ s, K.valid s →
    let (outcome, s') := E.allocEvaluator.run.run s
    K.valid s' ∧ ∀ handle, outcome = .ok handle → handle ≠ .null ∧ K.kept s' handle = some []
  /-- A variable that is set again keeps its place. -/
  setVar : ∀ s handle name wire vars, K.valid s → K.kept s handle = some vars →
    let (outcome, s') := (E.setVar handle name wire).run.run s
    K.valid s' ∧ (outcome = .ok () → K.kept s' handle = some (Value.insertEntry name wire vars))
  getVars : ∀ s handle vars, K.valid s → K.kept s handle = some vars →
    ∃ kind s', (E.getVars handle).run.run s = (.ok (.mapping kind vars), s') ∧ K.valid s' ∧
      K.kept s' handle = some vars

/-- An entry and the one that it crosses as. -/
def Sends (entry wire : Value × Value) : Prop :=
  entry.1 = wire.1 ∧ ∃ place, Wire.encode place entry.2 = .ok wire.2

theorem Sends.insertEntry {entries wires : List (Value × Value)} {name v e : Value}
    (h : List.Forall₂ Sends entries wires) (hv : ∃ place, Wire.encode place v = .ok e) :
    List.Forall₂ Sends (Value.insertEntry name v entries) (Value.insertEntry name e wires) := by
  induction h with
  | nil => exact .cons ⟨rfl, hv⟩ .nil
  | @cons a b _ _ hab hrest ih =>
    obtain ⟨key, old⟩ := a
    obtain ⟨key', oldWire⟩ := b
    obtain ⟨rfl, hold⟩ := hab
    simp only [Value.insertEntry]
    split
    · exact .cons ⟨rfl, hv⟩ hrest
    · exact .cons ⟨rfl, hold⟩ ih

theorem Sends.fares {entries wires : List (Value × Value)} (h : List.Forall₂ Sends entries wires) :
    Fares (Value.instantsOfEntries entries) (Wire.decodeEntries wires) := by
  induction h with
  | nil => exact .pure _
  | @cons a b _ _ hab _ ih =>
    obtain ⟨key, v⟩ := a
    obtain ⟨key', e⟩ := b
    obtain ⟨rfl, place, hencode⟩ := hab
    exact Wire.fares_entry (Wire.fares_encode v place e hencode) ih

namespace Host

variable {S : Embedding} {E : Engine S.State} {K : Variables S.State} {w w' : World S} {id : ObjectId}
  {entries : List (Value × Value)}

/-- Variables set one after the other. -/
def Evaluator.setAll (E : Engine S.State) (id : ObjectId) : List (Value × Value) → Host S Unit
  | [] => pure ()
  | (name, v) :: rest => do
    Evaluator.set E id name v
    Evaluator.setAll E id rest

/-- The evaluator is live, and the engine keeps the wire forms of these variables for it. -/
def HasSet (K : Variables S.State) (w : World S) (id : ObjectId) (entries : List (Value × Value)) : Prop :=
  K.valid w.engine ∧ ∃ n handle wires, w.nodes[id]? = some n ∧ n.handle = some handle ∧
    K.kept w.engine handle = some wires ∧ List.Forall₂ Sends entries wires

theorem holds_create (hE : KeepsVariables E K) (hvalid : K.valid w.engine)
    (h : exec (Evaluator.create E) w = (.ok id, w')) : HasSet K w' id [] := by
  have halloc := hE.allocEvaluator w.engine hvalid
  cases hrun : E.allocEvaluator.run.run w.engine with
  | mk outcome s =>
    rw [hrun] at halloc
    obtain ⟨hs, hkept⟩ := halloc
    cases outcome with
    | error f => cases (exec_create_error hrun).symm.trans h
    | ok handle =>
      obtain ⟨hnull, hempty⟩ := hkept handle rfl
      obtain ⟨log, hexec⟩ := exec_create_ok hrun
      obtain ⟨hid, rfl⟩ := Prod.mk.inj (hexec.symm.trans h)
      obtain rfl := Except.ok.inj hid
      exact ⟨hs, ⟨.evaluator, handleOf handle, []⟩, handle, [], by simp, handleOf_ne_null hnull, hempty, .nil⟩

/-- A variable that was set is held with its new value. -/
theorem holds_set (hE : KeepsVariables E K) (hw : HasSet K w id entries) {name v : Value}
    (h : exec (Evaluator.set E id name v) w = (.ok (), w')) :
    HasSet K w' id (Value.insertEntry name v entries) := by
  obtain ⟨hvalid, n, handle, wires, hn, hhandle, hkept, hsends⟩ := hw
  rcases exec_set hn hhandle name v with ⟨e, he, hexec⟩ | ⟨f, g, -, hexec⟩
  · have hset := hE.setVar w.engine handle name e wires hvalid hkept
    obtain ⟨hout, rfl⟩ := Prod.mk.inj (hexec.symm.trans h)
    exact ⟨hset.1, n, handle, _, hn, hhandle, hset.2 hout, Sends.insertEntry hsends ⟨_, he⟩⟩
  · cases hexec.symm.trans h

theorem holds_setAll (hE : KeepsVariables E K) (sets : List (Value × Value)) (hw : HasSet K w id entries)
    (h : exec (Evaluator.setAll E id sets) w = (.ok (), w')) :
    HasSet K w' id (sets.foldl (fun entries (k, v) => Value.insertEntry k v entries) entries) := by
  induction sets generalizing w entries with
  | nil =>
    obtain rfl := (Prod.mk.inj h).2
    exact hw
  | cons first rest ih =>
    obtain ⟨name, v⟩ := first
    rw [Evaluator.setAll, exec_bind] at h
    cases hset : exec (Evaluator.set E id name v) w with
    | mk outcome w₁ =>
      rw [hset] at h
      cases outcome with
      | error f => cases h
      | ok u => exact ih (holds_set hE hw hset) h

/-- Listing the variables reads all of them back. -/
theorem fares_vars (hE : KeepsVariables E K) (hw : HasSet K w id entries) :
    Fares (Value.instantsOfEntries entries) (exec (Evaluator.vars E id) w).1 := by
  obtain ⟨hvalid, n, handle, wires, hn, hhandle, hkept, hsends⟩ := hw
  obtain ⟨kind, s', hrun, -, -⟩ := hE.getVars w.engine handle wires hvalid hkept
  rw [exec_vars hn hhandle hrun]
  rcases Sends.fares hsends with ⟨hall, a, ha⟩ | ⟨hbad, herror⟩
  · rw [ha]
    exact .inl ⟨hall, a, rfl⟩
  · rw [herror]
    exact .inr ⟨hbad, rfl⟩

/-- What has crossed comes back if all moments in it are at instants of the years 1 to 9999, and otherwise
reading it ends with an error of range. The variables of an evaluator can be listed if this holds of what each
was last set to. -/
theorem comes_back (hE : KeepsVariables E K) :
    (∀ v place e, Wire.encode place v = .ok e → Fares v.instants (Wire.decode e)) ∧
    ∀ w w₁ w₂ : World S, ∀ id sets, K.valid w.engine → exec (Evaluator.create E) w = (.ok id, w₁) →
      exec (Evaluator.setAll E id sets) w₁ = (.ok (), w₂) →
      Fares (Value.instantsOfEntries (Value.collectEntries sets)) (exec (Evaluator.vars E id) w₂).1 := by
  refine ⟨Wire.fares_encode, ?_⟩
  intro w w₁ w₂ id sets hvalid hcreate hsets
  have hnew : HasSet K w₁ id [] := holds_create hE hvalid hcreate
  exact fares_vars hE (holds_setAll hE sets hnew hsets)

end Host

namespace Scripted

open Host

/-- What the scripted engine keeps, when neither faults nor answers are set. -/
def globals : Variables State where
  valid s := s.faults = [] ∧ s.answers = [] ∧ Numbered s.nextHandle s.evaluators
  kept s handle := known? s.evaluators handle

theorem putKey_eq_insertEntry (key v : Value) (entries : List (Value × Value)) :
    putKey key v entries = Value.insertEntry key v entries := by
  induction entries with
  | nil => rfl
  | cons e rest ih => rw [putKey, Value.insertEntry, ih]

theorem run_entry {α : Type} {s : State} (hs : globals.valid s) (name : String) (args : List Value)
    (ofAnswer : Value → α) (work : Action α) :
    (entry name args ofAnswer work).run.run s = work.run.run (s.logged name args) := by
  obtain ⟨hfaults, hanswers, -⟩ := hs
  rw [entry, ExceptT.run_bind, StateT.run_bind, run_enter, hfaults, hanswers]
  rfl

theorem run_setVar {s : State} (hs : globals.valid s) {i : Int} {name wire : Value} {vars : List (Value × Value)}
    (hfind : find? (.int i) s.evaluators = some vars) :
    (engine.setVar (.int i) name wire).run.run s =
      let s' := s.logged "set_var" [.int i, name, wire]
      if name.isHashable then
        (.ok (), { s' with evaluators := put (.int i) (putKey name wire vars) s.evaluators })
      else (.error (.shape .wrongKind), s') := by
  let s' := s.logged "set_var" [.int i, name, wire]
  have hrun : (engine.setVar (.int i) name wire).run.run s =
      (do
        requireKey name
        modify fun s => { s with
          evaluators := put (.int i) (putKey name wire vars) s.evaluators } : Action Unit).run.run s' := by
    refine (run_entry hs _ _ _ _).trans ?_
    exact run_require (s := s') hfind
  rw [hrun, requireKey]
  by_cases hname : name.isHashable
  · rw [if_pos hname, if_pos hname]
    rfl
  · rw [if_neg hname, if_neg hname]
    rfl

theorem keepsVariables_engine : KeepsVariables engine globals where
  allocEvaluator := by
    intro s hs
    have hrun : engine.allocEvaluator.run.run s = (.ok (.int s.nextHandle),
        { s.logged "alloc_evaluator" [] with
          nextHandle := s.nextHandle + 1
          evaluators := s.evaluators ++ [(.int s.nextHandle, [])] }) :=
      run_entry hs _ _ _ _
    rw [hrun]
    refine ⟨⟨hs.1, hs.2.1, hs.2.2.append []⟩, ?_⟩
    intro handle hhandle
    obtain rfl := Except.ok.inj hhandle
    refine ⟨nofun, ?_⟩
    show find? (.int s.nextHandle) (s.evaluators ++ [(.int s.nextHandle, [])]) = some []
    rw [find?_append hs.2.2, if_pos rfl]
  setVar := by
    intro s handle name wire vars hs hkept
    obtain ⟨i, rfl, hfind⟩ := exists_of_known? hkept
    rw [run_setVar hs hfind]
    by_cases hname : name.isHashable
    · rw [if_pos hname]
      refine ⟨⟨hs.1, hs.2.1, hs.2.2.put _ _⟩, fun _ => ?_⟩
      show find? (.int i) (put (.int i) (putKey name wire vars) s.evaluators) = _
      rw [find?_put hs.2.2, if_pos rfl, hfind, putKey_eq_insertEntry]
      rfl
    · rw [if_neg hname]
      exact ⟨hs, nofun⟩
  getVars := by
    intro s handle vars hs hkept
    obtain ⟨i, rfl, hfind⟩ := exists_of_known? hkept
    have hrun : (engine.getVars (.int i)).run.run s =
        (.ok (.mapping .plain vars), s.logged "get_vars" [.int i]) := by
      refine (run_entry hs _ _ _ _).trans ?_
      exact run_require (s := s.logged "get_vars" [.int i]) hfind
    exact ⟨.plain, _, hrun, hs, hkept⟩

/-- A host program with nothing of its own. -/
def plainHost : Embedding := ⟨State, Unit, Unit⟩

def plainWorld : World plainHost := ⟨[], [], [], .initial [], (), []⟩

/-- The first hour of the year 1, an hour ahead of universal time. -/
def early : Value := .moment ⟨⟨1, 1, 1⟩, 0, 0, 0, 0, some 3600⟩

/-- A variable that cannot be read, and the same one set again. -/
theorem comes_back_again :
    let w₁ := (exec (Evaluator.create engine) plainWorld).2
    let first : List (Value × Value) := [(.str "n", .int 1), (.str "at", early)]
    let again : List (Value × Value) := first ++ [(.str "at", .date ⟨1, 1, 1⟩)]
    KeepsVariables engine globals ∧ globals.valid plainWorld.engine ∧
    (∃ e, Wire.encode .top early = .ok e ∧ Fares early.instants (Wire.decode e)) ∧
    exec (Evaluator.create engine) plainWorld = (.ok 0, w₁) ∧
    (exec (Evaluator.setAll engine 0 first) w₁).1 = .ok () ∧
    (exec (Evaluator.vars engine 0) (exec (Evaluator.setAll engine 0 first) w₁).2).1 =
      .error (.shape .outOfRange) ∧
    (exec (Evaluator.setAll engine 0 again) w₁).1 = .ok () ∧
    ∃ vars, (exec (Evaluator.vars engine 0) (exec (Evaluator.setAll engine 0 again) w₁).2).1 = .ok vars := by
  intro w₁ first again
  have hvalid : globals.valid plainWorld.engine := ⟨rfl, rfl, nofun⟩
  have hcreate : exec (Evaluator.create engine) plainWorld = (.ok 0, w₁) := rfl
  have hfirst : (exec (Evaluator.setAll engine 0 first) w₁).1 = .ok () := by
    simp only [w₁, first]
    cbv
  have hagain : (exec (Evaluator.setAll engine 0 again) w₁).1 = .ok () := by
    simp only [w₁, again, first]
    cbv
  have hreads : ∀ sets, (exec (Evaluator.setAll engine 0 sets) w₁).1 = .ok () →
      Fares (Value.instantsOfEntries (Value.collectEntries sets))
        (exec (Evaluator.vars engine 0) (exec (Evaluator.setAll engine 0 sets) w₁).2).1 := fun sets hsets =>
    (comes_back keepsVariables_engine).2 plainWorld w₁ _ 0 sets hvalid hcreate (Prod.ext hsets rfl)
  have htimes : Value.instantsOfEntries (Value.collectEntries first) = [-62135600400000000] := by
    simp only [first]
    cbv
  have htimes' : Value.instantsOfEntries (Value.collectEntries again) = [-62135596800000000] := by
    simp only [again, first]
    cbv
  have hearly : ∃ e, Wire.encode .top early = .ok e ∧ Fares early.instants (Wire.decode e) :=
    ⟨_, rfl, (comes_back (S := plainHost) keepsVariables_engine).1 early .top _ rfl⟩
  refine ⟨keepsVariables_engine, hvalid, hearly, hcreate, hfirst, ?_, hagain, ?_⟩
  · have hfares := hreads first hfirst
    rw [htimes] at hfares
    rcases hfares with ⟨hall, -⟩ | ⟨-, herror⟩
    · exact absurd (hall _ List.mem_cons_self).1 (by decide)
    · exact herror
  · have hfares := hreads again hagain
    rw [htimes'] at hfares
    refine hfares.ok_iff.mpr fun t ht => ?_
    obtain rfl := List.mem_singleton.mp ht
    exact ⟨by decide, by decide⟩

/-- A valid moment that crosses and cannot be read back, alone and as a variable. -/
theorem early_lost :
    Moment.isValid ⟨⟨1, 1, 1⟩, 0, 0, 0, 0, some 3600⟩ ∧
    (∃ e, Wire.encode .top early = .ok e ∧ Wire.decode e = .error (.shape .outOfRange)) ∧
    (exec (do
      let id ← Evaluator.create engine
      Evaluator.set engine id (.str "at") early
      Evaluator.set engine id (.str "n") (.int 1)) plainWorld).1 = .ok () ∧
    (exec (do
      let id ← Evaluator.create engine
      Evaluator.set engine id (.str "at") early
      Evaluator.set engine id (.str "n") (.int 1)
      Evaluator.vars engine id) plainWorld).1 = .error (.shape .outOfRange) := by
  refine ⟨by decide, ⟨_, rfl, ?_⟩, ?_, ?_⟩
  · cbv
  · cbv
  · cbv

end Scripted

end EngineHost
