import EngineHost.Proofs.Files

/-!
The smallest engine that files signatures: symbols are positions in one list of names, and every scope has
a list of what was filed, the latest first.
-/
namespace EngineHost

structure Cabinet where
  names : List Value
  /-- By scope: wire forms under their names. -/
  drawers : List (List (Value × Value))

namespace Cabinet

/-- The position of a name, or the next one. -/
def position (s : Cabinet) (name : Value) : Nat :=
  s.names.findIdx (·.equals name)

def learn (s : Cabinet) (name : Value) : Cabinet :=
  if s.position name < s.names.length then s else { s with names := s.names ++ [name] }

/-- With one more drawer. -/
def «open» (s : Cabinet) : Cabinet :=
  { s with drawers := s.drawers ++ [[]] }

def name? (s : Cabinet) : Value → Option Value
  | .int i => s.names[i.toNat]?
  | _ => none

def find? (s : Cabinet) (scope name : Value) : Option Value :=
  match scope with
  | .int i => (s.drawers[i.toNat]?).bind (Value.lookup? name)
  | _ => none

/-- With a wire form put in front of its drawer, if it has a name. -/
def file? (s : Cabinet) (scope wire : Value) : Option Cabinet :=
  match scope, (firstSymbol? wire).bind s.name? with
  | .int i, some name => some { s with drawers := s.drawers.modify i.toNat ((name, wire) :: ·) }
  | _, _ => none

def answer (result : Option Value) : EngineM Cabinet Value :=
  match result with
  | some v => pure v
  | none => throw (.shape .wrongKind)

def engine : Engine Cabinet where
  allocScope := modifyGet fun s => (.int s.drawers.length, s.open)
  dropScope _ := pure ()
  internSymbol _ name := modifyGet fun s => (.int (s.position name), s.learn name)
  lookupSymbol _ symbol := do answer ((← get).name? symbol)
  define scope wire _ := do
    match (← get).file? scope wire with
    | some s => set s
    | none => throw (.shape .wrongKind)
  getSignature scope name := do pure (((← get).find? scope name).getD .null)
  compile _ _ := answer none
  recompile _ _ := pure ()
  typeInfo _ := answer none
  evaluate _ _ := .done (.error (.shape .wrongKind))
  dropScript _ := pure ()
  callBlock _ _ := .done (.error (.shape .wrongKind))
  dropBlock _ := pure ()
  allocEvaluator := answer none
  dropEvaluator _ := pure ()
  evaluateSource _ _ _ := .done (.error (.shape .wrongKind))
  typeOf _ _ := answer none
  setVar _ _ _ := pure ()
  getVars _ := answer none

def files : Files Cabinet where
  valid s := ∀ n ∈ s.names, n.isText
  live s scope := ∃ k : Nat, scope = .int k ∧ k < s.drawers.length
  gave s _ name symbol := ∃ k : Nat, symbol = .int k ∧ s.names[k]? = some name
  stored := find?

section Laws

variable {s : Cabinet} {name : Value}

theorem position_known (h : files.valid s) (hlt : s.position name < s.names.length) :
    s.names[s.position name]? = some name := by
  have hequals : (s.names[s.position name]).equals name :=
    List.findIdx_getElem (p := fun n : Value => n.equals name) (w := hlt)
  have htext : (s.names[s.position name]).isText := h _ (List.getElem_mem hlt)
  rw [List.getElem?_eq_getElem hlt, (equals_text htext).mp hequals]

theorem learn_quiet (h : files.valid s) (hname : name.isText) : files.Quiet s (s.learn name) := by
  unfold learn
  split
  · exact .refl h
  · refine ⟨⟨?_, fun _ hlive => hlive, ?_⟩, fun _ _ => rfl⟩
    · intro n hn
      rcases List.mem_append.mp hn with hn | hn
      · exact h n hn
      · obtain rfl := List.mem_singleton.mp hn
        exact hname
    · intro scope n symbol hgave
      obtain ⟨k, rfl, hk⟩ := hgave
      refine ⟨k, rfl, ?_⟩
      rw [List.getElem?_append_left (List.getElem?_eq_some_iff.mp hk).1]
      exact hk

theorem learn_gave (h : files.valid s) (scope : Value) :
    files.gave (s.learn name) scope name (.int (s.position name)) := by
  refine ⟨s.position name, rfl, ?_⟩
  unfold learn
  split
  · next hlt => exact position_known h hlt
  · next hlt =>
    have hlast : s.position name = s.names.length :=
      Nat.le_antisymm List.findIdx_le_length (Nat.not_lt.mp hlt)
    rw [hlast]
    exact List.getElem?_concat_length

theorem find?_filed {scope wire first other : Value} {s' : Cabinet} (hlive : files.live s scope)
    (hfile : s.file? scope wire = some s') {symbol : Value} (hsymbol : firstSymbol? wire = some symbol)
    (hgave : files.gave s scope first symbol) :
    s'.find? scope other = if first.equals other then some wire else s.find? scope other := by
  obtain ⟨k, rfl, hk⟩ := hlive
  obtain ⟨j, rfl, hj⟩ := hgave
  have hname : (firstSymbol? wire).bind s.name? = some first := by
    rw [hsymbol]
    exact hj
  have hdrawers : s'.drawers = s.drawers.modify k ((first, wire) :: ·) := by
    simp only [file?, hname] at hfile
    obtain rfl := Option.some.inj hfile
    rfl
  have hget : s'.drawers[k]? = some ((first, wire) :: s.drawers[k]) := by
    rw [hdrawers, List.getElem?_modify_eq, List.getElem?_eq_getElem hk]
    rfl
  simp [find?, hget, List.getElem?_eq_getElem hk, Value.lookup?]

theorem file?_keeps {scope wire : Value} {s' : Cabinet} (h : files.valid s)
    (hfile : s.file? scope wire = some s') : files.Keeps s s' := by
  unfold file? at hfile
  split at hfile
  · obtain rfl := Option.some.inj hfile
    refine ⟨h, ?_, fun _ _ _ hgave => hgave⟩
    intro scope' hlive
    obtain ⟨k, rfl, hk⟩ := hlive
    exact ⟨k, rfl, by simpa using hk⟩
  · cases hfile

theorem open_keeps (h : files.valid s) : files.Keeps s s.open := by
  refine ⟨h, ?_, fun _ _ _ hgave => hgave⟩
  intro scope hlive
  obtain ⟨k, rfl, hk⟩ := hlive
  refine ⟨k, rfl, ?_⟩
  have hlength : s.open.drawers.length = s.drawers.length + 1 := by simp [Cabinet.open]
  omega

theorem open_live (s : Cabinet) : files.live s.open (.int s.drawers.length) :=
  ⟨s.drawers.length, rfl, by simp [Cabinet.open]⟩

theorem open_empty (s : Cabinet) (name : Value) : s.open.find? (.int s.drawers.length) name = none := by
  simp [find?, Cabinet.open, Value.lookup?]

theorem define_run (s : Cabinet) (scope wire : Value) (function : FunctionId) :
    (engine.define scope wire function).run.run s =
      match s.file? scope wire with
      | some s' => (.ok (), s')
      | none => (.error (.shape .wrongKind), s) := by
  show (match s.file? scope wire with
    | some s => (set s : EngineM Cabinet Unit)
    | none => throw (Failure.shape .wrongKind)).run.run s = _
  cases s.file? scope wire <;> rfl

/-- Filing under names is lawful. -/
theorem filing : Filing engine files fun v => v.isText where
  allocScope := by
    intro s h
    refine ⟨open_keeps h, ?_⟩
    intro scope hscope
    obtain rfl := Except.ok.inj hscope
    exact ⟨open_live s, open_empty s⟩
  internSymbol := by
    intro s scope name h _ hname
    refine ⟨learn_quiet h hname, ?_⟩
    intro symbol hsymbol
    obtain rfl := Except.ok.inj hsymbol
    exact ⟨⟨_, rfl⟩, learn_gave h scope⟩
  one_name := by
    intro s scope m n symbol _ hm _ hgave_m hgave_n
    obtain ⟨j, rfl, hj⟩ := hgave_m
    obtain ⟨k, hk, hn⟩ := hgave_n
    have hjk : j = k := Int.ofNat.inj (Value.int.inj hk)
    have hmn : m = n := by
      rw [hjk, hn] at hj
      exact (Option.some.inj hj).symm
    exact (equals_text hm).mpr hmn
  lookupSymbol := by
    intro s scope name symbol h _ hname hgave
    obtain ⟨k, rfl, hk⟩ := hgave
    have hanswer : (engine.lookupSymbol scope (.int k)).run.run s = (.ok name, s) := by
      have hfound : s.name? (.int k) = some name := hk
      show (answer (s.name? (.int k))).run.run s = _
      rw [hfound]
      rfl
    exact ⟨name, s, hanswer, .refl h, hname,
      (equals_text hname).mpr rfl⟩
  define := by
    intro s scope wire function h hlive
    rw [define_run]
    cases hfile : s.file? scope wire with
    | none => exact ⟨.refl h, fun _ => rfl⟩
    | some s' =>
      refine ⟨file?_keeps h hfile, ?_⟩
      intro symbol first hsymbol _ hgave name _
      exact find?_filed hlive hfile hsymbol hgave
  getSignature := by
    intro s scope name h _ _
    exact ⟨s, rfl, .refl h⟩

end Laws

end Cabinet

end EngineHost
