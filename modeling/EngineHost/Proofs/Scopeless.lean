import EngineHost.Scripted.Engine

/-!
Evaluations of the scripted engine outside of all scopes. There is no function that could be called, so they
come to their end by themselves, in the state in which they began.
-/
namespace EngineHost.Scripted

variable {α β : Type} {P : α → Prop} {Q : β → Prop}

/-- What no scope is known to: neither a closure of a scope nor one over such a closure. -/
inductive Scopeless : Item → Prop where
  | value (v : Value) : Scopeless (.value v)
  | closure {params : List Value} {body : Expr} {env : Env} (henv : ∀ e ∈ env, Scopeless e.2) :
    Scopeless (.closure params body env none)

/-- An evaluation that changes nothing and asks nothing. -/
def Eval.Still (P : α → Prop) (x : Eval α) : Prop :=
  ∀ s, ∃ r, x s = .done r s ∧ ∀ a, r = .ok a → P a

namespace Eval.Still

theorem pure {a : α} (h : P a) : Still P (Pure.pure a : Eval α) := by
  intro s
  refine ⟨.ok a, rfl, ?_⟩
  intro b hb
  obtain rfl := Except.ok.inj hb
  exact h

theorem stop (why : Stop) : Still P (Eval.stop why) :=
  fun _ => ⟨.error why, rfl, nofun⟩

theorem failure (message : String) : Still P (Eval.failure message) :=
  stop _

theorem bind {x : Eval α} {f : α → Eval β} (hx : Still P x) (hf : ∀ a, P a → Still Q (f a)) :
    Still Q (x >>= f) := by
  intro s
  obtain ⟨r, hr, hP⟩ := hx s
  show ∃ r, (x s).andThen _ = .done r s ∧ ∀ b, r = Except.ok b → Q b
  rw [hr]
  cases r with
  | ok a => exact hf a (hP a rfl) s
  | error why => exact ⟨.error why, rfl, nofun⟩

/-- An action that leaves the state. -/
theorem ofAction {action : Action α} (h : ∀ s, (action.run.run s).2 = s) :
    Still (fun _ => True) (Eval.ofAction action) := by
  intro s
  have hs := h s
  rcases hrun : action.run s with ⟨r, s'⟩
  obtain rfl : s' = s := (congrArg Prod.snd hrun).symm.trans hs
  simp only [Eval.ofAction, hrun]
  cases r with
  | ok a => exact ⟨.ok a, rfl, fun _ _ => trivial⟩
  | error f => exact ⟨.error (.broken f), rfl, nofun⟩

theorem requireKey (key : Value) : Still (fun _ => True) (Eval.ofAction (Scripted.requireKey key)) := by
  refine ofAction fun s => ?_
  unfold Scripted.requireKey
  split <;> rfl

theorem plainValue (item : Item) : Still (fun _ => True) (Scripted.plainValue item) := by
  cases item with
  | value v => exact pure trivial
  | closure params body env scope => exact failure _

end Eval.Still

open Eval

theorem scopeless_find? {name : Value} {env : Env} {item : Item} (henv : ∀ e ∈ env, Scopeless e.2)
    (h : find? name env = some item) : Scopeless item := by
  obtain ⟨e, he, rfl⟩ := Option.map_eq_some_iff.mp h
  exact henv e (List.mem_of_find?_eq_some he)

/-- Whatever is done with a closure, applying it stays outside of all scopes. -/
def StillApplies (apply : Item → List Item → Eval Item) : Prop :=
  ∀ item args, Scopeless item → (∀ a ∈ args, Scopeless a) → Still Scopeless (apply item args)

section Expressions

variable {apply : Item → List Item → Eval Item} {env : Env}

mutual

theorem still_evalExpr (happly : StillApplies apply) (henv : ∀ e ∈ env, Scopeless e.2) (e : Expr) :
    Still Scopeless (evalExpr apply env none e) := by
  cases e with
  | const v => exact .pure (.value v)
  | var name =>
    rw [evalExpr]
    cases hfound : find? name env with
    | some item => exact .pure (scopeless_find? henv hfound)
    | none => exact .failure _
  | fail message => exact .failure message
  | list items => exact .bind (still_evalList happly henv items) fun _ _ => .pure (.value _)
  | record fields => exact .bind (still_evalFields happly henv fields) fun _ _ => .pure (.value _)
  | fn params body => exact .pure (.closure henv)
  | envelope answer => exact .stop _
  | call name args =>
    have hunknown : Still Scopeless (do
        match ← hostFunction? none name with
        | none => failure ("unknown function: " ++ name.text)
        | some (handle, known) => do
          let raw ← evalNamed apply env none handle args
          let now ← hostFunction? none name
          Item.value <$> (callHost (now.elim known Prod.snd) raw >>= hostAnswer)) :=
      fun _ => ⟨_, rfl, nofun⟩
    rw [evalExpr]
    cases hfound : find? name env with
    | none => exact hunknown
    | some item =>
      cases item with
      | value v => exact hunknown
      | closure params body captured home =>
        exact .bind (still_evalPositional happly henv args) fun items hitems =>
          happly _ items (scopeless_find? henv hfound) hitems
termination_by structural e

theorem still_evalList (happly : StillApplies apply) (henv : ∀ e ∈ env, Scopeless e.2) (es : List Expr) :
    Still (fun _ => True) (evalList apply env none es) := by
  cases es with
  | nil => exact .pure trivial
  | cons e rest =>
    have hfirst := Still.bind (still_evalExpr happly henv e) fun item _ => .plainValue item
    exact hfirst.bind fun _ _ => .bind (still_evalList happly henv rest) fun _ _ => .pure trivial
termination_by structural es

theorem still_evalFields (happly : StillApplies apply) (henv : ∀ e ∈ env, Scopeless e.2)
    (fields : List (Value × Expr)) : Still (fun _ => True) (evalFields apply env none fields) := by
  match fields with
  | [] => exact .pure trivial
  | (key, e) :: rest =>
    have hfirst := Still.bind (still_evalExpr happly henv e) fun item _ => .plainValue item
    exact hfirst.bind fun _ _ => .bind (.requireKey key) fun _ _ =>
      .bind (still_evalFields happly henv rest) fun _ _ => .pure trivial
termination_by structural fields

theorem still_evalPositional (happly : StillApplies apply) (henv : ∀ e ∈ env, Scopeless e.2)
    (args : List CallArg) :
    Still (fun items => ∀ a ∈ items, Scopeless a) (evalPositional apply env none args) := by
  match args with
  | [] => exact .pure (by simp)
  | .positional e :: rest | .named _ e :: rest =>
    refine .bind (still_evalExpr happly henv e) fun item hitem =>
      .bind (still_evalPositional happly henv rest) fun items hitems => ?_
    exact .pure (List.forall_mem_cons.mpr ⟨hitem, hitems⟩)
termination_by structural args

end

end Expressions

/-- Arguments hide the variables that a closure was made over. -/
theorem scopeless_bound {params : List Value} {args : List Item} {env : Env} (hargs : ∀ a ∈ args, Scopeless a)
    (henv : ∀ e ∈ env, Scopeless e.2) : ∀ e ∈ (params.zip args).reverse ++ env, Scopeless e.2 := by
  intro e he
  rcases List.mem_append.mp he with he | he
  · exact hargs e.2 (List.of_mem_zip (List.mem_reverse.mp he)).2
  · exact henv e he

theorem still_applyWithin (fuel : Nat) : StillApplies (applyWithin fuel) := by
  induction fuel with
  | zero => exact fun _ _ _ _ => .stop _
  | succ fuel ih =>
    intro item args hitem hargs
    cases hitem with
    | value v =>
      cases args with
      | nil => exact .pure (.value v)
      | cons a rest => exact .failure _
    | @closure params body env henv =>
      rw [applyWithin]
      split
      · exact still_evalExpr ih (scopeless_bound hargs henv) body
      · exact .failure _

theorem still_evalSource (source : Value) {env : Env} (henv : ∀ e ∈ env, Scopeless e.2) :
    Still Scopeless (evalSource source env none) := by
  have hget : Still (fun _ => True) (Eval.ofAction (get : Action State)) := .ofAction fun _ => rfl
  refine .bind (.requireKey source) fun _ _ => hget.bind fun s _ => ?_
  cases (find? source s.programs).bind Program.expr? with
  | some e => exact still_evalExpr (still_applyWithin maxNesting) henv e
  | none => exact .failure _

/-- The answer may be a new block, which is all that has changed. -/
theorem conclude_still {P : Item → Prop} {eval : Eval Item} (h : Still P eval) (s : State) :
    ∃ answer, conclude eval s = .done answer s ∨
      ∃ closure, conclude eval s = .done answer { s with
        nextHandle := s.nextHandle + 1
        blocks := s.blocks ++ [(.int s.nextHandle, closure)] } := by
  obtain ⟨r, hr, -⟩ := h s
  rw [conclude, hr]
  cases r with
  | ok item =>
    cases item with
    | value v => exact ⟨_, .inl rfl⟩
    | closure params body env scope => exact ⟨_, .inr ⟨_, rfl⟩⟩
  | error why => cases why <;> exact ⟨_, .inl rfl⟩

end EngineHost.Scripted
