import Mathlib
import EngineHost.Proofs.Cabinet
import EngineHost.Proofs.Registration

/-!
Registration and look-up in one scope. Whatever a program defines there and in whatever order, at whatever
stage a definition fails and whatever aliases are added, a look-up answers the signature that the latest
successful definition of the name returned.
-/
namespace EngineHost

open Host

/-- A program that registers and looks up functions, up to the result it ends with. How it goes on after an
operation may depend on the outcome in any way; a failure goes on too. -/
inductive Registrar (S : Embedding) : Type → Type 1 where
  | done {α : Type} (result : α) : Registrar S α
  | abort {α : Type} (failure : Failure) : Registrar S α
  | defineType {α : Type} (name expr : Value) (next : Checked Ty → Registrar S α) : Registrar S α
  | declare {α : Type} (b : Builder S.Body) (step : BuildStep S.Body)
      (next : Checked (Builder S.Body) → Registrar S α) : Registrar S α
  /-- The function is declared by a program of its own. -/
  | define {α : Type} (build : Registrar S (Builder S.Body))
      (next : Checked Signature → Registrar S α) : Registrar S α
  | getSignature {α : Type} (name : Value) (next : Checked (Option Signature) → Registrar S α) :
      Registrar S α

/-- What a program gets to know of the functions in the scope. -/
inductive Note where
  | returned (signature : Signature)
  | answered (name : Value) (answer : Checked (Option Signature))

namespace Registrar

variable {S : Embedding}

def run {α : Type} (E : Engine S.State) (scope : ObjectId) : Registrar S α → Host S α
  | .done result => pure result
  | .abort failure => throw failure
  | .defineType name expr next => do
    let outcome ← attempt (Scope.defineType scope name expr)
    (next outcome).run E scope
  | .declare b step next => do
    let outcome ← attempt (Scope.declare scope b step)
    (next outcome).run E scope
  | .define build next => do
    let outcome ← attempt (Scope.define E scope (build.run E scope))
    (next outcome).run E scope
  | .getSignature name next => do
    let outcome ← attempt (Scope.getSignature E scope name)
    (next outcome).run E scope

/-- What is noted on the way, in the order in which the operations end. -/
def notes {α : Type} (E : Engine S.State) (scope : ObjectId) : Registrar S α → World S → List Note
  | .done _, _ => []
  | .abort _, _ => []
  | .defineType name expr next, w =>
    let (outcome, w') := exec (Scope.defineType scope name expr) w
    (next outcome).notes E scope w'
  | .declare b step next, w =>
    let (outcome, w') := exec (Scope.declare scope b step) w
    (next outcome).notes E scope w'
  | .define build next, w =>
    let (outcome, w') := exec (Scope.define E scope (build.run E scope)) w
    build.notes E scope w ++ (outcome.toOption.map Note.returned).toList ++
      (next outcome).notes E scope w'
  | .getSignature name next, w =>
    let (outcome, w') := exec (Scope.getSignature E scope name) w
    .answered name outcome :: (next outcome).notes E scope w'

/-- Names are names and expressions are proper; the types and declarations that a program uses are those
it was given. -/
def Proper (isName : Value → Prop) {α : Type} (given : α → Prop) : Registrar S α → Prop
  | .done result => given result
  | .abort _ => True
  | .defineType _ expr next =>
    expr.Proper ∧ ∀ outcome, (∀ t, outcome = .ok t → t.Regular) → (next outcome).Proper isName given
  | .declare b step next =>
    b.Regular isName ∧ step.Proper isName ∧ ∀ outcome,
      (∀ b', outcome = .ok b' → b'.Regular isName) → (next outcome).Proper isName given
  | .define build next =>
    build.Proper isName (fun b => b.Regular isName) ∧ ∀ outcome,
      (∀ s, outcome = .ok s → s.Regular isName) → (next outcome).Proper isName given
  | .getSignature name next =>
    isName name ∧ ∀ outcome, (∀ s, outcome = .ok (some s) → s.Regular isName) →
      (next outcome).Proper isName given

end Registrar

def Note.returned? : Note → Option Signature
  | .returned s => some s
  | .answered _ _ => none

/-- The latest signature of a name that a definition returned. -/
def latest? (past : List Note) (name : Value) : Option Signature :=
  (past.filterMap Note.returned?).reverse.find? fun s => s.name?.any (·.equals name)

theorem latest?_returned (past : List Note) (s : Signature) :
    latest? (past ++ [.returned s]) = s.over (latest? past) := by
  funext name
  simp only [latest?, Signature.over, List.filterMap_append, List.filterMap_cons, Note.returned?,
    List.filterMap_nil, List.reverse_append, List.reverse_cons, List.reverse_nil, List.nil_append,
    List.cons_append, List.find?_cons]
  split <;> simp_all

theorem latest?_answered (past : List Note) (name : Value) (answer : Checked (Option Signature)) :
    latest? (past ++ [.answered name answer]) = latest? past := by
  funext name'
  simp only [latest?, List.filterMap_append, List.filterMap_cons, Note.returned?, List.filterMap_nil,
    List.append_nil]

/-- Every look-up that is noted answered the latest signature of its time. -/
def Right : List Note → List Note → Prop
  | _, [] => True
  | past, .returned s :: rest => Right (past ++ [.returned s]) rest
  | past, .answered name answer :: rest =>
    Fulfils (latest? past name) answer ∧ Right (past ++ [.answered name answer]) rest

theorem right_append (xs : List Note) :
    ∀ past ys, Right past (xs ++ ys) ↔ Right past xs ∧ Right (past ++ xs) ys := by
  induction xs with
  | nil => simp [Right]
  | cons x xs ih =>
    intro past ys
    have happend : past ++ x :: xs = past ++ [x] ++ xs := by simp
    cases x with
    | returned s => rw [List.cons_append, Right, Right, ih, happend]
    | answered name answer => rw [List.cons_append, Right, Right, ih, happend, and_assoc]

section

variable {S : Embedding} {E : Engine S.State} {F : Files S.State} {isName : Value → Prop}
  {id : ObjectId} {handle : Value} {α : Type} {w : World S}

variable (E F isName id handle) in
/-- What a program leaves after a past, if it started in step with it: it ends in step with all that is
noted, with a result as promised, and every look-up on the way was right. -/
structure Accords (past notes : List Note) (given : α → Prop) (p : Except Failure α × World S) :
    Prop where
  tracks : Tracks F isName id handle (latest? (past ++ notes)) p.2
  given : ∀ a, p.1 = .ok a → given a
  right : Right past notes

theorem Accords.after {past before notes : List Note} {given : α → Prop}
    {p : Except Failure α × World S} (hbefore : Right past before)
    (h : Accords F isName id handle (past ++ before) notes given p) :
    Accords F isName id handle past (before ++ notes) given p where
  tracks := by
    rw [← List.append_assoc]
    exact h.tracks
  given := h.given
  right := (right_append before past notes).mpr ⟨hbefore, h.right⟩

/-- Programs stay in step: by induction on the program, with every operation that it can start with. -/
theorem Registrar.accords (hE : Filing E F isName) (hN : Naming isName) {α : Type}
    (p : Registrar S α) :
    ∀ (given : α → Prop) (past : List Note) (w : World S), p.Proper isName given →
      Tracks F isName id handle (latest? past) w →
      Accords F isName id handle past (p.notes E id w) given (exec (p.run E id) w) := by
  induction p with
  | done result =>
    intro given past w hp h
    refine ⟨?_, ?_, trivial⟩
    · rw [notes, List.append_nil]
      exact h
    · intro a ha
      obtain rfl := Except.ok.inj ha
      exact hp
  | abort failure =>
    intro given past w hp h
    refine ⟨?_, ?_, trivial⟩
    · rw [notes, List.append_nil]
      exact h
    · intro a ha
      cases ha
  | defineType name expr next ih =>
    intro given past w hp h
    have hleaves : Leaves F isName id handle (latest? past) (fun (t : Ty) _ => t.Regular) w
        (exec (Scope.defineType id name expr) w) := .defineType hp.1 h
    cases hx : exec (Scope.defineType id name expr) w with
    | mk outcome w' =>
      rw [hx] at hleaves
      simp only [notes, run, exec_bind, exec_attempt, hx]
      exact ih outcome given past w' (hp.2 outcome hleaves.given) hleaves.tracks
  | declare b step next ih =>
    intro given past w hp h
    have hleaves := Leaves.declare hp.1 hp.2.1 h
    cases hx : exec (Scope.declare id b step) w with
    | mk outcome w' =>
      rw [hx] at hleaves
      simp only [notes, run, exec_bind, exec_attempt, hx]
      exact ih outcome given past w' (hp.2.2 outcome hleaves.given) hleaves.tracks
  | define build next ihb ih =>
    intro given past w hp h
    obtain ⟨n, hn, hhandle, _⟩ := h.node
    have hbuild := ihb (fun b => b.Regular isName) past w hp.1 h
    have hdefines := defines_define hE hN hn hhandle hbuild.tracks hbuild.given
    cases hx : exec (Scope.define E id (build.run E id)) w with
    | mk outcome w' =>
      rw [hx] at hdefines
      simp only [notes, run, exec_bind, exec_attempt, hx]
      rw [List.append_assoc]
      refine Accords.after hbuild.right ?_
      cases outcome with
      | error f => exact ih (.error f) given _ w' (hp.2 _ (by simp)) hdefines
      | ok s =>
        obtain ⟨hs, htracks⟩ := hdefines
        have hone : Right (past ++ build.notes E id w) [.returned s] := trivial
        show Accords F isName id handle _ ([.returned s] ++ (next (.ok s)).notes E id w') given _
        refine Accords.after hone ?_
        refine ih (.ok s) given _ w' (hp.2 _ ?_) ?_
        · intro s' hs'
          obtain rfl := Except.ok.inj hs'
          exact hs
        · rw [latest?_returned]
          exact htracks
  | getSignature name next ih =>
    intro given past w hp h
    obtain ⟨answer, w', hx, htracks, _, hregular, hanswers⟩ := exec_getSignature hE hN hp.1 h
    simp only [notes, run, exec_bind, exec_attempt, hx]
    have hone : Right past [.answered name (.ok answer)] := ⟨hanswers, trivial⟩
    refine Accords.after hone ?_
    refine ih (.ok answer) given _ w' (hp.2 _ ?_) ?_
    · intro s hs
      exact hregular s (Except.ok.inj hs)
    · rw [latest?_answered]
      exact htracks

theorem isLive_of_checkLive {n : Node} (hn : w.nodes[id]? = some n)
    (h : (exec (checkLive id) w).1 = .ok ()) : n.isLive := by
  by_contra hdead
  rw [exec_checkLive_dead hn (Bool.eq_false_iff.mpr hdead)] at h
  cases h

/-- A new scope that is live is in step with an empty past. -/
theorem tracks_create (hE : Filing E F isName) {w₀ : World S} (hvalid : F.valid w₀.engine)
    (hcreate : exec (Scope.create E) w₀ = (.ok id, w))
    (hlive : (exec (checkLive id) w).1 = .ok ()) :
    ∃ handle, Tracks F isName id handle (latest? []) w := by
  have hlaw := hE.allocScope w₀.engine hvalid
  unfold Scope.create at hcreate
  simp only [exec_bind, exec_onEngine] at hcreate
  cases hp : E.allocScope.run.run w₀.engine with
  | mk outcome s' =>
    rw [hp] at hlaw hcreate
    obtain ⟨hkeeps, hnew⟩ := hlaw
    cases outcome with
    | error f => cases hcreate
    | ok handle =>
      obtain ⟨hlive_handle, hempty⟩ := hnew handle rfl
      simp only [exec_addNode, exec_write, exec_pure] at hcreate
      obtain ⟨hid, rfl⟩ := Prod.mk.inj hcreate
      obtain rfl := Except.ok.inj hid
      have hnode : (w₀.nodes ++ [(⟨.scope handle .empty .empty, handleOf handle, []⟩ : Node)])[
          w₀.nodes.length]? = some ⟨.scope handle .empty .empty, handleOf handle, []⟩ := by simp
      have hhandle : handleOf handle = some handle := by
        have hisLive := isLive_of_checkLive (w := { w₀ with nodes := _, engine := s', log := _ }) hnode hlive
        cases handle with
        | null => cases hisLive
        | _ => rfl
      refine ⟨handle, hkeeps.valid, hlive_handle, ⟨_, hnode, hhandle, .empty, .empty, rfl, ?_, ?_⟩, ?_⟩
      · intro a ha
        cases ha
      · exact SymbolTable.consistent_empty
      · intro name _
        rw [hempty name]
        trivial

/-- In a live scope, whatever a program registers there: every look-up on the way, and every one after it,
answers the signature that the latest successful definition of the name returned, or none. -/
theorem lookup_answers_latest (hE : Filing E F isName) (hN : Naming isName) {w₀ : World S}
    (hvalid : F.valid w₀.engine) (hcreate : exec (Scope.create E) w₀ = (.ok id, w))
    (hlive : (exec (checkLive id) w).1 = .ok ()) (p : Registrar S α)
    (hp : p.Proper isName fun _ => True) :
    (∀ before name answer rest, p.notes E id w = before ++ .answered name answer :: rest →
        Fulfils (latest? before name) answer) ∧
      ∀ name, isName name → Fulfils (latest? (p.notes E id w) name)
        (exec (Scope.getSignature E id name) (exec (p.run E id) w).2).1 := by
  obtain ⟨handle, htracks⟩ := tracks_create hE hvalid hcreate hlive
  have haccords := p.accords hE hN (fun _ => True) [] w hp htracks
  constructor
  · intro before name answer rest hnotes
    have hright := haccords.right
    rw [hnotes, right_append] at hright
    exact hright.2.1
  · intro name hname
    obtain ⟨answer, w', hexec, _, _, _, hanswers⟩ := exec_getSignature hE hN hname haccords.tracks
    rw [hexec]
    exact hanswers

end

section Programs

/-- Programs over a cabinet that keep nothing and know one body. -/
abbrev Cabinet.embedding : Embedding := ⟨Cabinet, Unit, Unit⟩

def Cabinet.outset : World Cabinet.embedding := ⟨[], [], [], ⟨[], []⟩, (), []⟩

theorem Cabinet.valid_outset : Cabinet.files.valid Cabinet.outset.engine := by
  intro n hn
  cases hn

/-- With a first scope. -/
def Cabinet.start : World Cabinet.embedding := (exec (Scope.create Cabinet.engine) Cabinet.outset).2

/-- Declares a function of one argument and goes on with the outcome of its definition. -/
def Registrar.defineOne (name expr : Value) {α : Type}
    (next : Checked Signature → Registrar Cabinet.embedding α) : Registrar Cabinet.embedding α :=
  .define
    (.declare .empty (.declare name expr true false) fun
      | .error f => .abort f
      | .ok b => .declare b (.returns (.str "number")) fun
        | .error f => .abort f
        | .ok b => .declare b (.implement (some (.function ()))) fun
          | .error f => .abort f
          | .ok b => .done b)
    next

theorem Registrar.defineOne_proper {isName : Value → Prop} {α : Type} {name expr : Value}
    {next : Checked Signature → Registrar Cabinet.embedding α} {given : α → Prop}
    (hname : isName name) (hexpr : expr.Proper)
    (hnext : ∀ outcome, (next outcome).Proper isName given) :
    (Registrar.defineOne name expr next).Proper isName given := by
  refine ⟨⟨Builder.regular_empty, ⟨hname, hexpr⟩, ?_⟩, fun outcome _ => hnext outcome⟩
  intro outcome hb
  cases outcome with
  | error f => trivial
  | ok b =>
    refine ⟨hb b rfl, trivial, ?_⟩
    intro outcome hb
    cases outcome with
    | error f => trivial
    | ok b =>
      refine ⟨hb b rfl, trivial, ?_⟩
      intro outcome hb
      cases outcome with
      | error f => trivial
      | ok b => exact hb b rfl

/-- Defines a function under an alias and again as another, fails to define anything, adds an alias and
looks the function up. -/
def Registrar.redefining : Registrar Cabinet.embedding Unit :=
  .defineType (.str "P") (.recordOf [(.str "x", .str "number")] (.bool true)) fun _ =>
    .defineOne (.str "f") (.listOf (.str "P")) fun _ =>
      .defineOne (.str "f") (.variable (.str "a")) fun _ =>
        .define (.done .empty) fun _ =>
          .defineType (.str "a") (.str "string") fun _ =>
            .getSignature (.str "f") fun _ => .done ()

theorem Registrar.redefining_proper :
    redefining.Proper (fun v => v.isText) fun _ => True := by
  refine ⟨⟨⟨trivial, trivial⟩, true, rfl⟩, fun _ _ => ?_⟩
  refine defineOne_proper rfl trivial fun _ => ?_
  refine defineOne_proper rfl rfl fun _ => ?_
  refine ⟨Builder.regular_empty, fun _ _ => ?_⟩
  exact ⟨trivial, fun _ _ => ⟨rfl, fun _ _ => trivial⟩⟩

theorem lookup_answers_latest_redefining :
    Filing Cabinet.engine Cabinet.files (fun v => v.isText) ∧ Naming (fun v => v.isText) ∧
      Cabinet.files.valid Cabinet.outset.engine ∧
      exec (Scope.create Cabinet.engine) Cabinet.outset = (.ok 0, Cabinet.start) ∧
      (exec (checkLive 0) Cabinet.start).1 = .ok () ∧
      Registrar.redefining.Proper (fun v => v.isText) (fun _ => True) ∧
      Fulfils (latest? (Registrar.redefining.notes Cabinet.engine 0 Cabinet.start) (.str "f"))
        (exec (Scope.getSignature Cabinet.engine 0 (.str "f"))
          (exec (Registrar.redefining.run Cabinet.engine 0) Cabinet.start).2).1 :=
  ⟨Cabinet.filing, naming_text, Cabinet.valid_outset, rfl, rfl, Registrar.redefining_proper,
    (lookup_answers_latest Cabinet.filing naming_text Cabinet.valid_outset rfl rfl
      Registrar.redefining Registrar.redefining_proper).2 (.str "f") rfl⟩

/-- Defines a function of a record that is marked as open by some value, then looks it up. -/
def Registrar.markedBy (extensible : Value) : Registrar Cabinet.embedding Unit :=
  .defineOne (.str "f") (.recordOf [(.str "x", .str "number")] extensible) fun _ =>
    .getSignature (.str "f") fun _ => .done ()

def Signature.markedBy (extensible : Value) : Signature :=
  ⟨[⟨.str "f", .record [(.str "x", .mk (.primitive .number) (.bool false))] extensible, true, false⟩],
    .primitive .number, false⟩

/-- A record that is marked as open by a text is looked up as one that is marked by a boolean. -/
theorem answers_other_mark :
    Filing Cabinet.engine Cabinet.files (fun v => v.isText) ∧
    (Registrar.markedBy (.str "yes")).notes Cabinet.engine 0 Cabinet.start =
      [.returned (.markedBy (.str "yes")),
        .answered (.str "f") (.ok (some (.markedBy (.bool true))))] ∧
    (Signature.markedBy (.bool true)).equals (.markedBy (.str "yes")) = false := by
  refine ⟨Cabinet.filing, ?_, ?_⟩
  · cbv
  · cbv

end Programs

end EngineHost
