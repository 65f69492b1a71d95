import Mathlib.Data.Set.Function
import Mathlib.Logic.Function.Basic
import EngineHost.Host.Operations
import EngineHost.Proofs.Execution

/-!
Programs that share an engine, each with a namespace of its own. A program knows its namespace and the
scripts it has compiled there, and asks one operation after the other; `together` serves the requests of
several programs in the order in which they come.
-/
namespace EngineHost

/-! ### Failures and the objects they mention -/

namespace Value

mutual

/-- Somewhere inside is an object of this sort. -/
def mentions (p : ObjectRef → Bool) : Value → Bool
  | .object ref => p ref
  | .list items => mentionsInList p items
  | .tuple items => mentionsInList p items
  | .mapping _ entries => mentionsInEntries p entries
  | .data _ fields => mentionsInFields p fields
  | .listOf element => mentions p element
  | .variable name => mentions p name
  | .blockOf params returns => mentionsInList p params || mentions p returns
  | .fieldSpec expr _ => mentions p expr
  | .recordOf fields extensible => mentionsInEntries p fields || mentions p extensible
  | .type t => mentionsInType p t
  | .null | .bool _ | .int _ | .float _ | .str _ | .letters _ | .moment _ | .date _ | .foreign _ => false

def mentionsInList (p : ObjectRef → Bool) : List Value → Bool
  | [] => false
  | v :: rest => mentions p v || mentionsInList p rest

def mentionsInEntries (p : ObjectRef → Bool) : List (Value × Value) → Bool
  | [] => false
  | (k, v) :: rest => mentions p k || mentions p v || mentionsInEntries p rest

def mentionsInFields (p : ObjectRef → Bool) : List (String × Value) → Bool
  | [] => false
  | (_, v) :: rest => mentions p v || mentionsInFields p rest

def mentionsInType (p : ObjectRef → Bool) : Ty → Bool
  | .primitive _ => false
  | .variable name => mentions p name
  | .list element => mentionsInType p element
  | .record fields extensible => mentionsInTypeFields p fields || mentions p extensible
  | .block params returns => mentionsInTypes p params || mentionsInType p returns

def mentionsInTypes (p : ObjectRef → Bool) : List Ty → Bool
  | [] => false
  | t :: rest => mentionsInType p t || mentionsInTypes p rest

def mentionsInTypeFields (p : ObjectRef → Bool) : List (Value × Field) → Bool
  | [] => false
  | (k, .mk t isOptional) :: rest =>
    mentions p k || mentionsInType p t || mentions p isOptional || mentionsInTypeFields p rest

end

section
variable {p : ObjectRef → Bool} {f g : ObjectRef → Value}

mutual

/-- Two ways of replacing objects agree on a value if they agree on the objects in it. -/
theorem replaceObjects_congr (h : ∀ ref, p ref = false → f ref = g ref) :
    ∀ v : Value, v.mentions p = false → v.replaceObjects f = v.replaceObjects g
  | .object ref, hv => h ref hv
  | .list items, hv => congrArg Value.list (replaceInList_congr h items hv)
  | .tuple items, hv => congrArg Value.tuple (replaceInList_congr h items hv)
  | .mapping kind entries, hv => congrArg (Value.mapping kind) (replaceInEntries_congr h entries hv)
  | .data name fields, hv => congrArg (Value.data name) (replaceInFields_congr h fields hv)
  | .listOf element, hv => congrArg Value.listOf (replaceObjects_congr h element hv)
  | .variable name, hv => congrArg Value.variable (replaceObjects_congr h name hv)
  | .blockOf params returns, hv =>
    have hv := Bool.or_eq_false_iff.mp hv
    congrArg₂ Value.blockOf (replaceInList_congr h params hv.1) (replaceObjects_congr h returns hv.2)
  | .fieldSpec expr isOptional, hv =>
    congrArg (Value.fieldSpec · isOptional) (replaceObjects_congr h expr hv)
  | .recordOf fields extensible, hv =>
    have hv := Bool.or_eq_false_iff.mp hv
    congrArg₂ Value.recordOf (replaceInEntries_congr h fields hv.1) (replaceObjects_congr h extensible hv.2)
  | .type t, hv => congrArg Value.type (replaceInType_congr h t hv)
  | .null, _ | .bool _, _ | .int _, _ | .float _, _ | .str _, _ | .letters _, _ | .moment _, _ | .date _, _
  | .foreign _, _ => rfl

theorem replaceInList_congr (h : ∀ ref, p ref = false → f ref = g ref) :
    ∀ vs : List Value, mentionsInList p vs = false → replaceInList f vs = replaceInList g vs
  | [], _ => rfl
  | v :: rest, hv =>
    have hv := Bool.or_eq_false_iff.mp hv
    congrArg₂ List.cons (replaceObjects_congr h v hv.1) (replaceInList_congr h rest hv.2)

theorem replaceInEntries_congr (h : ∀ ref, p ref = false → f ref = g ref) :
    ∀ es : List (Value × Value),
    mentionsInEntries p es = false → replaceInEntries f es = replaceInEntries g es
  | [], _ => rfl
  | (k, v) :: rest, hv =>
    have hv := Bool.or_eq_false_iff.mp hv
    have hkv := Bool.or_eq_false_iff.mp hv.1
    congrArg₂ List.cons
      (congrArg₂ Prod.mk (replaceObjects_congr h k hkv.1) (replaceObjects_congr h v hkv.2))
      (replaceInEntries_congr h rest hv.2)

theorem replaceInFields_congr (h : ∀ ref, p ref = false → f ref = g ref) :
    ∀ fs : List (String × Value),
    mentionsInFields p fs = false → replaceInFields f fs = replaceInFields g fs
  | [], _ => rfl
  | (k, v) :: rest, hv =>
    have hv := Bool.or_eq_false_iff.mp hv
    congrArg₂ List.cons (congrArg (Prod.mk k) (replaceObjects_congr h v hv.1))
      (replaceInFields_congr h rest hv.2)

theorem replaceInType_congr (h : ∀ ref, p ref = false → f ref = g ref) :
    ∀ t : Ty, mentionsInType p t = false → replaceInType f t = replaceInType g t
  | .primitive _, _ => rfl
  | .variable name, hv => congrArg Ty.variable (replaceObjects_congr h name hv)
  | .list element, hv => congrArg Ty.list (replaceInType_congr h element hv)
  | .record fields extensible, hv =>
    have hv := Bool.or_eq_false_iff.mp hv
    congrArg₂ Ty.record (replaceInTypeFields_congr h fields hv.1) (replaceObjects_congr h extensible hv.2)
  | .block params returns, hv =>
    have hv := Bool.or_eq_false_iff.mp hv
    congrArg₂ Ty.block (replaceInTypes_congr h params hv.1) (replaceInType_congr h returns hv.2)

theorem replaceInTypes_congr (h : ∀ ref, p ref = false → f ref = g ref) :
    ∀ ts : List Ty, mentionsInTypes p ts = false → replaceInTypes f ts = replaceInTypes g ts
  | [], _ => rfl
  | t :: rest, hv =>
    have hv := Bool.or_eq_false_iff.mp hv
    congrArg₂ List.cons (replaceInType_congr h t hv.1) (replaceInTypes_congr h rest hv.2)

theorem replaceInTypeFields_congr (h : ∀ ref, p ref = false → f ref = g ref) :
    ∀ fs : List (Value × Field),
    mentionsInTypeFields p fs = false → replaceInTypeFields f fs = replaceInTypeFields g fs
  | [], _ => rfl
  | (k, .mk t isOptional) :: rest, hv =>
    have hv := Bool.or_eq_false_iff.mp hv
    have hkto := Bool.or_eq_false_iff.mp hv.1
    have hkt := Bool.or_eq_false_iff.mp hkto.1
    congrArg₂ List.cons
      (congrArg₂ Prod.mk (replaceObjects_congr h k hkt.1)
        (congrArg₂ Field.mk (replaceInType_congr h t hkt.2) (replaceObjects_congr h isOptional hkto.2)))
      (replaceInTypeFields_congr h rest hv.2)

end

end

end Value

/-- A callback or the arguments of a call: what is shown of these changes with their state. -/
def ObjectRef.isVolatile (ref : ObjectRef) : Bool :=
  ref.className == "Block" || ref.className == "Args"

/-- The values that an error shows, an engine's message apart. -/
def HostError.values : HostError → List Value
  | .invalidValue value _ => [value]
  | .invalidRecordKey key _ => [key]
  | .malformedWire value => [value]
  | .unknownType expr => [expr]
  | .duplicateAlias name => [name]
  | .builder function (.declaredTwice argument) => [function, argument]
  | .builder function _ => [function]
  | .missingArgument name => [name]
  | .unknownArgument name function => [name, function]
  | .useAfterDestroy _ | .engine _ | .configuration _ => []

theorem HostError.mapValues_congr {f g : Value → Value} {e : HostError} (h : ∀ v ∈ e.values, f v = g v) :
    e.mapValues f = e.mapValues g := by
  cases e with
  | builder function problem => cases problem <;> simp_all [HostError.values, HostError.mapValues]
  | _ => simp_all [HostError.values, HostError.mapValues]

namespace Failure

/-- What it says depends on the state of some object. -/
def isVolatile : Failure → Bool
  | .host e => e.values.any (·.mentions ObjectRef.isVolatile)
  | _ => false

/-- As it is raised in a world: with its objects as they are then. -/
def shownIn {S : Embedding} (w : World S) : Failure → Failure
  | .host e => .host (e.mapValues (Host.reveal w))
  | other => other

end Failure

namespace Host

variable {S : Embedding} {α : Type}

theorem exec_fail_shown (f : Failure) (w : World S) :
    exec (fail f : Host S α) w = (.error (f.shownIn w), w) := by
  cases f <;> rfl

theorem exec_check_error (f : Failure) (w : World S) :
    exec (check (.error f : Checked α) : Host S α) w = (.error (f.shownIn w), w) :=
  exec_fail_shown f w

/-- All objects but callbacks and arguments look the same in every world. -/
theorem showObject_steady (w u : World S) {ref : ObjectRef} (h : ref.isVolatile = false) :
    showObject w ref = showObject u ref := by
  obtain ⟨hblock, hargs⟩ : ref.className ≠ "Block" ∧ ref.className ≠ "Args" := by
    simpa [ObjectRef.isVolatile] using h
  have hplain : ∀ v : World S, showObject v ref =
      .foreign ⟨ref.id, ref.className, "<" ++ ref.className ++ " object>", false, true⟩ := by
    intro v
    simp only [showObject, showWithin]
    split
    · exact absurd ‹_› hblock
    · exact absurd ‹_› hargs
    · rfl
  rw [hplain w, hplain u]

end Host

theorem Failure.shownIn_steady {S : Embedding} (w u : World S) {f : Failure} (h : f.isVolatile = false) :
    f.shownIn w = f.shownIn u := by
  cases f with
  | host e =>
    refine congrArg Failure.host (HostError.mapValues_congr fun v hv => ?_)
    have hvalue : v.mentions ObjectRef.isVolatile = false := by
      have hall := List.any_eq_false.mp h v hv
      simpa using hall
    exact Value.replaceObjects_congr (fun ref href => Host.showObject_steady w u href) v hvalue
  | _ => rfl

/-! ### Operations on a namespace -/

/-- What a declaration does with its builder, call by call. What a call fails with may be caught. -/
inductive Build (β : Type) where
  | finish
  | raise (f : Failure)
  | call (step : BuildStep β) (taken : Build β) (refused : Failure → Build β)

/-- An operation on a namespace. A script goes by how many were compiled before it. -/
inductive Errand (β : Type) where
  | defineType (name expr : Value)
  | define (build : Build β)
  | getSignature (name : Value)
  | compile (source : Value)
  | source (k : Nat)
  | scripts
  | destroyScript (k : Nat)
  | destroy

inductive Answer where
  | type (t : Ty)
  | signature (s : Option Signature)
  | script (k : Nat)
  | source (v : Value)
  | scripts (ks : List Nat)
  | done

/-- A program's namespace, and the scripts it has compiled in it, destroyed ones too. -/
structure Tenant where
  scope : ObjectId
  made : List ObjectId

namespace Host

variable {S : Embedding}

def Build.run (id : ObjectId) : Build S.Body → Builder S.Body → Host S (Builder S.Body)
  | .finish, b => pure b
  | .raise f, _ => fail f
  | .call step taken refused, b => do
    match b.step (← Scope.typesOf id) step with
    | .ok b => Build.run id taken b
    | .error f => Build.run id (refused f) b

end Host

open Host

variable {S : Embedding}

namespace Build

/-- The declaration that makes some calls and catches nothing. -/
def ofSteps {β : Type} (steps : List (BuildStep β)) : Build β :=
  steps.foldr (fun step rest => .call step rest .raise) .finish

theorem run_ofSteps (id : ObjectId) (steps : List (BuildStep S.Body)) (b : Builder S.Body) (w : World S) :
    exec (Build.run id (ofSteps steps) b) w = exec (steps.foldlM (Scope.declare id) b) w := by
  induction steps generalizing b w with
  | nil => rfl
  | cons step rest ih =>
    rw [List.foldlM_cons, show ofSteps (step :: rest) = .call step (ofSteps rest) .raise from rfl,
      Build.run, Scope.declare, exec_bind, exec_bind, exec_bind]
    rcases exec (Scope.typesOf id) w with ⟨r, w'⟩
    cases r with
    | error f => rfl
    | ok types =>
      cases hstep : b.step types step with
      | ok b' => simp only [hstep, exec_check_ok, ih]
      | error f => simp only [hstep, exec_check_error, Build.run, exec_fail_shown]

end Build

namespace Tenant

/-- A script by its number. -/
def script (t : Tenant) (k : Nat) : Host S ObjectId :=
  match t.made[k]? with
  | some id => pure id
  | none => fail (.shape .emptySequence)

/-- The answer to an operation, and the program after it. -/
def perform (E : Engine S.State) (t : Tenant) : Errand S.Body → Host S (Answer × Tenant)
  | .defineType name expr => do
    return (.type (← Scope.defineType t.scope name expr), t)
  | .define build => do
    return (.signature (some (← Scope.define E t.scope (Build.run t.scope build .empty))), t)
  | .getSignature name => do
    return (.signature (← Scope.getSignature E t.scope name), t)
  | .compile source => do
    let id ← Scope.compile E t.scope source
    return (.script t.made.length, { t with made := t.made ++ [id] })
  | .source k => do
    let (_, source) ← Script.scriptOf (← t.script k)
    return (.source source, t)
  | .scripts => do
    return (.scripts ((← Scope.scripts t.scope).map t.made.idxOf), t)
  | .destroyScript k => do
    Host.destroy E (← t.script k)
    return (.done, t)
  | .destroy => do
    Host.destroy E t.scope
    return (.done, t)

/-- What an operation comes to. One that fails leaves the program as it was, but not always the world. -/
def ask (E : Engine S.State) (t : Tenant) (op : Errand S.Body) (w : World S) :
    Except Failure Answer × Tenant × World S :=
  match exec (t.perform E op) w with
  | (.ok (answer, t'), w') => (.ok answer, t', w')
  | (.error f, w') => (.error f, t, w')

/-- One program by itself: what its operations come to. -/
def alone (E : Engine S.State) (t : Tenant) :
    List (Errand S.Body) → World S → List (Except Failure Answer) × Tenant × World S
  | [], w => ([], t, w)
  | op :: rest, w =>
    let (outcome, t, w) := t.ask E op w
    let (outcomes, t, w) := alone E t rest w
    (outcome :: outcomes, t, w)

end Tenant

section Sharing

variable {ι : Type} [DecidableEq ι]

/-- What belongs to one of those that take turns. -/
def turnsOf {α : Type} (i : ι) (turns : List (ι × α)) : List α :=
  turns.filterMap fun (j, a) => if j = i then some a else none

/-- Several programs that take turns: what their operations come to. -/
def together (E : Engine S.State) (tenants : ι → Tenant) :
    List (ι × Errand S.Body) → World S → List (ι × Except Failure Answer) × (ι → Tenant) × World S
  | [], w => ([], tenants, w)
  | (i, op) :: rest, w =>
    let (outcome, t, w) := (tenants i).ask E op w
    let (outcomes, tenants, w) := together E (Function.update tenants i t) rest w
    ((i, outcome) :: outcomes, tenants, w)

end Sharing

/-! ### What there is to compare -/

/-- What can be seen of a program's namespace apart from numbers of objects and handles. -/
structure Appearance where
  isLive : Bool
  aliases : List (Value × Ty)
  ids : List (Value × Value)
  names : List (Value × Value)
  /-- By their order: the source of each script, and whether the script is live. -/
  made : List (Value × Bool)
  /-- The scripts that the namespace owns. -/
  owned : List Nat

namespace Tenant

/-- The source of a script, and whether the script is live. -/
def scriptAppearance? (w : World S) (id : ObjectId) : Option (Value × Bool) := do
  let n ← w.nodes[id]?
  match n.role with
  | .script _ source => some (source, n.handle.isSome)
  | _ => none

def appearance? (t : Tenant) (w : World S) : Option Appearance := do
  let n ← w.nodes[t.scope]?
  match n.role with
  | .scope _ types symbols =>
    let made ← t.made.mapM (scriptAppearance? w)
    some ⟨n.handle.isSome, types.aliases, symbols.ids, symbols.names, made, n.scripts.map t.made.idxOf⟩
  | _ => none

/-- By their order: the handle of each script that is live. -/
def handles (t : Tenant) (w : World S) : List (Option Value) :=
  t.made.map fun id => (w.nodes[id]?).bind Node.handle

end Tenant

/-- The same handles under other names, different ones under different names. -/
def Renamed (xs ys : List (Option Value)) : Prop :=
  ∃ rename : Value → Value, Set.InjOn rename {h | some h ∈ ys} ∧ xs = ys.map (Option.map rename)

/-- The same outcome. An error that mentions a callback or the arguments of a call is the same error also
when these have come to look different. -/
inductive Alike (S : Embedding) {α : Type} : Except Failure α → Except Failure α → Prop where
  | same (outcome : Except Failure α) : Alike S outcome outcome
  | shown (f : Failure) (hvolatile : f.isVolatile) (w u : World S) :
      Alike S (.error (f.shownIn w)) (.error (f.shownIn u))

end EngineHost
