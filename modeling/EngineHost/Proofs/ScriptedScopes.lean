import EngineHost.Proofs.Compartments
import EngineHost.Proofs.Names
import EngineHost.Scripted.Engine
import EngineHost.Symbols

/-!
The scripted engine keeps its scopes apart: the symbols and functions of a scope are an entry of a table,
and no call about one scope looks at the entry of another. Faults and answers that have been set for entry
points are the same for all scopes.
-/
namespace EngineHost.Scripted

variable {α β : Type}

/-! ### Tables of handles -/

/-- The handles in a table are numbers that have been given out. -/
def Numbered (next : Nat) (table : List (Value × α)) : Prop :=
  ∀ e ∈ table, ∃ i : Nat, e.1 = .int i ∧ i < next

/-- The entry of a handle that is a number; nothing else is a handle. -/
def known? (table : List (Value × α)) : Value → Option α
  | .int i => find? (.int i) table
  | _ => none

section Tables

variable {next : Nat} {table : List (Value × α)} {i j : Int} {a b : α}

theorem Numbered.mono {next' : Nat} (h : Numbered next table) (hle : next ≤ next') : Numbered next' table := by
  intro e he
  obtain ⟨i, hi, hlt⟩ := h e he
  exact ⟨i, hi, Nat.lt_of_lt_of_le hlt hle⟩

theorem Numbered.append (h : Numbered next table) (a : α) :
    Numbered (next + 1) (table ++ [(.int next, a)]) := by
  intro e he
  rcases List.mem_append.mp he with he | he
  · exact h.mono (Nat.le_succ next) e he
  · rw [List.mem_singleton.mp he]
    exact ⟨next, rfl, Nat.lt_succ_self next⟩

theorem Numbered.put (h : Numbered next table) (handle : Value) (a : α) :
    Numbered next (put handle a table) := by
  intro e he
  obtain ⟨⟨k, b⟩, hmem, rfl⟩ := List.mem_map.mp he
  obtain ⟨i, hi, hlt⟩ := h (k, b) hmem
  refine ⟨i, ?_, hlt⟩
  by_cases hk : k.equals handle <;> simp [hk, hi]

theorem Numbered.remove (h : Numbered next table) (handle : Value) :
    Numbered next (remove handle table) :=
  fun e he => h e (List.mem_filter.mp he).1

theorem find?_cons (k key : Value) (b : α) (rest : List (Value × α)) :
    find? key ((k, b) :: rest) = if k.equals key then some b else find? key rest := by
  by_cases hk : k.equals key <;> simp [find?, hk]

theorem Numbered.cons {e : Value × α} (h : Numbered next (e :: table)) :
    (∃ i : Nat, e = (.int i, e.2)) ∧ Numbered next table := by
  obtain ⟨i, hi, -⟩ := h e List.mem_cons_self
  exact ⟨⟨i, Prod.ext hi rfl⟩, fun e he => h e (List.mem_cons_of_mem _ he)⟩

theorem find?_put (h : Numbered next table) :
    find? (.int j) (put (.int i) a table) =
      if i = j then (find? (.int j) table).map (fun _ => a) else find? (.int j) table := by
  induction table with
  | nil => split <;> rfl
  | cons e rest ih =>
    obtain ⟨⟨k, he⟩, hrest⟩ := h.cons
    rw [he]
    have hput : put (.int i) a ((.int k, e.2) :: rest) =
        (.int k, if (k : Int) = i then a else e.2) :: put (.int i) a rest := by
      by_cases hk : (k : Int) = i <;> simp [put, equals_int, hk]
    rw [hput, find?_cons, find?_cons, ih hrest]
    by_cases hkj : (k : Int) = j
    · subst hkj
      by_cases hki : (k : Int) = i
      · simp [equals_int, hki]
      · simp [equals_int, hki, Ne.symm hki]
    · simp [equals_int, hkj]

theorem find?_remove (h : Numbered next table) :
    find? (.int j) (remove (.int i) table) = if i = j then none else find? (.int j) table := by
  induction table with
  | nil => split <;> rfl
  | cons e rest ih =>
    obtain ⟨⟨k, he⟩, hrest⟩ := h.cons
    rw [he]
    by_cases hki : (k : Int) = i
    · have hremove : remove (.int i) ((.int k, e.2) :: rest) = remove (.int i) rest := by
        simp [remove, equals_int, hki]
      rw [hremove, ih hrest, find?_cons]
      by_cases hij : i = j <;> simp [equals_int, hki, hij]
    · have hremove : remove (.int i) ((.int k, e.2) :: rest) = (.int k, e.2) :: remove (.int i) rest := by
        simp [remove, List.filter_cons, equals_int, hki]
      rw [hremove, find?_cons, find?_cons, ih hrest]
      by_cases hkj : (k : Int) = j
      · subst hkj
        simp [equals_int, Ne.symm hki]
      · simp [equals_int, hkj]

theorem find?_next (h : Numbered next table) : find? (.int next) table = none := by
  refine Option.map_eq_none_iff.mpr (List.find?_eq_none.mpr ?_)
  rintro ⟨k, b⟩ he
  obtain ⟨i, rfl, hlt⟩ := h (k, b) he
  show ¬ (Value.int i).equals (.int next) = true
  rw [equals_int]
  omega

theorem find?_append (h : Numbered next table) :
    find? (.int j) (table ++ [(.int next, a)]) = if (next : Int) = j then some a else find? (.int j) table := by
  have hlast : find? (.int j) [(.int next, a)] = if (next : Int) = j then some a else none := by
    by_cases hj : (next : Int) = j <;> simp [find?, equals_int, hj]
  have happend : find? (.int j) (table ++ [(.int next, a)]) =
      (find? (.int j) table).or (find? (.int j) [(.int next, a)]) := by
    rw [find?, List.find?_append, Option.map_or]
    rfl
  rw [happend, hlast]
  by_cases hj : (next : Int) = j
  · rw [← hj, find?_next h, Option.none_or]
  · rw [if_neg hj, if_neg hj, Option.or_none]

theorem exists_of_known? {key : Value} (h : known? table key = some a) :
    ∃ i : Int, key = .int i ∧ find? (.int i) table = some a := by
  unfold known? at h
  split at h
  · exact ⟨_, rfl, h⟩
  · cases h

theorem known?_put {key : Value} (h : Numbered next table) (hne : key ≠ .int i) :
    known? (put (.int i) a table) key = known? table key := by
  cases key with
  | int j => rw [known?, find?_put h, if_neg fun heq => hne (congrArg Value.int heq.symm), known?]
  | _ => rfl

theorem known?_remove {key : Value} (h : Numbered next table) (hne : key ≠ .int i) :
    known? (remove (.int i) table) key = known? table key := by
  cases key with
  | int j => rw [known?, find?_remove h, if_neg fun heq => hne (congrArg Value.int heq.symm), known?]
  | _ => rfl

theorem known?_append {key : Value} (h : Numbered next table) (hne : key ≠ .int next) :
    known? (table ++ [(.int next, a)]) key = known? table key := by
  cases key with
  | int j => rw [known?, find?_append h, if_neg fun heq => hne (congrArg Value.int heq.symm), known?]
  | _ => rfl

end Tables

/-! ### What is kept for a scope -/

/-- A scope without the numbers of its functions. -/
structure Shelf where
  symbols : List Value
  functions : List (Value × Value)

def Scope.shelf (scope : Scope) : Shelf :=
  ⟨scope.symbols, scope.functions.map fun (name, signature, _) => (name, signature)⟩

section Settings

variable (faults : List (String × String)) (answers : List (String × Value))

/-- The states with these faults and answers. -/
def compartments : Compartments State (Option Shelf) Unit where
  valid s := s.faults = faults ∧ s.answers = answers ∧ Numbered s.nextHandle s.scopes ∧
    Numbered s.nextHandle s.scripts
  live s scope := (known? s.scopes scope).isSome
  part s scope := (known? s.scopes scope).map Scope.shelf
  script? s script := (known? s.scripts script).map fun known => (known.scope, ())

/-- The work of an entry point on what is kept for a scope, unless a fault or an answer is set. -/
def inside (name : String) (ofAnswer : Value → α) (work : EngineM (Option Shelf) α) : EngineM (Option Shelf) α :=
  match faults.lookup name, answers.lookup name with
  | some message, _ => throw (.engineFault message)
  | none, some answer => pure (ofAnswer answer)
  | none, none => work

end Settings

/-- What is kept for a scope that is live. -/
def shelf : EngineM (Option Shelf) Shelf := do
  match ← get with
  | some shelf => pure shelf
  | none => throw .tooDeep

namespace Shelf

/-- The name behind a symbol. -/
def nameOf (s : Shelf) (symbol : Value) : Checked Value :=
  match nameOfSymbol? ⟨s.symbols, []⟩ symbol with
  | some name => pure name
  | none => unknownHandle "symbol" symbol

/-- The name that a signature on the wire gives its function. -/
def definedName (s : Shelf) (signature : Value) : Checked Value := do
  match ← signature.atKey "args" >>= Value.elements with
  | [] => throw (.shape .emptySequence)
  | first :: _ => s.nameOf (← first.atKey "name")

def intern (name : Value) : EngineM (Option Shelf) Value := do
  let known ← shelf
  ofExcept (SymbolTable.checkKey name)
  match known.symbols.findIdx? (·.equals name) with
  | some k => pure (.int k)
  | none => do
    set (some { known with symbols := known.symbols ++ [name] })
    pure (.int known.symbols.length)

def lookup (symbol : Value) : EngineM (Option Shelf) Value := do
  ofExcept ((← shelf).nameOf symbol)

def define (signature : Value) : EngineM (Option Shelf) Unit := do
  let known ← shelf
  let name ← ofExcept (known.definedName signature)
  set (some { known with functions := putKey name signature known.functions })

def signature (name : Value) : EngineM (Option Shelf) Value := do
  let known ← shelf
  ofExcept (SymbolTable.checkKey name)
  pure ((find? name known.functions).getD .null)

end Shelf

/-- The scripted engine in one scope. -/
def compartment (faults : List (String × String)) (answers : List (String × Value)) :
    Compartment (Option Shelf) Unit where
  blank := some ⟨[], []⟩
  internSymbol name := inside faults answers "intern_symbol" id (Shelf.intern name)
  lookupSymbol symbol := inside faults answers "lookup_symbol" id (Shelf.lookup symbol)
  define signature := inside faults answers "define" (fun _ => ()) (Shelf.define signature)
  getSignature name := inside faults answers "get_signature" id (Shelf.signature name)
  compile _ := inside faults answers "compile" (fun _ => ()) (pure ())
  dropScript _ := inside faults answers "drop_script" (fun _ => ()) (pure ())
  drop := inside faults answers "drop_namespace" (fun _ => ()) (set (none : Option Shelf))

/-- What is known of a handle is found. -/
theorem run_require {s : State} {kind : String} {handle : Value} {table : State → List (Value × α)} {a : α}
    {f : α → Action β} (h : find? handle (table s) = some a) :
    (do f (← require kind handle (table (← get))) : Action β).run.run s = (f a).run.run s := by
  show ((require kind handle (table s) >>= f).run.run s) = _
  rw [require, h]
  rfl

/-- With the trace of a call. -/
def State.logged (s : State) (name : String) (args : List Value) : State :=
  { s with calls := s.calls ++ [.str name :: args] }

section Entry

variable {faults : List (String × String)} {answers : List (String × Value)}

theorem run_enter (s : State) (name : String) (args : List Value) :
    (enter name args).run.run s =
      ((match s.faults.lookup name with
        | some message => .error (Failure.engineFault message)
        | none => .ok (s.answers.lookup name)), s.logged name args) := by
  show ((match s.faults.lookup name with
    | some message => (throw (Failure.engineFault message) : Action (Option Value))
    | none => pure (s.answers.lookup name)).run.run (s.logged name args)) = _
  cases s.faults.lookup name <;> rfl

/-- A call leaves a trace, and is broken off or answered or does its work. -/
theorem entry_run (Q : Except Failure α × State → Prop) {s : State}
    (hvalid : (compartments faults answers).valid s) {name : String} {args : List Value} {ofAnswer : Value → α}
    {work : Action α}
    (hfault : ∀ message, faults.lookup name = some message →
      Q (.error (.engineFault message), s.logged name args))
    (hanswer : ∀ answer, faults.lookup name = none → answers.lookup name = some answer →
      Q (.ok (ofAnswer answer), s.logged name args))
    (hwork : faults.lookup name = none → answers.lookup name = none →
      Q (work.run.run (s.logged name args))) :
    Q ((entry name args ofAnswer work).run.run s) := by
  obtain ⟨rfl, rfl, -, -⟩ := hvalid
  rw [entry, ExceptT.run_bind, StateT.run_bind, run_enter]
  cases hf : s.faults.lookup name with
  | some message => exact hfault message hf
  | none =>
    cases ha : s.answers.lookup name with
    | some answer => exact hanswer answer hf ha
    | none => exact hwork hf ha

/-- In its scope a call goes as it goes in the engine. -/
theorem entry_inside (Q : Except Failure α × State → Except Failure β × Option Shelf → Prop) {s : State}
    {p : Option Shelf} (hvalid : (compartments faults answers).valid s) {name : String} {args : List Value}
    {ofAnswer : Value → α} {ofAnswer' : Value → β} {work : Action α} {work' : EngineM (Option Shelf) β}
    (hfault : ∀ message, Q (.error (.engineFault message), s.logged name args)
      (.error (.engineFault message), p))
    (hanswer : ∀ answer, answers.lookup name = some answer →
      Q (.ok (ofAnswer answer), s.logged name args) (.ok (ofAnswer' answer), p))
    (hwork : Q (work.run.run (s.logged name args)) (work'.run.run p)) :
    Q ((entry name args ofAnswer work).run.run s) ((inside faults answers name ofAnswer' work').run.run p) := by
  refine entry_run (fun r => Q r ((inside faults answers name ofAnswer' work').run.run p)) hvalid ?_ ?_ ?_
  · intro message hf
    rw [inside, hf]
    exact hfault message
  · intro answer hf ha
    rw [inside, hf, ha]
    exact hanswer answer ha
  · intro hf ha
    rw [inside, hf, ha]
    exact hwork

variable {s s' : State} {scope : Value} {lost : Value → Prop}

/-- Only the entry of one scope has changed, and of the scripts only a lost one of that scope. -/
theorem becomes_of {p : Option Shelf} (hvalid : (compartments faults answers).valid s')
    (hscopes : ∀ other, other ≠ scope → known? s'.scopes other = known? s.scopes other)
    (hown : (known? s'.scopes scope).map Scope.shelf = p)
    (hscripts : ∀ script known, known? s.scripts script = some known → ¬ (lost script ∧ known.scope = scope) →
      known? s'.scripts script = some known) :
    (compartments faults answers).Becomes scope lost p s s' where
  valid := hvalid
  live := by
    intro other hne hlive
    show (known? s'.scopes other).isSome
    rw [hscopes other hne]
    exact hlive
  part := fun other hne => congrArg (Option.map Scope.shelf) (hscopes other hne)
  scripts := by
    intro script other k hne hscript
    obtain ⟨known, hknown, hk⟩ := Option.map_eq_some_iff.mp hscript
    have hother : known.scope = other := congrArg Prod.fst hk
    exact Option.map_eq_some_iff.mpr
      ⟨known, hscripts script known hknown fun h => hne (hother.symm.trans h.2), hk⟩
  own := hown
  kept := by
    intro script k hlost hscript
    obtain ⟨known, hknown, hk⟩ := Option.map_eq_some_iff.mp hscript
    exact Option.map_eq_some_iff.mpr ⟨known, hscripts script known hknown fun h => hlost h.1, hk⟩

/-- A trace is all that is left of a call. -/
theorem becomes_logged (hvalid : (compartments faults answers).valid s) (name : String) (args : List Value) :
    (compartments faults answers).Becomes scope lost ((compartments faults answers).part s scope) s
      (s.logged name args) :=
  becomes_of hvalid (fun _ _ => rfl) rfl fun _ _ hknown _ => hknown

/-- The trace of a call makes no difference. -/
theorem becomes_of_logged {p : Option Shelf} {name : String} {args : List Value}
    (h : (compartments faults answers).Becomes scope lost p (s.logged name args) s') :
    (compartments faults answers).Becomes scope lost p s s' :=
  ⟨⟨h.valid, h.live, h.part, h.scripts⟩, h.own, h.kept⟩

/-- What an entry point does to the states: nothing, or it writes what is kept for the scope. -/
inductive Writes (i : Int) (s : State) : State → Option Shelf → Prop where
  | nothing {known : Scope} (hknown : find? (.int i) s.scopes = some known) : Writes i s s (some known.shelf)
  | put (known : Scope) : Writes i s { s with scopes := put (.int i) known s.scopes } (some known.shelf)

theorem Writes.becomes {i : Int} {p : Option Shelf} (hwrites : Writes i s s' p)
    (hvalid : (compartments faults answers).valid s) (hlive : (find? (.int i) s.scopes).isSome) :
    (compartments faults answers).live s' (.int i) ∧
      (compartments faults answers).Becomes (.int i) lost p s s' := by
  obtain ⟨hfaults, hanswers, hscopes, hscripts⟩ := hvalid
  cases hwrites with
  | nothing hknown =>
    exact ⟨hlive, becomes_of ⟨hfaults, hanswers, hscopes, hscripts⟩ (fun _ _ => rfl)
      (congrArg (Option.map Scope.shelf) hknown) fun _ _ hknown _ => hknown⟩
  | put known =>
    have hown : find? (.int i) (Scripted.put (.int i) known s.scopes) = some known := by
      obtain ⟨old, hold⟩ := Option.isSome_iff_exists.mp hlive
      rw [find?_put hscopes, if_pos rfl, hold]
      rfl
    refine ⟨?_, becomes_of ⟨hfaults, hanswers, hscopes.put _ _, hscripts⟩ (fun _ hne => known?_put hscopes hne)
      (congrArg (Option.map Scope.shelf) hown) fun _ _ hknown _ => hknown⟩
    show (find? (.int i) (Scripted.put (.int i) known s.scopes)).isSome
    rw [hown]
    rfl

end Entry

/-! ### Entry by entry -/

section Work

variable {i : Int} {known : Scope}

/-- Something is found out where this is known of the scope, and nothing changes. -/
structure Finds (i : Int) (known : Scope) (x : Action α) (y : EngineM (Option Shelf) α) (c : Checked α) :
    Prop where
  outside : ∀ s, find? (.int i) s.scopes = some known → x.run.run s = (c, s)
  inside : y.run.run (some known.shelf) = (c, some known.shelf)

/-- Some work does to a scope what it would do to what is kept for it. -/
def Acts (i : Int) (known : Scope) (x : Action α) (y : EngineM (Option Shelf) α) : Prop :=
  ∀ s, find? (.int i) s.scopes = some known →
    (x.run.run s).1 = (y.run.run (some known.shelf)).1 ∧
      Writes i s (x.run.run s).2 (y.run.run (some known.shelf)).2

theorem Finds.read (c : Checked α) : Finds i known (ofExcept c) (ofExcept c) c where
  outside := fun _ _ => by cases c <;> rfl
  inside := by cases c <;> rfl

theorem Finds.acts {x : Action α} {y : EngineM (Option Shelf) α} {c : Checked α} (h : Finds i known x y c) :
    Acts i known x y := by
  intro s hs
  rw [h.outside s hs, h.inside]
  exact ⟨rfl, .nothing hs⟩

theorem Finds.bind {x : Action α} {y : EngineM (Option Shelf) α} {c : Checked α} {f : α → Action β}
    {g : α → EngineM (Option Shelf) β} (h : Finds i known x y c) (hk : ∀ a, Acts i known (f a) (g a)) :
    Acts i known (x >>= f) (y >>= g) := by
  intro s hs
  rw [ExceptT.run_bind, StateT.run_bind, ExceptT.run_bind, StateT.run_bind, h.outside s hs, h.inside]
  cases c with
  | error e => exact ⟨rfl, .nothing hs⟩
  | ok a => exact hk a s hs

/-- The scope itself is found. -/
theorem Acts.require {f : Scope → Action α} {y : EngineM (Option Shelf) α} (h : Acts i known (f known) y) :
    Acts i known (do f (← Scripted.require "namespace" (.int i) (← get).scopes)) y := by
  intro s hs
  rw [run_require hs]
  exact h s hs

/-- What is kept for the scope is found. -/
theorem Acts.shelf {x : Action α} {g : Shelf → EngineM (Option Shelf) α} (h : Acts i known x (g known.shelf)) :
    Acts i known x (do g (← Scripted.shelf)) :=
  h

theorem Acts.put (known' : Scope) :
    Acts i known (modify fun s => { s with scopes := Scripted.put (.int i) known' s.scopes })
      (set (some known'.shelf)) :=
  fun _ _ => ⟨rfl, .put known'⟩

theorem Acts.put_pure (known' : Scope) (a : α) :
    Acts i known
      (do modify fun s => { s with scopes := Scripted.put (.int i) known' s.scopes }; pure a)
      (do set (some known'.shelf); pure a) :=
  fun _ _ => ⟨rfl, .put known'⟩

theorem finds_pure (a : α) : Finds i known (pure a) (pure a) (.ok a) :=
  ⟨fun _ _ => rfl, rfl⟩

theorem finds_key (name : Value) :
    Finds i known (requireKey name) (ofExcept (SymbolTable.checkKey name)) (SymbolTable.checkKey name) := by
  unfold requireKey SymbolTable.checkKey
  split
  · exact .read (.ok ())
  · exact .read (.error (.shape .wrongKind))

theorem acts_intern (name : Value) : Acts i known (internSymbol (.int i) name) (Shelf.intern name) := by
  unfold internSymbol Shelf.intern
  refine .require (.shelf ((finds_key name).bind fun _ => ?_))
  rw [show known.shelf.symbols = known.symbols from rfl]
  cases known.symbols.findIdx? (·.equals name) with
  | some k => exact (finds_pure (Value.int k)).acts
  | none => exact .put_pure { known with symbols := known.symbols ++ [name] } _

theorem finds_lookup (symbol : Value) :
    Finds i known (lookupSymbol (.int i) symbol) (Shelf.lookup symbol) (known.shelf.nameOf symbol) where
  outside := by
    intro s hs
    rw [lookupSymbol, run_require hs]
    show ((match nameOfSymbol? known symbol with
      | some name => pure name
      | none => ofExcept (unknownHandle "symbol" symbol) : Action Value).run.run s) = _
    rw [Shelf.nameOf, show nameOfSymbol? ⟨known.shelf.symbols, []⟩ symbol = nameOfSymbol? known symbol from rfl]
    cases nameOfSymbol? known symbol <;> rfl
  inside := (Finds.read (i := i) (known.shelf.nameOf symbol)).inside

theorem finds_definedName (signature : Value) :
    Finds i known (definedName (.int i) signature) (ofExcept (known.shelf.definedName signature))
      (known.shelf.definedName signature) where
  outside := by
    intro s hs
    unfold definedName Shelf.definedName
    cases signature.atKey "args" >>= Value.elements with
    | error f => rfl
    | ok args =>
      cases args with
      | nil => rfl
      | cons first rest =>
        show ((ofExcept (first.atKey "name") >>= lookupSymbol (.int i)).run.run s) =
          (first.atKey "name" >>= known.shelf.nameOf, s)
        cases first.atKey "name" with
        | error f => rfl
        | ok symbol => exact (finds_lookup symbol).outside s hs
  inside := (Finds.read (i := i) (known.shelf.definedName signature)).inside

theorem find?_map (f : α → β) (key : Value) (table : List (Value × α)) :
    find? key (table.map fun (k, a) => (k, f a)) = (find? key table).map f := by
  induction table with
  | nil => rfl
  | cons e rest ih =>
    obtain ⟨k, a⟩ := e
    rw [List.map_cons, find?_cons, find?_cons, ih]
    split <;> rfl

theorem putKey_map (f : α → β) (key : Value) (a : α) (table : List (Value × α)) :
    putKey key (f a) (table.map fun (k, a) => (k, f a)) = (putKey key a table).map fun (k, a) => (k, f a) := by
  induction table with
  | nil => rfl
  | cons e rest ih =>
    obtain ⟨k, b⟩ := e
    rw [List.map_cons, putKey, putKey, ih]
    split <;> rfl

theorem acts_signature (name : Value) :
    Acts i known (do
      let known ← Scripted.require "namespace" (.int i) (← get).scopes
      requireKey name
      pure ((find? name known.functions).elim .null Prod.fst)) (Shelf.signature name) := by
  unfold Shelf.signature
  refine .require (.shelf ((finds_key name).bind fun _ => ?_))
  have hfound : (find? name known.shelf.functions).getD .null =
      (find? name known.functions).elim .null Prod.fst := by
    rw [show known.shelf.functions = known.functions.map fun (n, f) => (n, f.1) from rfl, find?_map Prod.fst]
    cases find? name known.functions <;> rfl
  rw [hfound]
  exact (finds_pure _).acts

/-- The number of the function makes no difference to what is kept. -/
theorem acts_define (signature : Value) (function : FunctionId) :
    Acts i known (do
      let _ ← Scripted.require "namespace" (.int i) (← get).scopes
      let name ← definedName (.int i) signature
      let known ← Scripted.require "namespace" (.int i) (← get).scopes
      let changed := { known with functions := putKey name (signature, function) known.functions }
      modify fun s => { s with scopes := put (.int i) changed s.scopes }) (Shelf.define signature) := by
  unfold Shelf.define
  refine .require (.shelf ((finds_definedName signature).bind fun name => .require ?_))
  have hshelf : { known.shelf with functions := putKey name signature known.shelf.functions } =
      Scope.shelf { known with functions := putKey name (signature, function) known.functions } :=
    congrArg (Shelf.mk known.symbols) (putKey_map Prod.fst name (signature, function) known.functions)
  rw [hshelf]
  exact .put _

end Work

section Law

variable {faults : List (String × String)} {answers : List (String × Value)} {scope : Value}

/-- An entry point serves its scope if its work does. -/
theorem serves_entry {name : String} {args : List Value} {ofAnswer : Value → α} {work : Action α}
    {work' : EngineM (Option Shelf) α} (hwork : ∀ (i : Int) known, scope = .int i → Acts i known work work') :
    (compartments faults answers).Serves scope (entry name args ofAnswer work)
      (inside faults answers name ofAnswer work') := by
  intro s hvalid hlive
  obtain ⟨known, hknown⟩ := Option.isSome_iff_exists.mp hlive
  obtain ⟨i, rfl, hfind⟩ := exists_of_known? hknown
  have hpart : (compartments faults answers).part s (.int i) = some known.shelf :=
    congrArg (Option.map Scope.shelf) hknown
  refine entry_inside (fun r q => (compartments faults answers).live r.2 (.int i) ∧
    (compartments faults answers).Does (.int i) (fun _ => False) s r q) hvalid ?_ ?_ ?_
  · exact fun message => ⟨hlive, becomes_logged hvalid name args, rfl⟩
  · exact fun answer _ => ⟨hlive, becomes_logged hvalid name args, rfl⟩
  · rw [hpart]
    obtain ⟨hout, hwrites⟩ := hwork i known rfl (s.logged name args) hfind
    obtain ⟨hlive', hbecomes⟩ := hwrites.becomes hvalid (Option.isSome_iff_exists.mpr ⟨known, hfind⟩)
    exact ⟨hlive', becomes_of_logged hbecomes, hout⟩

theorem law_allocScope (hanswers : answers.lookup "alloc_namespace" = none) (s : State)
    (hvalid : (compartments faults answers).valid s) :
    let (outcome, s') := engine.allocScope.run.run s
    ∀ scope, outcome = .ok scope → scope ≠ .null ∧ ¬ (compartments faults answers).live s scope ∧
      (compartments faults answers).live s' scope ∧
      (compartments faults answers).part s' scope = (compartment faults answers).blank ∧
      (compartments faults answers).Aside scope s s' := by
  refine entry_run (fun r => ∀ scope, r.1 = .ok scope →
    scope ≠ .null ∧ ¬ (compartments faults answers).live s scope ∧
      (compartments faults answers).live r.2 scope ∧
      (compartments faults answers).part r.2 scope = (compartment faults answers).blank ∧
      (compartments faults answers).Aside scope s r.2) hvalid ?_ ?_ ?_
  · rintro message - scope ⟨⟩
  · intro answer _ hanswer
    rw [hanswers] at hanswer
    cases hanswer
  · rintro _ _ scope ⟨⟩
    obtain ⟨hfaults, hanswers', hscopes, hscripts⟩ := hvalid
    have hnew : known? (s.scopes ++ [(.int s.nextHandle, ⟨[], []⟩)]) (.int s.nextHandle) =
        some (⟨[], []⟩ : Scope) := by
      rw [known?, find?_append hscopes, if_pos rfl]
    have hbecomes : (compartments faults answers).Becomes (.int s.nextHandle) (fun _ => False) (some ⟨[], []⟩) s
        { s.logged "alloc_namespace" [] with
          nextHandle := s.nextHandle + 1
          scopes := s.scopes ++ [(.int s.nextHandle, ⟨[], []⟩)] } :=
      becomes_of ⟨hfaults, hanswers', hscopes.append _, hscripts.mono (Nat.le_succ _)⟩
        (fun _ hne => known?_append hscopes hne) (congrArg (Option.map Scope.shelf) hnew)
        fun _ _ hknown _ => hknown
    refine ⟨nofun, ?_, Option.isSome_iff_exists.mpr ⟨_, hnew⟩, hbecomes.own, hbecomes.toAside⟩
    show ¬ (find? (.int s.nextHandle) s.scopes).isSome
    rw [find?_next hscopes]
    exact Bool.false_ne_true

theorem law_compile (hanswers : answers.lookup "compile" = none) (s : State) (scope source : Value)
    (hvalid : (compartments faults answers).valid s) (hlive : (compartments faults answers).live s scope) :
    let (outcome, s') := (engine.compile scope source).run.run s
    let (outcome', p) := ((compartment faults answers).compile source).run.run
      ((compartments faults answers).part s scope)
    (compartments faults answers).live s' scope ∧
      (compartments faults answers).Becomes scope (fun _ => False) p s s' ∧
      outcome.map ((compartments faults answers).script? s') = outcome'.map (fun k => some (scope, k)) ∧
      ∀ script, outcome = .ok script → script ≠ .null ∧
        (compartments faults answers).script? s script = none := by
  refine entry_inside (fun (r : Except Failure Value × State) (q : Except Failure Unit × Option Shelf) =>
    (compartments faults answers).live r.2 scope ∧
      (compartments faults answers).Becomes scope (fun _ => False) q.2 s r.2 ∧
      r.1.map ((compartments faults answers).script? r.2) = q.1.map (fun k => some (scope, k)) ∧
      ∀ script, r.1 = .ok script → script ≠ .null ∧
        (compartments faults answers).script? s script = none) hvalid ?_ ?_ ?_
  · exact fun message => ⟨hlive, becomes_logged hvalid _ _, rfl, nofun⟩
  · intro answer hanswer
    rw [hanswers] at hanswer
    cases hanswer
  · obtain ⟨known, hknown⟩ := Option.isSome_iff_exists.mp hlive
    obtain ⟨i, rfl, hfind⟩ := exists_of_known? hknown
    rw [run_require (s := s.logged "compile" [.int i, source]) hfind]
    obtain ⟨hfaults, hanswers', hscopes, hscripts⟩ := hvalid
    have hnew : known? (s.scripts ++ [(.int s.nextHandle, ⟨.int i, source⟩)]) (.int s.nextHandle) =
        some (⟨.int i, source⟩ : Script) := by
      rw [known?, find?_append hscripts, if_pos rfl]
    have hfresh : known? s.scripts (.int s.nextHandle) = none := find?_next hscripts
    refine ⟨hlive, ?_, ?_, ?_⟩
    · refine becomes_of ⟨hfaults, hanswers', hscopes.mono (Nat.le_succ _), hscripts.append _⟩
        (fun _ _ => rfl) rfl ?_
      intro script known hknown _
      refine (known?_append hscripts ?_).trans hknown
      rintro rfl
      exact nomatch hfresh.symm.trans hknown
    · exact congrArg (fun found : Option Script => (.ok (found.map fun known => (known.scope, ())) :
        Checked (Option (Value × Unit)))) hnew
    · rintro script ⟨⟩
      exact ⟨nofun, congrArg (Option.map fun known : Script => (known.scope, ())) hfresh⟩

theorem law_dropScript (s : State) (script scope : Value) (k : Unit)
    (hvalid : (compartments faults answers).valid s)
    (hscript : (compartments faults answers).script? s script = some (scope, k)) :
    let r := (engine.dropScript script).run.run s
    ((compartments faults answers).live s scope → (compartments faults answers).live r.2 scope) ∧
      (compartments faults answers).Does scope (· = script) s r
        (((compartment faults answers).dropScript k).run.run ((compartments faults answers).part s scope)) := by
  obtain ⟨known, hknown, rfl⟩ : ∃ known, known? s.scripts script = some known ∧ known.scope = scope := by
    obtain ⟨known, hknown, hk⟩ := Option.map_eq_some_iff.mp hscript
    exact ⟨known, hknown, congrArg Prod.fst hk⟩
  obtain ⟨i, rfl, hfind⟩ := exists_of_known? hknown
  refine entry_inside (fun r q =>
    ((compartments faults answers).live s known.scope → (compartments faults answers).live r.2 known.scope) ∧
      (compartments faults answers).Does known.scope (· = .int i) s r q) hvalid ?_ ?_ ?_
  · exact fun message => ⟨id, becomes_logged hvalid _ _, rfl⟩
  · exact fun answer _ => ⟨id, becomes_logged hvalid _ _, rfl⟩
  · rw [run_require (s := s.logged "drop_script" [.int i]) hfind]
    obtain ⟨hfaults, hanswers, hscopes, hscripts⟩ := hvalid
    refine ⟨id, becomes_of ⟨hfaults, hanswers, hscopes, hscripts.remove _⟩ (fun _ _ => rfl) rfl ?_, rfl⟩
    intro script other hother hkept
    refine (known?_remove hscripts ?_).trans hother
    rintro rfl
    exact hkept ⟨rfl, congrArg Script.scope (Option.some.inj (hother.symm.trans hknown))⟩

theorem law_dropScope (s : State) (scope : Value) (hvalid : (compartments faults answers).valid s)
    (hlive : (compartments faults answers).live s scope) :
    (compartments faults answers).Does scope (fun _ => False) s ((engine.dropScope scope).run.run s)
      ((compartment faults answers).drop.run.run ((compartments faults answers).part s scope)) := by
  obtain ⟨known, hknown⟩ := Option.isSome_iff_exists.mp hlive
  obtain ⟨i, rfl, hfind⟩ := exists_of_known? hknown
  refine entry_inside (fun r q => (compartments faults answers).Does (.int i) (fun _ => False) s r q) hvalid
    ?_ ?_ ?_
  · exact fun message => ⟨becomes_logged hvalid _ _, rfl⟩
  · exact fun answer _ => ⟨becomes_logged hvalid _ _, rfl⟩
  · rw [run_require (s := s.logged "drop_namespace" [.int i]) hfind]
    obtain ⟨hfaults, hanswers, hscopes, hscripts⟩ := hvalid
    have hgone : known? (remove (.int i) s.scopes) (.int i) = none := by
      rw [known?, find?_remove hscopes, if_pos rfl]
    exact ⟨becomes_of ⟨hfaults, hanswers, hscopes.remove _, hscripts⟩ (fun _ hne => known?_remove hscopes hne)
      (congrArg (Option.map Scope.shelf) hgone) fun _ _ hknown _ => hknown, rfl⟩

/-- The scripted engine keeps its scopes apart, as long as it makes up the handles of scopes and scripts
itself. -/
theorem compartmented (hscopes : answers.lookup "alloc_namespace" = none)
    (hscripts : answers.lookup "compile" = none) :
    Compartmented engine (compartment faults answers) (compartments faults answers) where
  allocScope := law_allocScope hscopes
  internSymbol := fun _ name => serves_entry fun _ _ hscope => hscope ▸ acts_intern name
  lookupSymbol := fun _ symbol => serves_entry fun _ _ hscope => hscope ▸ (finds_lookup symbol).acts
  define := fun _ signature function =>
    serves_entry fun _ _ hscope => hscope ▸ acts_define signature function
  getSignature := fun _ name => serves_entry fun _ _ hscope => hscope ▸ acts_signature name
  compile := law_compile hscripts
  dropScript := law_dropScript
  dropScope := law_dropScope

end Law

end EngineHost.Scripted
