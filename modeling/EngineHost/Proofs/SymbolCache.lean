import Mathlib
import EngineHost.Proofs.Cabinet
import EngineHost.Proofs.Entries
import EngineHost.Proofs.Watching

/-!
A table of symbols as a cache. The engine's own table grows underneath it, also between two calls; what is
kept stays a part of it, in both directions alike, and is never asked for again.
-/
namespace EngineHost

variable {σ : Type}

/-- An engine's own table of names and symbols, in the states that the engine can be in. -/
structure Index (σ : Type) where
  valid : σ → Prop
  /-- This name has this symbol. -/
  holds : σ → Value → Value → Prop

/-- The engine goes on, and its table loses nothing. -/
structure Index.Grows (I : Index σ) (s s' : σ) : Prop where
  valid : I.valid s'
  holds : ∀ name symbol, I.holds s name symbol → I.holds s' name symbol

/-- In a scope, the entry points give out and look up what is in the table. Either may fail; looking up a
symbol without a name has to. -/
structure Indexed (E : Engine σ) (scope : Value) (I : Index σ) : Prop where
  name : ∀ s name symbol, I.valid s → I.holds s name symbol → name.isText
  symbol : ∀ s name symbol, I.valid s → I.holds s name symbol → IsSymbol symbol
  one_symbol : ∀ s name y z, I.valid s → I.holds s name y → I.holds s name z → y = z
  one_name : ∀ s m n symbol, I.valid s → I.holds s m symbol → I.holds s n symbol → m = n
  internSymbol : ∀ s name, I.valid s → name.isText →
    let (outcome, s') := (E.internSymbol scope name).run.run s
    I.Grows s s' ∧ ∀ symbol, outcome = .ok symbol → I.holds s' name symbol
  lookupSymbol : ∀ s symbol, I.valid s → IsSymbol symbol →
    let (outcome, s') := (E.lookupSymbol scope symbol).run.run s
    I.Grows s s' ∧ ∀ name, outcome = .ok name → I.holds s' name symbol

/-! ### Calls on a table -/

/-- A call on a table of symbols. -/
inductive TableCall where
  | intern (name : Value)
  | nameOf (symbol : Value)
  | contains (name : Value)
  | size

/-- Names are texts, and symbols are whole numbers. -/
def TableCall.Proper : TableCall → Prop
  | .intern name | .contains name => name.isText
  | .nameOf symbol => IsSymbol symbol
  | .size => True

/-- What a call may ask of the engine. -/
def TableCall.question? (scope : Value) : TableCall → Option EngineCall
  | .intern name => some (.internSymbol scope name)
  | .nameOf symbol => some (.lookupSymbol scope symbol)
  | .contains _ | .size => none

/-- What the engine says to a call's question, and where that takes it. -/
def Engine.reply? (E : Engine σ) (scope : Value) (s : σ) : TableCall → Option (Except Failure Value × σ)
  | .intern name => some ((E.internSymbol scope name).run.run s)
  | .nameOf symbol => some ((E.lookupSymbol scope symbol).run.run s)
  | .contains _ | .size => none

/-- A call that was made, how it was answered, and what the engine was asked for it. -/
structure TableDeal where
  call : TableCall
  reply : Except Failure Value
  asked : List EngineCall

/-- The answer said that this name has this symbol. -/
def TableDeal.Learns (d : TableDeal) (name symbol : Value) : Prop :=
  d.call = .intern name ∧ d.reply = .ok symbol ∨ d.call = .nameOf symbol ∧ d.reply = .ok name

/-- An answer says one thing. -/
theorem TableDeal.Learns.unique {d : TableDeal} {name name' symbol symbol' : Value}
    (h : d.Learns name symbol) (h' : d.Learns name' symbol') : name = name' ∧ symbol = symbol' := by
  obtain ⟨call, reply, asked⟩ := d
  obtain ⟨rfl, rfl⟩ | ⟨rfl, rfl⟩ := h <;> obtain ⟨hcall, hreply⟩ | ⟨hcall, hreply⟩ := h' <;> cases hcall <;>
    cases hreply <;> exact ⟨rfl, rfl⟩

namespace SymbolTable

/-- How a call on a table ended. A failure of the engine leaves the table as it was. -/
def settle (call : TableCall) (t : SymbolTable) :
    Except Failure (Checked Value × SymbolTable) × Watched σ → TableDeal × SymbolTable × σ
  | (.ok (reply, t'), s) => (⟨call, reply, s.notes.calls⟩, t', s.state)
  | (.error f, s) => (⟨call, .error f, s.notes.calls⟩, t, s.state)

/-- Makes one call, and notes what the engine is asked. -/
def serve (E : Engine σ) (scope : Value) (t : SymbolTable) (s : σ) (call : TableCall) :
    TableDeal × SymbolTable × σ :=
  let fresh : Watched σ := ⟨s, ⟨[], []⟩⟩
  match call with
  | .intern name => settle call t ((t.intern (E.watched.internSymbol scope) name).run.run fresh)
  | .nameOf symbol => settle call t ((t.nameOf (E.watched.lookupSymbol scope) symbol).run.run fresh)
  | .contains name => (⟨call, (t.contains name).map .bool, []⟩, t, s)
  | .size => (⟨call, .ok (.int t.size), []⟩, t, s)

/-- A table that begins empty: the calls on it one after the other, the table and the engine after them.
At any time the engine may go on by itself. -/
inductive Course (E : Engine σ) (scope : Value) (I : Index σ) (s₀ : σ) :
    List TableDeal → SymbolTable → σ → Prop
  | outset : Course E scope I s₀ [] empty s₀
  | grown {ds : List TableDeal} {t : SymbolTable} {s s' : σ} (h : Course E scope I s₀ ds t s)
      (hgrows : I.Grows s s') : Course E scope I s₀ ds t s'
  | called {ds : List TableDeal} {t : SymbolTable} {s : σ} (h : Course E scope I s₀ ds t s)
      (call : TableCall) (hcall : call.Proper) :
      Course E scope I s₀ (ds ++ [(t.serve E scope s call).1]) (t.serve E scope s call).2.1
        (t.serve E scope s call).2.2

/-- The two maps of a table are inverses of each other, and the engine's table has what they have. -/
structure Mirrors (I : Index σ) (s : σ) (t : SymbolTable) : Prop where
  inverse : t.names = t.ids.map Prod.swap
  name_once : (t.ids.map Prod.fst).Nodup
  symbol_once : (t.names.map Prod.fst).Nodup
  part : ∀ name symbol, (name, symbol) ∈ t.ids → I.holds s name symbol

section Steps

variable {E : Engine σ} {scope : Value} {I : Index σ} {t : SymbolTable} {s s' : σ} {name symbol : Value}

theorem mirrors_empty : Mirrors I s empty :=
  ⟨rfl, List.nodup_nil, List.nodup_nil, fun _ _ h => by cases h⟩

theorem Mirrors.grown (h : t.Mirrors I s) (hgrows : I.Grows s s') : t.Mirrors I s' :=
  ⟨h.inverse, h.name_once, h.symbol_once,
    fun name symbol hmem => hgrows.holds name symbol (h.part name symbol hmem)⟩

theorem Mirrors.mem_names (h : t.Mirrors I s) : (symbol, name) ∈ t.names ↔ (name, symbol) ∈ t.ids := by
  rw [h.inverse, List.mem_map]
  constructor
  · rintro ⟨⟨n, y⟩, hmem, heq⟩
    obtain ⟨rfl, rfl⟩ := Prod.mk.inj heq
    exact hmem
  · intro hmem
    exact ⟨(name, symbol), hmem, rfl⟩

variable (hI : Indexed E scope I) (hs : I.valid s) (h : t.Mirrors I s)

include hI hs h

theorem Mirrors.name_keys (name : Value) : ∀ e ∈ t.ids, e.1.equals name ↔ e.1 = name := by
  intro e he
  exact equals_text (hI.name s e.1 e.2 hs (h.part e.1 e.2 he))

theorem Mirrors.symbol_keys (hsymbol : IsSymbol symbol) :
    ∀ e ∈ t.names, e.1.equals symbol ↔ e.1 = symbol := by
  intro e he
  obtain ⟨i, hi⟩ := hI.symbol s e.2 e.1 hs (h.part e.2 e.1 (h.mem_names.mp he))
  obtain ⟨j, rfl⟩ := hsymbol
  rw [hi, equals_int, Value.int.injEq]

/-- A name that is kept is answered from the table. -/
theorem Mirrors.kept_symbol (hmem : (name, symbol) ∈ t.ids) : kept? name t.ids = some symbol := by
  have hholds := h.part name symbol hmem
  have hlookup := (lookup?_eq_some (h.name_keys hI hs name) h.name_once).mpr
    hmem
  obtain ⟨i, rfl⟩ := hI.symbol s name symbol hs hholds
  rw [kept?, hlookup]

/-- A symbol that is kept is answered from the table. -/
theorem Mirrors.kept_name (hmem : (name, symbol) ∈ t.ids) : kept? symbol t.names = some name := by
  have hholds := h.part name symbol hmem
  have hlookup := (lookup?_eq_some (h.symbol_keys hI hs (hI.symbol s name symbol hs hholds))
    h.symbol_once).mpr (h.mem_names.mpr hmem)
  have htext := hI.name s name symbol hs hholds
  rw [kept?, hlookup]
  cases name <;> first | rfl | simp [Value.isText] at htext

omit h in
theorem checkKey_name (hholds : I.holds s name symbol) : checkKey name = .ok () :=
  naming_text.checkKey (hI.name s name symbol hs hholds)

omit h in
theorem checkKey_symbol (hholds : I.holds s name symbol) : checkKey symbol = .ok () :=
  naming_symbols.checkKey (hI.symbol s name symbol hs hholds)

/-- Keeping a pair that is new puts it behind the others, in both maps. -/
theorem Mirrors.remember (hholds : I.holds s name symbol) (hnew : (name, symbol) ∉ t.ids) :
    t.remember name symbol = (.ok (), ⟨t.ids ++ [(name, symbol)], t.names ++ [(symbol, name)]⟩) ∧
      Mirrors I s ⟨t.ids ++ [(name, symbol)], t.names ++ [(symbol, name)]⟩ := by
  -- Neither half of a new pair is kept in another pair.
  have hnew_name : ∀ e ∈ t.ids, e.1 ≠ name := by
    rintro ⟨n, y⟩ hmem rfl
    exact hnew (hI.one_symbol s n y symbol hs (h.part n y hmem) hholds ▸ hmem)
  have hnew_symbol : ∀ e ∈ t.names, e.1 ≠ symbol := by
    rintro ⟨y, n⟩ hmem rfl
    have hmem := h.mem_names.mp hmem
    exact hnew (hI.one_name s n name y hs (h.part n y hmem) hholds ▸ hmem)
  have hids := insertEntry_fresh symbol (h.name_keys hI hs name) hnew_name
  have hnames := insertEntry_fresh name
    (h.symbol_keys hI hs (hI.symbol s name symbol hs hholds)) hnew_symbol
  refine ⟨?_, ?_, ?_, ?_, ?_⟩
  · simp only [SymbolTable.remember, checkKey_name hI hs hholds, checkKey_symbol hI hs hholds, hids,
      hnames]
  · simp [h.inverse]
  · exact keys_once_concat h.name_once hnew_name
  · exact keys_once_concat h.symbol_once hnew_symbol
  · intro n y hmem
    rcases List.mem_append.mp hmem with hmem | hmem
    · exact h.part n y hmem
    · obtain ⟨rfl, rfl⟩ := Prod.mk.inj (List.mem_singleton.mp hmem)
      exact hholds

end Steps

/-! ### What one call does, and what all of them do -/

/-- The table cannot answer this call. -/
def Unanswered (t : SymbolTable) : TableCall → Prop
  | .intern name => ∀ symbol, (name, symbol) ∉ t.ids
  | .nameOf symbol => ∀ name, (name, symbol) ∉ t.ids
  | .contains _ | .size => False

/-- All that a call can come to. -/
inductive Served (E : Engine σ) (scope : Value) (I : Index σ) (t : SymbolTable) (s : σ) :
    TableCall → TableDeal → SymbolTable → σ → Prop
  /-- The table answers from what it keeps. -/
  | recalled {call : TableCall} {answer name symbol : Value} (hmem : (name, symbol) ∈ t.ids)
      (hlearns : TableDeal.Learns ⟨call, .ok answer, []⟩ name symbol) :
      Served E scope I t s call ⟨call, .ok answer, []⟩ t s
  /-- The engine answers, and the table keeps it. -/
  | learnt {call : TableCall} {question : EngineCall} {answer name symbol : Value} {s' : σ}
      (hnew : t.Unanswered call) (hquestion : call.question? scope = some question)
      (hreply : E.reply? scope s call = some (.ok answer, s')) (hgrows : I.Grows s s')
      (hholds : I.holds s' name symbol)
      (hlearns : TableDeal.Learns ⟨call, .ok answer, [question]⟩ name symbol) :
      Served E scope I t s call ⟨call, .ok answer, [question]⟩
        ⟨t.ids ++ [(name, symbol)], t.names ++ [(symbol, name)]⟩ s'
  /-- The engine fails, and the table is as it was. -/
  | refused {call : TableCall} {question : EngineCall} {f : Failure} {s' : σ}
      (hnew : t.Unanswered call) (hquestion : call.question? scope = some question)
      (hreply : E.reply? scope s call = some (.error f, s')) (hgrows : I.Grows s s') :
      Served E scope I t s call ⟨call, .error f, [question]⟩ t s'
  | contained {name : Value} {b : Bool} (hb : b ↔ ∃ symbol, (name, symbol) ∈ t.ids) :
      Served E scope I t s (.contains name) ⟨.contains name, .ok (.bool b), []⟩ t s
  | counted : Served E scope I t s .size ⟨.size, .ok (.int t.ids.length), []⟩ t s

/-- A call comes to one of these. -/
def Serves (E : Engine σ) (scope : Value) (I : Index σ) (t : SymbolTable) (s : σ) (call : TableCall) : Prop :=
  let after := t.serve E scope s call
  Served E scope I t s call after.1 after.2.1 after.2.2

section Calls

variable {E : Engine σ} {scope : Value} {I : Index σ} {t : SymbolTable} {s s₀ : σ} {name symbol : Value}

/-- A name that is not kept is asked for. -/
theorem serve_intern (hkey : checkKey name = .ok ()) (hkept : kept? name t.ids = none) :
    t.serve E scope s (.intern name) =
      match (E.internSymbol scope name).run.run s with
      | (.ok symbol, s') =>
        (⟨.intern name, (t.remember name symbol).1.map fun _ => symbol, [.internSymbol scope name]⟩,
          (t.remember name symbol).2, s')
      | (.error f, s') => (⟨.intern name, .error f, [.internSymbol scope name]⟩, t, s') := by
  simp only [serve, SymbolTable.intern, hkey, hkept, ExceptT.run_bind, StateT.run_bind, Engine.watched,
    Engine.noted_run]
  rcases (E.internSymbol scope name).run.run s with ⟨r, s'⟩
  cases r <;> rfl

/-- A symbol that is not kept is asked for. -/
theorem serve_nameOf (hkey : checkKey symbol = .ok ()) (hkept : kept? symbol t.names = none) :
    t.serve E scope s (.nameOf symbol) =
      match (E.lookupSymbol scope symbol).run.run s with
      | (.ok name, s') =>
        (⟨.nameOf symbol, (t.remember name symbol).1.map fun _ => name, [.lookupSymbol scope symbol]⟩,
          (t.remember name symbol).2, s')
      | (.error f, s') => (⟨.nameOf symbol, .error f, [.lookupSymbol scope symbol]⟩, t, s') := by
  simp only [serve, SymbolTable.nameOf, hkey, hkept, ExceptT.run_bind, StateT.run_bind, Engine.watched,
    Engine.noted_run]
  rcases (E.lookupSymbol scope symbol).run.run s with ⟨r, s'⟩
  cases r <;> rfl

section

variable (hI : Indexed E scope I) (hs : I.valid s) (h : t.Mirrors I s)

include hI hs h

/-- A kept pair answers for both of its halves, and the engine is not asked. -/
theorem Mirrors.recalls (hmem : (name, symbol) ∈ t.ids) :
    t.serve E scope s (.intern name) = (⟨.intern name, .ok symbol, []⟩, t, s) ∧
      t.serve E scope s (.nameOf symbol) = (⟨.nameOf symbol, .ok name, []⟩, t, s) := by
  have hholds := h.part name symbol hmem
  constructor
  · simp only [serve, SymbolTable.intern, checkKey_name hI hs hholds, h.kept_symbol hI hs hmem]
    rfl
  · simp only [serve, SymbolTable.nameOf, checkKey_symbol hI hs hholds, h.kept_name hI hs hmem]
    rfl

theorem Mirrors.serves_intern (hname : name.isText) :
    Serves E scope I t s (.intern name) := by
  by_cases hmem : ∃ symbol, (name, symbol) ∈ t.ids
  · obtain ⟨symbol, hmem⟩ := hmem
    rw [Serves, (h.recalls hI hs hmem).1]
    exact .recalled hmem (.inl ⟨rfl, rfl⟩)
  have hnew : t.Unanswered (.intern name) := fun symbol hsymbol => hmem ⟨symbol, hsymbol⟩
  have hkey := naming_text.checkKey hname
  have hkept : kept? name t.ids = none := by
    rw [kept?, lookup?_eq_none (h.name_keys hI hs name)]
    rintro ⟨n, y⟩ he rfl
    exact hnew y he
  have hlaw := hI.internSymbol s name hs hname
  rw [Serves, serve_intern hkey hkept]
  cases hreply : (E.internSymbol scope name).run.run s with
  | mk outcome s' =>
    rw [hreply] at hlaw
    obtain ⟨hgrows, hanswer⟩ := hlaw
    cases outcome with
    | error f => exact .refused hnew rfl (congrArg some hreply) hgrows
    | ok symbol =>
      have hholds := hanswer symbol rfl
      obtain ⟨hremember, -⟩ := (h.grown hgrows).remember hI hgrows.valid hholds (hnew symbol)
      simp only [hremember]
      exact .learnt hnew rfl (congrArg some hreply) hgrows hholds (.inl ⟨rfl, rfl⟩)

theorem Mirrors.serves_nameOf (hsymbol : IsSymbol symbol) :
    Serves E scope I t s (.nameOf symbol) := by
  by_cases hmem : ∃ name, (name, symbol) ∈ t.ids
  · obtain ⟨name, hmem⟩ := hmem
    rw [Serves, (h.recalls hI hs hmem).2]
    exact .recalled hmem (.inr ⟨rfl, rfl⟩)
  have hnew : t.Unanswered (.nameOf symbol) := fun name hname => hmem ⟨name, hname⟩
  have hkey := naming_symbols.checkKey hsymbol
  have hkept : kept? symbol t.names = none := by
    rw [kept?, lookup?_eq_none (h.symbol_keys hI hs hsymbol)]
    rintro ⟨y, n⟩ he rfl
    exact hnew n (h.mem_names.mp he)
  have hlaw := hI.lookupSymbol s symbol hs hsymbol
  rw [Serves, serve_nameOf hkey hkept]
  cases hreply : (E.lookupSymbol scope symbol).run.run s with
  | mk outcome s' =>
    rw [hreply] at hlaw
    obtain ⟨hgrows, hanswer⟩ := hlaw
    cases outcome with
    | error f => exact .refused hnew rfl (congrArg some hreply) hgrows
    | ok name =>
      have hholds := hanswer name rfl
      obtain ⟨hremember, -⟩ := (h.grown hgrows).remember hI hgrows.valid hholds (hnew name)
      simp only [hremember]
      exact .learnt hnew rfl (congrArg some hreply) hgrows hholds (.inr ⟨rfl, rfl⟩)

theorem Mirrors.serves_contains (hname : name.isText) :
    Serves E scope I t s (.contains name) := by
  have hkey := naming_text.checkKey hname
  have hserve : t.serve E scope s (.contains name) =
      (⟨.contains name, .ok (.bool (Value.lookup? name t.ids).isSome), []⟩, t, s) := by
    simp only [serve, contains, hkey]
    rfl
  rw [Serves, hserve]
  refine .contained ?_
  rw [Option.isSome_iff_exists]
  exact exists_congr fun symbol => lookup?_eq_some (h.name_keys hI hs name) h.name_once

/-- One call, whichever it is. -/
theorem Mirrors.serves (call : TableCall) (hcall : call.Proper) :
    Serves E scope I t s call := by
  cases call with
  | intern name => exact h.serves_intern hI hs hcall
  | nameOf symbol => exact h.serves_nameOf hI hs hcall
  | contains name => exact h.serves_contains hI hs hcall
  | size => exact .counted

end

/-- Two calls of one table, the later one not asking for what the earlier one said. -/
def Settles (scope : Value) (d d' : TableDeal) : Prop :=
  ∀ name symbol, d.Learns name symbol →
    .internSymbol scope name ∉ d'.asked ∧ .lookupSymbol scope symbol ∉ d'.asked

/-- What calls on a table have left behind. -/
structure Ledger (scope : Value) (I : Index σ) (ds : List TableDeal) (t : SymbolTable) (s : σ) : Prop
    extends Mirrors I s t where
  valid : I.valid s
  /-- The table keeps what the answers said, and nothing else. -/
  learnt : ∀ name symbol, (name, symbol) ∈ t.ids ↔ ∃ d ∈ ds, d.Learns name symbol
  /-- What one answer said, the engine was not asked for later. -/
  asked_once : ds.Pairwise (Settles scope)

/-- A table after these calls is a cache of the engine's. -/
structure Faithful (E : Engine σ) (scope : Value) (I : Index σ) (ds : List TableDeal) (t : SymbolTable)
    (s : σ) : Prop extends Ledger scope I ds t s where
  /-- An answer was the engine's and is so still. -/
  answers : ∀ d ∈ ds, ∀ name symbol, d.Learns name symbol → I.holds s name symbol
  /-- An answer is given again, in both directions and without the engine. -/
  recalls : ∀ d ∈ ds, ∀ name symbol, d.Learns name symbol →
    t.serve E scope s (.intern name) = (⟨.intern name, .ok symbol, []⟩, t, s) ∧
      t.serve E scope s (.nameOf symbol) = (⟨.nameOf symbol, .ok name, []⟩, t, s)
  serves : ∀ call : TableCall, call.Proper → Serves E scope I t s call
  /-- At most one question is asked, the call's own. -/
  asks : ∀ call : TableCall, call.Proper →
    ∀ question ∈ (t.serve E scope s call).1.asked, call.question? scope = some question ∧
      (t.serve E scope s call).1.asked = [question]
  /-- A call that fails leaves the table as it was. -/
  fails : ∀ call : TableCall, call.Proper →
    ∀ f, (t.serve E scope s call).1.reply = .error f → (t.serve E scope s call).2.1 = t

section

variable {call : TableCall} {d : TableDeal} {t' : SymbolTable} {s' : σ}

theorem Served.grows (h : Served E scope I t s call d t' s') (hs : I.valid s) : I.Grows s s' := by
  cases h with
  | recalled hmem hlearns => exact ⟨hs, fun _ _ h => h⟩
  | learnt hnew hquestion hreply hgrows hholds hlearns => exact hgrows
  | refused hnew hquestion hreply hgrows => exact hgrows
  | contained hb => exact ⟨hs, fun _ _ h => h⟩
  | counted => exact ⟨hs, fun _ _ h => h⟩

theorem Served.mirrors (hI : Indexed E scope I) (hm : t.Mirrors I s)
    (h : Served E scope I t s call d t' s') : t'.Mirrors I s' := by
  cases h with
  | recalled hmem hlearns => exact hm
  | @learnt call question answer name symbol s' hnew hquestion hreply hgrows hholds hlearns =>
    have hfresh : (name, symbol) ∉ t.ids := by
      obtain ⟨rfl, -⟩ | ⟨rfl, -⟩ := hlearns
      · exact hnew symbol
      · exact hnew name
    exact ((hm.grown hgrows).remember hI hgrows.valid hholds hfresh).2
  | refused hnew hquestion hreply hgrows => exact hm.grown hgrows
  | contained hb => exact hm
  | counted => exact hm

/-- What an answer says is what the table keeps of it. -/
theorem Served.mem_ids (h : Served E scope I t s call d t' s') :
    (name, symbol) ∈ t'.ids ↔ (name, symbol) ∈ t.ids ∨ d.Learns name symbol := by
  cases h with
  | recalled hmem hlearns =>
    refine ⟨.inl, fun h => h.elim id fun h => ?_⟩
    obtain ⟨rfl, rfl⟩ := h.unique hlearns
    exact hmem
  | @learnt call question answer n y s' hnew hquestion hreply hgrows hholds hlearns =>
    rw [List.mem_append, List.mem_singleton, Prod.mk.injEq]
    refine or_congr_right ⟨?_, fun h => h.unique hlearns⟩
    rintro ⟨rfl, rfl⟩
    exact hlearns
  | refused hnew hquestion hreply hgrows => simp [TableDeal.Learns]
  | contained hb => simp [TableDeal.Learns]
  | counted => simp [TableDeal.Learns]

/-- The engine is not asked for what the table keeps. -/
theorem Served.asks_new (h : Served E scope I t s call d t' s') (hmem : (name, symbol) ∈ t.ids) :
    .internSymbol scope name ∉ d.asked ∧ .lookupSymbol scope symbol ∉ d.asked := by
  have hasked : ∀ question, t.Unanswered call → call.question? scope = some question →
      .internSymbol scope name ∉ [question] ∧ .lookupSymbol scope symbol ∉ [question] := by
    intro question hnew hquestion
    cases call with
    | intern n =>
      obtain rfl := Option.some.inj hquestion
      have hother : n ≠ name := by
        rintro rfl
        exact hnew symbol hmem
      simp [Ne.symm hother]
    | nameOf y =>
      obtain rfl := Option.some.inj hquestion
      have hother : y ≠ symbol := by
        rintro rfl
        exact hnew name hmem
      simp [Ne.symm hother]
    | contains n => cases hquestion
    | size => cases hquestion
  cases h with
  | recalled hmem hlearns => simp
  | learnt hnew hquestion hreply hgrows hholds hlearns => exact hasked _ hnew hquestion
  | refused hnew hquestion hreply hgrows => exact hasked _ hnew hquestion
  | contained hb => simp
  | counted => simp

theorem Served.asks (h : Served E scope I t s call d t' s') :
    ∀ question ∈ d.asked, call.question? scope = some question ∧ d.asked = [question] := by
  cases h with
  | learnt hnew hquestion hreply hgrows hholds hlearns => simpa using hquestion
  | refused hnew hquestion hreply hgrows => simpa using hquestion
  | _ => simp

theorem Served.fails (h : Served E scope I t s call d t' s') : ∀ f, d.reply = .error f → t' = t := by
  cases h with
  | learnt hnew hquestion hreply hgrows hholds hlearns => simp
  | _ => simp

/-- One more call. -/
theorem Ledger.called {ds : List TableDeal} (hI : Indexed E scope I) (h : t.Ledger scope I ds s)
    (hserved : Served E scope I t s call d t' s') : t'.Ledger scope I (ds ++ [d]) s' where
  toMirrors := hserved.mirrors hI h.toMirrors
  valid := (hserved.grows h.valid).valid
  learnt := by
    intro name symbol
    rw [hserved.mem_ids, h.learnt]
    simp only [List.mem_append, List.mem_singleton, or_and_right, exists_or, exists_eq_left]
  asked_once := by
    refine List.pairwise_append.mpr ⟨h.asked_once, List.pairwise_singleton .., ?_⟩
    intro e he d' hd' name symbol hlearns
    obtain rfl := List.mem_singleton.mp hd'
    exact hserved.asks_new ((h.learnt name symbol).mpr ⟨e, he, hlearns⟩)

end

/-- Every course of calls is accounted for. -/
theorem Course.ledger {ds : List TableDeal} (hI : Indexed E scope I) (hs₀ : I.valid s₀)
    (h : Course E scope I s₀ ds t s) : t.Ledger scope I ds s := by
  induction h with
  | outset => exact ⟨mirrors_empty, hs₀, by simp [empty], List.Pairwise.nil⟩
  | grown h hgrows ih => exact ⟨ih.toMirrors.grown hgrows, hgrows.valid, ih.learnt, ih.asked_once⟩
  | called h call hcall ih => exact ih.called hI (ih.toMirrors.serves hI ih.valid call hcall)

/-- After every course of calls, the table is a faithful cache. -/
theorem course_faithful {ds : List TableDeal} (hI : Indexed E scope I) (hs₀ : I.valid s₀)
    (h : Course E scope I s₀ ds t s) : Faithful E scope I ds t s := by
  have hledger := h.ledger hI hs₀
  have hkept : ∀ d ∈ ds, ∀ name symbol, d.Learns name symbol → (name, symbol) ∈ t.ids :=
    fun d hd name symbol hlearns => (hledger.learnt name symbol).mpr ⟨d, hd, hlearns⟩
  have hserves := hledger.toMirrors.serves hI hledger.valid
  exact {
    toLedger := hledger
    answers := fun d hd name symbol hlearns => hledger.part name symbol (hkept d hd name symbol hlearns)
    recalls := fun d hd name symbol hlearns =>
      hledger.toMirrors.recalls hI hledger.valid (hkept d hd name symbol hlearns)
    serves := hserves
    asks := fun call hcall => (hserves call hcall).asks
    fails := fun call hcall => (hserves call hcall).fails }

theorem Course.next {ds : List TableDeal} {d : TableDeal} {t' : SymbolTable} {s' : σ}
    (h : Course E scope I s₀ ds t s) (call : TableCall) (hcall : call.Proper)
    (hserve : t.serve E scope s call = (d, t', s')) : Course E scope I s₀ (ds ++ [d]) t' s' := by
  have hcalled := h.called call hcall
  rw [hserve] at hcalled
  exact hcalled

end Calls

end SymbolTable

/-! ### The table of a scope -/

namespace Host

section

variable {S : Embedding} {E : Engine S.State} {w : World S} {id : Nat} {n : Node}
  {issued name symbol : Value} {types : Registry} {t : SymbolTable}

/-- Checking a value leaves the world, and passes the value on. -/
theorem exec_check_iff (c : Checked Value) (w : World S) :
    (exec (check c) w).2 = w ∧ ∀ v, (exec (check c) w).1 = .ok v ↔ c = .ok v := by
  obtain ⟨a, rfl, hrun⟩ | ⟨f, g, rfl, hrun, -⟩ := exec_check c w
  · simp [hrun]
  · simp [hrun]

/-- Interning in a scope is a call on the table of the scope. -/
theorem internIn_serves (hn : w.nodes[id]? = some n) (hrole : n.role = .scope issued types t) :
    (exec (internIn E id name) w).2 =
        withTable w id issued types (t.serve E issued w.engine (.intern name)).2.1
          (t.serve E issued w.engine (.intern name)).2.2 ∧
      ∀ v, (exec (internIn E id name) w).1 = .ok v ↔
        (t.serve E issued w.engine (.intern name)).1.reply = .ok v := by
  simp only [internIn, exec_bind, exec_symbolsOf hn hrole]
  cases hkey : SymbolTable.checkKey name with
  | error f =>
    simp only [SymbolTable.serve, SymbolTable.intern, hkey, exec_pure, exec_setRole]
    exact exec_check_iff (.error f) _
  | ok u =>
    cases hkept : SymbolTable.kept? name t.ids with
    | some symbol =>
      simp only [SymbolTable.serve, SymbolTable.intern, hkey, hkept, exec_pure, exec_setRole]
      exact exec_check_iff (.ok symbol) _
    | none =>
      rw [SymbolTable.serve_intern hkey hkept]
      simp only [SymbolTable.intern, hkey, hkept, exec_bind, exec_onEngine]
      rcases (E.internSymbol issued name).run.run w.engine with ⟨r, s'⟩
      cases r with
      | error f => simp [withTable_self hn hrole]
      | ok symbol => exact exec_check_iff ((t.remember name symbol).1.map fun _ => symbol) _

/-- And so is finding the name behind a symbol. -/
theorem nameIn_serves (hn : w.nodes[id]? = some n) (hrole : n.role = .scope issued types t) :
    (exec (nameIn E id symbol) w).2 =
        withTable w id issued types (t.serve E issued w.engine (.nameOf symbol)).2.1
          (t.serve E issued w.engine (.nameOf symbol)).2.2 ∧
      ∀ v, (exec (nameIn E id symbol) w).1 = .ok v ↔
        (t.serve E issued w.engine (.nameOf symbol)).1.reply = .ok v := by
  simp only [nameIn, exec_bind, exec_symbolsOf hn hrole]
  cases hkey : SymbolTable.checkKey symbol with
  | error f =>
    simp only [SymbolTable.serve, SymbolTable.nameOf, hkey, exec_pure, exec_setRole]
    exact exec_check_iff (.error f) _
  | ok u =>
    cases hkept : SymbolTable.kept? symbol t.names with
    | some name =>
      simp only [SymbolTable.serve, SymbolTable.nameOf, hkey, hkept, exec_pure, exec_setRole]
      exact exec_check_iff (.ok name) _
    | none =>
      rw [SymbolTable.serve_nameOf hkey hkept]
      simp only [SymbolTable.nameOf, hkey, hkept, exec_bind, exec_onEngine]
      rcases (E.lookupSymbol issued symbol).run.run w.engine with ⟨r, s'⟩
      cases r with
      | error f => simp [withTable_self hn hrole]
      | ok name => exact exec_check_iff ((t.remember name symbol).1.map fun _ => name) _

end

end Host

/-! ### An engine that numbers names -/

namespace Cabinet

/-- The name with this number. -/
def named? (s : Cabinet) : Value → Option Value
  | .int (.ofNat k) => s.names[k]?
  | _ => none

/-- With an answer for numbers of names only. -/
def numbered : Engine Cabinet :=
  { engine with lookupSymbol := fun _ symbol => do answer ((← get).named? symbol) }

theorem named?_eq_some {s : Cabinet} {symbol name : Value} :
    s.named? symbol = some name ↔ ∃ k : Nat, symbol = .int k ∧ s.names[k]? = some name := by
  constructor
  · intro h
    match symbol, h with
    | .int (.ofNat k), h => exact ⟨k, rfl, h⟩
  · rintro ⟨k, rfl, h⟩
    exact h

theorem numbered_lookupSymbol (scope symbol : Value) (s : Cabinet) :
    (numbered.lookupSymbol scope symbol).run.run s =
      ((s.named? symbol).elim (.error (.shape .wrongKind)) .ok, s) := by
  show (answer (s.named? symbol)).run.run s = _
  cases s.named? symbol <;> rfl

def numbering : Index Cabinet where
  valid s := (∀ n ∈ s.names, n.isText) ∧ s.names.Nodup
  holds s name symbol := ∃ k : Nat, symbol = .int k ∧ s.names[k]? = some name

theorem learn_grows {s : Cabinet} {name : Value} (h : numbering.valid s) (hname : name.isText) :
    numbering.Grows s (s.learn name) := by
  have hquiet := learn_quiet h.1 hname
  refine ⟨⟨hquiet.valid, ?_⟩, fun n y => hquiet.gave .null n y⟩
  unfold learn
  split
  · exact h.2
  · next hlast =>
    refine List.nodup_append.mpr ⟨h.2, by simp, ?_⟩
    intro n hn name' hname'
    obtain rfl := List.mem_singleton.mp hname'
    rintro rfl
    exact hlast (List.findIdx_lt_length.mpr ⟨n, hn, (equals_text hname).mpr rfl⟩)

theorem indexed (scope : Value) : Indexed numbered scope numbering where
  name := by
    intro s name symbol h hholds
    obtain ⟨k, -, hk⟩ := hholds
    exact h.1 name (List.mem_of_getElem? hk)
  symbol := by
    intro s name symbol h hholds
    obtain ⟨k, rfl, -⟩ := hholds
    exact ⟨k, rfl⟩
  one_symbol := by
    intro s name y z h hy hz
    obtain ⟨j, rfl, hj⟩ := hy
    obtain ⟨k, rfl, hk⟩ := hz
    obtain ⟨hjlt, hj⟩ := List.getElem?_eq_some_iff.mp hj
    obtain ⟨hklt, hk⟩ := List.getElem?_eq_some_iff.mp hk
    have hjk : j = k := (List.getElem_inj h.2).mp (hj.trans hk.symm)
    rw [hjk]
  one_name := by
    intro s m n symbol h hm hn
    obtain ⟨j, rfl, hj⟩ := hm
    obtain ⟨k, hk, hn⟩ := hn
    obtain rfl : j = k := Int.ofNat.inj (Value.int.inj hk)
    exact Option.some.inj (hj.symm.trans hn)
  internSymbol := by
    intro s name h hname
    refine ⟨learn_grows h hname, ?_⟩
    intro symbol hsymbol
    obtain rfl := Except.ok.inj hsymbol
    exact learn_gave h.1 .null
  lookupSymbol := by
    intro s symbol h hsymbol
    rw [numbered_lookupSymbol]
    refine ⟨⟨h, fun _ _ hholds => hholds⟩, ?_⟩
    intro name hname
    cases hnamed : s.named? symbol with
    | none =>
      rw [hnamed] at hname
      cases hname
    | some n =>
      rw [hnamed] at hname
      obtain rfl := Except.ok.inj hname
      exact named?_eq_some.mp hnamed

/-- A number without a name. -/
def unknown : TableDeal :=
  ⟨.nameOf (.int 9), .error (.shape .wrongKind), [.lookupSymbol (.int 0) (.int 9)]⟩

/-- A number without a name is asked for whenever it is used: only answers are kept. -/
theorem asks_again : Indexed numbered (.int 0) numbering ∧ numbering.valid ⟨[], []⟩ ∧
    SymbolTable.Course numbered (.int 0) numbering ⟨[], []⟩ [unknown, unknown] .empty ⟨[], []⟩ ∧
      ¬ ([unknown, unknown].flatMap TableDeal.asked).Nodup := by
  refine ⟨indexed _, ⟨by simp, by simp⟩, ?_, by simp [unknown]⟩
  have honce : SymbolTable.Course numbered (.int 0) numbering ⟨[], []⟩ [unknown] .empty ⟨[], []⟩ :=
    SymbolTable.Course.outset.next (.nameOf (.int 9)) ⟨9, rfl⟩ rfl
  exact honce.next (.nameOf (.int 9)) ⟨9, rfl⟩ rfl

/-- A course: a number is looked up and its empty name interned, another number has no name, the engine
takes in a name by itself, and one more name is interned. -/
def diary : List TableDeal :=
  [⟨.nameOf (.int 0), .ok (.str ""), [.lookupSymbol (.int 0) (.int 0)]⟩,
   ⟨.intern (.str ""), .ok (.int 0), []⟩,
   unknown,
   ⟨.intern (.str "a"), .ok (.int 2), [.internSymbol (.int 0) (.str "a")]⟩,
   ⟨.nameOf (.int 2), .ok (.str "a"), []⟩,
   ⟨.contains (.str "b"), .ok (.bool false), []⟩,
   ⟨.size, .ok (.int 2), []⟩]

def diaryTable : SymbolTable :=
  ⟨[(.str "", .int 0), (.str "a", .int 2)], [(.int 0, .str ""), (.int 2, .str "a")]⟩

def diaryEnd : Cabinet := ⟨[.str "", .str "b", .str "a"], []⟩

theorem diary_valid : numbering.valid ⟨[.str ""], []⟩ :=
  ⟨by simp [Value.isText], by simp⟩

theorem diary_course :
    SymbolTable.Course numbered (.int 0) numbering ⟨[.str ""], []⟩ diary diaryTable diaryEnd := by
  let C := SymbolTable.Course numbered (.int 0) numbering ⟨[.str ""], []⟩
  have hempty : C (diary.take 1) ⟨[(.str "", .int 0)], [(.int 0, .str "")]⟩ ⟨[.str ""], []⟩ :=
    SymbolTable.Course.outset.next (.nameOf (.int 0)) ⟨0, rfl⟩ rfl
  have hback : C (diary.take 2) ⟨[(.str "", .int 0)], [(.int 0, .str "")]⟩ ⟨[.str ""], []⟩ :=
    hempty.next (.intern (.str "")) rfl (by cbv)
  have hfailed : C (diary.take 3) ⟨[(.str "", .int 0)], [(.int 0, .str "")]⟩ ⟨[.str ""], []⟩ :=
    hback.next (.nameOf (.int 9)) ⟨9, rfl⟩ (by cbv)
  have hlearn : (Cabinet.mk [.str ""] []).learn (.str "b") = ⟨[.str "", .str "b"], []⟩ := by cbv
  have hgrown : C (diary.take 3) ⟨[(.str "", .int 0)], [(.int 0, .str "")]⟩ ⟨[.str "", .str "b"], []⟩ :=
    hfailed.grown (hlearn ▸ learn_grows diary_valid rfl)
  have hnew : C (diary.take 4) diaryTable diaryEnd :=
    hgrown.next (.intern (.str "a")) rfl (by cbv)
  have hagain : C (diary.take 5) diaryTable diaryEnd :=
    hnew.next (.nameOf (.int 2)) ⟨2, rfl⟩ (by cbv)
  have habsent : C (diary.take 6) diaryTable diaryEnd :=
    hagain.next (.contains (.str "b")) rfl (by cbv)
  exact habsent.next .size trivial rfl

/-- After it, the table is a cache of the engine's. -/
theorem diary_faithful : Indexed numbered (.int 0) numbering ∧ numbering.valid ⟨[.str ""], []⟩ ∧
    SymbolTable.Course numbered (.int 0) numbering ⟨[.str ""], []⟩ diary diaryTable diaryEnd ∧
      SymbolTable.Faithful numbered (.int 0) numbering diary diaryTable diaryEnd :=
  ⟨indexed _, diary_valid, diary_course, SymbolTable.course_faithful (indexed _) diary_valid diary_course⟩

end Cabinet

end EngineHost
