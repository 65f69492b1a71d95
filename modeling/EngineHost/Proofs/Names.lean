import EngineHost.Proofs.Types
import EngineHost.Symbols

/-!
Names and their symbols. A table keeps what the engine has answered in both directions; what is kept
always agrees with what the engine has given out, however a name was spelt when it was first used.
-/
namespace EngineHost

/-- Values that serve as names: they can be keys, and equality tells them apart. -/
structure Naming (isName : Value → Prop) : Prop where
  hashable : ∀ v, isName v → v.isHashable
  refl : ∀ v, isName v → v.equals v
  symm : ∀ v w, isName v → isName w → v.equals w → w.equals v
  trans : ∀ u v w, isName u → isName v → isName w → u.equals v → v.equals w → u.equals w

/-- Symbols are whole numbers. -/
def IsSymbol (v : Value) : Prop := ∃ i, v = .int i

theorem equals_text {v w : Value} (hv : v.isText) : v.equals w ↔ v = w := by
  cases v with
  | str s => cases w <;> simp [Value.equals, numberEquals, Value.number?]
  | letters s => cases w <;> simp [Value.equals, numberEquals, Value.number?]
  | _ => simp [Value.isText] at hv

theorem equals_int (i j : Int) : (Value.int i).equals (.int j) ↔ i = j := by
  simp [Value.equals, numberEquals, Value.number?, Number.equals]

/-- Texts serve as names. -/
theorem naming_text : Naming fun v => v.isText where
  hashable := by
    intro v hv
    cases v with
    | str s => rfl
    | letters s => rfl
    | _ => simp [Value.isText] at hv
  refl := fun v hv => (equals_text hv).mpr rfl
  symm := by
    intro v w hv hw h
    exact (equals_text hw).mpr ((equals_text hv).mp h).symm
  trans := by
    intro u v w hu hv _ huv hvw
    exact (equals_text hu).mpr (((equals_text hu).mp huv).trans ((equals_text hv).mp hvw))

theorem naming_symbols : Naming IsSymbol where
  hashable := by
    intro v hv
    obtain ⟨i, rfl⟩ := hv
    rfl
  refl := by
    intro v hv
    obtain ⟨i, rfl⟩ := hv
    exact (equals_int i i).mpr rfl
  symm := by
    intro v w hv hw h
    obtain ⟨i, rfl⟩ := hv
    obtain ⟨j, rfl⟩ := hw
    exact (equals_int j i).mpr ((equals_int i j).mp h).symm
  trans := by
    intro u v w hu hv hw huv hvw
    obtain ⟨i, rfl⟩ := hu
    obtain ⟨j, rfl⟩ := hv
    obtain ⟨k, rfl⟩ := hw
    exact (equals_int i k).mpr (((equals_int i j).mp huv).trans ((equals_int j k).mp hvw))

namespace Naming

variable {isName : Value → Prop}

/-- A name can be a key. -/
theorem checkKey (hN : Naming isName) {v : Value} (hv : isName v) : SymbolTable.checkKey v = .ok () := by
  simp [SymbolTable.checkKey, hN.hashable v hv, pure, Except.pure]

/-- Equal names are equal to the same names. -/
theorem equals_congr (hN : Naming isName) {u v w : Value} (hu : isName u) (hv : isName v)
    (hw : isName w) (h : u.equals v) : u.equals w = v.equals w := by
  rw [Bool.eq_iff_iff]
  constructor
  · intro huw
    exact hN.trans v u w hv hu hw (hN.symm u v hu hv h) huw
  · intro hvw
    exact hN.trans u v w hu hv hw h hvw

/-- A written entry is found under every spelling of its key, the others as before. -/
theorem lookup?_insertEntry (hN : Naming isName) {key key' value : Value} (hkey : isName key)
    (hkey' : isName key') (entries : List (Value × Value)) (hentries : ∀ e ∈ entries, isName e.1) :
    Value.lookup? key' (Value.insertEntry key value entries) =
      if key.equals key' then some value else Value.lookup? key' entries := by
  induction entries with
  | nil => simp [Value.insertEntry, Value.lookup?]
  | cons e rest ih =>
    obtain ⟨k, v⟩ := e
    have hk : isName k := hentries (k, v) (by simp)
    have hrest := ih fun e he => hentries e (List.mem_cons_of_mem _ he)
    by_cases hsame : k.equals key = true
    · have hcongr := hN.equals_congr hk hkey hkey' hsame
      simp only [Value.insertEntry, hsame, if_true, Value.lookup?, hcongr]
      split <;> rfl
    · simp only [Value.insertEntry, hsame, if_false, Value.lookup?, hrest, Bool.false_eq_true]
      by_cases hfound : k.equals key' = true
      · have hother : key.equals key' = false := by
          by_contra hkey_key'
          rw [Bool.not_eq_false] at hkey_key'
          have hback := hN.symm key key' hkey hkey' hkey_key'
          exact hsame (hN.trans k key' key hk hkey' hkey hfound hback)
        simp [hfound, hother]
      · simp [hfound]

end Naming

theorem keys_insertEntry {P : Value → Prop} {key value : Value} (hkey : P key)
    (entries : List (Value × Value)) (h : ∀ e ∈ entries, P e.1) :
    ∀ e ∈ Value.insertEntry key value entries, P e.1 := by
  induction entries with
  | nil =>
    intro e he
    obtain rfl := List.mem_singleton.mp he
    exact hkey
  | cons first rest ih =>
    obtain ⟨k, v⟩ := first
    intro e he
    rw [Value.insertEntry] at he
    split at he
    · rcases List.mem_cons.mp he with rfl | he
      · exact h (k, v) List.mem_cons_self
      · exact h e (List.mem_cons_of_mem _ he)
    · rcases List.mem_cons.mp he with rfl | he
      · exact h (k, v) (by simp)
      · exact ih (fun e he => h e (List.mem_cons_of_mem _ he)) e he

section Tables

variable {isName : Value → Prop} {gave gave' : Value → Value → Prop} {t : SymbolTable}

/-- The engine gave the symbol to the name, or to another spelling of it. -/
def Denotes (isName : Value → Prop) (gave : Value → Value → Prop) (name symbol : Value) : Prop :=
  IsSymbol symbol ∧ ∃ n, isName n ∧ gave n symbol ∧ n.equals name

theorem Denotes.mono {name symbol : Value} (h : Denotes isName gave name symbol)
    (hmore : ∀ n y, gave n y → gave' n y) : Denotes isName gave' name symbol := by
  obtain ⟨hsymbol, n, hn, hgave, hequals⟩ := h
  exact ⟨hsymbol, n, hn, hmore n symbol hgave, hequals⟩

/-- What a symbol denotes is one name. -/
theorem Denotes.unique (hN : Naming isName)
    (hone : ∀ m n y, isName m → isName n → gave m y → gave n y → m.equals n) {a b symbol : Value}
    (ha : isName a) (hb : isName b) (hda : Denotes isName gave a symbol)
    (hdb : Denotes isName gave b symbol) : a.equals b := by
  obtain ⟨_, m, hm, hgave_m, hma⟩ := hda
  obtain ⟨_, n, hn, hgave_n, hnb⟩ := hdb
  have hmn : m.equals n := hone m n symbol hm hn hgave_m hgave_n
  have han : a.equals n := hN.trans a m n ha hm hn (hN.symm m a hm ha hma) hmn
  exact hN.trans a n b ha hn hb han hnb

namespace SymbolTable

/-- Everything kept is true of the engine. -/
structure Consistent (isName : Value → Prop) (gave : Value → Value → Prop) (t : SymbolTable) :
    Prop where
  names_only : ∀ e ∈ t.ids, isName e.1
  symbols_only : ∀ e ∈ t.names, IsSymbol e.1
  ids : ∀ name symbol, isName name → Value.lookup? name t.ids = some symbol →
    Denotes isName gave name symbol
  names : ∀ symbol name, IsSymbol symbol → Value.lookup? symbol t.names = some name →
    isName name ∧ Denotes isName gave name symbol

theorem consistent_empty : Consistent isName gave SymbolTable.empty where
  names_only := fun _ he => by cases he
  symbols_only := fun _ he => by cases he
  ids := fun _ _ _ h => by cases h
  names := fun _ _ _ h => by cases h

theorem Consistent.mono (h : t.Consistent isName gave) (hmore : ∀ n y, gave n y → gave' n y) :
    t.Consistent isName gave' where
  names_only := h.names_only
  symbols_only := h.symbols_only
  ids := fun name symbol hname hkept => (h.ids name symbol hname hkept).mono hmore
  names := by
    intro symbol name hsymbol hkept
    obtain ⟨hname, hdenotes⟩ := h.names symbol name hsymbol hkept
    exact ⟨hname, hdenotes.mono hmore⟩

theorem kept?_eq_some {key value : Value} {answers : List (Value × Value)}
    (h : kept? key answers = some value) : Value.lookup? key answers = some value := by
  unfold kept? at h
  split at h
  · cases h
  · exact h

/-- A name and a symbol of it can be kept. -/
theorem Consistent.remember (hN : Naming isName) (h : t.Consistent isName gave) {name symbol : Value}
    (hname : isName name) (hdenotes : Denotes isName gave name symbol) :
    ∃ t', t.remember name symbol = (.ok (), t') ∧ t'.Consistent isName gave := by
  have hsymbol : IsSymbol symbol := hdenotes.1
  have hname_key := hN.checkKey hname
  have hsymbol_key := naming_symbols.checkKey hsymbol
  refine ⟨⟨Value.insertEntry name symbol t.ids, Value.insertEntry symbol name t.names⟩, ?_, ?_⟩
  · simp only [SymbolTable.remember, hname_key, hsymbol_key]
  refine ⟨keys_insertEntry hname t.ids h.names_only, keys_insertEntry hsymbol t.names h.symbols_only,
    ?_, ?_⟩
  · intro name' symbol' hname' hkept
    rw [hN.lookup?_insertEntry hname hname' t.ids h.names_only] at hkept
    split at hkept
    · next hequals =>
      obtain rfl := Option.some.inj hkept
      obtain ⟨_, n, hn, hgave, hequals_n⟩ := hdenotes
      exact ⟨hsymbol, n, hn, hgave, hN.trans n name name' hn hname hname' hequals_n hequals⟩
    · exact h.ids name' symbol' hname' hkept
  · intro symbol' name' hsymbol' hkept
    rw [naming_symbols.lookup?_insertEntry hsymbol hsymbol' t.names h.symbols_only] at hkept
    split at hkept
    · next hequals =>
      obtain rfl := Option.some.inj hkept
      obtain ⟨i, rfl⟩ := hsymbol
      obtain ⟨j, rfl⟩ := hsymbol'
      obtain rfl := (equals_int i j).mp hequals
      exact ⟨hname, hdenotes⟩
    · exact h.names symbol' name' hsymbol' hkept

end SymbolTable

end Tables

end EngineHost
