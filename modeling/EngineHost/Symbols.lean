import EngineHost.Failure
import EngineHost.Value.Equality

/-!
The names of arguments as symbols. The engine gives every name a symbol; a table keeps what it has
answered, in both directions, so that it is asked once. Names and symbols may be any values that can be
keys.
-/
namespace EngineHost

structure SymbolTable where
  /-- Symbols by name. -/
  ids : List (Value × Value)
  /-- Names by symbol. -/
  names : List (Value × Value)

namespace SymbolTable

def empty : SymbolTable := ⟨[], []⟩

def size (t : SymbolTable) : Nat :=
  t.ids.length

def checkKey (key : Value) : Checked Unit :=
  if key.isHashable then pure () else throw (.shape .wrongKind)

def contains (t : SymbolTable) (name : Value) : Checked Bool := do
  checkKey name
  return (Value.lookup? name t.ids).isSome

/-- A kept answer. Null is not an answer worth keeping. -/
def kept? (key : Value) (answers : List (Value × Value)) : Option Value :=
  match Value.lookup? key answers with
  | some .null => none
  | answer => answer

/-- Keeps a name and its symbol. The direction from name to symbol is kept first, also when the symbol
cannot be a key. -/
def remember (t : SymbolTable) (name symbol : Value) : Checked Unit × SymbolTable :=
  match checkKey name, checkKey symbol with
  | .error f, _ => (.error f, t)
  | .ok (), .error f => (.error f, { t with ids := Value.insertEntry name symbol t.ids })
  | .ok (), .ok () =>
    (.ok (), ⟨Value.insertEntry name symbol t.ids, Value.insertEntry symbol name t.names⟩)

/-- The symbol of a name, and the table after it; `ask` is the engine's answer. -/
def intern {m : Type → Type} [Monad m] (t : SymbolTable) (ask : Value → m Value) (name : Value) :
    m (Checked Value × SymbolTable) :=
  match checkKey name, kept? name t.ids with
  | .error f, _ => pure (.error f, t)
  | .ok (), some symbol => pure (.ok symbol, t)
  | .ok (), none => do
    let symbol ← ask name
    let (outcome, t) := t.remember name symbol
    pure (outcome.map fun _ => symbol, t)

/-- The name behind a symbol, and the table after it; `ask` is the engine's answer. -/
def nameOf {m : Type → Type} [Monad m] (t : SymbolTable) (ask : Value → m Value) (symbol : Value) :
    m (Checked Value × SymbolTable) :=
  match checkKey symbol, kept? symbol t.names with
  | .error f, _ => pure (.error f, t)
  | .ok (), some name => pure (.ok name, t)
  | .ok (), none => do
    let name ← ask symbol
    let (outcome, t) := t.remember name symbol
    pure (outcome.map fun _ => name, t)

end SymbolTable

end EngineHost
