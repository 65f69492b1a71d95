import EngineHost.Ty.Wire
import EngineHost.Value.Access
import EngineHost.Value.Objects

/-!
Signatures of host functions. The first argument's name is the function's name. On the wire an argument
is named by a symbol, so both directions take a function between names and symbols. A name is mostly a
text, but nothing depends on that.
-/
namespace EngineHost

structure ArgSpec where
  name : Value
  type : Ty
  required : Bool
  variadic : Bool

def ArgSpec.text (a : ArgSpec) : String :=
  a.name.text ++ (if a.required then "" else "?") ++ ": " ++ a.type.name ++
    (if a.variadic then "..." else "")

def ArgSpec.equals (a b : ArgSpec) : Bool :=
  a.name.equals b.name && a.type.equals b.type && a.required == b.required && a.variadic == b.variadic

structure Signature where
  args : List ArgSpec
  returns : Ty
  /-- Declared never to fail. -/
  total : Bool

namespace Signature

/-- The function's name; a signature without arguments has none. -/
def name? (s : Signature) : Option Value :=
  s.args.head?.map ArgSpec.name

def name (s : Signature) : Checked Value :=
  match s.name? with
  | some n => pure n
  | none => throw (.shape .emptySequence)

def arg? (s : Signature) (name : Value) : Option ArgSpec :=
  s.args.find? (·.name.equals name)

def text (s : Signature) : String :=
  "(" ++ commaSeparated (s.args.map ArgSpec.text) ++ ") -> " ++ s.returns.name ++
    (if s.total then "" else " !")

def replaceObjects (f : ObjectRef → Value) (s : Signature) : Signature :=
  { s with
    args := s.args.map fun a =>
      { a with name := a.name.replaceObjects f, type := a.type.replaceObjects f }
    returns := s.returns.replaceObjects f }

/-- As an instance with named fields. -/
def instanceValue (s : Signature) : Value :=
  let arg (a : ArgSpec) : Value :=
    .data "ArgSpec"
      [ ("name", a.name), ("type", .type a.type), ("required", .bool a.required),
        ("variadic", .bool a.variadic) ]
  .data "FunctionSignature"
    [("args", .tuple (s.args.map arg)), ("return_type", .type s.returns), ("total", .bool s.total)]

def equalArgs : List ArgSpec → List ArgSpec → Bool
  | [], [] => true
  | a :: as, b :: bs => a.equals b && equalArgs as bs
  | _, _ => false

def equals (s t : Signature) : Bool :=
  equalArgs s.args t.args && s.returns.equals t.returns && s.total == t.total

section
variable {m : Type → Type} [Monad m]

def argToWire (intern : Value → m Value) (a : ArgSpec) : m Value := do
  let symbol ← intern a.name
  pure (.ofFields
    [("name", symbol), ("ty", a.type.toWire), ("required", .bool a.required),
     ("variadic", .bool a.variadic)])

def toWire (intern : Value → m Value) (s : Signature) : m Value := do
  let args ← s.args.mapM (argToWire intern)
  pure (.ofFields
    [("total", .bool s.total), ("args", .list args), ("returns", s.returns.toWire)])

variable [MonadExceptOf Failure m]

def argOfWire (nameOf : Value → m Value) (wire : Value) : m ArgSpec := do
  let name ← nameOf (← ofExcept (wire.atKey "name"))
  let type ← ofExcept (wire.atKey "ty" >>= Ty.ofWire)
  let required ← ofExcept (wire.atKey "required")
  let variadic ← ofExcept (wire.atKey "variadic")
  pure ⟨name, type, required.isTruthy, variadic.isTruthy⟩

def ofWire (nameOf : Value → m Value) (wire : Value) : m Signature := do
  let items ← ofExcept (wire.atKey "args" >>= Value.elements)
  let args ← items.mapM (argOfWire nameOf)
  let returns ← ofExcept (wire.atKey "returns" >>= Ty.ofWire)
  let total ← ofExcept (wire.atKey "total")
  pure ⟨args, returns, total.isTruthy⟩

end

end Signature

end EngineHost
