import EngineHost.Registry
import EngineHost.Signature.Basic

/-!
Declaring a host function step by step. A type expression is resolved where it is declared; whether the
declaration is complete is asked only at the end.
-/
namespace EngineHost

/-- What a declaration names as its implementation: a function with a body, or any other value. -/
inductive Callee (β : Type) where
  | function (body : β)
  | value (v : Value)

/-- Callbacks of the engine can be called like functions. -/
def Callee.isCallable {β : Type} : Callee β → Bool
  | .function _ => true
  | .value (.foreign o) => o.callable
  | .value (.object ref) => ref.className == "Block"
  | .value _ => false

structure Definition (β : Type) where
  signature : Signature
  implementation : Callee β

structure Builder (β : Type) where
  args : List ArgSpec
  total : Bool
  returns? : Option Ty
  implementation? : Option (Callee β)

/-- One call on a builder. -/
inductive BuildStep (β : Type) where
  | declare (name expr : Value) (required variadic : Bool)
  | setTotal (total : Bool)
  | returns (expr : Value)
  | implement (callee : Option (Callee β))

namespace Builder

variable {β : Type}

def empty : Builder β := ⟨[], false, none, none⟩

/-- The first argument's name, or a stand-in while there is none. -/
def functionName (b : Builder β) : Value :=
  match b.args with
  | a :: _ => a.name
  | [] => .str "<anonymous>"

/-- A step whose expression does not resolve leaves the declaration as it was. -/
def step (r : Registry) (b : Builder β) : BuildStep β → Checked (Builder β)
  | .declare name expr required variadic => do
    let t ← r.resolve expr
    return { b with args := b.args ++ [⟨name, t, required, variadic⟩] }
  | .setTotal total => pure { b with total }
  | .returns expr => do
    let t ← r.resolve expr
    return { b with returns? := some t }
  | .implement callee => pure { b with implementation? := callee }

/-- The first name that an earlier argument has. A name that cannot be a key is refused. -/
def firstRepeated? (seen : List Value) : List ArgSpec → Checked (Option Value)
  | [] => pure none
  | a :: rest =>
    if !a.name.isHashable then throw (.shape .wrongKind)
    else if seen.any (·.equals a.name) then pure (some a.name)
    else firstRepeated? (a.name :: seen) rest

def validate (b : Builder β) : Checked (Definition β) :=
  let refuse (problem : BuilderProblem) : Checked (Definition β) :=
    throw (.host (.builder b.functionName problem))
  if b.args.isEmpty then refuse .noArguments
  else do
    match ← firstRepeated? [] b.args, b.returns?, b.implementation? with
    | some name, _, _ => refuse (.declaredTwice name)
    | none, none, _ => refuse .noReturnType
    | none, some _, none => refuse .noImplementation
    | none, some returns, some callee =>
      if callee.isCallable then pure ⟨⟨b.args, returns, b.total⟩, callee⟩
      else refuse .notCallable

end Builder

end EngineHost
