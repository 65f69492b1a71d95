import EngineHost.Signature.Builder

/-!
A declaration while it is written. A host program calls a builder in any order, may ask at any time whether the
declaration is complete, and may define aliases in between. A call that fails is over: the next one finds
everything as it was.
-/
namespace EngineHost

/-- The ways to declare an argument. -/
inductive Declaring
  | requireArg
  | allowArg
  | requireArgRepeated
  | allowArgRepeated
  deriving DecidableEq, Repr

namespace Declaring

/-- Whether the argument has to be supplied. -/
def required : Declaring → Bool
  | requireArg | requireArgRepeated => true
  | allowArg | allowArgRepeated => false

/-- Whether the argument may be supplied more than once. -/
def variadic : Declaring → Bool
  | requireArgRepeated | allowArgRepeated => true
  | requireArg | allowArg => false

end Declaring

/-- A null in the place of an implementation takes back the one before. -/
def Callee.given? {β : Type} : Callee β → Option (Callee β)
  | .value .null => none
  | callee => some callee

/-- A builder and the registry that its expressions are resolved in. -/
structure Draft (β : Type) where
  registry : Registry
  builder : Builder β

namespace Draft

inductive Call (β : Type) where
  | declare (way : Declaring) (name expr : Value)
  | canFail
  | neverFails
  | returns (expr : Value)
  | implement (callee : Callee β)
  | validate
  /-- Defines an alias. -/
  | define (name expr : Value)

/-- What a call is answered. -/
inductive Answer (β : Type) where
  /-- The builder itself. -/
  | builder
  | definition (d : Definition β)
  | type (t : Ty)

variable {β : Type}

def empty (r : Registry) : Draft β := ⟨r, .empty⟩

/-- A step on the builder, which stays as it is if the step fails. -/
def step (s : Draft β) (step : BuildStep β) : Checked (Answer β) × Draft β :=
  match s.builder.step s.registry step with
  | .ok b => (.ok .builder, { s with builder := b })
  | .error f => (.error f, s)

/-- The answer to a call, and what is there after it. -/
def call (s : Draft β) : Call β → Checked (Answer β) × Draft β
  | .declare way name expr => s.step (.declare name expr way.required way.variadic)
  | .canFail => s.step (.setTotal false)
  | .neverFails => s.step (.setTotal true)
  | .returns expr => s.step (.returns expr)
  | .implement callee => s.step (.implement callee.given?)
  | .validate => (.definition <$> s.builder.validate, s)
  | .define name expr =>
    match s.registry.define name expr with
    | .ok (t, r) => (.ok (.type t), { s with registry := r })
    | .error f => (.error f, s)

/-- What is there after some calls. -/
def after (s : Draft β) (calls : List (Call β)) : Draft β :=
  calls.foldl (fun s c => (s.call c).2) s

/-- The answers to some calls, one after the other. -/
def answers (s : Draft β) : List (Call β) → List (Checked (Answer β))
  | [] => []
  | c :: rest => (s.call c).1 :: (s.call c).2.answers rest

end Draft

end EngineHost
