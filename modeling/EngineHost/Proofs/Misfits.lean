import EngineHost.Proofs.Meanings
import EngineHost.Proofs.Offences

/-!
What keeps an expression from standing for a type. An expression is walked through from left to right: the
parameters of a callback come before what it returns, and the key of a field before its type, which may be
marked. The first thing on this walk that does not fit where it stands is the one that an error tells of.
-/
namespace EngineHost

variable {r : Registry}

/-- What a walk through a type expression comes to. -/
inductive Stop where
  /-- A text where a type is expected. -/
  | name (v : Value)
  /-- The key of a field. -/
  | key (v : Value)
  /-- A marker that is not the value of a field. -/
  | marker (v : Value)
  /-- Anything else that is no type expression. -/
  | stranger (v : Value)

namespace Stop

def value : Stop → Value
  | .name v | .key v | .marker v | .stranger v => v

/-- Whether it is as it has to be: names stand for types and keys are texts. -/
def fits (r : Registry) : Stop → Bool
  | .name v => v.primitive?.isSome || r.contains v
  | .key v => v.isText
  | .marker _ | .stranger _ => false

/-- What resolving stops for. -/
def fault? (r : Registry) (s : Stop) : Option Failure :=
  if s.fits r then none else some (.host (.unknownType s.value))

theorem fault?_eq_none (s : Stop) : s.fault? r = none ↔ s.fits r := by
  cases hs : s.fits r <;> simp [fault?, hs]

end Stop

namespace Value

mutual

/-- Everything that a walk through a type expression comes to, in its order. A type that is ready and the name
of a variable are not looked at; neither is what a marker holds that is not the value of a field. -/
def stops : Value → List Stop
  | .str name => [.name (.str name)]
  | .letters name => [.name (.letters name)]
  | .type _ | .variable _ => []
  | .listOf element => stops element
  | .blockOf params returns => stopsOfList params ++ stops returns
  | .recordOf fields _ => stopsOfFields fields
  | .mapping _ entries => stopsOfFields entries
  | .fieldSpec expr isOptional => [.marker (.fieldSpec expr isOptional)]
  | v => [.stranger v]

def stopsOfList : List Value → List Stop
  | [] => []
  | v :: rest => stops v ++ stopsOfList rest

def stopsOfFields : List (Value × Value) → List Stop
  | [] => []
  | (key, .fieldSpec expr _) :: rest => .key key :: stops expr ++ stopsOfFields rest
  | (key, v) :: rest => .key key :: stops v ++ stopsOfFields rest

end

end Value

namespace Registry

/-- What does not fit on a walk, as the errors that tell of it. -/
def faults (r : Registry) (stops : List Stop) : List Failure :=
  stops.filterMap (Stop.fault? r)

end Registry

/-- The second field has a marker inside its marker; what that holds and the key after it are not looked at. -/
example :
    Registry.empty.resolve (.blockOf [.str "number"] (.mapping .plain
      [(.str "a", .fieldSpec (.str "string") true),
        (.str "b", .fieldSpec (.fieldSpec (.str "widget") true) false), (.int 5, .str "gadget")])) =
      .error (.host (.unknownType (.fieldSpec (.str "widget") true))) := by
  cbv

end EngineHost
