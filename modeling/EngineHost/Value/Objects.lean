import EngineHost.Value.Basic

/-!
Objects inside a value. An object's text depends on its state, so before a value is shown its objects
are replaced by what they are at that time.
-/
namespace EngineHost.Value

mutual

def replaceObjects (f : ObjectRef → Value) : Value → Value
  | .object ref => f ref
  | .list items => .list (replaceInList f items)
  | .tuple items => .tuple (replaceInList f items)
  | .mapping kind entries => .mapping kind (replaceInEntries f entries)
  | .data name fields => .data name (replaceInFields f fields)
  | .listOf element => .listOf (replaceObjects f element)
  | .variable name => .variable (replaceObjects f name)
  | .blockOf params returns => .blockOf (replaceInList f params) (replaceObjects f returns)
  | .fieldSpec expr isOptional => .fieldSpec (replaceObjects f expr) isOptional
  | .recordOf fields extensible =>
    .recordOf (replaceInEntries f fields) (replaceObjects f extensible)
  | .null => .null
  | .bool b => .bool b
  | .int i => .int i
  | .float x => .float x
  | .str s => .str s
  | .letters s => .letters s
  | .moment m => .moment m
  | .date d => .date d
  | .foreign o => .foreign o
  | .type t => .type (replaceInType f t)

def replaceInList (f : ObjectRef → Value) : List Value → List Value
  | [] => []
  | v :: rest => replaceObjects f v :: replaceInList f rest

def replaceInEntries (f : ObjectRef → Value) : List (Value × Value) → List (Value × Value)
  | [] => []
  | (k, v) :: rest => (replaceObjects f k, replaceObjects f v) :: replaceInEntries f rest

def replaceInFields (f : ObjectRef → Value) : List (String × Value) → List (String × Value)
  | [] => []
  | (k, v) :: rest => (k, replaceObjects f v) :: replaceInFields f rest

def replaceInType (f : ObjectRef → Value) : Ty → Ty
  | .primitive p => .primitive p
  | .variable name => .variable (replaceObjects f name)
  | .list element => .list (replaceInType f element)
  | .record fields extensible =>
    .record (replaceInTypeFields f fields) (replaceObjects f extensible)
  | .block params returns => .block (replaceInTypes f params) (replaceInType f returns)

def replaceInTypes (f : ObjectRef → Value) : List Ty → List Ty
  | [] => []
  | t :: rest => replaceInType f t :: replaceInTypes f rest

def replaceInTypeFields (f : ObjectRef → Value) : List (Value × Field) → List (Value × Field)
  | [] => []
  | (k, .mk t isOptional) :: rest =>
    (replaceObjects f k, .mk (replaceInType f t) (replaceObjects f isOptional)) ::
      replaceInTypeFields f rest

end

end EngineHost.Value

namespace EngineHost

def Ty.replaceObjects (f : ObjectRef → Value) (t : Ty) : Ty :=
  Value.replaceInType f t

end EngineHost
