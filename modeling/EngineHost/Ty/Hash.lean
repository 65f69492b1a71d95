import EngineHost.Value.Equality

/-!
The number under which a table keeps a type: that of the tuple of its parts, from the inside out.
-/
namespace EngineHost

/-- How the values a type is made of are numbered, and a tuple by the numbers of its items. -/
structure Hashing where
  value : Value → Int
  tuple : List Int → Int

namespace Ty

variable (h : Hashing)

mutual

def hash : Ty → Int
  | .primitive p => h.tuple [h.value (.str p.name), h.value (.str p.tag)]
  | .variable name => h.tuple [h.value name]
  | .list element => h.tuple [element.hash]
  | .record fields extensible => h.tuple [h.tuple (fieldsHash fields), h.value extensible]
  | .block params returns => h.tuple [h.tuple (listHash params), returns.hash]

def listHash : List Ty → List Int
  | [] => []
  | t :: rest => t.hash :: listHash rest

def fieldsHash : List (Value × Field) → List Int
  | [] => []
  | (name, .mk t isOptional) :: rest =>
    h.tuple [h.value name, h.tuple [t.hash, h.value isOptional]] :: fieldsHash rest

end

/-- A type that holds what cannot be a key has no number. -/
def hash? (t : Ty) : Option Int :=
  if t.isHashable then some (t.hash h) else none

end Ty

end EngineHost
