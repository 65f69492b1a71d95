import EngineHost.Calendar.Moment
import EngineHost.Text.Letter

/-!
Native values and the types that describe them.

A host program hands over values of any shape, so there is one type of values. A type may carry any
value as the name of a variable or of a record field, and a value may be a type, so the two are
defined together.
-/
namespace EngineHost

open Calendar Text

/-- A mapping remembers how it was made. -/
inductive MappingKind
  | plain
  | ordered
  /-- A read-only view. -/
  | view
  deriving DecidableEq, Repr

/-- A value that the host program knows and this library does not. It equals only itself. -/
structure Foreign where
  /-- Tells apart what looks alike. -/
  identity : Nat
  className : String
  display : String
  callable : Bool
  /-- Counts as true. -/
  truthy : Bool
  deriving DecidableEq, Repr

/-- A stateful object of a running host program. -/
structure ObjectRef where
  id : Nat
  className : String
  deriving DecidableEq, Repr

/-- The display name of a type without parts, and its tag on the wire. -/
structure Primitive where
  name : String
  tag : String
  deriving DecidableEq, Repr

mutual

inductive Value where
  | null
  | bool (b : Bool)
  | int (i : Int)
  | float (x : Float)
  | str (s : String)
  /-- A text in which a half of a surrogate pair stands alone. -/
  | letters (text : List Letter)
  | moment (m : Moment)
  | date (d : Date)
  | list (items : List Value)
  | tuple (items : List Value)
  | mapping (kind : MappingKind) (entries : List (Value × Value))
  /-- An instance of a class with named fields. -/
  | data (className : String) (fields : List (String × Value))
  | foreign (o : Foreign)
  | object (ref : ObjectRef)
  | type (t : Ty)
  /-- Type expression: a list of an element. -/
  | listOf (element : Value)
  /-- Type expression: a placeholder. -/
  | variable (name : Value)
  /-- Type expression: a callback. -/
  | blockOf (params : List Value) (returns : Value)
  /-- Type expression: a record field marked optional or required. -/
  | fieldSpec (expr : Value) (isOptional : Bool)
  /-- Type expression: a record that may be open. -/
  | recordOf (fields : List (Value × Value)) (extensible : Value)

/-- The shape of a value at the boundary. An open record tolerates undeclared fields. -/
inductive Ty where
  | primitive (p : Primitive)
  | variable (name : Value)
  | list (element : Ty)
  | record (fields : List (Value × Field)) (extensible : Value)
  | block (params : List Ty) (returns : Ty)

/-- The type of a record field and whether it may be left out. -/
inductive Field where
  | mk (type : Ty) (isOptional : Value)

end

instance : Inhabited Value := ⟨.null⟩

def Field.type : Field → Ty
  | .mk t _ => t

def Field.isOptional : Field → Value
  | .mk _ o => o

namespace Primitive

def string : Primitive := ⟨"string", "Str"⟩
def boolean : Primitive := ⟨"boolean", "Bool"⟩
def number : Primitive := ⟨"number", "Num"⟩
def time : Primitive := ⟨"time", "Time"⟩

end Primitive

namespace Value

/-- A text of letters. -/
def ofLetters (text : List Letter) : Value :=
  match Letter.chars? text with
  | some cs => .str (String.ofList cs)
  | none => .letters text

/-- A plain mapping with text keys. -/
def ofFields (fields : List (String × Value)) : Value :=
  .mapping .plain (fields.map fun (k, v) => (.str k, v))

/-- The name of the class of a value. -/
def className : Value → String
  | .null => "NoneType"
  | .bool _ => "bool"
  | .int _ => "int"
  | .float _ => "float"
  | .str _ => "str"
  | .letters _ => "str"
  | .moment _ => "datetime"
  | .date _ => "date"
  | .list _ => "list"
  | .tuple _ => "tuple"
  | .mapping .plain _ => "dict"
  | .mapping .ordered _ => "OrderedDict"
  | .mapping .view _ => "mappingproxy"
  | .data name _ => name
  | .foreign o => o.className
  | .object ref => ref.className
  | .type (.primitive _) => "PrimitiveType"
  | .type (.variable _) => "VarType"
  | .type (.list _) => "ListType"
  | .type (.record _ _) => "RecordType"
  | .type (.block _ _) => "BlockType"
  | .listOf _ => "ListOf"
  | .variable _ => "Variable"
  | .blockOf _ _ => "BlockOf"
  | .fieldSpec _ _ => "FieldSpec"
  | .recordOf _ _ => "RecordOf"

def isText : Value → Bool
  | .str _ | .letters _ => true
  | _ => false

/-- What counts as true: everything but nothing, zero and the empty. -/
def isTruthy : Value → Bool
  | .null => false
  | .bool b => b
  | .int i => i != 0
  | .float x => x != 0.0
  | .str s => !s.isEmpty
  | .list items | .tuple items => !items.isEmpty
  | .mapping _ entries => !entries.isEmpty
  | .foreign o => o.truthy
  | _ => true

/-- How many elements a value has, if it has any. -/
def size? : Value → Option Nat
  | .str s => some s.length
  | .letters s => some s.length
  | .list items | .tuple items => some items.length
  | .mapping _ entries => some entries.length
  | _ => none

/-- The entries of a mapping of any kind. -/
def entries? : Value → Option (List (Value × Value))
  | .mapping _ entries => some entries
  | _ => none

/-- The value under a text key. -/
def get? (key : String) : List (Value × Value) → Option Value
  | [] => none
  | (.str k, v) :: rest => if k = key then some v else get? key rest
  | _ :: rest => get? key rest

end Value

end EngineHost
