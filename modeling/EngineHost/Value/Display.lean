import EngineHost.Value.Basic
import EngineHost.Text.Quoted
import EngineHost.Decimal.Layout

/-!
The texts of values and types. `display` shows a value so that its kind can be told; `text` is what a
message or a name holds of it; `Ty.name` is how a type is shown to people.
-/
namespace EngineHost

open Text Decimal Calendar

def commaSeparated (parts : List String) : String :=
  ", ".intercalate parts

def parenthesized (parts : List String) : String :=
  match parts with
  | [one] => "(" ++ one ++ ",)"
  | _ => "(" ++ commaSeparated parts ++ ")"

def bracketed (parts : List String) : String :=
  "[" ++ commaSeparated parts ++ "]"

def braced (parts : List String) : String :=
  "\x7b" ++ commaSeparated parts ++ "\x7d"

/-- `Name(field=value, ...)`. -/
def instanceText (name : String) (fields : List (String × String)) : String :=
  name ++ "(" ++ commaSeparated (fields.map fun (f, v) => f ++ "=" ++ v) ++ ")"

def boolText (b : Bool) : String :=
  if b then "True" else "False"

def dateDisplay (d : Date) : String :=
  "datetime.date(" ++ commaSeparated [toString d.year, toString d.month, toString d.day] ++ ")"

/-- A span of seconds as days and the seconds of a day. -/
def spanDisplay (seconds : Int) : String :=
  let days := seconds / 86400
  let rest := seconds % 86400
  let parts :=
    (if days = 0 then [] else [("days", toString days)]) ++
    (if rest = 0 then [] else [("seconds", toString rest)])
  if parts.isEmpty then "datetime.timedelta(0)" else instanceText "datetime.timedelta" parts

def offsetDisplay (offset : Int) : String :=
  if offset = 0 then "datetime.timezone.utc"
  else "datetime.timezone(" ++ spanDisplay offset ++ ")"

/-- Seconds and microseconds are left out from the right while they are zero. -/
def momentDisplay (m : Moment) : String :=
  let clock :=
    if m.micro ≠ 0 then [m.second, m.micro] else if m.second ≠ 0 then [m.second] else []
  let parts := [m.date.year, m.date.month, m.date.day, m.hour, m.minute] ++ clock
  let zone :=
    match m.offset with
    | some o => ["tzinfo=" ++ offsetDisplay o]
    | none => []
  "datetime.datetime(" ++ commaSeparated (parts.map toString ++ zone) ++ ")"

/-- How a mapping of a kind encloses its entries. -/
def mappingDisplay (kind : MappingKind) (entries : List (String × String)) : String :=
  let plain := braced (entries.map fun (k, v) => k ++ ": " ++ v)
  match kind with
  | .plain => plain
  | .view => "mappingproxy(" ++ plain ++ ")"
  | .ordered =>
    if entries.isEmpty then "OrderedDict()"
    else "OrderedDict(" ++ bracketed (entries.map fun (k, v) => parenthesized [k, v]) ++ ")"

def primitiveDisplay (p : Primitive) : String :=
  instanceText "PrimitiveType" [("_name", quoted p.name), ("tag", quoted p.tag)]

mutual

def Value.display : Value → String
  | .null => "None"
  | .bool b => boolText b
  | .int i => toString i
  | .float x => Layout.native.write x
  | .str s => quoted s
  | .letters s => quotedLetters s
  | .moment m => momentDisplay m
  | .date d => dateDisplay d
  | .list items => bracketed (Value.displayList items)
  | .tuple items => parenthesized (Value.displayList items)
  | .mapping kind entries => mappingDisplay kind (Value.displayEntries entries)
  | .data name fields => instanceText name (Value.displayFields fields)
  | .foreign o => o.display
  | .object ref => "<" ++ ref.className ++ " object>"
  | .type t => t.display
  | .listOf element => instanceText "ListOf" [("element", element.display)]
  | .variable name => instanceText "Variable" [("var_name", name.display)]
  | .blockOf params returns =>
    instanceText "BlockOf"
      [("params", parenthesized (Value.displayList params)), ("returns", returns.display)]
  | .fieldSpec expr isOptional =>
    instanceText "FieldSpec" [("expr", expr.display), ("optional", boolText isOptional)]
  | .recordOf fields extensible =>
    instanceText "RecordOf"
      [("fields", parenthesized ((Value.displayEntries fields).map fun (k, v) => parenthesized [k, v])),
       ("extensible", extensible.display)]

def Value.displayList : List Value → List String
  | [] => []
  | v :: rest => v.display :: Value.displayList rest

def Value.displayEntries : List (Value × Value) → List (String × String)
  | [] => []
  | (k, v) :: rest => (k.display, v.display) :: Value.displayEntries rest

def Value.displayFields : List (String × Value) → List (String × String)
  | [] => []
  | (k, v) :: rest => (k, v.display) :: Value.displayFields rest

def Ty.display : Ty → String
  | .primitive p => primitiveDisplay p
  | .variable name => instanceText "VarType" [("var_name", name.display)]
  | .list element => instanceText "ListType" [("element_type", element.display)]
  | .record fields extensible =>
    instanceText "RecordType"
      [("fields", parenthesized (Ty.displayFields fields)), ("extensible", extensible.display)]
  | .block params returns =>
    instanceText "BlockType"
      [("param_types", parenthesized (Ty.displayList params)), ("return_type", returns.display)]

def Ty.displayList : List Ty → List String
  | [] => []
  | t :: rest => t.display :: Ty.displayList rest

def Ty.displayFields : List (Value × Field) → List String
  | [] => []
  | (k, f) :: rest => parenthesized [k.display, f.display] :: Ty.displayFields rest

def Field.display : Field → String
  | .mk t isOptional => instanceText "Field" [("type", t.display), ("optional", isOptional.display)]

end

mutual

/-- A text stands for itself, a type for its name, a moment for its reading. -/
def Value.text : Value → String
  | .str s => s
  | .letters s => String.ofList (s.map Letter.visible)
  | .moment m => m.isoWith " "
  | .date d => d.iso
  | .type t => t.name
  | v => v.display

def Ty.name : Ty → String
  | .primitive p => p.name
  | .variable label => "'" ++ label.text
  | .list element => "list<" ++ element.name ++ ">"
  | .record fields extensible =>
    braced (Ty.fieldNames fields ++ (if extensible.isTruthy then ["..."] else []))
  | .block params returns =>
    "(" ++ commaSeparated (Ty.names params) ++ ") -> " ++ returns.name

def Ty.names : List Ty → List String
  | [] => []
  | t :: rest => t.name :: Ty.names rest

/-- `name: type`, with a question mark after the name of an optional field. -/
def Ty.fieldNames : List (Value × Field) → List String
  | [] => []
  | (k, .mk t isOptional) :: rest =>
    (k.text ++ (if isOptional.isTruthy then "?" else "") ++ ": " ++ t.name) :: Ty.fieldNames rest

end

/-- The text of a value as a value: a text stays as it is. -/
def Value.asText : Value → Value
  | .str s => .str s
  | .letters s => .letters s
  | v => .str v.text

end EngineHost
