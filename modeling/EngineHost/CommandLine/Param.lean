import EngineHost.Json.Reader
import EngineHost.Failure
import EngineHost.Text.Quoted

/-!
One input value typed on the command line as `name=value`. The value is read as a boolean, a whole
number, a float, a JSON array or object, or else as a text.
-/
namespace EngineHost.CommandLine.Param

open Text Decimal

/-- A boolean in any letter case. -/
def readBool? (s : List Char) : Option Bool :=
  match String.ofList (lowerAscii s) with
  | "true" => some true
  | "false" => some false
  | _ => none

/-- Without the quotes at both ends, if both are the same; a lone quote is both ends at once. -/
def unquote (s : List Char) : List Char :=
  match s.head?, s.getLast? with
  | some a, some b =>
    if a == b && (a == doubleQuote || a == apostrophe) then s.tail.dropLast else s
  | _, _ => s

def plainText (s : List Char) : Value :=
  .str (String.ofList (unquote s))

def startsData (s : List Char) : Bool :=
  s.head? == some '[' || s.head? == some '\x7b'

/-- A text that looks like JSON and is none is a plain text; a number too long to read is a fault. -/
def readData (s : List Char) : Checked Value :=
  match Json.read (String.ofList s) with
  | .ok v => pure v
  | .error .malformed => pure (plainText s)
  | .error .tooManyDigits => throw (.shape .badContent)

/-- The value of a text without blanks at its ends. -/
def readValue (s : List Char) : Checked Value :=
  match readBool? s, readInt? s, readFloat? s with
  | some b, _, _ => pure (.bool b)
  | none, some i, _ => pure (.int i)
  | none, none, some x => pure (.float x)
  | none, none, none => if startsData s then readData s else pure (plainText s)

/-- The parts before and after the first equals sign. -/
def splitName? : List Char → Option (List Char × List Char)
  | [] => none
  | '=' :: rest => some ([], rest)
  | c :: rest => (splitName? rest).map fun (name, value) => (c :: name, value)

def read (text : String) : Checked (String × Value) :=
  match splitName? text.toList with
  | none => throw (.refused ("Invalid input format: " ++ text ++ " (expected name=value)"))
  | some (name, value) => return (String.ofList (strip name), ← readValue (strip value))

end EngineHost.CommandLine.Param
