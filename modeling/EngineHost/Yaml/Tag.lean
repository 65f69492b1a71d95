import EngineHost.Yaml.Stamp

/-!
Tags say what kind of data a node is. A scalar without quotes and without a tag gets one by its text.
-/
namespace EngineHost.Yaml

inductive Tag where
  | null
  | bool
  | int
  | float
  | binary
  | timestamp
  | str
  | seq
  | map
  | set
  /-- A sequence of mappings with one entry each. -/
  | pairs
  /-- The key that merges other mappings. -/
  | merge
  /-- The key of a mapping's own value. -/
  | value
  | unknown
  deriving DecidableEq

namespace Tag

def ofName (name : String) : Tag :=
  match name with
  | "null" => .null
  | "bool" => .bool
  | "int" => .int
  | "float" => .float
  | "binary" => .binary
  | "timestamp" => .timestamp
  | "str" => .str
  | "seq" => .seq
  | "map" => .map
  | "set" => .set
  | "omap" => .pairs
  | "pairs" => .pairs
  | "merge" => .merge
  | "value" => .value
  | _ => .unknown

/-- The front of the names of all known tags. -/
def commonFront : String := "tag:yaml.org,2002:"

/-- The tag with a full name. -/
def ofUri (uri : String) : Tag :=
  if uri.startsWith commonFront then
    ofName (String.ofList (uri.toList.drop commonFront.length))
  else .unknown

def isNullWord (s : String) : Bool :=
  ["", "~", "null", "Null", "NULL"].contains s

def trueWords : List String :=
  ["yes", "Yes", "YES", "true", "True", "TRUE", "on", "On", "ON"]

def falseWords : List String :=
  ["no", "No", "NO", "false", "False", "FALSE", "off", "Off", "OFF"]

def isBoolWord (s : String) : Bool :=
  trueWords.contains s || falseWords.contains s

def isDigitOrLine (c : Char) : Bool :=
  Stamp.isDigit c || c == '_'

/-- At least one character, all of a kind. -/
def someOf (test : Char → Bool) (s : List Char) : Bool :=
  !s.isEmpty && s.all test

def dropSign (s : List Char) : List Char :=
  match s with
  | '+' :: rest => rest
  | '-' :: rest => rest
  | _ => s

/-- A part between the colons of a number in base sixty. -/
def isSixtieth : List Char → Bool
  | [a] => Stamp.isDigit a
  | [a, b] => '0' ≤ a && a ≤ '5' && Stamp.isDigit b
  | _ => false

/-- The parts of a number in base sixty, if there are at least two. -/
def sexagesimal? (s : List Char) : Option (List Char × List (List Char)) :=
  match (String.ofList s).splitOn ":" with
  | first :: second :: rest => some (first.toList, (second :: rest).map String.toList)
  | _ => none

def isSexagesimal (startsWell : Char → Bool) (s : List Char) : Bool :=
  match sexagesimal? s with
  | some (first, rest) =>
    first.head?.any startsWell && first.all isDigitOrLine && rest.all isSixtieth
  | none => false

def isNonZeroDigit (c : Char) : Bool :=
  '1' ≤ c && c ≤ '9'

def isUnsignedInt (s : List Char) : Bool :=
  match s with
  | ['0'] => true
  | '0' :: 'b' :: rest => someOf (fun c => c == '0' || c == '1' || c == '_') rest
  | '0' :: 'x' :: rest =>
    someOf (fun c => isDigitOrLine c || ('a' ≤ c && c ≤ 'f') || ('A' ≤ c && c ≤ 'F')) rest
  | '0' :: rest => someOf (fun c => ('0' ≤ c && c ≤ '7') || c == '_') rest
  | c :: rest => isNonZeroDigit c && rest.all isDigitOrLine
  | [] => false

def isInt (s : List Char) : Bool :=
  let body := dropSign s
  isUnsignedInt body || isSexagesimal isNonZeroDigit body

/-- An exponent always has a sign. -/
def isExponent : List Char → Bool
  | [] => true
  | e :: s :: ds => (e == 'e' || e == 'E') && (s == '+' || s == '-') && someOf Stamp.isDigit ds
  | _ => false

def isDecimal (body : List Char) : Bool :=
  let whole := body.takeWhile isDigitOrLine
  match body.dropWhile isDigitOrLine with
  | '.' :: rest =>
    whole.head?.any Stamp.isDigit && isExponent (rest.dropWhile isDigitOrLine)
  | _ => false

/-- A fraction without a whole part has no sign and starts with a digit. -/
def isFraction : List Char → Bool
  | '.' :: rest =>
    rest.head?.any Stamp.isDigit && isExponent (rest.dropWhile isDigitOrLine)
  | _ => false

def isSexagesimalFloat (body : List Char) : Bool :=
  match body.dropWhile (· != '.') with
  | '.' :: rest =>
    rest.all isDigitOrLine && isSexagesimal Stamp.isDigit (body.takeWhile (· != '.'))
  | _ => false

def isSpecialFloat (s : List Char) : Bool :=
  [".nan", ".NaN", ".NAN"].contains (String.ofList s) ||
    [".inf", ".Inf", ".INF"].contains (String.ofList (dropSign s))

def isFloat (s : List Char) : Bool :=
  isDecimal (dropSign s) || isFraction s || isSexagesimalFloat (dropSign s) || isSpecialFloat s

/-- Signs that stand for nothing on their own. -/
def isLoneSign (s : String) : Bool :=
  ["!", "&", "*"].contains s

/-- The tag that a text gives. A line break at its end does not count. -/
def ofContent (content : List Char) : Tag :=
  let s := Stamp.withoutFinalBreak content
  let text := String.ofList s
  if isNullWord text then .null
  else if isBoolWord text then .bool
  else if isFloat s then .float
  else if isInt s then .int
  else if text == "<<" then .merge
  else if Stamp.isPlain s then .timestamp
  else if text == "=" then .value
  else if isLoneSign text then .unknown
  else .str

end Tag

end EngineHost.Yaml
