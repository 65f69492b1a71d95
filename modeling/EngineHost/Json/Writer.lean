import EngineHost.Failure
import EngineHost.Text.Quoted

/-!
Writing JSON in ASCII. Moments are written as texts and callbacks as a mark; other values without a
JSON form are refused.
-/
namespace EngineHost.Json

open Text Decimal Calendar

/-- Line breaks and indentation by two, or everything on one line. -/
inductive Style where
  | compact
  | indented
  deriving DecidableEq

def unit (n : Nat) : List Char :=
  '\\' :: 'u' :: hex 4 n

/-- Beyond the basic plane a character is written as two halves. -/
def escapeUnits (c : Char) : List Char :=
  let n := c.toNat
  if n < 0x10000 then unit n
  else unit (0xD800 + (n - 0x10000) / 0x400) ++ unit (0xDC00 + (n - 0x10000) % 0x400)

def escapeChar (c : Char) : List Char :=
  if c == '"' then ['\\', '"']
  else if c == '\\' then ['\\', '\\']
  else if c == '\n' then ['\\', 'n']
  else if c == '\r' then ['\\', 'r']
  else if c == '\t' then ['\\', 't']
  else if c.toNat = 8 then ['\\', 'b']
  else if c.toNat = 12 then ['\\', 'f']
  else if 0x20 ≤ c.toNat && c.toNat ≤ 0x7E then [c]
  else escapeUnits c

def escape : Letter → List Char
  | .char c => escapeChar c
  | .half n => unit n

def writeLetters (s : List Letter) : String :=
  String.ofList ('"' :: s.flatMap escape ++ ['"'])

def writeText (s : String) : String :=
  writeLetters (Letter.ofChars s.toList)

def boolWord (b : Bool) : String :=
  if b then "true" else "false"

def breakLine (style : Style) (depth : Nat) : String :=
  match style with
  | .compact => ""
  | .indented => "\n" ++ String.ofList (List.replicate (2 * depth) ' ')

/-- Parts between brackets, each on a line of its own when indented. -/
def enclose (style : Style) (depth : Nat) (opening closing : String) (parts : List String) : String :=
  if parts.isEmpty then opening ++ closing
  else
    opening ++ breakLine style (depth + 1) ++
      ("," ++ breakLine style (depth + 1)).intercalate parts ++ breakLine style depth ++ closing

def colon (style : Style) : String :=
  match style with
  | .compact => ":"
  | .indented => ": "

/-- Keys that are no texts but have a spelling get it. -/
def writeKey : Value → Checked String
  | .str s => pure (writeText s)
  | .letters s => pure (writeLetters s)
  | .bool b => pure (writeText (boolWord b))
  | .null => pure (writeText "null")
  | .int i => pure (writeText (toString i))
  | .float x => pure (writeText (Layout.data.write x))
  | _ => throw (.shape .wrongKind)

def refuse {α : Type} (v : Value) : Checked α :=
  throw (.wrongType ("not JSON serializable: " ++ v.className))

mutual

def write (style : Style) (depth : Nat) : Value → Checked String
  | .null => pure "null"
  | .bool b => pure (boolWord b)
  | .int i => pure (toString i)
  | .float x => pure (Layout.data.write x)
  | .str s => pure (writeText s)
  | .letters s => pure (writeLetters s)
  | .list items => return enclose style depth "[" "]" (← writeItems style (depth + 1) items)
  | .tuple items => return enclose style depth "[" "]" (← writeItems style (depth + 1) items)
  | .mapping .plain entries =>
    return enclose style depth "\x7b" "\x7d" (← writeMembers style (depth + 1) entries)
  | .mapping .ordered entries =>
    return enclose style depth "\x7b" "\x7d" (← writeMembers style (depth + 1) entries)
  | .moment m => pure (writeText m.iso)
  | .object ref => if ref.className = "Block" then pure (writeText "<block>") else refuse (.object ref)
  | v => refuse v

def writeItems (style : Style) (depth : Nat) : List Value → Checked (List String)
  | [] => pure []
  | v :: rest => do
    let text ← write style depth v
    return text :: (← writeItems style depth rest)

def writeMembers (style : Style) (depth : Nat) : List (Value × Value) → Checked (List String)
  | [] => pure []
  | (k, v) :: rest => do
    let key ← writeKey k
    let text ← write style depth v
    return (key ++ colon style ++ text) :: (← writeMembers style depth rest)

end

end EngineHost.Json
