import EngineHost.Yaml.PlainText
import EngineHost.Yaml.QuotedText
import EngineHost.Yaml.BlockText
import EngineHost.Yaml.Words

/-!
Splitting a YAML text into tokens. A key has no sign of its own: only the colon after it shows that it
was one, so the last place where a key may have started is kept for every open bracket. Tokens are read
as they are asked for; one that may turn out to be a key is held back until that is known.
-/
namespace EngineHost.Yaml

open Text

/-- A place where a key may have started. -/
structure KeyPlace where
  /-- The number of tokens before it, from the first one on. -/
  position : Nat
  /-- Nothing but a key can stand there. -/
  isRequired : Bool
  index : Nat
  line : Nat
  column : Nat

structure Splitting where
  cursor : Cursor
  /-- The tokens that have been read and not taken yet. -/
  tokens : List Token
  /-- How many have been taken. -/
  taken : Nat
  /-- The end of the text has been read. -/
  isDone : Bool
  /-- The columns of the open blocks, the innermost first. -/
  blocks : List Nat
  keyAllowed : Bool
  /-- The possible key outside of all brackets. -/
  outerKey : Option KeyPlace
  /-- One entry for every open bracket, the innermost first. -/
  flowKeys : List (Option KeyPlace)

namespace Splitting

def start (text : List Char) : Splitting :=
  ⟨.ofText text, [], 0, false, [], true, none, []⟩

def inFlow (s : Splitting) : Bool :=
  !s.flowKeys.isEmpty

/-- How many tokens have been read. -/
def count (s : Splitting) : Nat :=
  s.taken + s.tokens.length

def push (token : Token) (s : Splitting) : Splitting :=
  { s with tokens := s.tokens ++ [token] }

/-- Puts a token at a position among those already there. -/
def insert (position : Nat) (token : Token) (s : Splitting) : Splitting :=
  { s with tokens := s.tokens.insertIdx (position - s.taken) token }

def currentKey (s : Splitting) : Option KeyPlace :=
  match s.flowKeys with
  | [] => s.outerKey
  | k :: _ => k

def setKey (key : Option KeyPlace) (s : Splitting) : Splitting :=
  match s.flowKeys with
  | [] => { s with outerKey := key }
  | _ :: rest => { s with flowKeys := key :: rest }

/-- The longest distance between the start of a key and its colon. -/
def maxKeyLength : Nat := 1024

def isStale (s : Splitting) (k : KeyPlace) : Bool :=
  k.line != s.cursor.line || s.cursor.index - k.index > maxKeyLength

/-- A possible key that is still possible. A required one must not become impossible. -/
def refresh (s : Splitting) : Option KeyPlace → Reading (Option KeyPlace)
  | none => .ok none
  | some k =>
    if s.isStale k then
      if k.isRequired then s.cursor.refuse else .ok none
    else .ok (some k)

def refreshKeys (s : Splitting) : Reading Splitting := do
  let outerKey ← s.refresh s.outerKey
  let flowKeys ← s.flowKeys.mapM s.refresh
  return { s with outerKey, flowKeys }

def dropKey (s : Splitting) : Reading Splitting :=
  match s.currentKey with
  | some k => if k.isRequired then s.cursor.refuse else .ok (s.setKey none)
  | none => .ok s

/-- Remembers that the next token may be a key. -/
def saveKey (s : Splitting) : Reading Splitting :=
  if s.keyAllowed then do
    let p := s.cursor
    let isRequired := !s.inFlow && s.blocks.head? == some p.column
    let s ← s.dropKey
    return s.setKey (some ⟨s.count, isRequired, p.index, p.line, p.column⟩)
  else .ok s

/-- Ends the blocks that are indented further than what comes now. -/
def closeBlocks (isOpen : Nat → Bool) : List Nat → Splitting → Splitting
  | [], s => { s with blocks := [] }
  | column :: rest, s =>
    if isOpen column then { s with blocks := column :: rest }
    else closeBlocks isOpen rest (s.push .blockEnd)

def unindent (column : Nat) (s : Splitting) : Splitting :=
  if s.inFlow then s else closeBlocks (· ≤ column) s.blocks s

def unindentAll (s : Splitting) : Splitting :=
  if s.inFlow then s else closeBlocks (fun _ => false) s.blocks s

/-- Whether a block that starts at this column is a new one. -/
def opensBlock (column : Nat) (s : Splitting) : Bool :=
  s.blocks.head?.all (· < column)

def leastColumn (s : Splitting) : Nat :=
  match s.blocks with
  | [] => 0
  | column :: _ => column + 1

/-- Past spaces, comments and line breaks. Outside of brackets a new line may start with a key. -/
def skipToToken : Nat → Splitting → Splitting
  | 0, s => s
  | fuel + 1, s =>
    let p := s.cursor.skipSpaces.skipComment
    match p.takeBreak? with
    | some (_, q) => skipToToken fuel { s with cursor := q, keyAllowed := s.keyAllowed || !s.inFlow }
    | none => { s with cursor := p }

def skipByteOrderMark (s : Splitting) : Splitting :=
  if s.cursor.index == 0 && s.cursor.startsWith byteOrderMark then { s with cursor := s.cursor.next }
  else s

/-- A token of `n` characters at the cursor. -/
def mark (n : Nat) (token : Token) (s : Splitting) : Splitting :=
  { s.push token with cursor := s.cursor.advance n }

/-- A token that was read as a word. -/
def word (token : Token) (after : Cursor) (s : Splitting) : Splitting :=
  { s.push token with cursor := after }

def allowKey (b : Bool) (s : Splitting) : Splitting :=
  { s with keyAllowed := b }

def streamEnd (s : Splitting) : Reading Splitting := do
  let s ← s.unindentAll.dropKey
  return { s.push .streamEnd with isDone := true }

def directive (s : Splitting) : Reading Splitting := do
  let s ← s.unindentAll.dropKey
  let (d, p) ← Directive.read s.cursor
  return (s.allowKey false).word (.directive d) p

def documentMark (token : Token) (s : Splitting) : Reading Splitting := do
  let s ← s.unindentAll.dropKey
  return (s.allowKey false).mark 3 token

def openBracket (token : Token) (s : Splitting) : Reading Splitting := do
  let s ← s.saveKey
  return { (s.allowKey true).mark 1 token with flowKeys := none :: s.flowKeys }

/-- A closing bracket without an opening one stands nowhere. -/
def closeBracket (token : Token) (s : Splitting) : Reading Splitting := do
  let s ← s.dropKey
  match s.flowKeys with
  | [] => malformed
  | _ :: rest => return { (s.allowKey false).mark 1 token with flowKeys := rest }

def flowEntry (s : Splitting) : Reading Splitting := do
  let s ← (s.allowKey true).dropKey
  return s.mark 1 .flowEntry

/-- Starts a block at the cursor's column, if there is none yet. -/
def startBlock (token : Token) (column : Nat) (s : Splitting) : Splitting :=
  if s.opensBlock column then { s.push token with blocks := column :: s.blocks } else s

/-- Outside of brackets an entry can stand only where a key can. -/
def startEntry (token : Token) (s : Splitting) : Reading Splitting :=
  if s.inFlow then .ok s
  else if s.keyAllowed then .ok (s.startBlock token s.cursor.column)
  else malformed

def blockEntry (s : Splitting) : Reading Splitting := do
  let s ← s.startEntry .blockSequenceStart
  let s ← (s.allowKey true).dropKey
  return s.mark 1 .blockEntry

def key (s : Splitting) : Reading Splitting := do
  let s ← s.startEntry .blockMappingStart
  let s ← (s.allowKey !s.inFlow).dropKey
  return s.mark 1 .key

/-- The start of a mapping at the column of its first key. -/
def startMappingAt (k : KeyPlace) (s : Splitting) : Splitting :=
  if !s.inFlow && s.opensBlock k.column then
    { s.insert k.position .blockMappingStart with blocks := k.column :: s.blocks }
  else s

/-- A colon. It turns what stands at the possible key into a key. -/
def value (s : Splitting) : Reading Splitting := do
  match s.currentKey with
  | some k =>
    let s := ((s.setKey none).insert k.position .key).startMappingAt k
    return (s.allowKey false).mark 1 .value
  | none =>
    let s ← s.startEntry .blockMappingStart
    let s ← (s.allowKey !s.inFlow).dropKey
    return s.mark 1 .value

def reference (s : Splitting) : Reading Splitting := do
  let s ← s.saveKey
  let (name, p) ← readAnchor s.cursor
  return (s.allowKey false).word (.reference name) p

def anchor (s : Splitting) : Reading Splitting := do
  let s ← s.saveKey
  let (name, p) ← readAnchor s.cursor
  return (s.allowKey false).word (.anchor name) p

def tag (s : Splitting) : Reading Splitting := do
  let s ← s.saveKey
  let (written, p) ← WrittenTag.read s.cursor
  return (s.allowKey false).word (.tag written) p

def blockScalar (folded : Bool) (s : Splitting) : Reading Splitting := do
  let s ← (s.allowKey true).dropKey
  let (text, p) ← BlockText.read folded s.leastColumn s.cursor
  return s.word (.scalar (Letter.ofChars text) false) p

def quotedScalar (quote : Char) (s : Splitting) : Reading Splitting := do
  let s ← s.saveKey
  let (text, p) ← QuotedText.read quote s.cursor
  return (s.allowKey false).word (.scalar text false) p

/-- A plain scalar that ends at the start of a line leaves room for a key. -/
def plainScalar (s : Splitting) : Reading Splitting := do
  let s ← s.saveKey
  let (text, broke, p) := PlainText.read s.inFlow s.leastColumn s.cursor
  return (s.allowKey broke).word (.scalar (Letter.ofChars text) true) p

/-- One token more, and those that the indentation adds. -/
def step (s : Splitting) : Reading Splitting := do
  let s := s.skipByteOrderMark
  let s ← (skipToToken s.cursor.rest.length.succ s).refreshKeys
  let s := s.unindent s.cursor.column
  let p := s.cursor
  let atStart := p.column == 0
  let after := p.peekAt? 1
  match p.peek? with
  | none => s.streamEnd
  | some c =>
    if c == '%' && atStart then s.directive
    else if atStart && p.isMark Cursor.startMark then s.documentMark .documentStart
    else if atStart && p.isMark Cursor.endMark then s.documentMark .documentEnd
    else if c == '[' then s.openBracket .flowSequenceStart
    else if c == '\x7b' then s.openBracket .flowMappingStart
    else if c == ']' then s.closeBracket .flowSequenceEnd
    else if c == '\x7d' then s.closeBracket .flowMappingEnd
    else if c == ',' then s.flowEntry
    else if c == '-' && endsMark after then s.blockEntry
    else if c == '?' && (s.inFlow || endsMark after) then s.key
    else if c == ':' && (s.inFlow || endsMark after) then s.value
    else if c == '*' then s.reference
    else if c == '&' then s.anchor
    else if c == '!' then s.tag
    else if c == '|' && !s.inFlow then s.blockScalar false
    else if c == '>' && !s.inFlow then s.blockScalar true
    else if c == '"' || c == Char.ofNat 0x27 then s.quotedScalar c
    else if PlainText.canStart s.inFlow c after then s.plainScalar
    else malformed

/-- The places where a key may have started. -/
def possibleKeys (s : Splitting) : List KeyPlace :=
  s.outerKey.toList ++ s.flowKeys.filterMap id

/-- Whether the next token cannot be taken yet: there is none, or it may be the start of a key. -/
def needsMore (s : Splitting) : Reading (Bool × Splitting) :=
  if s.isDone then .ok (false, s)
  else if s.tokens.isEmpty then .ok (true, s)
  else do
    let s ← s.refreshKeys
    return (s.possibleKeys.any (·.position == s.taken), s)

/-- Reads on until the next token can be taken. Every step but the last passes at least one character. -/
def fill : Nat → Splitting → Reading Splitting
  | 0, s => .ok s
  | fuel + 1, s => do
    let (more, s) ← s.needsMore
    if more then fill fuel (← s.step) else return s

/-- The next token, which stays where it is. -/
def peek (s : Splitting) : Reading (Option Token × Splitting) := do
  let s ← s.fill (s.cursor.rest.length + 2)
  return (s.tokens.head?, s)

def drop (s : Splitting) : Splitting :=
  match s.tokens with
  | [] => s
  | _ :: rest => { s with tokens := rest, taken := s.taken + 1 }

end Splitting

end EngineHost.Yaml
