import EngineHost.Yaml.Token
import EngineHost.Decimal.Reader
import EngineHost.Json.Reader

/-!
Words after a sign: the names of anchors, tags and directives.
-/
namespace EngineHost.Yaml

/-- A name with at least one character. -/
def readName (p : Cursor) : Reading (String × Cursor) := do
  let (name, q) := p.span isNameChar
  q.require !name.isEmpty
  return (String.ofList name, q)

/-- What may follow the name of an anchor at once. -/
def anchorEnds : List Char := "?:,]\x7d%@\x60".toList

/-- The name after an ampersand or an asterisk. -/
def readAnchor (p : Cursor) : Reading (String × Cursor) := do
  let (name, q) ← readName p.next
  q.require (endsMark q.peek? || q.peek?.any anchorEnds.contains)
  return (name, q)

namespace WrittenTag

def isTagChar (c : Char) : Bool :=
  c.isAlphanum || "-;/?:@&=+$,_.!~*'()[]".toList.contains c

/-- One character written as percent signs with two hexadecimal digits for each of its bytes. -/
def escapedBytes : Nat → Cursor → Reading (List UInt8 × Cursor)
  | 0, p => .ok ([], p)
  | fuel + 1, p =>
    match p.rest with
    | '%' :: a :: b :: _ =>
      match Json.hexValue? a, Json.hexValue? b with
      | some x, some y => do
        let (bytes, q) ← escapedBytes fuel (p.advance 3)
        return (UInt8.ofNat (16 * x + y) :: bytes, q)
      | _, _ => (p.next.skip Json.isHexDigit).refuse
    | '%' :: _ => (p.next.skip Json.isHexDigit).refuse
    | _ => .ok ([], p)

def uriFrom : Nat → Cursor → Reading (List Char × Cursor)
  | 0, p => .ok ([], p)
  | fuel + 1, p => do
    let (run, p) := p.span isTagChar
    if p.startsWith '%' then
      let (bytes, p) ← escapedBytes p.rest.length p
      match String.fromUTF8? (ByteArray.mk bytes.toArray) with
      | some s => do
        let (more, p) ← uriFrom fuel p
        return (run ++ s.toList ++ more, p)
      | none => malformed
    else return (run, p)

/-- At least one character of a tag's name. -/
def uri (p : Cursor) : Reading (String × Cursor) := do
  let (text, q) ← uriFrom p.rest.length.succ p
  q.require !text.isEmpty
  return (String.ofList text, q)

/-- A single exclamation mark, or two with a name between them. -/
def handle (p : Cursor) : Reading (String × Cursor) := do
  p.require (p.startsWith '!')
  if p.peekAt? 1 == some ' ' then return ("!", p.next)
  else
    let (name, q) := p.next.span isNameChar
    q.require (q.startsWith '!')
    return ("!" ++ String.ofList name ++ "!", q.next)

/-- Whether the word at the cursor has a second exclamation mark in it. -/
def hasHandle (p : Cursor) : Bool :=
  (p.next.rest.takeWhile fun c => !(c == ' ' || isBreak c)).contains '!'

def readBody (p : Cursor) : Reading (WrittenTag × Cursor) := do
  if p.peekAt? 1 == some '<' then
    let (suffix, q) ← uri (p.advance 2)
    q.require (q.startsWith '>')
    return (⟨none, suffix⟩, q.next)
  else if endsMark (p.peekAt? 1) then return (⟨none, "!"⟩, p.next)
  else if hasHandle p then
    let (name, q) ← handle p
    let (suffix, q) ← uri q
    return (⟨some name, suffix⟩, q)
  else
    let (suffix, q) ← uri p.next
    return (⟨some "!", suffix⟩, q)

/-- A tag at its exclamation mark, up to a space or the end of the line. -/
def read (p : Cursor) : Reading (WrittenTag × Cursor) := do
  let (tag, q) ← readBody p
  q.require (endsWord q.peek?)
  return (tag, q)

end WrittenTag

namespace Directive

def number (p : Cursor) : Reading (Nat × Cursor) := do
  let (digits, q) := p.span Json.isDigit
  q.require !digits.isEmpty
  if digits.length ≤ Decimal.maxDigits then return (Json.digitsValue digits, q)
  else .error (.badNumber (q.index + 1) .badContent)

/-- Two numbers with a point between them. -/
def readVersion (p : Cursor) : Reading (Directive × Cursor) := do
  let (major, p) ← number p.skipSpaces
  p.require (p.startsWith '.')
  let (_, p) ← number p.next
  p.require (endsWord p.peek?)
  return (.version major, p)

def readHandle (p : Cursor) : Reading (Directive × Cursor) := do
  let (name, p) ← WrittenTag.handle p.skipSpaces
  p.require (p.startsWith ' ')
  let (front, p) ← WrittenTag.uri p.skipSpaces
  p.require (endsWord p.peek?)
  return (.handle name front, p)

/-- A directive at its percent sign, with the rest of its line. -/
def read (p : Cursor) : Reading (Directive × Cursor) := do
  let (name, p) ← readName p.next
  p.require (endsWord p.peek?)
  let (d, p) ←
    match name with
    | "YAML" => readVersion p
    | "TAG" => readHandle p
    | _ => pure (.other, p.skip (!isBreak ·))
  return (d, ← p.endOfLine)

end Directive

end EngineHost.Yaml
