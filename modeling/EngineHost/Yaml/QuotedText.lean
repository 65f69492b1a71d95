import EngineHost.Yaml.Cursor
import EngineHost.Json.Reader
import EngineHost.Text.Letter

/-!
Scalars between quotes. Between apostrophes only a doubled apostrophe is special; between double quotes
a backslash starts an escape.
-/
namespace EngineHost.Yaml.QuotedText

open Text

def escaped? : Char → Option Char
  | '0' => some (Char.ofNat 0)
  | 'a' => some (Char.ofNat 7)
  | 'b' => some (Char.ofNat 8)
  | 't' => some '\t'
  | '\t' => some '\t'
  | 'n' => some '\n'
  | 'v' => some (Char.ofNat 11)
  | 'f' => some (Char.ofNat 12)
  | 'r' => some '\r'
  | 'e' => some (Char.ofNat 27)
  | ' ' => some ' '
  | '"' => some '"'
  | '\\' => some '\\'
  | '/' => some '/'
  | 'N' => some nextLine
  | '_' => some (Char.ofNat 0xA0)
  | 'L' => some lineSeparator
  | 'P' => some paragraphSeparator
  | _ => none

/-- The number of hexadecimal digits after an escape. -/
def codeLength? : Char → Option Nat
  | 'x' => some 2
  | 'u' => some 4
  | 'U' => some 8
  | _ => none

def codeOf (digits : List Char) : Option Nat :=
  digits.foldlM (fun n c => (Json.hexValue? c).map (16 * n + ·)) 0

/-- The letter with a number, given by an escape that ends at a place. -/
def letterOfCode (index n : Nat) : Reading Letter :=
  if n ≤ 0x10FFFF then .ok (.ofCode n)
  else .error (.badNumber index (if n < 0x80000000 then .badContent else .outOfRange))

/-- The breaks of the empty lines that follow; no document mark may stand among them. -/
def emptyLines : Nat → Cursor → Reading (List Char × Cursor)
  | 0, p => .ok ([], p)
  | fuel + 1, p =>
    if p.atDocumentMark then malformed
    else
      match (p.skip isGap).takeBreak? with
      | none => .ok ([], p.skip isGap)
      | some (b, q) => do
        let (breaks, q) ← emptyLines fuel q
        return (b :: breaks, q)

/-- An escape, after its backslash. -/
def escape (p : Cursor) : Reading (List Letter × Cursor) :=
  match p.peek? with
  | none => p.refuse
  | some c =>
    match escaped? c, codeLength? c with
    | some e, _ => .ok ([.char e], p.next)
    | none, some n => do
      let q := p.next
      let digits := q.rest.take n
      match if digits.length = n then codeOf digits else none with
      | some code => return ([← letterOfCode (q.index + n) code], q.advance n)
      | none => (q.skip Json.isHexDigit).refuse
    | none, none =>
      if isBreak c then do
        let (breaks, q) ← emptyLines p.next.rest.length.succ p.next
        return (Letter.ofChars breaks, q)
      else malformed

def endsRun (c : Char) : Bool :=
  isGap c || isBreak c || c == Char.ofNat 0x27 || c == '"' || c == '\\'

/-- Text without gaps. -/
def word (quote : Char) : Nat → Cursor → Reading (List Letter × Cursor)
  | 0, p => .ok ([], p)
  | fuel + 1, p => do
    let (run, p) := p.span (!endsRun ·)
    let run := Letter.ofChars run
    let isDouble := quote == '"'
    match p.peek? with
    | some c =>
      if !isDouble && c == quote && p.peekAt? 1 == some quote then
        let (more, q) ← word quote fuel (p.advance 2)
        return (run ++ .char quote :: more, q)
      else if isDouble && c == '\\' then
        let (text, q) ← escape p.next
        let (more, q) ← word quote fuel q
        return (run ++ text ++ more, q)
      else if c != quote && !isGap c && !isBreak c then
        let (more, q) ← word quote fuel p.next
        return (run ++ .char c :: more, q)
      else return (run, p)
    | none => return (run, p)

/-- Blanks and line breaks between two words. -/
def gap (p : Cursor) : Reading (List Char × Cursor) :=
  let (spaces, q) := p.span isGap
  match q.peek?, q.takeBreak? with
  | none, _ => q.refuse
  | some _, none => .ok (spaces, q)
  | some _, some (b, q) => do
    let (breaks, q) ← emptyLines q.rest.length.succ q
    return (foldBreaks b breaks, q)

/-- The rest of a scalar, up to and past its closing quote. -/
def readFrom (quote : Char) : Nat → Cursor → Reading (List Letter × Cursor)
  | 0, _ => malformed
  | fuel + 1, p => do
    let (text, p) ← word quote p.rest.length.succ p
    if p.startsWith quote then return (text, p.next)
    else
      let (between, p) ← gap p
      let (more, p) ← readFrom quote fuel p
      return (text ++ Letter.ofChars between ++ more, p)

/-- A scalar at its opening quote. -/
def read (quote : Char) (p : Cursor) : Reading (List Letter × Cursor) :=
  readFrom quote p.rest.length p.next

end EngineHost.Yaml.QuotedText
