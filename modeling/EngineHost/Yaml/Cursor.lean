import EngineHost.Failure

/-!
A place in a YAML text: what is left of it, with the line and column of the next character.
-/
namespace EngineHost.Yaml

inductive ReadError where
  /-- The text is not YAML, or not of the kind that its tags promise. -/
  | malformed
  /-- The text ends where more has to come. -/
  | unfinished
  /-- A scalar whose tag promises a content that it does not have. -/
  | scalar (fault : ShapeFault)
  /-- A number in an escape or a directive that stands for nothing; `index` is how much of the text has been
  looked at. -/
  | badNumber (index : Nat) (fault : ShapeFault)
  /-- Nodes inside each other beyond the limit. -/
  | tooDeep

abbrev Reading := Except ReadError

def malformed {α : Type} : Reading α :=
  .error .malformed

def badScalar {α : Type} (fault : ShapeFault) : Reading α :=
  .error (.scalar fault)

def nextLine : Char := Char.ofNat 0x85
def lineSeparator : Char := Char.ofNat 0x2028
def paragraphSeparator : Char := Char.ofNat 0x2029
def byteOrderMark : Char := Char.ofNat 0xFEFF

def isBreak (c : Char) : Bool :=
  c == '\n' || c == nextLine || c == lineSeparator || c == paragraphSeparator

/-- A break as it is kept in a text. -/
def keptBreak (c : Char) : Char :=
  if c == nextLine then '\n' else c

def isGap (c : Char) : Bool :=
  c == ' ' || c == '\t'

/-- No character, or a break. -/
def endsLine (c : Option Char) : Bool :=
  c.all isBreak

def endsWord (c : Option Char) : Bool :=
  c.all fun c => c == ' ' || isBreak c

def endsMark (c : Option Char) : Bool :=
  c.all fun c => isGap c || isBreak c

/-- Letters, digits and two signs in ASCII: what names are made of. -/
def isNameChar (c : Char) : Bool :=
  c.isAlphanum || c == '-' || c == '_'

structure Cursor where
  rest : List Char
  index : Nat
  line : Nat
  column : Nat

namespace Cursor

def ofText (text : List Char) : Cursor :=
  ⟨text, 0, 0, 0⟩

def next (p : Cursor) : Cursor :=
  match p.rest with
  | [] => p
  | c :: rest =>
    if isBreak c then ⟨rest, p.index + 1, p.line + 1, 0⟩
    else ⟨rest, p.index + 1, p.line, if c == byteOrderMark then p.column else p.column + 1⟩

def advance : Nat → Cursor → Cursor
  | 0, p => p
  | n + 1, p => advance n p.next

def peek? (p : Cursor) : Option Char :=
  p.rest.head?

/-- What stands here is wrong: the next character, or that there is none. -/
def refuse {α : Type} (p : Cursor) : Reading α :=
  .error (if p.rest.isEmpty then .unfinished else .malformed)

def require (p : Cursor) (b : Bool) : Reading Unit :=
  if b then .ok () else p.refuse

def peekAt? (p : Cursor) (n : Nat) : Option Char :=
  p.rest[n]?

def startsWith (p : Cursor) (c : Char) : Bool :=
  p.peek? == some c

/-- The characters up to the first that fails the test. -/
def span (test : Char → Bool) (p : Cursor) : List Char × Cursor :=
  let taken := p.rest.takeWhile test
  (taken, p.advance taken.length)

def skip (test : Char → Bool) (p : Cursor) : Cursor :=
  (p.span test).2

def skipSpaces (p : Cursor) : Cursor :=
  p.skip (· == ' ')

/-- A comment runs to the end of its line. -/
def skipComment (p : Cursor) : Cursor :=
  if p.startsWith '#' then p.skip (!isBreak ·) else p

/-- One break, as it is kept. -/
def takeBreak? (p : Cursor) : Option (Char × Cursor) :=
  match p.peek? with
  | some c => if isBreak c then some (keptBreak c, p.next) else none
  | none => none

def skipBreak (p : Cursor) : Cursor :=
  match p.takeBreak? with
  | some (_, q) => q
  | none => p

def isMark (mark : List Char) (p : Cursor) : Bool :=
  p.rest.take 3 == mark && endsMark (p.peekAt? 3)

def startMark : List Char := ['-', '-', '-']
def endMark : List Char := ['.', '.', '.']

/-- Three dashes or dots on their own, at the beginning of a line. -/
def atDocumentMark (p : Cursor) : Bool :=
  p.isMark startMark || p.isMark endMark

/-- Spaces and a comment up to the end of the line and past it. -/
def endOfLine (p : Cursor) : Reading Cursor :=
  let q := p.skipSpaces.skipComment
  if endsLine q.peek? then .ok q.skipBreak else malformed

end Cursor

/-- How a break before more text is read: as a space, unless empty lines or a stronger break follow. -/
def foldBreaks (first : Char) (others : List Char) : List Char :=
  if first != '\n' then first :: others
  else if others.isEmpty then [' ']
  else others

end EngineHost.Yaml
