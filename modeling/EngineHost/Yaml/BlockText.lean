import EngineHost.Yaml.Cursor

/-!
Scalars written as an indented block of lines, kept as they are or folded into one line each paragraph.
-/
namespace EngineHost.Yaml.BlockText

/-- What becomes of the line breaks at the end. -/
inductive Chomping where
  | strip
  | clip
  | keep
  deriving DecidableEq

/-- What the header says; an indentation is found from the lines when it is not given. -/
structure Header where
  chomping : Chomping
  indentation : Option Nat

def chomping? : Option Char → Option Chomping
  | some '+' => some .keep
  | some '-' => some .strip
  | _ => none

def digit? : Option Char → Option Nat
  | some c => if c.isDigit then some (c.toNat - '0'.toNat) else none
  | none => none

/-- The two indicators, in any order. -/
def header (p : Cursor) : Reading (Header × Cursor) := do
  let (h, p) : Header × Cursor :=
    match chomping? p.peek?, digit? p.peek? with
    | some c, _ =>
      match digit? p.next.peek? with
      | some n => (⟨c, some n⟩, p.advance 2)
      | none => (⟨c, none⟩, p.next)
    | none, some n =>
      match chomping? p.next.peek? with
      | some c => (⟨c, some n⟩, p.advance 2)
      | none => (⟨.clip, some n⟩, p.next)
    | none, none => (⟨.clip, none⟩, p)
  p.require (h.indentation != some 0 && endsWord p.peek?)
  return (h, ← p.endOfLine)

/-- The empty lines before the first text, and the largest column reached in them. -/
def leadingLines : Nat → Nat → Cursor → List Char × Nat × Cursor
  | 0, widest, p => ([], widest, p)
  | fuel + 1, widest, p =>
    if p.startsWith ' ' then leadingLines fuel (max widest p.next.column) p.next
    else
      match p.takeBreak? with
      | none => ([], widest, p)
      | some (b, q) =>
        let (breaks, widest, q) := leadingLines fuel widest q
        (b :: breaks, widest, q)

/-- Spaces up to a column. -/
def indentTo (column : Nat) (p : Cursor) : Cursor :=
  p.advance (min (p.rest.takeWhile (· == ' ')).length (column - p.column))

/-- The breaks of empty lines, and the place where the next line's text would start. -/
def emptyLines (column : Nat) : Nat → Cursor → List Char × Cursor
  | 0, p => ([], p)
  | fuel + 1, p =>
    let p := indentTo column p
    match p.takeBreak? with
    | none => ([], p)
    | some (b, q) =>
      let (breaks, q) := emptyLines column fuel q
      (b :: breaks, q)

/-- What joins two lines. In a folded block a single break between two lines that do not start with a
gap is a space. -/
def joint (folded : Bool) (lineBreak : List Char) (breaks : List Char) (startsWord nextStartsWord : Bool) :
    List Char :=
  if folded && lineBreak == ['\n'] && startsWord && nextStartsWord then
    if breaks.isEmpty then [' '] else []
  else lineBreak

def tail (c : Chomping) (lineBreak breaks : List Char) : List Char :=
  match c with
  | .strip => []
  | .clip => lineBreak
  | .keep => lineBreak ++ breaks

def startsWord (p : Cursor) : Bool :=
  !p.peek?.any isGap

/-- The lines from the given one on; `breaks` are the empty lines before it. -/
def lines (folded : Bool) (c : Chomping) (column : Nat) : Nat → List Char → Cursor → List Char × Cursor
  | 0, _, p => ([], p)
  | fuel + 1, breaks, p =>
    let (text, q) := p.span (!isBreak ·)
    let (lineBreak, q) : List Char × Cursor :=
      match q.takeBreak? with
      | some (b, q) => ([b], q)
      | none => ([], q)
    let (after, q) := emptyLines column q.rest.length.succ q
    if q.column == column && q.peek?.isSome then
      let between := joint folded lineBreak after (startsWord p) (startsWord q)
      let (more, q) := lines folded c column fuel after q
      (breaks ++ text ++ between ++ more, q)
    else (breaks ++ text ++ tail c lineBreak after, q)

/-- A scalar at its indicator. Its lines stand at `leastColumn` or further right. -/
def read (folded : Bool) (leastColumn : Nat) (p : Cursor) : Reading (List Char × Cursor) := do
  let (h, p) ← header p.next
  let least := max leastColumn 1
  let (breaks, column, p) : List Char × Nat × Cursor :=
    match h.indentation with
    | some n =>
      let column := least + n - 1
      let (breaks, q) := emptyLines column p.rest.length.succ p
      (breaks, column, q)
    | none =>
      let (breaks, widest, q) := leadingLines p.rest.length 0 p
      (breaks, max least widest, q)
  let (text, q) :=
    if p.column == column && p.peek?.isSome then
      lines folded h.chomping column p.rest.length.succ breaks p
    else (tail h.chomping [] breaks, p)
  return (text, q)

end EngineHost.Yaml.BlockText
