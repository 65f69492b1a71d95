import EngineHost.Yaml.Cursor

/-!
Scalars without quotes. They may go on over several lines and end before a comment, a colon that stands
as a mark, or a line that is not indented enough.
-/
namespace EngineHost.Yaml.PlainText

def flowMarks : List Char := [',', '?', '[', ']', '\x7b', '\x7d']

def flowColonEnds : List Char := [',', '[', ']', '\x7b', '\x7d']

/-- Whether a colon with this character after it is a mark. -/
def isColonMark (inFlow : Bool) (after : Option Char) : Bool :=
  endsMark after || (inFlow && after.any flowColonEnds.contains)

def stops (inFlow : Bool) (c : Char) (after : Option Char) : Bool :=
  isGap c || isBreak c || (c == ':' && isColonMark inFlow after) || (inFlow && flowMarks.contains c)

/-- The characters up to the next gap or mark. -/
def chunk (inFlow : Bool) : List Char → List Char
  | [] => []
  | c :: rest => if stops inFlow c rest.head? then [] else c :: chunk inFlow rest

/-- What stands between two chunks. -/
structure Gap where
  /-- Empty when the scalar ends here. -/
  text : List Char
  /-- It has a line break in it. -/
  breaksLine : Bool
  after : Cursor

/-- The breaks of the empty lines that follow; `none` when a document mark comes. -/
def emptyLines : Nat → Cursor → Option (List Char) × Cursor
  | 0, p => (some [], p)
  | fuel + 1, p =>
    if p.startsWith ' ' then emptyLines fuel p.next
    else
      match p.takeBreak? with
      | none => (some [], p)
      | some (b, q) =>
        if q.atDocumentMark then (none, q)
        else
          let (breaks, q) := emptyLines fuel q
          (breaks.map (b :: ·), q)

def gap (p : Cursor) : Gap :=
  let (spaces, q) := p.span (· == ' ')
  match q.takeBreak? with
  | none => ⟨spaces, false, q⟩
  | some (b, q) =>
    if q.atDocumentMark then ⟨[], true, q⟩
    else
      match emptyLines q.rest.length q with
      | (some breaks, q) => ⟨foldBreaks b breaks, true, q⟩
      | (none, q) => ⟨[], true, q⟩

/-- The scalar from its first character on, with whether its last gap has a line break in it. -/
def readFrom (inFlow : Bool) (leastColumn : Nat) :
    Nat → List Char → Bool → Cursor → List Char × Bool × Cursor
  | 0, _, broke, p => ([], broke, p)
  | fuel + 1, before, broke, p =>
    if p.startsWith '#' then ([], broke, p)
    else
      let taken := chunk inFlow p.rest
      if taken.isEmpty then ([], broke, p)
      else
        let g := gap (p.advance taken.length)
        if g.text.isEmpty || g.after.startsWith '#' || (!inFlow && g.after.column < leastColumn) then
          (before ++ taken, g.breaksLine, g.after)
        else
          let (more, broke, q) := readFrom inFlow leastColumn fuel g.text g.breaksLine g.after
          (before ++ taken ++ more, broke, q)

def read (inFlow : Bool) (leastColumn : Nat) (p : Cursor) : List Char × Bool × Cursor :=
  readFrom inFlow leastColumn p.rest.length [] false p

/-- Characters that no plain scalar starts with, three of them unless a word follows. -/
def reserved : List Char :=
  "-?:,[]\x7b\x7d#&*!|>'\"%@\x60".toList

def canStart (inFlow : Bool) (c : Char) (after : Option Char) : Bool :=
  (!isGap c && !isBreak c && !reserved.contains c) ||
    (!endsMark after && (c == '-' || (!inFlow && (c == '?' || c == ':'))))

end EngineHost.Yaml.PlainText
