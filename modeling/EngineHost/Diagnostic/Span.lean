import EngineHost.Value.Basic

/-!
Places in a source text: a line and a column counted from one, and an offset counted from zero. The
engine reports them, so no relation between the three is assumed.
-/
namespace EngineHost

structure SourceLocation where
  line : Int
  column : Int
  offset : Int
  deriving DecidableEq, Repr

structure SourceSpan where
  start : SourceLocation
  stop : SourceLocation
  deriving DecidableEq, Repr

namespace SourceLocation

def text (l : SourceLocation) : String :=
  toString l.line ++ ":" ++ toString l.column

def toData (l : SourceLocation) : Value :=
  .ofFields [("line", .int l.line), ("column", .int l.column), ("offset", .int l.offset)]

/-- As an instance with named fields. -/
def instanceValue (l : SourceLocation) : Value :=
  .data "SourceLocation" [("line", .int l.line), ("column", .int l.column), ("offset", .int l.offset)]

end SourceLocation

namespace SourceSpan

def text (s : SourceSpan) : String :=
  s.start.text ++ "-" ++ s.stop.text

def toData (s : SourceSpan) : Value :=
  .ofFields [("start", s.start.toData), ("end", s.stop.toData)]

/-- As an instance with named fields. -/
def instanceValue (s : SourceSpan) : Value :=
  .data "SourceSpan" [("start", s.start.instanceValue), ("end", s.stop.instanceValue)]

end SourceSpan

end EngineHost
