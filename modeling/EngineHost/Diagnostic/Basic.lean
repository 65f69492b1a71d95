import EngineHost.Diagnostic.Span
import EngineHost.Value.Display

/-!
A message for people about a fault in a source text or in a call, and its layout: a header, the source
line with carets under the reported part, and hints.
-/
namespace EngineHost

open Text

inductive Severity
  | error
  | warning
  | info
  | hint
  deriving DecidableEq, Repr

def Severity.text : Severity → String
  | .error => "error"
  | .warning => "warning"
  | .info => "info"
  | .hint => "hint"

def Severity.ofText? : String → Option Severity
  | "error" => some .error
  | "warning" => some .warning
  | "info" => some .info
  | "hint" => some .hint
  | _ => none

/-- A severity among other values. -/
def Severity.toValue (s : Severity) : Value :=
  let (identity, name) : Nat × String :=
    match s with
    | .error => (0, "ERROR")
    | .warning => (1, "WARNING")
    | .info => (2, "INFO")
    | .hint => (3, "HINT")
  .foreign ⟨identity, "ErrorSeverity", "<ErrorSeverity." ++ name ++ ": " ++ quoted s.text ++ ">",
    false, true⟩

/-- Code, message, source line and hints are mostly texts, but nothing depends on that. -/
structure Diagnostic where
  code : Value
  message : Value
  severity : Severity
  span : Option SourceSpan
  sourceLine : Option Value
  hints : List Value

namespace Diagnostic

def header (d : Diagnostic) : String :=
  let head := d.severity.text ++ "[" ++ d.code.text ++ "]: " ++ d.message.text
  match d.span with
  | some span => span.start.text ++ ": " ++ head
  | none => head

def repeated (n : Int) (c : Char) : String :=
  String.ofList (List.replicate n.toNat c)

/-- Right-aligned to three places. -/
def gutter (line : Int) : String :=
  let digits := toString line
  repeated (3 - digits.length) ' ' ++ digits

def isOneLine (span : SourceSpan) : Bool :=
  span.start.line == span.stop.line

/-- The column after the last caret: the end of the span, or of the line when the span ends on another. -/
def stopColumn (span : SourceSpan) (source : Value) : Int :=
  if isOneLine span then span.stop.column else (source.size?.getD 0 : Nat) + 1

/-- At least one. -/
def caretCount (span : SourceSpan) (source : Value) : Int :=
  max 1 (stopColumn span source - span.start.column)

def sourceRows (span : SourceSpan) (source : Value) : List String :=
  [ "  |",
    gutter span.start.line ++ " | " ++ source.text,
    "    | " ++ repeated (span.start.column - 1) ' ' ++ repeated (caretCount span source) '^' ]

def rows (d : Diagnostic) (showSource : Bool) : List String :=
  let source :=
    match d.span, d.sourceLine with
    | some span, some line => if showSource then sourceRows span line else []
    | _, _ => []
  d.header :: source ++ d.hints.map fun hint => "    = hint: " ++ hint.text

def formatWith (d : Diagnostic) (showSource : Bool) : String :=
  "\n".intercalate (d.rows showSource)

def format (d : Diagnostic) : String :=
  d.formatWith true

/-- The longest row of blanks or carets under the source line. -/
def longestRun (d : Diagnostic) : Int :=
  match d.span, d.sourceLine with
  | some span, some line => max (span.start.column - 1) (caretCount span line)
  | _, _ => 0

/-- Whether the length of the source line is known where it is needed. -/
def hasLength (d : Diagnostic) : Bool :=
  match d.span, d.sourceLine with
  | some span, some line => isOneLine span || line.size?.isSome
  | _, _ => true

/-- For tools: the span is left out when there is none. -/
def toData (d : Diagnostic) : Value :=
  .ofFields <|
    [ ("code", d.code),
      ("message", d.message),
      ("severity", .str d.severity.text),
      ("hints", .list d.hints) ] ++
    (match d.span with
     | some span => [("range", span.toData)]
     | none => [])

/-- As an instance with named fields. -/
def instanceValue (d : Diagnostic) : Value :=
  .data "Diagnostic"
    [ ("code", d.code), ("message", d.message), ("severity", d.severity.toValue),
      ("span", (d.span.map SourceSpan.instanceValue).getD .null),
      ("source_line", d.sourceLine.getD .null), ("hints", .list d.hints) ]

end Diagnostic

end EngineHost
