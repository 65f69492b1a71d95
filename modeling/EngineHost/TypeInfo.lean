import EngineHost.Ty.Wire
import EngineHost.Ty.Schema
import EngineHost.Value.Access

/-!
What the engine infers about a source text: the types of its inputs, its type errors and, if known, the
type of its result.
-/
namespace EngineHost

open Text

structure TypeInfo where
  inputs : List (Value × Ty)
  errors : List Diagnostic
  output : Option Ty

namespace SourceLocation

def ofWire (wire : Value) : Checked SourceLocation := do
  let line ← wire.atKey "line" >>= Value.toInt
  let column ← wire.atKey "column" >>= Value.toInt
  let offset ← wire.atKeyOr "offset" (.int 0) >>= Value.toInt
  return ⟨line, column, offset⟩

end SourceLocation

namespace SourceSpan

def ofWire (wire : Value) : Checked SourceSpan := do
  let start ← wire.atKey "start" >>= SourceLocation.ofWire
  let stop ← wire.atKey "end" >>= SourceLocation.ofWire
  return ⟨start, stop⟩

end SourceSpan

/-- The rows of a text, the empty one after a last line break included. -/
def sourceLines (source : String) : List String :=
  source.splitOn "\n"

def letterLines (source : List Letter) : List (List Letter) :=
  source.splitOn (.char '\n')

/-- The row with the given number, counted from one. What counts as false has no rows, and nothing but a
text has any. -/
def sourceLine? (source : Value) (line : Int) : Checked (Option Value) :=
  match source with
  | .str text =>
    pure <| if text.isEmpty || line < 1 then none
      else ((sourceLines text)[(line - 1).toNat]?).map .str
  | .letters text =>
    pure <| if line < 1 then none
      else ((letterLines text)[(line - 1).toNat]?).map .ofLetters
  | other => if other.isTruthy then throw (.shape .noSuchPart) else pure none

namespace Diagnostic

/-- A span is read only if it counts as true. -/
def ofWire (source : Value) (wire : Value) : Checked Diagnostic := do
  let spanWire ← wire.atKeyOr "span" .null
  let span ← if spanWire.isTruthy then some <$> SourceSpan.ofWire spanWire else pure none
  let line ←
    match span with
    | some s => sourceLine? source s.start.line
    | none => pure none
  let kind ← wire.atKeyOr "kind" (.str "TypeError")
  let description ← wire.atKeyOr "description" (.str "")
  return {
    code := kind.asText
    message := description.asText
    severity := .error
    span
    sourceLine := line
    hints := [] }

/-- The longest run of one character that can be counted. -/
def maxRun : Int := 9223372036854775807

/-- The longest run of one character that is tried. -/
def memoryRun : Int := 4294967296

/-- Refuses a diagnostic whose carets and blanks cannot be counted or written out. -/
def checkRuns (d : Diagnostic) : Checked Unit :=
  if !d.hasLength then throw (.shape .wrongKind)
  else if maxRun < d.longestRun then throw (.shape .outOfRange)
  else if memoryRun < d.longestRun then throw (.shape .outOfMemory)
  else pure ()

end Diagnostic

namespace TypeInfo

def ofWireInputs : List (Value × Value) → Checked (List (Value × Ty))
  | [] => pure []
  | (name, wire) :: rest => do
    let t ← Ty.ofWire wire
    return (name, t) :: (← ofWireInputs rest)

/-- A missing part is empty; a null output is unknown. -/
def ofWire (source : Value) (payload : Value) : Checked TypeInfo := do
  let inputs ← payload.atKeyOr "inputs" (.mapping .plain []) >>= Value.entries >>= ofWireInputs
  let errors ← payload.atKeyOr "errors" (.list []) >>= Value.elements
  let errors ← errors.mapM (Diagnostic.ofWire source)
  match ← payload.atKeyOr "output" .null with
  | .null => return ⟨inputs, errors, none⟩
  | wire => return ⟨inputs, errors, some (← Ty.ofWire wire)⟩

def hasErrors (info : TypeInfo) : Bool :=
  !info.errors.isEmpty

def formatErrors (info : TypeInfo) : String :=
  "\n\n".intercalate (info.errors.map Diagnostic.format)

def inputSchema (info : TypeInfo) (title : Value) : Checked InputSchema :=
  InputSchema.ofTypes title info.inputs

/-- For tools: the names of types, and errors in their own data form. -/
def toData (info : TypeInfo) : Value :=
  .ofFields <|
    [ ("inputs", .mapping .plain (info.inputs.map fun (name, t) => (name, .str t.name))),
      ("errors", .list (info.errors.map Diagnostic.toData)) ] ++
    (match info.output with
     | some t => [("output", .str t.name)]
     | none => [])

/-- As an instance with named fields. -/
def instanceValue (info : TypeInfo) : Value :=
  .data "TypeInfo"
    [ ("inputs", .mapping .plain (info.inputs.map fun (name, t) => (name, .type t))),
      ("errors", .list (info.errors.map Diagnostic.instanceValue)),
      ("output", (info.output.map Value.type).getD .null) ]

end TypeInfo

end EngineHost
