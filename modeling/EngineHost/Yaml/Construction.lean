import EngineHost.Yaml.Document
import EngineHost.Yaml.Merging
import EngineHost.Yaml.Number

/-!
The data of a graph. Scalars become data at once; a collection is made empty and filled in a later round,
after all collections that were met before it. So a fault in an outer collection comes before those
inside, and a node that is met again stands for the same datum.
-/
namespace EngineHost.Yaml

open Text

structure Constructing where
  graph : Graph
  /-- The data of nodes, as far as they are made. -/
  made : Array (Option Datum)
  collections : Array Collection
  /-- Collections that are to be filled, the last met first. -/
  waiting : List (NodeId × Nat)

abbrev Constructor := StateT Constructing Reading

namespace Constructor

def fail {α : Type} : Constructor α :=
  StateT.lift malformed

def onGraph {α : Type} (action : GraphM α) : Constructor α := do
  let (result, graph) ← StateT.lift (action.run (← get).graph)
  modify fun s => { s with graph }
  pure result

def node (id : NodeId) : Constructor Node := do
  match (← get).graph.node? id with
  | some node => pure node
  | none => fail

/-- The text of a scalar. A mapping has the text of its own value, which may again be a mapping. -/
def scalarText (g : Graph) : Nat → NodeId → Reading (List Letter)
  | 0, _ => .error .tooDeep
  | fuel + 1, id =>
    match g.content? id with
    | some (.scalar text) => .ok text
    | some (.mapping entries) =>
      match entries.find? fun (key, _) => g.tagOf key == .value with
      | some (_, value) => scalarText g fuel value
      | none => malformed
    | _ => malformed

def boolOf (text : List Char) : Reading Datum :=
  match String.ofList (Decimal.lowerAscii text) with
  | "yes" | "true" | "on" => .ok (.bool true)
  | "no" | "false" | "off" => .ok (.bool false)
  | word => badScalar (.missingKey (.str word))

def stampOf (text : List Char) : Reading Datum :=
  match Stamp.read? (Stamp.withoutFinalBreak text) with
  | none => badScalar .noSuchPart
  | some stamp =>
    match stamp.toValue? with
    | some (.date d) => .ok (.date d)
    | some (.moment m) => .ok (.moment m)
    | _ => badScalar .badContent

/-- What a text with lone halves is under a tag. -/
def ofBrokenText (tag : Tag) (text : List Letter) : Reading Datum :=
  match tag with
  | .null => .ok .null
  | .str => .ok (.text text)
  | .bool => badScalar (.missingKey (.letters text))
  | .timestamp => badScalar .noSuchPart
  | .int | .float => badScalar .badContent
  | _ => malformed

/-- The data of a text under a tag for scalars. The one float that is no number by its own word is the
same everywhere; `origin` tells apart those that are read as numbers. -/
def ofText (tag : Tag) (origin : Nat) (text : List Char) : Reading Datum :=
  match tag with
  | .null => .ok .null
  | .bool => boolOf text
  | .int => return .int (← Number.readInt text)
  | .float => return .float (← Number.readFloat text) (if Number.isNanWord text then 0 else origin + 1)
  | .binary => return .bytes (← Bytes.decode text)
  | .timestamp => stampOf text
  | .str => .ok (.text (Letter.ofChars text))
  | _ => malformed

/-- A date is read from the scalar itself, so a mapping in its place is of the wrong kind. -/
def ofScalar (g : Graph) (tag : Tag) (id : NodeId) : Reading Datum := do
  let text ← scalarText g (g.nodes.size + 1) id
  match tag, g.content? id with
  | .timestamp, some (.mapping _) => badScalar .wrongKind
  | _, _ =>
    match Letter.chars? text with
    | some cs => ofText tag id cs
    | none => ofBrokenText tag text

/-- An empty collection under a tag for collections. -/
def emptyCollection? : Tag → Option Collection
  | .seq => some (.list [])
  | .pairs => some (.pairs [])
  | .set => some (.set [])
  | .map => some (.mapping [])
  | _ => none

def isScalarTag : Tag → Bool
  | .null | .bool | .int | .float | .binary | .timestamp | .str => true
  | _ => false

def make (id : NodeId) : Constructor Datum := do
  let tag := (← node id).tag
  match emptyCollection? tag with
  | some c =>
    modifyGet fun s =>
      (.collection s.collections.size,
       { s with collections := s.collections.push c, waiting := (id, s.collections.size) :: s.waiting })
  | none =>
    if isScalarTag tag then StateT.lift (ofScalar (← get).graph tag id) else fail

/-- The datum of a node, made once. -/
def datum (id : NodeId) : Constructor Datum := do
  match (← get).made[id]? with
  | some (some d) => pure d
  | _ => do
    let d ← make id
    modify fun s => { s with made := s.made.modify id fun _ => some d }
    pure d

def items (id : NodeId) : Constructor (List NodeId) := do
  match (← node id).content with
  | .sequence items => pure items
  | _ => fail

/-- Adds entries one after the other. A key is checked before its value is looked at. -/
def addEntries (entries : List (Datum × Datum)) : Entries → Constructor (List (Datum × Datum))
  | [] => pure entries
  | (key, value) :: rest => do
    let k ← datum key
    if k.isKey then
      let v ← datum value
      addEntries (Datum.insertEntry k v entries) rest
    else fail

/-- The entries of a mapping after merging. -/
def mappingEntries (id : NodeId) : Constructor (List (Datum × Datum)) := do
  onGraph (Graph.flatten id)
  addEntries [] (← onGraph (Graph.entriesOf id))

/-- A mapping with exactly one entry, as a pair; nothing is merged into it. -/
def pairOf (id : NodeId) : Constructor (Datum × Datum) := do
  match ← onGraph (Graph.entriesOf id) with
  | [(key, value)] => return (← datum key, ← datum value)
  | _ => fail

/-- What belongs into a collection that was made empty. -/
def contentOf (id : NodeId) : Collection → Constructor Collection
  | .list _ => do return .list (← (← items id).mapM datum)
  | .pairs _ => do return .pairs (← (← items id).mapM pairOf)
  | .set _ => do return .set ((← mappingEntries id).map Prod.fst)
  | .mapping _ => do return .mapping (← mappingEntries id)

def fillOne (id : NodeId) (number : Nat) : Constructor Unit := do
  match (← get).collections[number]? with
  | none => pure ()
  | some c => do
    let content ← contentOf id c
    modify fun s => { s with collections := s.collections.modify number fun _ => content }

/-- Fills round by round until nothing waits. Each node waits at most once. -/
def fillAll : Nat → Constructor Unit
  | 0 => pure ()
  | fuel + 1 => do
    match (← get).waiting with
    | [] => pure ()
    | waiting => do
      modify fun s => { s with waiting := [] }
      waiting.reverse.forM fun (id, number) => fillOne id number
      fillAll fuel

def document (root : NodeId) : Constructor Document := do
  let d ← datum root
  fillAll ((← get).graph.nodes.size + 1)
  return ⟨(← get).collections, d⟩

end Constructor

/-- The data below a root; without one there is nothing. -/
def Graph.toDocument (g : Graph) (root : Option NodeId) : Reading Document :=
  match root with
  | none => .ok ⟨#[], .null⟩
  | some id => (Constructor.document id).run' ⟨g, .replicate g.nodes.size none, #[], []⟩

end EngineHost.Yaml
