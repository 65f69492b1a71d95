import EngineHost.Yaml.Graph
import EngineHost.Yaml.Tokens

/-!
The graph of a document, built from its tokens as they are read. A node has its number before its parts
are read, so that an alias among them can name it.
-/
namespace EngineHost.Yaml

open Text

/-- The nodes so far, with the anchors and tag handles known. -/
structure Composing where
  splitting : Splitting
  anchors : List (String × NodeId)
  handles : List (String × String)
  graph : Graph

/-- What has been read before a fault stays known. -/
abbrev Composer := ExceptT ReadError (StateM Composing)

namespace Composer

/-- The tokens do not go on like this. -/
def fail {α : Type} : Composer α := do
  ofExcept (← get).splitting.cursor.refuse

def peek? : Composer (Option Token) := do
  let (token, splitting) ← ofExcept (← get).splitting.peek
  modify fun s => { s with splitting }
  pure token

def drop : Composer Unit :=
  modify fun s => { s with splitting := s.splitting.drop }

def addNode (node : Node) : Composer NodeId :=
  modifyGet fun s =>
    let (id, graph) := s.graph.add node
    (id, { s with graph })

def fill (id : NodeId) (content : Content) : Composer Unit :=
  modify fun s => { s with graph := s.graph.setContent id content }

/-- A name is given to one node only. -/
def checkAnchor (anchor : Option String) : Composer Unit := do
  match anchor with
  | none => pure ()
  | some name => if ((← get).anchors.lookup name).isSome then fail else pure ()

def setAnchor (anchor : Option String) (id : NodeId) : Composer Unit :=
  match anchor with
  | none => pure ()
  | some name => modify fun s => { s with anchors := (name, id) :: s.anchors }

def anchored (name : String) : Composer NodeId := do
  match (← get).anchors.lookup name with
  | some id => pure id
  | none => fail

/-- The full name of a tag. -/
def uriOf (written : WrittenTag) : Composer String := do
  match written.handle? with
  | none => pure written.suffix
  | some handle =>
    match (← get).handles.lookup handle with
    | some front => pure (front ++ written.suffix)
    | none => fail

/-- An anchor and a tag, in any order. The tag is looked up once both are read. -/
def properties : Composer (Option String × Option String) := do
  match ← peek? with
  | some (.anchor name) => do
    drop
    match ← peek? with
    | some (.tag written) => do
      drop
      return (some name, some (← uriOf written))
    | _ => return (some name, none)
  | some (.tag written) => do
    drop
    match ← peek? with
    | some (.anchor name) => do
      drop
      return (some name, some (← uriOf written))
    | _ => return (none, some (← uriOf written))
  | _ => return (none, none)

/-- A lone exclamation mark leaves the tag open. -/
def collectionTag (uri : Option String) (standard : Tag) : Tag :=
  match uri with
  | none => standard
  | some u => if u == "!" then standard else .ofUri u

def contentTag (text : List Letter) : Tag :=
  match Letter.chars? text with
  | some cs => .ofContent cs
  | none => .str

def scalarTag (uri : Option String) (text : List Letter) (isPlain : Bool) : Tag :=
  match uri with
  | none => if isPlain then contentTag text else .str
  | some u => if u == "!" then contentTag text else .ofUri u

/-- Where a node stands says which collections it may be. -/
inductive Place where
  | flow
  | block
  /-- In a mapping, where a sequence need not be indented. -/
  | blockOrEntries

def isBlock : Place → Bool
  | .flow => false
  | _ => true

def scalar (anchor uri : Option String) (text : List Letter) (isPlain : Bool) : Composer NodeId := do
  checkAnchor anchor
  let id ← addNode ⟨scalarTag uri text isPlain, .scalar text⟩
  setAnchor anchor id
  pure id

/-- A node that is there before its parts. -/
def collection (anchor : Option String) (node : Node) (parts : Composer Content) : Composer NodeId := do
  checkAnchor anchor
  let id ← addNode node
  setAnchor anchor id
  fill id (← parts)
  pure id

def sequence (anchor uri : Option String) (items : Composer (List NodeId)) : Composer NodeId :=
  collection anchor ⟨collectionTag uri .seq, .sequence []⟩ (Content.sequence <$> items)

def mapping (anchor uri : Option String) (entries : Composer (List (NodeId × NodeId))) :
    Composer NodeId :=
  collection anchor ⟨collectionTag uri .map, .mapping []⟩ (Content.mapping <$> entries)

/-- A node without any text. -/
def empty : Composer NodeId :=
  scalar none none [] true

/-- A node without content needs an anchor or a tag. -/
def bare (anchor uri : Option String) : Composer NodeId :=
  if anchor.isSome || uri.isSome then scalar anchor uri [] uri.isNone else fail

/-- A node, or an empty one where the next token does not start any. -/
def nodeUnless (ends : Option Token → Bool) (read : Composer NodeId) : Composer NodeId := do
  if ends (← peek?) then empty else read

/-- The value of a key, if there is one. -/
def valueUnless (ends : Option Token → Bool) (read : Composer NodeId) : Composer NodeId := do
  match ← peek? with
  | some .value => do
    drop
    nodeUnless ends read
  | _ => empty

def endsItem : Option Token → Bool
  | some .blockEntry | some .blockEnd => true
  | _ => false

def endsEntry : Option Token → Bool
  | some .blockEntry | some .key | some .value | some .blockEnd => true
  | _ => false

def endsMember : Option Token → Bool
  | some .key | some .value | some .blockEnd => true
  | _ => false

def endsFlowItem : Option Token → Bool
  | some .flowEntry | some .flowSequenceEnd => true
  | _ => false

def endsFlowMember : Option Token → Bool
  | some .flowEntry | some .flowMappingEnd => true
  | _ => false

/-- The same, or a colon, after which comes the value. -/
def endsKey (ends : Option Token → Bool) : Option Token → Bool
  | some .value => true
  | t => ends t

/-- A comma stands before all entries but the first. -/
def separator (isFirst : Bool) : Composer Unit := do
  match isFirst, ← peek? with
  | true, _ => pure ()
  | false, some .flowEntry => drop
  | false, _ => fail

/-- The deepest nesting of nodes. -/
def maxDepth : Nat := 486

mutual

/-- `depth` counts the nodes around this one. -/
def node : Nat → Nat → Place → Composer NodeId
  | 0, _, _ => fail
  | fuel + 1, depth, place => do
    if maxDepth < depth then throw .tooDeep
    match ← peek? with
    | some (.reference name) => do
      drop
      anchored name
    | _ => do
      let (anchor, uri) ← properties
      match ← peek?, place with
      | some .blockEntry, .blockOrEntries => sequence anchor uri (entries fuel depth)
      | some (.scalar text isPlain), _ => do
        drop
        scalar anchor uri text isPlain
      | some .flowSequenceStart, _ => sequence anchor uri do
        drop
        flowItems fuel depth true
      | some .flowMappingStart, _ => mapping anchor uri do
        drop
        flowMembers fuel depth true
      | some .blockSequenceStart, place =>
        if isBlock place then
          sequence anchor uri do
            drop
            blockItems fuel depth
        else bare anchor uri
      | some .blockMappingStart, place =>
        if isBlock place then
          mapping anchor uri do
            drop
            blockMembers fuel depth
        else bare anchor uri
      | _, _ => bare anchor uri

def blockItems : Nat → Nat → Composer (List NodeId)
  | 0, _ => fail
  | fuel + 1, depth => do
    match ← peek? with
    | some .blockEntry => do
      drop
      let item ← nodeUnless endsItem (node fuel (depth + 1) .block)
      return item :: (← blockItems fuel depth)
    | some .blockEnd => do
      drop
      pure []
    | _ => fail

/-- The entries of a sequence that is not indented. -/
def entries : Nat → Nat → Composer (List NodeId)
  | 0, _ => fail
  | fuel + 1, depth => do
    match ← peek? with
    | some .blockEntry => do
      drop
      let item ← nodeUnless endsEntry (node fuel (depth + 1) .block)
      return item :: (← entries fuel depth)
    | _ => pure []

def blockMembers : Nat → Nat → Composer (List (NodeId × NodeId))
  | 0, _ => fail
  | fuel + 1, depth => do
    match ← peek? with
    | some .key => do
      drop
      let key ← nodeUnless endsMember (node fuel (depth + 1) .blockOrEntries)
      let value ← valueUnless endsMember (node fuel (depth + 1) .blockOrEntries)
      return (key, value) :: (← blockMembers fuel depth)
    | some .blockEnd => do
      drop
      pure []
    | _ => fail

/-- A key among the items makes a mapping of one entry. -/
def flowItems : Nat → Nat → Bool → Composer (List NodeId)
  | 0, _, _ => fail
  | fuel + 1, depth, isFirst => do
    match ← peek? with
    | some .flowSequenceEnd => do
      drop
      pure []
    | _ => do
      separator isFirst
      match ← peek? with
      | some .flowSequenceEnd => do
        drop
        pure []
      | some .key => do
        let item ← mapping none none do
          drop
          let key ← nodeUnless (endsKey endsFlowItem) (node fuel (depth + 2) .flow)
          let value ← valueUnless endsFlowItem (node fuel (depth + 2) .flow)
          return [(key, value)]
        return item :: (← flowItems fuel depth false)
      | _ => do
        let item ← node fuel (depth + 1) .flow
        return item :: (← flowItems fuel depth false)

def flowMembers : Nat → Nat → Bool → Composer (List (NodeId × NodeId))
  | 0, _, _ => fail
  | fuel + 1, depth, isFirst => do
    match ← peek? with
    | some .flowMappingEnd => do
      drop
      pure []
    | _ => do
      separator isFirst
      match ← peek? with
      | some .flowMappingEnd => do
        drop
        pure []
      | some .key => do
        drop
        let key ← nodeUnless (endsKey endsFlowMember) (node fuel (depth + 1) .flow)
        let value ← valueUnless endsFlowMember (node fuel (depth + 1) .flow)
        return (key, value) :: (← flowMembers fuel depth false)
      | _ => do
        let key ← node fuel (depth + 1) .flow
        let value ← empty
        return (key, value) :: (← flowMembers fuel depth false)

end

/-- The handles that need no directive. -/
def standardHandles : List (String × String) :=
  [("!", "!"), ("!!", Tag.commonFront)]

/-- The directives before a document: one version, and one front for every handle. -/
def directives : Nat → Bool → List (String × String) → Composer (List (String × String))
  | 0, _, _ => fail
  | fuel + 1, hasVersion, handles => do
    match ← peek? with
    | some (.directive d) => do
      drop
      match d with
      | .version major =>
        if hasVersion || major != 1 then fail else directives fuel true handles
      | .handle name front =>
        if (handles.lookup name).isSome then fail
        else directives fuel hasVersion ((name, front) :: handles)
      | .other => directives fuel hasVersion handles
    | _ => pure handles

/-- The directives and the mark that a document starts with. -/
def startDocument (fuel : Nat) : Composer Unit := do
  let handles ← directives fuel false []
  modify fun s => { s with handles := handles ++ standardHandles }
  match ← peek? with
  | some .documentStart => drop
  | _ => fail

def endsDocument : Option Token → Bool
  | some (.directive _) | some .documentStart | some .documentEnd | some .streamEnd => true
  | _ => false

def skipEndMarks : Nat → Composer Unit
  | 0 => pure ()
  | fuel + 1 => do
    match ← peek? with
    | some .documentEnd => do
      drop
      skipEndMarks fuel
    | _ => pure ()

/-- After the only document nothing stands but end marks. -/
def conclude (fuel : Nat) : Composer Unit := do
  skipEndMarks fuel
  match ← peek? with
  | some .streamEnd => pure ()
  | _ => do
    startDocument fuel
    fail

/-- The root of the only document, if there is one. -/
def document (fuel : Nat) : Composer (Option NodeId) := do
  match ← peek? with
  | some .streamEnd => pure none
  | some (.directive _) | some .documentStart => do
    startDocument fuel
    let root ← nodeUnless endsDocument (node fuel 0 .block)
    conclude fuel
    return some root
  | _ => do
    let root ← node fuel 0 .block
    conclude fuel
    return some root

/-- A character makes at most four tokens, and a token is passed within two steps. -/
def run (text : List Char) : Except ReadError (Option NodeId) × Composing :=
  let start : Composing := ⟨.start text, [], standardHandles, .empty⟩
  StateT.run (ExceptT.run (document (8 * (text.length + 2)))) start

end Composer

end EngineHost.Yaml
