import EngineHost.Yaml.Cursor
import EngineHost.Yaml.Graph

/-!
Merging mappings. The value of a merge key is a mapping, or a sequence of mappings of which the first
wins; their entries go in front of the mapping's own, so that its own win. The graph is changed where it
stands: a mapping that is merged in is merged itself first, also when it is the one being worked on.
-/
namespace EngineHost.Yaml

abbrev Entries := List (NodeId × NodeId)

/-- Changes of a graph that may fail. -/
abbrev GraphM := StateT Graph Reading

namespace Graph

def entriesOf (id : NodeId) : GraphM Entries := do
  match (← get).entries? id with
  | some entries => pure entries
  | none => StateT.lift malformed

def setEntries (id : NodeId) (entries : Entries) : GraphM Unit :=
  modify (setContent id (.mapping entries))

/-- The entries that a merge key brings in; `flatten` merges a mapping first. -/
def mergedWith (flatten : NodeId → GraphM Unit) (value : NodeId) : GraphM Entries := do
  match (← get).content? value with
  | some (.mapping _) => do
    flatten value
    entriesOf value
  | some (.sequence items) => do
    let parts ← items.mapM fun item => do
      let _ ← entriesOf item
      flatten item
      entriesOf item
    return parts.reverse.flatten
  | _ => StateT.lift malformed

/-- Works through the entries of a mapping from an index on, with what has been merged so far. A key that
stands for a mapping's own value becomes a text. -/
def flattenFrom (id : NodeId) : Nat → Nat → Entries → GraphM Unit
  | 0, _, _ => StateT.lift (.error .tooDeep)
  | fuel + 1, index, merged => do
    let entries ← entriesOf id
    match entries[index]? with
    | none => if merged.isEmpty then pure () else setEntries id (merged ++ entries)
    | some (key, value) =>
      match (← get).tagOf key with
      | .merge => do
        setEntries id (entries.eraseIdx index)
        let more ← mergedWith (fun inner => flattenFrom inner fuel 0 []) value
        flattenFrom id fuel index (merged ++ more)
      | .value => do
        modify (setTag key .str)
        flattenFrom id fuel (index + 1) merged
      | _ => flattenFrom id fuel (index + 1) merged

/-- More steps than any sensible document needs. -/
def maxSteps : Nat := 1000000

def flatten (id : NodeId) : GraphM Unit :=
  flattenFrom id maxSteps 0 []

end Graph

end EngineHost.Yaml
