import EngineHost.Text.Letter
import EngineHost.Yaml.Tag

/-!
The nodes of a document. An alias stands for the very node that its anchor names, so nodes refer to each
other by number and a node may be part of itself.
-/
namespace EngineHost.Yaml

open Text

abbrev NodeId := Nat

inductive Content where
  | scalar (text : List Letter)
  | sequence (items : List NodeId)
  | mapping (entries : List (NodeId × NodeId))

structure Node where
  tag : Tag
  content : Content

structure Graph where
  nodes : Array Node

namespace Graph

def empty : Graph := ⟨#[]⟩

/-- A new node at the end. -/
def add (node : Node) (g : Graph) : NodeId × Graph :=
  (g.nodes.size, ⟨g.nodes.push node⟩)

def node? (g : Graph) (id : NodeId) : Option Node :=
  g.nodes[id]?

def content? (g : Graph) (id : NodeId) : Option Content :=
  (g.node? id).map (·.content)

def entries? (g : Graph) (id : NodeId) : Option (List (NodeId × NodeId)) :=
  match g.content? id with
  | some (.mapping entries) => some entries
  | _ => none

/-- The tag of a node; one that is not there has none that is known. -/
def tagOf (g : Graph) (id : NodeId) : Tag :=
  match g.node? id with
  | some node => node.tag
  | none => .unknown

def setContent (id : NodeId) (content : Content) (g : Graph) : Graph :=
  ⟨g.nodes.modify id fun node => { node with content }⟩

def setTag (id : NodeId) (tag : Tag) (g : Graph) : Graph :=
  ⟨g.nodes.modify id fun node => { node with tag }⟩

theorem size_add (node : Node) (g : Graph) : (g.add node).2.nodes.size = g.nodes.size + 1 := by
  simp [add]

theorem node?_add (node : Node) (g : Graph) : (g.add node).2.node? (g.add node).1 = some node := by
  simp [add, node?]

end Graph

end EngineHost.Yaml
