import ShaderGraph.Files.Node
import ShaderGraph.Graph

/-
Snapshots and graphs in files.
-/
namespace ShaderGraph

open Ron

namespace Snapshot

def fields : List (Reader.Field (Option (List Node) × Option (List Edge))) := [
  .make "nodes" (·.1) (fun d a => (some a, d.2)) (Reader.list Node.read),
  .make "edges" (·.2) (fun d a => (d.1, some a)) (Reader.list Edge.read)]

def read : Reader Snapshot :=
  let name := "GraphSnapshot"
  Reader.record name fields (none, none) fun d => do
    return ⟨← Reader.required name "nodes" d.1, ← Reader.required name "edges" d.2⟩

def ofText (text : String) : Except ReadError Snapshot := Reader.document read text

def write (snapshot : Snapshot) : Writer := Writer.record [
  ("nodes", Writer.list (snapshot.nodes.map Node.write)),
  ("edges", Writer.list (snapshot.edges.map Edge.write))]

def text (snapshot : Snapshot) : String := snapshot.write.document

end Snapshot

namespace Graph

structure Draft where
  name : Option String
  nodes : Option (OrderedMap NodeId Node)
  edges : Option (OrderedMap EdgeId Edge)

def fields : List (Reader.Field Draft) := [
  .make "name" (·.name) (fun d a => { d with name := some a }) Reader.string,
  .make "nodes" (·.nodes) (fun d a => { d with nodes := some a }) (Reader.map Node.read),
  .make "edges" (·.edges) (fun d a => { d with edges := some a }) (Reader.map Edge.read)]

/-- Reads a graph. Nodes and edges are stored under the keys that are written. -/
def read : Reader Graph :=
  let name := "Graph"
  Reader.record name fields ⟨none, none, none⟩ fun d => do
    return ⟨← Reader.required name "name" d.name, ← Reader.required name "nodes" d.nodes,
      ← Reader.required name "edges" d.edges⟩

def ofText (text : String) : Except ReadError Graph := Reader.document read text

def write (g : Graph) : Writer := Writer.record [
  ("name", Writer.string g.name),
  ("nodes", Writer.map Node.write g.nodes),
  ("edges", Writer.map Edge.write g.edges)]

def text (g : Graph) : String := g.write.document

end Graph

end ShaderGraph
