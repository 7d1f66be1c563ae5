import ShaderGraph.Outline
import ShaderGraph.Ron.Value

/-
Outlines in files.
-/
namespace ShaderGraph

open Ron

namespace OutlineNode

structure Draft where
  id : Option String
  label : Option String
  kind : Option OutlineKind
  params : Option (Option (OrderedMap String Binary32))

def fields : List (Reader.Field Draft) := [
  .make "id" (·.id) (fun d a => { d with id := some a }) Reader.string,
  .make "label" (·.label) (fun d a => { d with label := some a }) Reader.string,
  .make "kind" (·.kind) (fun d a => { d with kind := some a })
    (Reader.word "OutlineKind" OutlineKind),
  .make "params" (·.params) (fun d a => { d with params := some a })
    (Reader.option (Reader.map Reader.float))]

def read : Reader OutlineNode :=
  let name := "OutlineNode"
  Reader.record name fields ⟨none, none, none, none⟩ fun d => do
    return ⟨← Reader.required name "id" d.id, ← Reader.required name "label" d.label,
      ← Reader.required name "kind" d.kind, d.params.join⟩

end OutlineNode

namespace OutlineEdge

def fields : List (Reader.Field (Option String × Option String)) := [
  .make "from" (·.1) (fun d a => (some a, d.2)) Reader.string,
  .make "to" (·.2) (fun d a => (d.1, some a)) Reader.string]

def read : Reader OutlineEdge :=
  let name := "OutlineEdge"
  Reader.record name fields (none, none) fun d => do
    return ⟨← Reader.required name "from" d.1, ← Reader.required name "to" d.2⟩

end OutlineEdge

namespace Outline

def fields : List (Reader.Field (Option (List OutlineNode) × Option (List OutlineEdge))) := [
  .make "nodes" (·.1) (fun d a => (some a, d.2)) (Reader.list OutlineNode.read),
  .make "edges" (·.2) (fun d a => (d.1, some a)) (Reader.list OutlineEdge.read)]

def read : Reader Outline :=
  let name := "GraphOutline"
  Reader.record name fields (none, none) fun d => do
    return ⟨← Reader.required name "nodes" d.1, ← Reader.required name "edges" d.2⟩

def ofText (text : String) : Except ReadError Outline := Reader.document read text

end Outline

end ShaderGraph
