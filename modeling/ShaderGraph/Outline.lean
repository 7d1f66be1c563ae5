import ShaderGraph.Snapshot

/-
The outline of a graph and its repair.

An outline keeps of every node its id, label and role, and of every edge the two
nodes. Normalizing an outline settles repeated ids, puts in an input and an
output node where there is none, drops edges to unknown nodes, and orders the
nodes by role and label.
-/
namespace ShaderGraph

/-- What a node is for. -/
inductive OutlineKind where
  | input
  | operator
  | output
  deriving DecidableEq, Repr, Inhabited

namespace OutlineKind

instance : Enumerated OutlineKind where
  all := [input, operator, output]
  word
    | input => "Input"
    | operator => "Operator"
    | output => "Output"

/-- Inputs come first and outputs last. -/
def rank : OutlineKind → Nat
  | input => 0
  | operator => 1
  | output => 2

/-- Math and code nodes are operators. -/
def ofCategory : Category → OutlineKind
  | .input => input
  | .math | .code => operator
  | .output => output

end OutlineKind

/-- A node of an outline; its numeric parameters are carried along untouched. -/
structure OutlineNode where
  id : String
  label : String
  kind : OutlineKind
  params : Option (OrderedMap String Binary32)
  deriving DecidableEq, Inhabited

/-- A connection of an outline. -/
structure OutlineEdge where
  source : String
  target : String
  deriving DecidableEq, Repr, Inhabited

/-- The nodes and edges of a graph without what only compilation needs. -/
structure Outline where
  nodes : List OutlineNode
  edges : List OutlineEdge
  deriving DecidableEq, Inhabited

def Snapshot.outline (snapshot : Snapshot) : Outline where
  nodes := snapshot.nodes.map fun node =>
    ⟨node.id, node.displayLabel, .ofCategory node.category, none⟩
  edges := snapshot.edges.map fun edge => ⟨edge.source.node, edge.target.node⟩

/-- A normalized outline: the repaired graph, what was repaired, and the ids in
display order. -/
structure NormalizedOutline where
  graph : Outline
  messages : List String
  usedFallbacks : Bool
  order : List String
  deriving DecidableEq, Inhabited

namespace Outline

/-- The node put in where there is no output. -/
def fallbackOutput : OutlineNode := ⟨"output-fallback", "Fallback Output", .output, none⟩

/-- The node put in where there is no input. -/
def fallbackInput : OutlineNode := ⟨"input-fallback", "Fallback Input", .input, none⟩

/-- The outline has a node of the kind. -/
def has (outline : Outline) (kind : OutlineKind) : Bool := outline.nodes.any (·.kind == kind)

/-- The nodes put in, each with the message that tells it. -/
def repairs (outline : Outline) : List (OutlineNode × String) :=
  (if outline.has .output then [] else [(fallbackOutput, "Inserted fallback output node.")]) ++
  (if outline.has .input then [] else [(fallbackInput, "Inserted fallback input node.")])

/-- The nodes by id, those put in written last. -/
def repairedNodes (outline : Outline) : OrderedMap String OutlineNode :=
  .ofList ((outline.nodes ++ outline.repairs.map Prod.fst).map fun node => (node.id, node))

/-- Display order: by role, then by label in the order of code points. -/
def comesBefore (a b : OutlineNode) : Bool :=
  a.kind.rank < b.kind.rank || (a.kind.rank == b.kind.rank && decide (a.label ≤ b.label))

/-- Repairs the outline and orders its nodes. Nodes that are equal in the display
order keep the order of the node list. -/
def normalize (outline : Outline) : NormalizedOutline :=
  let nodes := outline.repairedNodes
  { graph :=
      { nodes := nodes.values
        edges := outline.edges.filter fun edge =>
          nodes.contains edge.source && nodes.contains edge.target }
    messages := outline.repairs.map Prod.snd
    usedFallbacks := !outline.repairs.isEmpty
    order := (nodes.values.mergeSort comesBefore).map (·.id) }

end Outline

end ShaderGraph
