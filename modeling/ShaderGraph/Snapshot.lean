import ShaderGraph.Edge
import ShaderGraph.OrderedMap

/-
What a compilation reads: the nodes and edges of a graph at one moment.

Ids may repeat in a snapshot, and edges may mention nodes that are not there.
The network of a snapshot settles both: of nodes with one id the last counts, at
the place of the first, and of edges into one pin the first.
-/
namespace ShaderGraph

/-- Nodes in editor order and edges in order of creation. -/
structure Snapshot where
  nodes : List Node
  edges : List Edge
  deriving DecidableEq, Repr, Inhabited

/-- A snapshot with its nodes found by id. -/
structure Network where
  nodes : OrderedMap NodeId Node
  edges : List Edge

def Snapshot.network (snapshot : Snapshot) : Network :=
  ⟨.ofList (snapshot.nodes.map fun node => (node.id, node)), snapshot.edges⟩

namespace Network

def node? (net : Network) (id : NodeId) : Option Node := net.nodes.get? id

/-- The edge that feeds an input pin: the first one that ends there. -/
def feeding? (net : Network) (pin : Endpoint) : Option Edge := net.edges.find? (·.feeds pin)

/-- The node that ends a channel: the first one of its kind. -/
def output? (net : Network) (channel : Channel) : Option Node :=
  net.nodes.values.find? (·.channel? == some channel)

end Network

end ShaderGraph
