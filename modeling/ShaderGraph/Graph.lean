import ShaderGraph.Node.Pins
import ShaderGraph.Snapshot

/-
The graph being edited.

Nodes and edges are stored under keys, in order of insertion. A new edge is
checked: both nodes and both pins are there, the sockets suit each other, the
nodes differ, and nothing feeds the target pin yet.
-/
namespace ShaderGraph

/-- Why an edge is refused. -/
inductive ConnectionError where
  | nodeNotFound (node : NodeId)
  | pinNotFound (node : NodeId) (pin : PinKey)
  | incompatibleSockets
  | selfLoop
  | alreadyConnected (pin : Endpoint)
  deriving DecidableEq, Repr

def ConnectionError.message : ConnectionError → String
  | nodeNotFound node => "Node not found: " ++ node
  | pinNotFound node pin => "Node " ++ node ++ " has no `" ++ pin.text ++ "` port"
  | incompatibleSockets => "Incompatible port types"
  | selfLoop => "Self-loop not allowed"
  | alreadyConnected pin => "Port already connected: " ++ pin.text

/-- A named graph. -/
structure Graph where
  name : String
  nodes : OrderedMap NodeId Node
  edges : OrderedMap EdgeId Edge
  deriving Inhabited

namespace Graph

def empty (name : String) : Graph := ⟨name, .empty, .empty⟩

/-- The graph of a new material. -/
def blank : Graph := empty "New Material"

/-- Stores a node under its id, in place of a node with that id. -/
def addNode (g : Graph) (node : Node) : Graph :=
  { g with nodes := g.nodes.insert node.id node }

/-- Drops a node and all edges that involve it; the node is returned. -/
def removeNode (g : Graph) (id : NodeId) : Option Node × Graph :=
  (g.nodes.get? id,
    { g with nodes := g.nodes.erase id, edges := g.edges.filter fun entry => !entry.2.involves id })

def node? (g : Graph) (id : NodeId) : Option Node := g.nodes.get? id

/-- Changes the node stored under an id. It stays stored under that id. -/
def modifyNode (g : Graph) (id : NodeId) (change : Node → Node) : Graph :=
  { g with nodes := g.nodes.modify id change }

/-- Replaces the body of a code node; no answer if there is no such node. -/
def updateCode? (g : Graph) (id : NodeId) (source : String) : Option Graph :=
  match g.node? id with
  | some node =>
    match node.kind with
    | .code _ socket => some (g.modifyNode id fun node => { node with kind := .code source socket })
    | _ => none
  | none => none

def isFed (g : Graph) (pin : Endpoint) : Bool := g.edges.values.any (·.feeds pin)

/-- The first reason to refuse an edge from one pin to another. -/
def connectionError? (g : Graph) (source target : Endpoint) : Option ConnectionError :=
  match g.node? source.node, g.node? target.node with
  | none, _ => some (.nodeNotFound source.node)
  | _, none => some (.nodeNotFound target.node)
  | some sourceNode, some targetNode =>
    match sourceNode.kind.output? source.pin, targetNode.kind.input? target.pin with
    | none, _ => some (.pinNotFound source.node source.pin)
    | _, none => some (.pinNotFound target.node target.pin)
    | some sourcePin, some targetPin =>
      if !sourcePin.socket.feeds targetPin.socket then some .incompatibleSockets
      else if source.node = target.node then some .selfLoop
      else if g.isFed target then some (.alreadyConnected target)
      else none

/-- Stores an edge under its id, in place of an edge with that id. -/
def addEdge (g : Graph) (edge : Edge) : Graph :=
  { g with edges := g.edges.insert edge.id edge }

/-- A graph after a new edge, the id of the edge, and the supply of ids after it. -/
structure Connected (σ : Type) where
  graph : Graph
  edge : EdgeId
  ids : σ

/-- Connects two pins by an edge whose id is drawn from a supply. Nothing is drawn
for an edge that is refused. -/
def connectWith {σ : Type} (g : Graph) (draw : σ → EdgeId × σ) (ids : σ)
    (source target : Endpoint) : Except ConnectionError (Connected σ) :=
  match g.connectionError? source target with
  | some error => .error error
  | none =>
    let (id, ids) := draw ids
    .ok ⟨g.addEdge ⟨id, source, target⟩, id, ids⟩

/-- Connects two pins by an edge with a numbered id. Where no pin is named, the
edge leaves from `out` and ends at `input`. -/
def connect (g : Graph) (ids : EdgeIds) (source : NodeId) (sourcePin : Option PinKey)
    (target : NodeId) (targetPin : Option PinKey) : Except ConnectionError (Connected EdgeIds) :=
  g.connectWith EdgeIds.draw ids ⟨source, sourcePin.getD .out⟩ ⟨target, targetPin.getD .input⟩

/-- Drops an edge; the edge is returned. -/
def disconnect (g : Graph) (id : EdgeId) : Option Edge × Graph :=
  (g.edges.get? id, { g with edges := g.edges.erase id })

def snapshot (g : Graph) : Snapshot := ⟨g.nodes.values, g.edges.values⟩

end Graph

end ShaderGraph
