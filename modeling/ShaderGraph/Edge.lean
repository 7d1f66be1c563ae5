import ShaderGraph.Node

/-
Edges and the ids they are given.
-/
namespace ShaderGraph

abbrev EdgeId := String

/-- A pin of a node of the graph. -/
structure Endpoint where
  node : NodeId
  pin : PinKey
  deriving DecidableEq, Repr, Inhabited

def Endpoint.text (e : Endpoint) : String := e.node ++ "." ++ e.pin.text

/-- A connection from an output pin to an input pin. -/
structure Edge where
  id : EdgeId
  source : Endpoint
  target : Endpoint
  deriving DecidableEq, Repr, Inhabited

namespace Edge

def involves (edge : Edge) (node : NodeId) : Bool :=
  edge.source.node == node || edge.target.node == node

def feeds (edge : Edge) (pin : Endpoint) : Bool := edge.target == pin

end Edge

/-- A supply of edge ids `edge-1`, `edge-2`, …, with the number of those drawn. -/
structure EdgeIds where
  drawn : Nat
  deriving DecidableEq, Repr, Inhabited

namespace EdgeIds

def fresh : EdgeIds := ⟨0⟩

/-- The next id and the supply after it. -/
def draw (ids : EdgeIds) : EdgeId × EdgeIds :=
  ("edge-" ++ toString (ids.drawn + 1), ⟨ids.drawn + 1⟩)

def drawMany (ids : EdgeIds) : Nat → List EdgeId × EdgeIds
  | 0 => ([], ids)
  | n + 1 =>
    let (id, ids) := ids.draw
    let (more, ids) := ids.drawMany n
    (id :: more, ids)

/-- An id from 32 random hexadecimal digits in groups. The digit that tells the
version is 4, and the one that tells the variant is 8, 9, a or b. -/
def ofRandomDigits (digit : Nat → Nat) : EdgeId :=
  let shown (i : Nat) : Char := Nat.digitChar <|
    if i = 12 then 4 else if i = 16 then 8 + digit i % 4 else digit i % 16
  let group (start count : Nat) : String :=
    String.ofList ((List.range count).map fun i => shown (start + i))
  "edge-" ++ "-".intercalate [group 0 8, group 8 4, group 12 4, group 16 4, group 20 12]

end EdgeIds

end ShaderGraph
