import ShaderGraph.Graph

/-
The graph that a new material starts from.

A color and a tint computed by code are blended by a sine wave over time. The
blend is the base color, and the wave itself is the emission.
-/
namespace ShaderGraph.StarterGraph

def code : String := "let tint = normalize(primary + vec3(0.2, 0.1, 0.0));\nreturn tint * 0.9;"

def place (x y : Nat) : Vec2 := ⟨.ofDecimal false x 0, .ofDecimal false y 0⟩

def nodes : List Node := [
  ((Node.input "input-color" "Base Color" .color).withColor "#7dd3fc").withPosition (place 80 80),
  (Node.input "input-time" "Time" .time).withPosition (place 80 260),
  (Node.math "wave-sine" "Sine Wave" .sine).withPosition (place 320 260),
  (Node.math "lerp-hue" "Blend" .lerp).withPosition (place 560 160),
  (Node.code "code-fragment" "CodeNode" code .vec3).withPosition (place 320 40),
  (Node.output "output-base" "Base Color" .baseColor).withPosition (place 840 120),
  (Node.output "output-emissive" "Emissive" .emissive).withPosition (place 840 240)]

/-- The connections, each from the `out` pin of the first node. -/
def links : List (NodeId × Endpoint) := [
  ("input-time", ⟨"wave-sine", .input⟩),
  ("wave-sine", ⟨"lerp-hue", .factor⟩),
  ("input-color", ⟨"lerp-hue", .primary⟩),
  ("code-fragment", ⟨"lerp-hue", .secondary⟩),
  ("lerp-hue", ⟨"output-base", .input⟩),
  ("wave-sine", ⟨"output-emissive", .input⟩)]

/-- Connects link after link, with ids drawn from a supply. -/
def connectAll {σ : Type} (draw : σ → EdgeId × σ) (graph : Graph) (ids : σ) :
    List (NodeId × Endpoint) → Except ConnectionError (Graph × σ)
  | [] => .ok (graph, ids)
  | (source, target) :: rest =>
    match graph.connectWith draw ids ⟨source, .out⟩ target with
    | .error error => .error error
    | .ok connected => connectAll draw connected.graph connected.ids rest

/-- The nodes, not connected yet. -/
def scattered : Graph := nodes.foldl Graph.addNode Graph.blank

/-- Builds the graph; its edges take the next ids of a supply. -/
def buildWith {σ : Type} (draw : σ → EdgeId × σ) (ids : σ) : Except ConnectionError (Graph × σ) :=
  connectAll draw scattered ids links

def build (ids : EdgeIds) : Except ConnectionError (Graph × EdgeIds) := buildWith EdgeIds.draw ids

end ShaderGraph.StarterGraph
