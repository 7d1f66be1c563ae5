import ShaderGraph.Node
import ShaderGraph.Expression.Operator

/-
The pins of every node, and the operator of every math node.

A math node declares its operator together with the pins that feed the operands,
so the order of the pins is the order of the operands.
-/
namespace ShaderGraph

/-- The pin that yields the value of a node. -/
def outPin (socket : Socket) : Pin := ⟨.out, "Out", socket⟩

/-- The operator of a math node over the pins that feed it. -/
def MathType.application : MathType → Application Pin
  | .add => .binary .add ⟨.primary, "A", .vec3⟩ ⟨.secondary, "B", .vec3⟩
  | .multiply => .binary .mul ⟨.primary, "A", .float⟩ ⟨.secondary, "B", .float⟩
  | .lerp =>
    .ternary .mix ⟨.primary, "A", .vec3⟩ ⟨.secondary, "B", .vec3⟩ ⟨.factor, "T", .float⟩
  | .clamp =>
    .ternary .clamp ⟨.input, "Value", .float⟩ ⟨.min, "Min", .float⟩ ⟨.max, "Max", .float⟩
  | .pow => .binary .pow ⟨.primary, "Base", .float⟩ ⟨.secondary, "Power", .float⟩
  | .smoothstep =>
    .ternary .smoothstep ⟨.min, "Edge 0", .float⟩ ⟨.max, "Edge 1", .float⟩
      ⟨.input, "Value", .float⟩
  | .sine => .unary .sin ⟨.input, "Radians", .float⟩
  | .abs => .unary .abs ⟨.input, "Value", .float⟩

def MathType.output : MathType → Pin
  | .add | .lerp => outPin .vec3
  | _ => outPin .float

def codeInputs : List Pin :=
  [⟨.primary, "Primary", .vec3⟩, ⟨.secondary, "Secondary", .vec3⟩]

namespace NodeKind

/-- The input pins, in display order. -/
def inputs : NodeKind → List Pin
  | input .. => []
  | math type => type.application.operands
  | output channel => [channel.pin]
  | code .. => codeInputs

def outputs : NodeKind → List Pin
  | input type .. => [outPin type.socket]
  | math type => [type.output]
  | output _ => []
  | code _ socket => [outPin socket]

def input? (kind : NodeKind) (key : PinKey) : Option Pin := kind.inputs.find? (·.key == key)

def output? (kind : NodeKind) (key : PinKey) : Option Pin := kind.outputs.find? (·.key == key)

end NodeKind

end ShaderGraph
