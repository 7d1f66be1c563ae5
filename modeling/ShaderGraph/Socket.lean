import ShaderGraph.Enumerated
import ShaderGraph.Binary32

/-
Sockets, pins and literal values.

A pin is a connection point of a node: a key that edges refer to, a label and a
socket. The socket is the kind of value that may pass. Scalars may feed every
socket, and colors and three-component vectors may feed each other; nothing else
mixes.
-/
namespace ShaderGraph

/-- The kind of value that passes through a pin. -/
inductive Socket where
  | float
  | vec2
  | vec3
  | color
  deriving DecidableEq, Repr, Inhabited

namespace Socket

instance : Enumerated Socket where
  all := [float, vec2, vec3, color]
  word
    | float => "float"
    | vec2 => "vec2"
    | vec3 => "vec3"
    | color => "color"

/-- The display color: red, green and blue from 0 to 255. -/
def swatch : Socket → Nat × Nat × Nat
  | float => (80, 200, 80)
  | vec2 => (200, 200, 80)
  | vec3 => (200, 150, 80)
  | color => (255, 200, 100)

def feeds : Socket → Socket → Bool
  | float, _ => true
  | vec3, color => true
  | color, vec3 => true
  | source, target => source == target

end Socket

inductive PinKey where
  | primary
  | secondary
  | factor
  | min
  | max
  | input
  | uv
  | direction
  | out
  deriving DecidableEq, Repr, Inhabited

instance : Enumerated PinKey where
  all := [.primary, .secondary, .factor, .min, .max, .input, .uv, .direction, .out]
  word
    | .primary => "primary"
    | .secondary => "secondary"
    | .factor => "factor"
    | .min => "min"
    | .max => "max"
    | .input => "input"
    | .uv => "uv"
    | .direction => "direction"
    | .out => "out"

/-- The key as files and messages write it. -/
def PinKey.text (key : PinKey) : String := Enumerated.word key

/-- A connection point of a node. -/
structure Pin where
  key : PinKey
  label : String
  socket : Socket
  deriving DecidableEq, Repr, Inhabited

/-- A constant: a scalar or a vector. -/
inductive Literal where
  | float (v : Binary32)
  | vec2 (v : Vec2)
  | vec3 (v : Vec3)
  deriving DecidableEq, Repr, Inhabited

namespace Literal

def isFinite : Literal → Bool
  | float v => v.isFinite
  | vec2 v => v.isFinite
  | vec3 v => v.isFinite

/-- The literal shaped for a socket: a scalar fills all three components of a
three-component socket, everything else stays as it is. -/
def shapedFor (value : Literal) (socket : Socket) : Literal :=
  match socket, value with
  | .vec3, float v => vec3 ⟨v, v, v⟩
  | .color, float v => vec3 ⟨v, v, v⟩
  | _, value => value

end Literal

/-- The value of an unconnected input pin: 1, (0, 0) or (0.8, 0.82, 0.88). -/
def Socket.unconnected : Socket → Literal
  | float => .float (.ofDecimal false 1 0)
  | vec2 => .vec2 ⟨.ofDecimal false 0 0, .ofDecimal false 0 0⟩
  | vec3 | color =>
    .vec3 ⟨.ofDecimal false 8 (-1), .ofDecimal false 82 (-2), .ofDecimal false 88 (-2)⟩

end ShaderGraph
