import ShaderGraph.Socket

/-
Nodes of a material graph and the pins they show.

An input node yields a constant or a value of the renderer, a math node applies
one operator, an output node ends one channel of the material, and a code node
blends two values by a factor that code of the user computes.
-/
namespace ShaderGraph

/-- What an input node yields. -/
inductive InputType where
  | float
  | vec2
  | vec3
  | color
  | time
  | uv
  | normalWorld
  | positionWorld
  | viewDirection
  deriving DecidableEq, Repr, Inhabited

namespace InputType

instance : Enumerated InputType where
  all := [float, vec2, vec3, color, time, uv, normalWorld, positionWorld, viewDirection]
  word
    | float => "float"
    | vec2 => "vec2"
    | vec3 => "vec3"
    | color => "color"
    | time => "time"
    | uv => "uv"
    | normalWorld => "normalWorld"
    | positionWorld => "positionWorld"
    | viewDirection => "viewDirection"

def socket : InputType → Socket
  | float | time => .float
  | vec2 | uv => .vec2
  | vec3 | normalWorld | positionWorld | viewDirection => .vec3
  | color => .color

end InputType

inductive MathType where
  | add
  | multiply
  | lerp
  | clamp
  | pow
  | smoothstep
  | sine
  | abs
  deriving DecidableEq, Repr, Inhabited

instance : Enumerated MathType where
  all := [.add, .multiply, .lerp, .clamp, .pow, .smoothstep, .sine, .abs]
  word
    | .add => "add"
    | .multiply => "multiply"
    | .lerp => "lerp"
    | .clamp => "clamp"
    | .pow => "pow"
    | .smoothstep => "smoothstep"
    | .sine => "sine"
    | .abs => "abs"

/-- A channel of the material. -/
inductive Channel where
  | baseColor
  | emissive
  | roughness
  | metalness
  | normal
  | opacity
  deriving DecidableEq, Repr, Inhabited

namespace Channel

instance : Enumerated Channel where
  all := [baseColor, emissive, roughness, metalness, normal, opacity]
  word
    | baseColor => "baseColor"
    | emissive => "emissive"
    | roughness => "roughness"
    | metalness => "metalness"
    | normal => "normal"
    | opacity => "opacity"

/-- All channels, in the order in which a material declares them. -/
def all : List Channel := Enumerated.all

def displayName : Channel → String
  | baseColor => "Base Color"
  | emissive => "Emissive"
  | roughness => "Roughness"
  | metalness => "Metalness"
  | normal => "Normal"
  | opacity => "Opacity"

def socket : Channel → Socket
  | baseColor | emissive => .color
  | normal => .vec3
  | roughness | metalness | opacity => .float

/-- The input pin of the node that ends the channel. -/
def pin (channel : Channel) : Pin :=
  match channel with
  | baseColor => ⟨.input, "Color", .color⟩
  | emissive => ⟨.input, "Emissive", .color⟩
  | roughness => ⟨.input, "Roughness", .float⟩
  | metalness => ⟨.input, "Metalness", .float⟩
  | normal => ⟨.input, "Normal", .vec3⟩
  | opacity => ⟨.input, "Opacity", .float⟩

end Channel

abbrev NodeId := String

/-- What a node does, with the data it needs for it. -/
inductive NodeKind where
  | input (type : InputType) (value : Option Literal) (color : Option String)
  | math (type : MathType)
  | output (channel : Channel)
  | code (source : String) (socket : Socket)
  deriving DecidableEq, Repr, Inhabited

/-- A node with its place in the editor. -/
structure Node where
  id : NodeId
  title : String
  label : Option String
  position : Vec2
  kind : NodeKind
  deriving DecidableEq, Repr, Inhabited

inductive Category where
  | input
  | math
  | output
  | code
  deriving DecidableEq, Repr

instance : Enumerated Category where
  all := [.input, .math, .output, .code]
  word
    | .input => "Input"
    | .math => "Math"
    | .output => "Output"
    | .code => "Code"

namespace Node

/-- A node of a kind without label, at the origin. -/
def ofKind (id : NodeId) (title : String) (kind : NodeKind) : Node :=
  ⟨id, title, none, ⟨.ofDecimal false 0 0, .ofDecimal false 0 0⟩, kind⟩

/-- An input node without value and color. -/
def input (id : NodeId) (title : String) (type : InputType) : Node :=
  ofKind id title (.input type none none)

def math (id : NodeId) (title : String) (type : MathType) : Node := ofKind id title (.math type)

def output (id : NodeId) (title : String) (channel : Channel) : Node :=
  ofKind id title (.output channel)

def code (id : NodeId) (title source : String) (socket : Socket) : Node :=
  ofKind id title (.code source socket)

/-- Sets the value of an input node; other nodes have none. -/
def withValue (node : Node) (value : Literal) : Node :=
  match node.kind with
  | .input type _ color => { node with kind := .input type (some value) color }
  | _ => node

/-- Sets the color text of an input node; other nodes have none. -/
def withColor (node : Node) (color : String) : Node :=
  match node.kind with
  | .input type value _ => { node with kind := .input type value (some color) }
  | _ => node

def withLabel (node : Node) (label : String) : Node := { node with label := some label }

def withPosition (node : Node) (position : Vec2) : Node := { node with position }

/-- The label if there is one, else the title. -/
def displayLabel (node : Node) : String := node.label.getD node.title

def category (node : Node) : Category :=
  match node.kind with
  | .input .. => .input
  | .math .. => .math
  | .output .. => .output
  | .code .. => .code

def channel? (node : Node) : Option Channel :=
  match node.kind with
  | .output channel => some channel
  | _ => none

end Node

end ShaderGraph
