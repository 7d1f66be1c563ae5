import ShaderGraph.Binary32.Text
import ShaderGraph.Resolution

/-
Materials and their compilation.

A compilation resolves the six channels one after another. The first failure
discards everything: the outcome is then the fallback material and the one
message that tells the failure.
-/
namespace ShaderGraph

/-- The faces that are drawn. -/
inductive Side where
  | front
  | back
  | double
  deriving DecidableEq, Repr, Inhabited

instance : Enumerated Side where
  all := [.front, .back, .double]
  word
    | .front => "Front"
    | .back => "Back"
    | .double => "Double"

/-- The plain material shown while the graph cannot be compiled. -/
structure FallbackMaterial where
  color : Vec3
  roughness : Binary32
  metalness : Binary32
  side : Side
  deriving DecidableEq, Repr, Inhabited

namespace FallbackMaterial

/-- Neutral gray, rather rough, hardly metallic. -/
def standard : FallbackMaterial :=
  ⟨neutralColor, .ofDecimal false 6 (-1), .ofDecimal false 1 (-1), .double⟩

/-- The material on one line, for the terminal. -/
def text (m : FallbackMaterial) : String :=
  let color := ", ".intercalate [m.color.x.compact, m.color.y.compact, m.color.z.compact]
  "FallbackMaterial \x7b color: [" ++ color ++ "], roughness: " ++ m.roughness.compact
    ++ ", metalness: " ++ m.metalness.compact ++ ", side: " ++ Enumerated.word m.side ++ " \x7d"

end FallbackMaterial

/-- The values of channels without a connection, and the fallback material. -/
structure MaterialDefaults where
  baseColor : Vec3
  emissive : Vec3
  roughness : Binary32
  metalness : Binary32
  normal : Vec3
  opacity : Binary32
  fallback : FallbackMaterial
  deriving DecidableEq, Repr, Inhabited

namespace MaterialDefaults

/-- The defaults in force where none are given. -/
def standard : MaterialDefaults where
  baseColor := neutralColor
  emissive := ⟨HexColor.component 13, HexColor.component 15, HexColor.component 19⟩
  roughness := .ofDecimal false 55 (-2)
  metalness := .ofDecimal false 8 (-2)
  normal := ⟨.ofDecimal false 0 0, .ofDecimal false 0 0, .ofDecimal false 1 0⟩
  opacity := .ofDecimal false 1 0
  fallback := .standard

def channel (defaults : MaterialDefaults) : Channel → Literal
  | .baseColor => .vec3 defaults.baseColor
  | .emissive => .vec3 defaults.emissive
  | .roughness => .float defaults.roughness
  | .metalness => .float defaults.metalness
  | .normal => .vec3 defaults.normal
  | .opacity => .float defaults.opacity

end MaterialDefaults

/-- One value for each channel. -/
structure PerChannel (α : Type) where
  baseColor : α
  emissive : α
  roughness : α
  metalness : α
  normal : α
  opacity : α
  deriving DecidableEq, Repr

namespace PerChannel

variable {α : Type}

def get (values : PerChannel α) : Channel → α
  | .baseColor => values.baseColor
  | .emissive => values.emissive
  | .roughness => values.roughness
  | .metalness => values.metalness
  | .normal => values.normal
  | .opacity => values.opacity

def toList (values : PerChannel α) : List α := Channel.all.map values.get

end PerChannel

/-- A material whose channels are expressions. -/
structure NodeMaterial where
  expressions : Expressions
  channels : PerChannel ExprId
  side : Side
  transparent : Bool
  deriving Repr

/-- What is handed to the renderer. -/
inductive Material where
  | node (material : NodeMaterial)
  | fallback (material : FallbackMaterial)
  deriving Repr

namespace Material

def node? : Material → Option NodeMaterial
  | node material => some material
  | fallback _ => none

/-- The graph could not be compiled. -/
def isFallback : Material → Bool
  | node _ => false
  | fallback _ => true

end Material

/-- The outcome of a compilation: a material and messages for the user. -/
structure Compilation where
  material : Material
  diagnostics : List String
  deriving Repr

namespace Compilation

def isClean (c : Compilation) : Bool := c.diagnostics.isEmpty

/-- How the message of a failed compilation begins. -/
def failureText : String := "Failed to compile material graph"

def failed (defaults : MaterialDefaults) (error : ResolveError) : Compilation :=
  ⟨.fallback defaults.fallback, [failureText ++ ": " ++ error.message]⟩

end Compilation

namespace Network

/-- The expression of a channel, with the channel's default as the fallback. A
default that is not finite is refused even where it is not needed. -/
def resolveChannelWith (net : Network) (defaults : MaterialDefaults) (channel : Channel) :
    Resolve ExprId :=
  let fallback := defaults.channel channel
  if fallback.isFinite then net.resolveChannel channel channel.socket fallback
  else Resolve.fail (.nonFiniteDefault channel)

/-- The expressions of all channels. The normal comes last. -/
def resolveChannels (net : Network) (defaults : MaterialDefaults) :
    Resolve (PerChannel ExprId) := do
  let baseColor ← net.resolveChannelWith defaults .baseColor
  let emissive ← net.resolveChannelWith defaults .emissive
  let roughness ← net.resolveChannelWith defaults .roughness
  let metalness ← net.resolveChannelWith defaults .metalness
  let opacity ← net.resolveChannelWith defaults .opacity
  let normal ← net.resolveChannelWith defaults .normal
  pure { baseColor, emissive, roughness, metalness, normal, opacity }

/-- Compiles the network. The walk stays within its depth bound in every network;
were it not to, the material would be the fallback without a message. -/
def compile (net : Network) (defaults : MaterialDefaults) : Compilation :=
  match net.resolveChannels defaults .start with
  | (.ok channels, state) =>
    ⟨.node ⟨state.expressions, channels, .double, true⟩, state.diagnostics⟩
  | (.error (.failed error), _) => .failed defaults error
  | (.error .depthExceeded, _) => ⟨.fallback defaults.fallback, []⟩

end Network

def Snapshot.compile (snapshot : Snapshot) (defaults : MaterialDefaults) : Compilation :=
  snapshot.network.compile defaults

end ShaderGraph
