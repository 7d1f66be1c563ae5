import ShaderGraph.Wgsl.Emission

/-
The text of a shader module.

It declares the structure of the renderer's inputs, the structure of the channels,
the code functions, and the function that fills the channels: first the bindings,
then one assignment for each channel.
-/
namespace ShaderGraph.Wgsl

/-- The field of the channel structure that holds a channel. -/
def channelField : Channel → String
  | .baseColor => "base_color"
  | .emissive => "emissive"
  | .roughness => "roughness"
  | .metalness => "metalness"
  | .normal => "normal"
  | .opacity => "opacity"

def line (text : String) : String := "    " ++ text ++ "\n"

/-- A structure with its fields and their types. -/
def structureText (name : String) (fields : List (String × ValueType)) : String :=
  let lines := fields.map fun (field, type) => line (field ++ ": " ++ type.name ++ ",")
  "struct " ++ name ++ " \x7b\n" ++ String.join lines ++ "\x7d\n"

/-- The values of the renderer, in the order in which their structure declares them. -/
def inputFields : List (String × ValueType) :=
  [Builtin.uv, .positionWorld, .normalWorld, .cameraPosition, .time].map fun builtin =>
    (builtinField builtin, builtin.valueType)

def channelFields : List (String × ValueType) :=
  Channel.all.map fun channel => (channelField channel, channelType channel)

/-- The bindings, one a line. -/
def bindingLines (bindings : List Code) : List String :=
  bindings.zipIdx.map fun (code, index) =>
    line ("let " ++ boundName index ++ " = " ++ code.text ++ ";")

def channelLine (channel : Channel) (code : Code) : String :=
  line ("channels." ++ channelField channel ++ " = " ++ code.text ++ ";")

/-- The assignments to the channels, one a line. -/
def channelLines (channels : PerChannel Code) : List String :=
  Channel.all.map fun channel => channelLine channel (channels.get channel)

def Module.text (m : Module) : String :=
  structureText "MaterialInputs" inputFields ++ "\n"
    ++ structureText "MaterialChannels" channelFields
    ++ String.join (m.functions.map fun (name, function) => "\n" ++ function.render name)
    ++ "\nfn evaluate_material(inputs: MaterialInputs) -> MaterialChannels \x7b\n"
    ++ String.join (bindingLines m.bindings)
    ++ line "var channels: MaterialChannels;"
    ++ String.join (channelLines m.channels)
    ++ line "return channels;"
    ++ "\x7d\n"

end ShaderGraph.Wgsl

namespace ShaderGraph

/-- The shader module that evaluates every channel of the material. -/
def NodeMaterial.wgsl (material : NodeMaterial) : String := (Wgsl.Module.ofMaterial material).text

end ShaderGraph
