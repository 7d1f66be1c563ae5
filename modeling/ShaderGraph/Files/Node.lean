import ShaderGraph.Edge
import ShaderGraph.Ron.Value
import ShaderGraph.Ron.Writer

/-
Nodes and edges in files.
-/
namespace ShaderGraph

open Ron

/-! ## Vectors and literals -/

namespace Vec2

/-- Reads two numbers in parentheses; `bare` if these are left to what is around. -/
def read (bare : Bool) : Reader Vec2 := do
  match ← Reader.tuple 2 Reader.float bare with
  | [x, y] => pure ⟨x, y⟩
  | items => Reader.fail (.differentLength 2 items.length)

def write (v : Vec2) : Writer := Writer.tuple [v.x, v.y]

end Vec2

namespace Vec3

def read (bare : Bool) : Reader Vec3 := do
  match ← Reader.tuple 3 Reader.float bare with
  | [x, y, z] => pure ⟨x, y, z⟩
  | items => Reader.fail (.differentLength 3 items.length)

def write (v : Vec3) : Writer := Writer.tuple [v.x, v.y, v.z]

end Vec3

namespace Literal

/-- Reads a literal. Where variants are unwrapped, the parentheses of a variant are
those of its vector. -/
def read : Reader Literal :=
  Reader.enumeration "Literal" ["Float", "Vec2", "Vec3"] fun name => do
    let bare := (← Reader.extensions).unwrapVariantNewtypes
    if name = "Float" then float <$> Reader.payload Reader.float
    else if name = "Vec2" then vec2 <$> Reader.payload (Vec2.read bare)
    else vec3 <$> Reader.payload (Vec3.read bare)

def write : Literal → Writer
  | float v => Writer.wrapped "Float" (Writer.float v)
  | vec2 v => Writer.wrapped "Vec2" v.write
  | vec3 v => Writer.wrapped "Vec3" v.write

end Literal

/-! ## Words -/

def Socket.read : Reader Socket := Reader.word "SocketType" Socket

def PinKey.read : Reader PinKey := Reader.word "PortKey" PinKey

def writeWord {α : Type} [Enumerated α] (a : α) : Writer := Writer.plain (Enumerated.word a)

/-! ## Nodes -/

namespace NodeKind

structure InputDraft where
  type : Option InputType
  value : Option (Option Literal)
  color : Option (Option String)

def inputFields : List (Reader.Field InputDraft) := [
  .make "input_type" (·.type) (fun d a => { d with type := some a })
    (Reader.word "InputNodeType" InputType),
  .make "value" (·.value) (fun d a => { d with value := some a }) (Reader.option Literal.read),
  .make "color" (·.color) (fun d a => { d with color := some a }) (Reader.option Reader.string)]

def mathFields : List (Reader.Field (Option MathType)) := [
  .make "math_type" id (fun _ a => some a) (Reader.word "MathNodeType" MathType)]

def outputFields : List (Reader.Field (Option Channel)) := [
  .make "output_type" id (fun _ a => some a) (Reader.word "OutputNodeType" Channel)]

def codeFields : List (Reader.Field (Option String × Option Socket)) := [
  .make "source" (·.1) (fun d a => (some a, d.2)) Reader.string,
  .make "output_type" (·.2) (fun d a => (d.1, some a)) Socket.read]

def read : Reader NodeKind :=
  Reader.enumeration "NodeKind" ["Input", "Math", "Output", "Code"] fun name =>
    if name = "Input" then
      Reader.variantRecord name inputFields ⟨none, none, none⟩ fun d => do
        return input (← Reader.required name "input_type" d.type) d.value.join d.color.join
    else if name = "Math" then
      Reader.variantRecord name mathFields none fun d => do
        return math (← Reader.required name "math_type" d)
    else if name = "Output" then
      Reader.variantRecord name outputFields none fun d => do
        return output (← Reader.required name "output_type" d)
    else
      Reader.variantRecord name codeFields (none, none) fun d => do
        return code (← Reader.required name "source" d.1) (← Reader.required name "output_type" d.2)

def write : NodeKind → Writer
  | input type value color =>
    Writer.variant "Input" <| Writer.record <|
      [("input_type", writeWord type)] ++ Writer.ifSome "value" value Literal.write
        ++ Writer.ifSome "color" color Writer.string
  | math type => Writer.variant "Math" <| Writer.record [("math_type", writeWord type)]
  | output channel => Writer.variant "Output" <| Writer.record [("output_type", writeWord channel)]
  | code source socket =>
    Writer.variant "Code" <| Writer.record
      [("source", Writer.string source), ("output_type", writeWord socket)]

end NodeKind

namespace Node

structure Draft where
  id : Option NodeId
  title : Option String
  label : Option (Option String)
  position : Option Vec2
  kind : Option NodeKind

def fields : List (Reader.Field Draft) := [
  .make "id" (·.id) (fun d a => { d with id := some a }) Reader.string,
  .make "title" (·.title) (fun d a => { d with title := some a }) Reader.string,
  .make "label" (·.label) (fun d a => { d with label := some a }) (Reader.option Reader.string),
  .make "position" (·.position) (fun d a => { d with position := some a }) (Vec2.read false),
  .make "kind" (·.kind) (fun d a => { d with kind := some a }) NodeKind.read]

/-- Reads a node; a node without position is at the origin. -/
def read : Reader Node :=
  let name := "MaterialNode"
  Reader.record name fields ⟨none, none, none, none, none⟩ fun d => do
    let id ← Reader.required name "id" d.id
    let title ← Reader.required name "title" d.title
    let kind ← Reader.required name "kind" d.kind
    let origin : Vec2 := ⟨.ofDecimal false 0 0, .ofDecimal false 0 0⟩
    return ⟨id, title, d.label.join, d.position.getD origin, kind⟩

def write (node : Node) : Writer := Writer.record <|
  [("id", Writer.string node.id), ("title", Writer.string node.title)]
    ++ Writer.ifSome "label" node.label Writer.string
    ++ [("position", node.position.write), ("kind", node.kind.write)]

end Node

/-! ## Edges -/

namespace Edge

structure Draft where
  id : Option EdgeId
  source : Option NodeId
  sourcePin : Option PinKey
  target : Option NodeId
  targetPin : Option PinKey

def fields : List (Reader.Field Draft) := [
  .make "id" (·.id) (fun d a => { d with id := some a }) Reader.string,
  .make "source" (·.source) (fun d a => { d with source := some a }) Reader.string,
  .make "source_handle" (·.sourcePin) (fun d a => { d with sourcePin := some a }) PinKey.read,
  .make "target" (·.target) (fun d a => { d with target := some a }) Reader.string,
  .make "target_handle" (·.targetPin) (fun d a => { d with targetPin := some a }) PinKey.read]

def read : Reader Edge :=
  let name := "Edge"
  Reader.record name fields ⟨none, none, none, none, none⟩ fun d => do
    let id ← Reader.required name "id" d.id
    let source ← Reader.required name "source" d.source
    let sourcePin ← Reader.required name "source_handle" d.sourcePin
    let target ← Reader.required name "target" d.target
    let targetPin ← Reader.required name "target_handle" d.targetPin
    return ⟨id, ⟨source, sourcePin⟩, ⟨target, targetPin⟩⟩

def write (edge : Edge) : Writer := Writer.record [
  ("id", Writer.string edge.id),
  ("source", Writer.string edge.source.node),
  ("source_handle", writeWord edge.source.pin),
  ("target", Writer.string edge.target.node),
  ("target_handle", writeWord edge.target.pin)]

end Edge

end ShaderGraph
