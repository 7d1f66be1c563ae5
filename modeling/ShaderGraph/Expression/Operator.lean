import ShaderGraph.Socket

/-
Value types, values of the renderer, and operators.

An operator takes one, two or three operands. `Application` joins an operator
with operands of any type, so that its number of operands is always right: the
operands are pins where a node declares them, and expressions where the operator
is applied.
-/
namespace ShaderGraph

/-- The shape of a value. -/
inductive ValueType where
  | float
  | vec2
  | vec3
  deriving DecidableEq, Repr, Inhabited

namespace ValueType

def width : ValueType → Nat
  | float => 1
  | vec2 => 2
  | vec3 => 3

def widest (a b : ValueType) : ValueType := if a.width ≤ b.width then b else a

def ofSocket : Socket → ValueType
  | .float => float
  | .vec2 => vec2
  | .vec3 | .color => vec3

/-- The name of the type in shader code. -/
def name : ValueType → String
  | float => "f32"
  | vec2 => "vec2<f32>"
  | vec3 => "vec3<f32>"

end ValueType

def Literal.valueType : Literal → ValueType
  | .float _ => .float
  | .vec2 _ => .vec2
  | .vec3 _ => .vec3

/-- A value that the renderer supplies for each fragment. -/
inductive Builtin where
  | time
  | uv
  | normalWorld
  | positionWorld
  | cameraPosition
  deriving DecidableEq, Repr, Inhabited

namespace Builtin

instance : Enumerated Builtin where
  all := [time, uv, normalWorld, positionWorld, cameraPosition]
  word
    | time => "Time"
    | uv => "Uv"
    | normalWorld => "NormalWorld"
    | positionWorld => "PositionWorld"
    | cameraPosition => "CameraPosition"

def valueType : Builtin → ValueType
  | time => .float
  | uv => .vec2
  | normalWorld | positionWorld | cameraPosition => .vec3

end Builtin

inductive UnaryOp where
  | sin
  | abs
  | normalize
  deriving DecidableEq, Repr

inductive BinaryOp where
  | add
  | sub
  | mul
  | pow
  deriving DecidableEq, Repr

inductive TernaryOp where
  | mix
  | clamp
  | smoothstep
  deriving DecidableEq, Repr

inductive Op where
  | unary (op : UnaryOp)
  | binary (op : BinaryOp)
  | ternary (op : TernaryOp)
  deriving DecidableEq, Repr

namespace Op

def arity : Op → Nat
  | unary _ => 1
  | binary _ => 2
  | ternary _ => 3

instance : Enumerated Op where
  all := [binary .add, binary .sub, binary .mul, ternary .mix, ternary .clamp, binary .pow,
    ternary .smoothstep, unary .sin, unary .abs, unary .normalize]
  word
    | binary .add => "Add"
    | binary .sub => "Sub"
    | binary .mul => "Mul"
    | ternary .mix => "Mix"
    | ternary .clamp => "Clamp"
    | binary .pow => "Pow"
    | ternary .smoothstep => "Smoothstep"
    | unary .sin => "Sin"
    | unary .abs => "Abs"
    | unary .normalize => "Normalize"

end Op

/-- An operator with its operands. -/
inductive Application (α : Type) where
  | unary (op : UnaryOp) (x : α)
  | binary (op : BinaryOp) (x y : α)
  | ternary (op : TernaryOp) (x y z : α)
  deriving DecidableEq, Repr

namespace Application

variable {α β : Type}

def op : Application α → Op
  | unary op _ => .unary op
  | binary op _ _ => .binary op
  | ternary op _ _ _ => .ternary op

def operands : Application α → List α
  | unary _ x => [x]
  | binary _ x y => [x, y]
  | ternary _ x y z => [x, y, z]

theorem length_operands (a : Application α) : a.operands.length = a.op.arity := by
  cases a <;> rfl

def map (f : α → β) : Application α → Application β
  | unary op x => unary op (f x)
  | binary op x y => binary op (f x) (f y)
  | ternary op x y z => ternary op (f x) (f y) (f z)

theorem operands_map (f : α → β) (a : Application α) :
    (a.map f).operands = a.operands.map f := by
  cases a <;> rfl

def mapM {m : Type → Type} [Monad m] (f : α → m β) : Application α → m (Application β)
  | unary op x => do return unary op (← f x)
  | binary op x y => do return binary op (← f x) (← f y)
  | ternary op x y z => do return ternary op (← f x) (← f y) (← f z)

/-- An operator with as many operands as it takes, if the list has that many. -/
def ofList? : Op → List α → Option (Application α)
  | .unary op, [x] => some (unary op x)
  | .binary op, [x, y] => some (binary op x y)
  | .ternary op, [x, y, z] => some (ternary op x y z)
  | _, _ => none

/-- The shape of the result, from the shapes of the operands: the widest of them,
where the factor of a mix does not count. -/
def valueType : Application ValueType → ValueType
  | unary _ x => x
  | binary _ x y => x.widest y
  | ternary .mix x y _ => x.widest y
  | ternary _ x y z => (x.widest y).widest z

end Application

end ShaderGraph
