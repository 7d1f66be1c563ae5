import ShaderGraph.Binary32.Text
import ShaderGraph.Expression.Operator

/-
Code of the shading language, as trees.

The trees hold what a generated function body needs: literals, inputs of the
renderer, bound names, operators, calls of code functions, and the four ways to
turn a value of one shape into another. `text` writes a tree down.
-/
namespace ShaderGraph.Wgsl

/-- Operators written between their operands. -/
inductive Arithmetic where
  | add
  | sub
  | mul
  deriving DecidableEq, Repr

inductive Function1 where
  | sin
  | abs
  | normalize
  | sign
  deriving DecidableEq, Repr

inductive Function3 where
  | mix
  | clamp
  | smoothstep
  deriving DecidableEq, Repr

/-- A piece of code that has a value. `splat` fills a vector with a scalar, `pad`
gives a vector of two components a third one, zero; `firstOf` and `firstTwoOf`
keep leading components. -/
inductive Code where
  | literal (value : Literal)
  | builtin (value : Builtin)
  | bound (index : Nat)
  | arithmetic (op : Arithmetic) (x y : Code)
  | pow (x y : Code)
  | apply1 (f : Function1) (x : Code)
  | apply3 (f : Function3) (x y z : Code)
  | call (function : String) (primary secondary uv : Code)
  | splat (type : ValueType) (x : Code)
  | pad (x : Code)
  | firstOf (x : Code)
  | firstTwoOf (x : Code)
  deriving DecidableEq, Repr, Inhabited

/-- A value of one shape as a value of another. -/
def Code.coerce (code : Code) : ValueType → ValueType → Code
  | .float, .float => code
  | .vec2, .vec2 => code
  | .vec3, .vec3 => code
  | .float, target => .splat target code
  | _, .float => .firstOf code
  | .vec2, .vec3 => .pad code
  | .vec3, .vec2 => .firstTwoOf code

/-! ## Text -/

def Arithmetic.text : Arithmetic → String
  | add => "+"
  | sub => "-"
  | mul => "*"

def Function1.text : Function1 → String
  | sin => "sin"
  | abs => "abs"
  | normalize => "normalize"
  | sign => "sign"

def Function3.text : Function3 → String
  | mix => "mix"
  | clamp => "clamp"
  | smoothstep => "smoothstep"

/-- The field of the input structure that holds a value of the renderer. -/
def builtinField : Builtin → String
  | .time => "time"
  | .uv => "uv"
  | .normalWorld => "normal_world"
  | .positionWorld => "position_world"
  | .cameraPosition => "camera_position"

/-- A name before operands in parentheses. -/
def applied (name : String) (operands : List String) : String :=
  name ++ "(" ++ ", ".intercalate operands ++ ")"

/-- A scalar as a number with a point or an exponent, a vector by its constructor. -/
def literalText : Literal → String
  | .float v => v.compact
  | .vec2 v => applied ValueType.vec2.name [v.x.compact, v.y.compact]
  | .vec3 v => applied ValueType.vec3.name [v.x.compact, v.y.compact, v.z.compact]

def boundName (index : Nat) : String := "v" ++ toString index

def Code.text : Code → String
  | literal value => literalText value
  | builtin value => "inputs." ++ builtinField value
  | bound index => boundName index
  | arithmetic op x y => "(" ++ x.text ++ " " ++ op.text ++ " " ++ y.text ++ ")"
  | pow x y => applied "pow" [x.text, y.text]
  | apply1 f x => applied f.text [x.text]
  | apply3 f x y z => applied f.text [x.text, y.text, z.text]
  | call function primary secondary uv =>
    applied function [primary.text, secondary.text, uv.text]
  | splat type x => applied type.name [x.text]
  | pad x => applied ValueType.vec3.name [x.text, "0.0"]
  | firstOf x => "(" ++ x.text ++ ").x"
  | firstTwoOf x => "(" ++ x.text ++ ").xy"

end ShaderGraph.Wgsl
