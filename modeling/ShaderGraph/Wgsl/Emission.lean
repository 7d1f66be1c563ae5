import ShaderGraph.Material
import ShaderGraph.Wgsl.Code

/-
From the expressions of a material to code.

An expression that is used more than once, in operands or by channels, is bound
to a name `v0`, `v1`, … at its first use, after its operands; literals and values
of the renderer are written out at each use. A code function is declared when it
is first called, before the operands of that call, under its own name or, if that
is taken, under the name with the first free number from 2 on.
-/
namespace ShaderGraph.Wgsl

/-! ## Uses -/

/-- One more use of each of the given expressions. -/
def countEach (counts : Array Nat) (ids : List ExprId) : Array Nat :=
  ids.foldl (fun counts id => counts.modify id (· + 1)) counts

/-- How often each expression is used by the roots and by the operands of the
expressions that are used themselves. Operands stand before the expressions that
use them, so one pass from the last entry to the first counts everything. -/
def useCounts (table : Expressions) (roots : List ExprId) : Array Nat :=
  (List.range table.exprs.size).foldr
    (fun id counts =>
      if counts.getD id 0 = 0 then counts else countEach counts (table.operands id))
    (countEach (Array.replicate table.exprs.size 0) roots)

/-! ## Emission -/

/-- What emission reads: the expressions, their shapes and their uses. -/
structure Source where
  table : Expressions
  types : Array ValueType
  uses : Array Nat

namespace Source

def ofRoots (table : Expressions) (roots : List ExprId) : Source :=
  ⟨table, table.valueTypes, useCounts table roots⟩

def typeOf (source : Source) (id : ExprId) : ValueType := source.types.getD id .float

/-- The expression gets a name: it has operands and is used more than once. -/
def isShared (source : Source) (id : ExprId) : Bool :=
  !(source.table.operands id).isEmpty && decide (1 < source.uses.getD id 0)

end Source

/-- What was emitted so far: the bound expressions with their numbers, the code of
the bindings, and the declared functions with their names. -/
structure Emission where
  names : List (ExprId × Nat)
  bindings : List Code
  functions : List (FunctionId × String)
  deriving Repr, Inhabited

abbrev Emit := StateM Emission

/-- The first of `name`, `name_2`, `name_3`, … that is not taken. -/
def freeName (taken : List String) (name : String) : String :=
  let numbered := (List.range taken.length).map fun i => name ++ "_" ++ toString (i + 2)
  ((name :: numbered).find? (· ∉ taken)).getD name

/-- The name of a code function and the declared functions after it is used: a
function is declared at its first use. -/
def declare (table : Expressions) (functions : List (FunctionId × String)) (id : FunctionId) :
    String × List (FunctionId × String) :=
  match functions.lookup id with
  | some name => (name, functions)
  | none =>
    let name := freeName (functions.map Prod.snd) (table.functions.getD id default).name
    (name, functions ++ [(id, name)])

def functionName (table : Expressions) (id : FunctionId) : Emit String := fun state =>
  let (name, functions) := declare table state.functions id
  (name, { state with functions })

/-- Binds the code of an expression to the next name. -/
def bindName (id : ExprId) (code : Code) : Emit Code := fun state =>
  let index := state.bindings.length
  (.bound index,
    { state with names := (id, index) :: state.names, bindings := state.bindings ++ [code] })

/-- Code with the shape of its value. -/
structure Operand where
  code : Code
  type : ValueType

def Operand.as (operand : Operand) (target : ValueType) : Code :=
  operand.code.coerce operand.type target

/-- The code of an operator whose result has the shape `result`. The operands are
brought to that shape, but for a scalar factor of a mix, which suits operands of
any shape. A normalized scalar is its sign. -/
def applicationCode (result : ValueType) : Application Operand → Code
  | .unary .sin x => .apply1 .sin (x.as result)
  | .unary .abs x => .apply1 .abs (x.as result)
  | .unary .normalize x =>
    match result with
    | .float => .apply1 .sign x.code
    | _ => .apply1 .normalize (x.as result)
  | .binary .add x y => .arithmetic .add (x.as result) (y.as result)
  | .binary .sub x y => .arithmetic .sub (x.as result) (y.as result)
  | .binary .mul x y => .arithmetic .mul (x.as result) (y.as result)
  | .binary .pow x y => .pow (x.as result) (y.as result)
  | .ternary .mix x y z =>
    .apply3 .mix (x.as result) (y.as result) (z.as (if z.type = .float then .float else result))
  | .ternary .clamp x y z => .apply3 .clamp (x.as result) (y.as result) (z.as result)
  | .ternary .smoothstep x y z => .apply3 .smoothstep (x.as result) (y.as result) (z.as result)

/-- The code of a call, whose operands are brought to the shapes of the parameters. -/
def callCode (name : String) (primary secondary uv : Operand) : Code :=
  .call name (primary.as .vec3) (secondary.as .vec3) (uv.as .vec2)

/-- The code of an expression, written out; `emit` gives the code of operands. A
function is declared before the operands of its call are emitted. -/
def emitInline (source : Source) (emit : ExprId → Emit Code) (id : ExprId) : Emit Code :=
  let operand (x : ExprId) : Emit Operand := do return ⟨← emit x, source.typeOf x⟩
  match source.table.exprs[id]? with
  | none => pure default
  | some (.literal value) => pure (.literal value)
  | some (.builtin value) => pure (.builtin value)
  | some (.apply application) => do
    return applicationCode (source.typeOf id) (← application.mapM operand)
  | some (.call function primary secondary uv) => do
    let name ← functionName source.table function
    return callCode name (← operand primary) (← operand secondary) (← operand uv)

/-- The code of an expression: its name if it has one, else its code written out,
which is bound to a name if the expression is shared. The depth bounds the length
of a chain of operands. -/
def emit (source : Source) : Nat → ExprId → Emit Code
  | 0, _ => pure default
  | depth + 1, id => do
    match (← get).names.lookup id with
    | some index => return .bound index
    | none =>
      let code ← emitInline source (emit source depth) id
      if source.isShared id then bindName id code else pure code

def channelType (channel : Channel) : ValueType := .ofSocket channel.socket

/-- A shader module: the code functions with their names in it, the code bound to
`v0`, `v1`, …, and the code of each channel. -/
structure Module where
  functions : List (String × CodeFunction)
  bindings : List Code
  channels : PerChannel Code
  deriving Repr

/-- The code of all channels, in their order; `emit` gives the code of expressions. -/
def emitChannels (source : Source) (emit : ExprId → Emit Code) (channels : PerChannel ExprId) :
    Emit (PerChannel Code) :=
  let emitAs (channel : Channel) : Emit Code := do
    let id := channels.get channel
    return (← emit id).coerce (source.typeOf id) (channelType channel)
  do
    let baseColor ← emitAs .baseColor
    let emissive ← emitAs .emissive
    let roughness ← emitAs .roughness
    let metalness ← emitAs .metalness
    let normal ← emitAs .normal
    let opacity ← emitAs .opacity
    return { baseColor, emissive, roughness, metalness, normal, opacity }

/-- The module of a material, where `emit` gives the code of expressions. -/
def Module.emittedBy (emit : Source → Nat → ExprId → Emit Code) (material : NodeMaterial) :
    Module :=
  let table := material.expressions
  let source := Source.ofRoots table material.channels.toList
  let (channels, state) :=
    emitChannels source (emit source table.exprs.size) material.channels ⟨[], [], []⟩
  { functions := state.functions.map fun (id, name) => (name, table.functions.getD id default)
    bindings := state.bindings
    channels }

def Module.ofMaterial (material : NodeMaterial) : Module := Module.emittedBy emit material

end ShaderGraph.Wgsl
