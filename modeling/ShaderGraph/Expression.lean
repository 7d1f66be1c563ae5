import ShaderGraph.Expression.Operator
import ShaderGraph.CodeFunction

/-
Shader expressions with sharing.

Expressions stand in a table that only grows, and refer to their operands by
place. The place is the identity of an expression: two entries with equal
contents are two expressions, and everything that refers to one place shares one
expression. The operands of an entry stand before it (`Expressions.Ordered`), so
a table is a directed acyclic graph, and what is said of an expression can be
computed in one pass over the table.

Code functions stand in a table of their own, with identities of their own.
-/
namespace ShaderGraph

/-- The place of an expression in its table. -/
abbrev ExprId := Nat

abbrev FunctionId := Nat

/-- One entry of the table. A call takes its operands in the order of the
parameters of a code function. -/
inductive Expr where
  | literal (value : Literal)
  | builtin (value : Builtin)
  | apply (application : Application ExprId)
  | call (function : FunctionId) (primary secondary uv : ExprId)
  deriving DecidableEq, Repr

namespace Expr

def operands : Expr → List ExprId
  | literal _ => []
  | builtin _ => []
  | apply application => application.operands
  | call _ primary secondary uv => [primary, secondary, uv]

/-- A literal or a value of the renderer. -/
def isLeaf (e : Expr) : Bool := e.operands.isEmpty

/-- The shape of the value, from the shapes of the operands. -/
def valueType (operand : ExprId → ValueType) : Expr → ValueType
  | literal value => value.valueType
  | builtin value => value.valueType
  | apply application => (application.map operand).valueType
  | call .. => CodeFunction.returnType

end Expr

/-- Expressions and the code functions they call. -/
structure Expressions where
  exprs : Array Expr
  functions : Array CodeFunction
  deriving Repr, Inhabited

namespace Expressions

def empty : Expressions := ⟨#[], #[]⟩

/-- Adds an expression that is none of the present ones. -/
def add (table : Expressions) (e : Expr) : ExprId × Expressions :=
  (table.exprs.size, { table with exprs := table.exprs.push e })

def addFunction (table : Expressions) (f : CodeFunction) : FunctionId × Expressions :=
  (table.functions.size, { table with functions := table.functions.push f })

/-- The operands of an expression; none for a place past the end. -/
def operands (table : Expressions) (id : ExprId) : List ExprId :=
  match table.exprs[id]? with
  | some e => e.operands
  | none => []

/-- The operands of every entry stand before it. -/
def Ordered (table : Expressions) : Prop :=
  ∀ id, ∀ operand ∈ table.operands id, operand < id

/-- The shapes of all expressions, in the order of the table. -/
def valueTypes (table : Expressions) : Array ValueType :=
  table.exprs.foldl (fun types e => types.push (e.valueType fun id => types.getD id .float)) #[]

/-! ## Listing -/

/-- Expressions in the order in which they are first met, operands first. -/
structure Listing where
  exprs : List ExprId
  functions : List FunctionId

/-- Goes through an expression, its operands first; one that is listed already is
passed over. The depth bounds the length of a chain of operands. -/
def list (table : Expressions) : Nat → Listing → ExprId → Listing
  | 0, seen, _ => seen
  | depth + 1, seen, id =>
    if id ∈ seen.exprs then seen
    else
      let seen := (table.operands id).foldl (table.list depth) seen
      let functions := match table.exprs[id]? with
        | some (.call f _ _ _) =>
          if f ∈ seen.functions then seen.functions else seen.functions ++ [f]
        | _ => seen.functions
      ⟨seen.exprs ++ [id], functions⟩

/-- What is reachable from the roots, in the order of a walk from one root after
the other that lists operands before the expression that uses them. -/
def listing (table : Expressions) (roots : List ExprId) : Listing :=
  roots.foldl (table.list table.exprs.size) ⟨[], []⟩

end Expressions

end ShaderGraph
