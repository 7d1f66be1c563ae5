import ShaderGraph.Text.Blank
import ShaderGraph.Expression.Operator

/-
Function bodies written by the user.

A body is spliced into a fixed function template. It is accepted if it is not
blank, its brackets pair up outside comments, and it ends outside every block
comment. Block comments nest; a line comment runs up to the next line feed.
-/
namespace ShaderGraph

/-- Why a body is refused. -/
inductive CodeError where
  | emptyBody (function : String)
  | unbalancedBody (function : String) (delimiter : Char)
  deriving DecidableEq, Repr

def CodeError.message : CodeError → String
  | emptyBody function => "code function `" ++ function ++ "` has an empty body"
  | unbalancedBody function delimiter =>
    "code function `" ++ function ++ "` has an unbalanced `" ++ delimiter.toString ++ "`"

namespace CodeBody

/-- Where a scan stands: in plain code, in a line comment, or in a block comment
with `depth` further ones around it. -/
inductive Region where
  | code
  | line
  | block (depth : Nat)
  deriving DecidableEq, Repr

/-- The characters outside comments, and the region in which the text ends. -/
def outsideComments : Region → List Char → List Char × Region
  | region, [] => ([], region)
  | .code, '/' :: '*' :: rest => outsideComments (.block 0) rest
  | .code, '/' :: '/' :: rest => outsideComments .line rest
  | .code, c :: rest =>
    let (visible, final) := outsideComments .code rest
    (c :: visible, final)
  | .line, '\n' :: rest => outsideComments .code rest
  | .line, _ :: rest => outsideComments .line rest
  | .block depth, '/' :: '*' :: rest => outsideComments (.block (depth + 1)) rest
  | .block 0, '*' :: '/' :: rest => outsideComments .code rest
  | .block (depth + 1), '*' :: '/' :: rest => outsideComments (.block depth) rest
  | .block depth, _ :: rest => outsideComments (.block depth) rest

def isOpener (c : Char) : Bool := c == '(' || c == '[' || c == '{'

def openerOf? : Char → Option Char
  | ')' => some '('
  | ']' => some '['
  | '}' => some '{'
  | _ => none

/-- The openers that stay open, innermost first, or the first closer that does
not pair with the innermost open bracket. -/
def matchBrackets : List Char → List Char → Except Char (List Char)
  | stack, [] => .ok stack
  | stack, c :: rest =>
    if isOpener c then matchBrackets (c :: stack) rest
    else match openerOf? c with
      | none => matchBrackets stack rest
      | some opener =>
        match stack with
        | top :: below => if top = opener then matchBrackets below rest else .error c
        | [] => .error c

/-- The delimiter that keeps a body from being spliced: a closer without its
opener, else `*` for a comment left open, else the innermost bracket left open. -/
def unbalanced? (body : List Char) : Option Char :=
  let (visible, region) := outsideComments .code body
  match matchBrackets [] visible, region with
  | .error closer, _ => some closer
  | .ok _, .block _ => some '*'
  | .ok stack, _ => stack.head?

end CodeBody

/-- A named function body. -/
structure CodeFunction where
  name : String
  body : String
  deriving DecidableEq, Repr, Inhabited

namespace CodeFunction

def parameters : List (String × ValueType) :=
  [("primary", .vec3), ("secondary", .vec3), ("uv", .vec2)]

def returnType : ValueType := .vec3

/-- Names a body, unless it is blank or cannot be spliced. -/
def make (name body : String) : Except CodeError CodeFunction :=
  if Text.isAllBlank body then .error (.emptyBody name)
  else match CodeBody.unbalanced? body.toList with
    | some delimiter => .error (.unbalancedBody name delimiter)
    | none => .ok ⟨name, body⟩

/-- Letters and digits in lower case, everything else as an underscore. -/
def nameChar (c : Char) : Char := if c.isAlphanum then c.toLower else '_'

def nameOfNode (id : String) : String :=
  "shade_node_" ++ String.ofList (id.toList.map nameChar)

/-- The whole function under a given name: the template around the body, without
the blank characters at the end of the body. -/
def render (function : CodeFunction) (name : String) : String :=
  let shown := parameters.map fun (parameter, type) => parameter ++ ": " ++ type.name
  "fn " ++ name ++ "(" ++ ", ".intercalate shown ++ ") -> " ++ returnType.name ++ " \x7b\n"
    ++ String.ofList (Text.trimRight function.body.toList) ++ "\n\x7d\n"

end CodeFunction

end ShaderGraph
