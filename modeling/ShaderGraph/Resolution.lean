import ShaderGraph.Expression
import ShaderGraph.HexColor
import ShaderGraph.Node.Pins
import ShaderGraph.Snapshot

/-
From pins to expressions.

Asking for an output pin walks back, depth first, over the edges that feed the
node. Each answer is kept for the lifetime of the resolution, so a node that
feeds several others yields one shared expression. A pin that is met again while
it is still being resolved lies on a cycle. Failures keep nothing but what was
answered on the way to them, and no pin stays marked.

The walk is bounded by a depth. One more than the number of nodes is enough for
every network, since the nodes on the way are pairwise distinct; a bound that is
too small shows as `Halt.depthExceeded` and not as an answer.
-/
namespace ShaderGraph

/-- Why a material cannot be compiled. -/
inductive ResolveError where
  | cycle (pin : Endpoint)
  | nonFiniteValue (node : NodeId)
  | nonFiniteDefault (channel : Channel)
  | code (error : CodeError)
  deriving DecidableEq, Repr

def ResolveError.message : ResolveError → String
  | cycle pin => "cyclic graph: " ++ pin.text ++ " depends on itself"
  | nonFiniteValue node => "input " ++ node ++ " holds a non-finite value"
  | nonFiniteDefault channel => "non-finite default for " ++ channel.displayName
  | code error => error.message

/-- The color of a color input without a readable color text, `#c7cad4`. -/
def neutralColor : Vec3 :=
  ⟨HexColor.component 199, HexColor.component 202, HexColor.component 212⟩

/-- The primary operand of a code node with nothing connected. -/
def codePrimary : Vec3 :=
  ⟨.ofDecimal false 1 0, .ofDecimal false 8 (-1), .ofDecimal false 6 (-1)⟩

/-- The secondary operand of a code node with nothing connected. -/
def codeSecondary : Vec3 :=
  ⟨.ofDecimal false 4 (-1), .ofDecimal false 5 (-1), .ofDecimal false 8 (-1)⟩

/-- What a resolution knows: the expressions made, the answers given so far (an
answer can be that a pin yields nothing), the pins under way, innermost first,
and the messages for the user. -/
structure Resolution where
  expressions : Expressions
  resolved : List (Endpoint × Option ExprId)
  inProgress : List Endpoint
  diagnostics : List String
  deriving Repr

namespace Resolution

def start : Resolution := ⟨.empty, [], [], []⟩

/-- The answer already given for a pin. -/
def cached? (state : Resolution) (pin : Endpoint) : Option (Option ExprId) :=
  state.resolved.lookup pin

end Resolution

/-- Why a walk stops without an answer. -/
inductive Halt where
  | failed (error : ResolveError)
  | depthExceeded
  deriving DecidableEq, Repr

/-- A step of a resolution. What it did to the resolution stands also if it fails. -/
def Resolve (α : Type) : Type := Resolution → Except Halt α × Resolution

namespace Resolve

variable {α β : Type}

protected def pure (a : α) : Resolve α := fun state => (.ok a, state)

protected def bind (step : Resolve α) (next : α → Resolve β) : Resolve β := fun state =>
  match step state with
  | (.ok a, state) => next a state
  | (.error halt, state) => (.error halt, state)

instance : Monad Resolve where
  pure := Resolve.pure
  bind := Resolve.bind

def halt (h : Halt) : Resolve α := fun state => (.error h, state)

def fail (error : ResolveError) : Resolve α := halt (.failed error)

def make (e : Expr) : Resolve ExprId := fun state =>
  let (id, expressions) := state.expressions.add e
  (.ok id, { state with expressions })

def makeFunction (f : CodeFunction) : Resolve FunctionId := fun state =>
  let (id, expressions) := state.expressions.addFunction f
  (.ok id, { state with expressions })

def report (message : String) : Resolve Unit := fun state =>
  (.ok (), { state with diagnostics := state.diagnostics ++ [message] })

/-- Runs a step with a pin marked as under way; the mark goes however it ends. -/
def marked (pin : Endpoint) (step : Resolve α) : Resolve α := fun state =>
  let (result, after) := step { state with inProgress := pin :: state.inProgress }
  (result, { after with inProgress := after.inProgress.erase pin })

def remember (pin : Endpoint) (answer : Option ExprId) : Resolve Unit := fun state =>
  (.ok (), { state with resolved := (pin, answer) :: state.resolved })

end Resolve

/-! ## Nodes -/

/-- The expression of an input node. A value of another shape than the node's is
passed over. -/
def InputType.resolve (type : InputType) (value : Option Literal) (color : Option String) :
    Resolve ExprId :=
  match type with
  | .float => Resolve.make <| .literal <| match value with
    | some (.float v) => .float v
    | _ => .float (.ofDecimal false 1 0)
  | .vec2 => Resolve.make <| .literal <| match value with
    | some (.vec2 v) => .vec2 v
    | _ => .vec2 ⟨.ofDecimal false 0 0, .ofDecimal false 0 0⟩
  | .vec3 => Resolve.make <| .literal <| match value with
    | some (.vec3 v) => .vec3 v
    | _ => .vec3 ⟨.ofDecimal false 5 (-1), .ofDecimal false 5 (-1), .ofDecimal false 5 (-1)⟩
  | .color => Resolve.make <| .literal <| .vec3 <| (color.bind HexColor.read?).getD neutralColor
  | .time => Resolve.make (.builtin .time)
  | .uv => Resolve.make (.builtin .uv)
  | .normalWorld => Resolve.make (.builtin .normalWorld)
  | .positionWorld => Resolve.make (.builtin .positionWorld)
  | .viewDirection => do
    let camera ← Resolve.make (.builtin .cameraPosition)
    let position ← Resolve.make (.builtin .positionWorld)
    let towardsCamera ← Resolve.make (.apply (.binary .sub camera position))
    Resolve.make (.apply (.unary .normalize towardsCamera))

/-- The given expression, or a new literal where there is none. -/
def orLiteral (value : Option ExprId) (fallback : Literal) : Resolve ExprId :=
  match value with
  | some e => pure e
  | none => Resolve.make (.literal fallback)

/-- The expression of a node's `out` pin, where `feed` resolves what feeds one of
its input pins. Output nodes yield nothing. -/
def Node.resolve (node : Node) (feed : PinKey → Resolve (Option ExprId)) :
    Resolve (Option ExprId) :=
  match node.kind with
  | .input type value color =>
    match value with
    | some literal =>
      if literal.isFinite then some <$> type.resolve value color
      else Resolve.fail (.nonFiniteValue node.id)
    | none => some <$> type.resolve value color
  | .math type => do
    let application ← type.application.mapM fun pin => do
      orLiteral (← feed pin.key) (pin.socket.unconnected.shapedFor pin.socket)
    some <$> Resolve.make (.apply application)
  | .code source _ => do
    let primary ← orLiteral (← feed .primary) (.vec3 codePrimary)
    let secondary ← orLiteral (← feed .secondary) (.vec3 codeSecondary)
    match CodeFunction.make (CodeFunction.nameOfNode node.id) source with
    | .error error => Resolve.fail (.code error)
    | .ok function =>
      let function ← Resolve.makeFunction function
      let uv ← Resolve.make (.builtin .uv)
      let factor ← Resolve.make (.call function primary secondary uv)
      some <$> Resolve.make (.apply (.ternary .mix primary secondary factor))
  | .output _ => pure none

/-! ## Pins -/

namespace Network

/-- What an output pin yields, by a walk of at most `depth` nested pins. Only the
pin `out` yields anything, and a node that is not there yields nothing. -/
def resolveOutputWithin (net : Network) : Nat → Endpoint → Resolve (Option ExprId)
  | 0, _ => Resolve.halt .depthExceeded
  | depth + 1, pin => fun state =>
    match state.cached? pin with
    | some answer => (.ok answer, state)
    | none =>
      match net.node? pin.node with
      | none => (.ok none, state)
      | some node =>
        if pin ∈ state.inProgress then (.error (.failed (.cycle pin)), state)
        else
          let feed (key : PinKey) : Resolve (Option ExprId) :=
            match net.feeding? ⟨pin.node, key⟩ with
            | some edge => net.resolveOutputWithin depth edge.source
            | none => pure none
          let step : Resolve (Option ExprId) := do
            let answer ← Resolve.marked pin <|
              if pin.pin = .out then node.resolve feed else pure none
            Resolve.remember pin answer
            pure answer
          step state

def depthBound (net : Network) : Nat := net.nodes.size + 1

def resolveOutput (net : Network) (pin : Endpoint) : Resolve (Option ExprId) :=
  net.resolveOutputWithin net.depthBound pin

/-- What feeds an input pin: nothing if no edge ends there. -/
def resolveInput (net : Network) (pin : Endpoint) : Resolve (Option ExprId) :=
  match net.feeding? pin with
  | some edge => net.resolveOutput edge.source
  | none => pure none

/-- The expression of a channel. Without an output node it is the fallback; with
an output node whose input yields nothing it is the fallback, and a message says
so. -/
def resolveChannel (net : Network) (channel : Channel) (socket : Socket) (fallback : Literal) :
    Resolve ExprId :=
  match net.output? channel with
  | none => Resolve.make (.literal (fallback.shapedFor socket))
  | some node => do
    match ← net.resolveInput ⟨node.id, .input⟩ with
    | some e => pure e
    | none =>
      let name := if Text.isAllBlank node.title then channel.displayName else node.title
      Resolve.report ("Missing input for " ++ name)
      Resolve.make (.literal (fallback.shapedFor socket))

end Network

end ShaderGraph
