import ShaderGraph.Proofs.Dependence
import ShaderGraph.Proofs.Queries

/-
What nodes and queries do, action by action.

A step of a resolution is a function, which shows where it ends and not how it comes there.
A `Plan` shows that: it adds expressions and functions one at a time, tells the user a
message, fails, or calls for what an output pin yields and goes on with the answer. Every
node has a plan (`Node.plan`), in which the calls are for the pins that feed its inputs, and
so has every query (`Query.plan`). `Plan.run` carries a plan out, where `walk` answers the
calls. Carried out by a resolution, the plans do what the resolution does with the node
(`run_plan`) and with the query (`Query.ask_eq_run`).

Of a plan the calls and the answers are of interest. `Plan.Within calls answers` says that
it calls for pins in `calls` only and that what it answers is in `answers`, whatever it is
told by the calls. The plan for a pin calls for what feeds the declared inputs of the pin's
node (`Network.Asks`), and answers something only for the `out` pin of a node that is no
output node (`Network.plan_within`).
-/
namespace ShaderGraph

/-- What is done at once. -/
inductive Action where
  | make (e : Expr)
  | makeFunction (f : CodeFunction)
  | report (message : String)

/-- The resolution after the action, and the place of what was added; 0 stands for the place
of a message. -/
def Action.perform (action : Action) (state : Resolution) : Nat × Resolution :=
  match action with
  | make e =>
    let (id, expressions) := state.expressions.add e
    (id, { state with expressions })
  | makeFunction f =>
    let (id, expressions) := state.expressions.addFunction f
    (id, { state with expressions })
  | report message => (0, { state with diagnostics := state.diagnostics ++ [message] })

/-- What is done for an answer: actions, and calls for what output pins yield. -/
inductive Plan (α : Type) where
  | done (answer : α)
  | fail (error : ResolveError)
  | act (action : Action) (next : Nat → Plan α)
  | call (pin : Endpoint) (next : Option ExprId → Plan α)

namespace Plan

variable {α β : Type}

protected def bind : Plan α → (α → Plan β) → Plan β
  | done a, f => f a
  | fail error, _ => fail error
  | act action next, f => act action fun place => (next place).bind f
  | call pin next, f => call pin fun answer => (next answer).bind f

instance : Monad Plan where
  pure := done
  bind := Plan.bind

def make (e : Expr) : Plan ExprId := act (.make e) done

def makeFunction (f : CodeFunction) : Plan FunctionId := act (.makeFunction f) done

/-- The given expression, or a new literal where there is none. -/
def orLiteral (value : Option ExprId) (fallback : Literal) : Plan ExprId :=
  match value with
  | some e => pure e
  | none => make (.literal fallback)

/-- Carries the plan out; `walk` finds what the calls are for. -/
def run (walk : Endpoint → Resolve (Option ExprId)) : Plan α → Resolve α
  | done a => pure a
  | fail error => Resolve.fail error
  | act action next => fun state =>
    let (place, state) := action.perform state
    (next place).run walk state
  | call pin next => do
    let answer ← walk pin
    (next answer).run walk

end Plan

/-! ## Nodes and queries -/

def InputType.plan (type : InputType) (value : Option Literal) (color : Option String) :
    Plan ExprId :=
  match type with
  | .float => Plan.make <| .literal <| match value with
    | some (.float v) => .float v
    | _ => .float (.ofDecimal false 1 0)
  | .vec2 => Plan.make <| .literal <| match value with
    | some (.vec2 v) => .vec2 v
    | _ => .vec2 ⟨.ofDecimal false 0 0, .ofDecimal false 0 0⟩
  | .vec3 => Plan.make <| .literal <| match value with
    | some (.vec3 v) => .vec3 v
    | _ => .vec3 ⟨.ofDecimal false 5 (-1), .ofDecimal false 5 (-1), .ofDecimal false 5 (-1)⟩
  | .color => Plan.make <| .literal <| .vec3 <| (color.bind HexColor.read?).getD neutralColor
  | .time => Plan.make (.builtin .time)
  | .uv => Plan.make (.builtin .uv)
  | .normalWorld => Plan.make (.builtin .normalWorld)
  | .positionWorld => Plan.make (.builtin .positionWorld)
  | .viewDirection => do
    let camera ← Plan.make (.builtin .cameraPosition)
    let position ← Plan.make (.builtin .positionWorld)
    let towardsCamera ← Plan.make (.apply (.binary .sub camera position))
    Plan.make (.apply (.unary .normalize towardsCamera))

/-- The plan of a node's `out` pin, where `feed` is the plan of what feeds an input pin. -/
def Node.plan (node : Node) (feed : PinKey → Plan (Option ExprId)) : Plan (Option ExprId) :=
  match node.kind with
  | .input type value color =>
    match value with
    | some literal =>
      if literal.isFinite then some <$> type.plan value color
      else .fail (.nonFiniteValue node.id)
    | none => some <$> type.plan value color
  | .math type => do
    let application ← type.application.mapM fun pin => do
      Plan.orLiteral (← feed pin.key) (pin.socket.unconnected.shapedFor pin.socket)
    some <$> Plan.make (.apply application)
  | .code source _ => do
    let primary ← Plan.orLiteral (← feed .primary) (.vec3 codePrimary)
    let secondary ← Plan.orLiteral (← feed .secondary) (.vec3 codeSecondary)
    match CodeFunction.make (CodeFunction.nameOfNode node.id) source with
    | .error error => .fail (.code error)
    | .ok function =>
      let function ← Plan.makeFunction function
      let uv ← Plan.make (.builtin .uv)
      let factor ← Plan.make (.call function primary secondary uv)
      some <$> Plan.make (.apply (.ternary .mix primary secondary factor))
  | .output _ => .done none

namespace Network

/-- The plan of an input pin: a call for what the edge into it starts at, if there is one. -/
def inputPlan (net : Network) (pin : Endpoint) : Plan (Option ExprId) :=
  match net.feeding? pin with
  | some edge => .call edge.source .done
  | none => .done none

def plan (net : Network) (node : Node) (pin : Endpoint) : Plan (Option ExprId) :=
  if pin.pin = .out then node.plan fun key => net.inputPlan ⟨pin.node, key⟩ else .done none

end Network

def Query.plan (net : Network) : Query → Plan (Option ExprId)
  | output pin => .call pin .done
  | input pin => net.inputPlan pin
  | channel c socket fallback =>
    match net.output? c with
    | none => some <$> Plan.make (.literal (fallback.shapedFor socket))
    | some node => do
      match ← net.inputPlan ⟨node.id, .input⟩ with
      | some e => pure (some e)
      | none =>
        let name := if Text.isAllBlank node.title then c.displayName else node.title
        .act (.report ("Missing input for " ++ name)) fun _ =>
          some <$> Plan.make (.literal (fallback.shapedFor socket))

/-! ## Carried out -/

theorem Resolve.bind_pure {α : Type} (x : Resolve α) : Resolve.bind x Resolve.pure = x := by
  funext state
  simp only [Resolve.bind]
  rcases x state with ⟨_ | _, later⟩ <;> rfl

namespace Plan

variable {α β : Type} (walk : Endpoint → Resolve (Option ExprId))

theorem run_bind (plan : Plan α) (f : α → Plan β) :
    (plan >>= f).run walk = Resolve.bind (plan.run walk) fun a => (f a).run walk := by
  show (plan.bind f).run walk = _
  induction plan with
  | done a => rfl
  | fail error => rfl
  | act action next ih =>
    funext state
    exact congrFun (ih (action.perform state).1) (action.perform state).2
  | call pin next ih =>
    funext state
    show Resolve.bind (walk pin) (fun answer => ((next answer).bind f).run walk) state =
      Resolve.bind (Resolve.bind (walk pin) fun answer => (next answer).run walk) _ state
    simp only [Resolve.bind]
    rcases walk pin state with ⟨_ | answer, later⟩
    · rfl
    · exact congrFun (ih answer) later

theorem run_bind_eq {plan : Plan α} {f : α → Plan β} {x : Resolve α} {g : α → Resolve β}
    (hx : plan.run walk = x) (hf : ∀ a, (f a).run walk = g a) :
    (plan >>= f).run walk = Resolve.bind x g := by
  rw [run_bind, hx]
  exact congrArg (Resolve.bind x) (funext hf)

theorem run_map {plan : Plan α} {x : Resolve α} (hx : plan.run walk = x) (f : α → β) :
    (f <$> plan).run walk = f <$> x :=
  run_bind_eq walk hx fun _ => rfl

theorem run_orLiteral (value : Option ExprId) (fallback : Literal) :
    (orLiteral value fallback).run walk = ShaderGraph.orLiteral value fallback := by
  cases value <;> rfl

theorem run_mapM {ι : Type} {f : ι → Plan α} {g : ι → Resolve α}
    (h : ∀ i, (f i).run walk = g i) (application : Application ι) :
    (application.mapM f).run walk = application.mapM g := by
  cases application with
  | unary op x => exact run_bind_eq walk (h x) fun _ => rfl
  | binary op x y =>
    exact run_bind_eq walk (h x) fun _ => run_bind_eq walk (h y) fun _ => rfl
  | ternary op x y z =>
    exact run_bind_eq walk (h x) fun _ => run_bind_eq walk (h y) fun _ =>
      run_bind_eq walk (h z) fun _ => rfl

end Plan

variable (walk : Endpoint → Resolve (Option ExprId))

theorem InputType.run_plan (type : InputType) (value : Option Literal) (color : Option String) :
    (type.plan value color).run walk = type.resolve value color := by
  cases type <;> rfl

/-- **The plan of a node**, carried out, does what the node does. -/
theorem Node.run_plan (node : Node) {feed : PinKey → Plan (Option ExprId)}
    {feed' : PinKey → Resolve (Option ExprId)} (hfeed : ∀ key, (feed key).run walk = feed' key) :
    (node.plan feed).run walk = node.resolve feed' := by
  simp only [Node.plan, Node.resolve]
  cases node.kind with
  | input type value color =>
    have hinput : ∀ value, (some <$> type.plan value color).run walk =
        some <$> type.resolve value color :=
      fun value => Plan.run_map walk (type.run_plan walk value color) some
    cases value with
    | none => exact hinput none
    | some literal =>
      by_cases hf : literal.isFinite = true
      · simp only [hf, if_true]
        exact hinput (some literal)
      · simp only [hf, Bool.false_eq_true, if_false]
        rfl
  | math type =>
    refine Plan.run_bind_eq walk (Plan.run_mapM walk (fun pin => ?_) _) fun _ => rfl
    exact Plan.run_bind_eq walk (hfeed pin.key) fun _ => Plan.run_orLiteral walk _ _
  | output channel => rfl
  | code source socket =>
    refine Plan.run_bind_eq walk (hfeed .primary) fun _ => ?_
    refine Plan.run_bind_eq walk (Plan.run_orLiteral walk _ _) fun _ => ?_
    refine Plan.run_bind_eq walk (hfeed .secondary) fun _ => ?_
    refine Plan.run_bind_eq walk (Plan.run_orLiteral walk _ _) fun _ => ?_
    cases CodeFunction.make (CodeFunction.nameOfNode node.id) source <;> rfl

namespace Network

variable (net : Network)

theorem run_inputPlan (pin : Endpoint) : (net.inputPlan pin).run walk =
    match net.feeding? pin with
    | some edge => walk edge.source
    | none => pure none := by
  unfold inputPlan
  cases net.feeding? pin with
  | none => rfl
  | some edge => exact Resolve.bind_pure (walk edge.source)

theorem resolveOutputWithin_succ (depth : Nat) (pin : Endpoint) (state : Resolution) :
    net.resolveOutputWithin (depth + 1) pin state =
      match state.cached? pin with
      | some answer => (.ok answer, state)
      | none =>
        match net.node? pin.node with
        | none => (.ok none, state)
        | some node =>
          if pin ∈ state.inProgress then (.error (.failed (.cycle pin)), state)
          else
            match (net.plan node pin).run (net.resolveOutputWithin depth) (state.marking pin) with
            | (.ok answer, after) => (.ok answer, after.remembering pin answer)
            | (.error halt, after) => (.error halt, after.unmarking pin) := by
  simp only [resolveOutputWithin]
  cases state.cached? pin with
  | some answer => rfl
  | none =>
    cases net.node? pin.node with
    | none => rfl
    | some node =>
      by_cases hpin : pin ∈ state.inProgress
      · simp only [hpin, if_true]
      · simp only [hpin, if_false]
        have hplan : (net.plan node pin).run (net.resolveOutputWithin depth) =
            if pin.pin = .out then node.resolve fun key =>
              match net.feeding? ⟨pin.node, key⟩ with
              | some edge => net.resolveOutputWithin depth edge.source
              | none => pure none
            else pure none := by
          unfold plan
          split
          · exact node.run_plan _ fun key => net.run_inputPlan _ _
          · rfl
        rw [hplan]
        exact run_kept pin _ state

end Network

/-- **The plan of a query**, carried out by a resolution, asks the query. -/
theorem Query.ask_eq_run (net : Network) (query : Query) :
    query.ask net = (query.plan net).run net.resolveOutput := by
  cases query with
  | output pin => exact (Resolve.bind_pure (net.resolveOutput pin)).symm
  | input pin => exact (net.run_inputPlan _ pin).symm
  | channel channel socket fallback =>
    simp only [ask, plan, Network.resolveChannel]
    cases net.output? channel with
    | none => rfl
    | some node =>
      have hinput : (net.inputPlan ⟨node.id, .input⟩).run net.resolveOutput =
          net.resolveInput ⟨node.id, .input⟩ := net.run_inputPlan _ _
      rw [Plan.run_bind_eq _ hinput fun _ => rfl]
      funext state
      show Resolve.bind (Resolve.bind (net.resolveInput ⟨node.id, .input⟩) _) _ state = _
      simp only [Resolve.bind]
      rcases net.resolveInput ⟨node.id, .input⟩ state with ⟨_ | answer, later⟩
      · rfl
      · cases answer <;> rfl

/-! ## Calls and answers -/

namespace Plan

variable {α β : Type} {calls : Endpoint → Prop} {answers : α → Prop}

/-- The plan calls for pins in `calls` only, and what it answers is in `answers`. -/
def Within (calls : Endpoint → Prop) (answers : α → Prop) : Plan α → Prop
  | done a => answers a
  | fail _ => True
  | act _ next => ∀ place, (next place).Within calls answers
  | call pin next => calls pin ∧ ∀ answer, (next answer).Within calls answers

theorem Within.bind {P : β → Prop} {plan : Plan α} {f : α → Plan β}
    (h : plan.Within calls answers) (hf : ∀ a, answers a → (f a).Within calls P) :
    (plan >>= f).Within calls P := by
  show (plan.bind f).Within calls P
  induction plan with
  | done a => exact hf a h
  | fail error => exact trivial
  | act action next ih => exact fun place => ih place (h place)
  | call pin next ih => exact ⟨h.1, fun answer => ih answer (h.2 answer)⟩

theorem Within.imp {P : α → Prop} {plan : Plan α} (h : plan.Within calls answers)
    (hanswers : ∀ a, answers a → P a) : plan.Within calls P := by
  induction plan with
  | done a => exact hanswers a h
  | fail error => exact trivial
  | act action next ih => exact fun place => ih place (h place)
  | call pin next ih => exact ⟨h.1, fun answer => ih answer (h.2 answer)⟩

theorem Within.map {P : β → Prop} {plan : Plan α} {f : α → β} (h : plan.Within calls answers)
    (hf : ∀ a, P (f a)) : (f <$> plan).Within calls P :=
  h.bind fun a _ => hf a

theorem within_make (calls : Endpoint → Prop) (e : Expr) :
    (make e).Within calls fun _ => True :=
  fun _ => trivial

theorem within_orLiteral (calls : Endpoint → Prop) (value : Option ExprId) (fallback : Literal) :
    (orLiteral value fallback).Within calls fun _ => True := by
  cases value with
  | some e => exact trivial
  | none => exact within_make calls _

theorem within_mapM {ι : Type} {f : ι → Plan α} {application : Application ι}
    (h : ∀ i ∈ application.operands, (f i).Within calls fun _ => True) :
    (application.mapM f).Within calls fun _ => True := by
  cases application with
  | unary op x => exact (h x (by simp [Application.operands])).bind fun _ _ => trivial
  | binary op x y =>
    refine (h x (by simp [Application.operands])).bind fun _ _ => ?_
    exact (h y (by simp [Application.operands])).bind fun _ _ => trivial
  | ternary op x y z =>
    refine (h x (by simp [Application.operands])).bind fun _ _ => ?_
    refine (h y (by simp [Application.operands])).bind fun _ _ => ?_
    exact (h z (by simp [Application.operands])).bind fun _ _ => trivial

end Plan

theorem InputType.plan_within (type : InputType) (value : Option Literal) (color : Option String)
    (calls : Endpoint → Prop) : (type.plan value color).Within calls fun _ => True := by
  cases type with
  | viewDirection =>
    refine (Plan.within_make calls _).bind fun _ _ => (Plan.within_make calls _).bind fun _ _ => ?_
    exact (Plan.within_make calls _).bind fun _ _ => Plan.within_make calls _
  | _ => exact Plan.within_make calls _

theorem Node.plan_within {node : Node} {feed : PinKey → Plan (Option ExprId)}
    {calls : Endpoint → Prop}
    (hfeed : node.category = .math ∨ node.category = .code →
      ∀ input ∈ node.kind.inputs, (feed input.key).Within calls fun _ => True) :
    (node.plan feed).Within calls fun answer => answer ≠ none → node.category ≠ .output := by
  simp only [Node.plan, category] at hfeed ⊢
  cases hkind : node.kind with
  | input type value color =>
    have hinput : ∀ value, (some <$> type.plan value color).Within calls
        fun answer => answer ≠ none → Category.input ≠ .output :=
      fun value => (type.plan_within value color calls).map fun _ _ => by decide
    cases value with
    | none => exact hinput none
    | some literal =>
      by_cases hf : literal.isFinite = true
      · simp only [hf, if_true]
        exact hinput (some literal)
      · simp only [hf, Bool.false_eq_true, if_false]
        exact trivial
  | math type =>
    rw [hkind] at hfeed
    refine (Plan.within_mapM fun pin hpin => ?_).bind fun application _ => ?_
    · exact (hfeed (.inl rfl) pin hpin).bind fun _ _ => Plan.within_orLiteral calls _ _
    · exact (Plan.within_make calls _).map fun _ _ => Category.noConfusion
  | output channel => exact fun h => absurd rfl h
  | code source socket =>
    rw [hkind] at hfeed
    have hprimary := hfeed (.inr rfl) ⟨.primary, "Primary", .vec3⟩
      (by simp [NodeKind.inputs, codeInputs])
    have hsecondary := hfeed (.inr rfl) ⟨.secondary, "Secondary", .vec3⟩
      (by simp [NodeKind.inputs, codeInputs])
    refine hprimary.bind fun _ _ => (Plan.within_orLiteral calls _ _).bind fun _ _ => ?_
    refine hsecondary.bind fun _ _ => (Plan.within_orLiteral calls _ _).bind fun _ _ => ?_
    cases CodeFunction.make (CodeFunction.nameOfNode node.id) source with
    | error error => exact trivial
    | ok function =>
      refine fun _ => (Plan.within_make calls _).bind fun _ _ => ?_
      refine (Plan.within_make calls _).bind fun _ _ => ?_
      exact (Plan.within_make calls _).map fun _ _ => Category.noConfusion

namespace Network

/-- The pin `out` of a math or code node asks for what the first edge into one of the node's
inputs starts at, be there a node or not. -/
inductive Asks (net : Network) : Endpoint → Endpoint → Prop
  | feed {id : NodeId} {node : Node} {input : Pin} {edge : Edge}
      (hnode : net.node? id = some node)
      (hcategory : node.category = .math ∨ node.category = .code)
      (hinput : input ∈ node.kind.inputs)
      (hedge : net.feeding? ⟨id, input.key⟩ = some edge) : Asks net ⟨id, .out⟩ edge.source

/-- A pin may be answered so: something is the answer only for the `out` pin of a node that
is no output node. -/
def Allows (net : Network) (pin : Endpoint) (answer : Option ExprId) : Prop :=
  answer ≠ none → pin.pin = .out ∧
    ∃ node, net.node? pin.node = some node ∧ node.category ≠ .output

variable {net : Network} {pin source : Endpoint} {node : Node}

theorem Asks.dependsOn (h : net.Asks pin source) {sourceNode : Node}
    (hsource : net.node? source.node = some sourceNode) : net.DependsOn pin source := by
  cases h with
  | feed hnode hcategory hinput hedge => exact .feed hnode hcategory hinput hedge hsource

/-- **The plan for a pin** asks for what feeds the inputs of the pin's node, and answers what
the pin may be answered. -/
theorem plan_within (hnode : net.node? pin.node = some node) :
    (net.plan node pin).Within (net.Asks pin) (net.Allows pin) := by
  unfold plan
  by_cases hout : pin.pin = .out
  · rw [if_pos hout]
    refine (Node.plan_within fun hcategory input hinput => ?_).imp fun answer hcategory hsome =>
      ⟨hout, node, hnode, hcategory hsome⟩
    unfold inputPlan
    cases hedge : net.feeding? ⟨pin.node, input.key⟩ with
    | none => exact trivial
    | some edge =>
      have hasks : net.Asks ⟨pin.node, .out⟩ edge.source := .feed hnode hcategory hinput hedge
      rw [← hout] at hasks
      exact ⟨hasks, fun _ => trivial⟩
  · rw [if_neg hout]
    exact fun h => absurd rfl h

end Network

end ShaderGraph
