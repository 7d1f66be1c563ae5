import ShaderGraph.Material
import ShaderGraph.Proofs.Memory
import Mathlib.Data.List.Forall2

/-
How expressions are wired.

`Memory` says what a resolution's answers read as. Here it is said which places of the
table they are. The invariant (`Network.Wired`) is that every answer kept for the `out`
pin of a node is an expression made of that node: a math node's expression applies the
node's operator, and a code node's expression blends, with operands that are the very
answers kept for the pins that feed the node, or new literals at the pins that nothing
feeds (`Network.Makes`).

`Wires net state x Q`: run in `state`, the step `x` keeps the entries, the answers and the
wiring, and `Q` holds of what it answers. Marking and remembering a pin is the only step
that adds an answer (`wires_kept`), so the walk to a pin wires (`wires_resolveOutputWithin`,
by induction on its depth), and so does the compilation of all channels
(`wires_resolveChannels`). This holds in every network, cyclic ones included.
-/
namespace ShaderGraph

namespace Resolution

/-- The entries and the answers of the first resolution are those of the second. -/
structure Extends (state later : Resolution) : Prop where
  exprs : ∀ (id : ExprId) e, state.expressions.exprs[id]? = some e →
    later.expressions.exprs[id]? = some e
  resolved : state.Remembers later

namespace Extends

variable {state later latest : Resolution}

theorem refl (state : Resolution) : Extends state state := ⟨fun _ _ h => h, fun _ _ h => h⟩

theorem trans (h : Extends state later) (h' : Extends later latest) : Extends state latest := by
  constructor
  · intro id e he
    exact h'.exprs id e (h.exprs id e he)
  · intro pin answer ha
    exact h'.resolved pin answer (h.resolved pin answer ha)

end Extends

end Resolution

/-- An operand is the expression that was found, or a literal where none was. -/
def Expressions.Supplies (table : Expressions) (answer : Option ExprId) (fallback : Literal)
    (operand : ExprId) : Prop :=
  match answer with
  | some e => operand = e
  | none => table.exprs[operand]? = some (.literal fallback)

namespace Network

open Resolution (Extends)

variable (net : Network) (state : Resolution)

/-- The answer for an output pin is kept, or is nothing since its node is not there. -/
def Answers (pin : Endpoint) (answer : Option ExprId) : Prop :=
  state.cached? pin = some answer ∨ net.node? pin.node = none ∧ answer = none

def Brings (pin : Endpoint) (answer : Option ExprId) : Prop :=
  match net.feeding? pin with
  | some edge => net.Answers state edge.source answer
  | none => answer = none

/-- The operand is what feeds an input pin, or a literal where nothing does. -/
def Takes (pin : Endpoint) (fallback : Literal) (operand : ExprId) : Prop :=
  ∃ answer, net.Brings state pin answer ∧ state.expressions.Supplies answer fallback operand

/-- What a node of a kind yields, over what feeds its input pins. -/
inductive Makes (id : NodeId) : NodeKind → Option ExprId → Prop
  | input {type : InputType} {value : Option Literal} {color : Option String} (e : ExprId) :
      Makes id (.input type value color) (some e)
  | math {type : MathType} {e : ExprId} {application : Application ExprId}
      (hentry : state.expressions.exprs[e]? = some (.apply application))
      (hop : application.op = type.application.op)
      (hoperands : List.Forall₂ (fun pin operand => net.Takes state ⟨id, pin.key⟩
        (pin.socket.unconnected.shapedFor pin.socket) operand)
        type.application.operands application.operands) :
      Makes id (.math type) (some e)
  | output (channel : Channel) : Makes id (.output channel) none
  | code {source : String} {socket : Socket} {e factor uv primary secondary : ExprId}
      {function : FunctionId}
      (hblend : state.expressions.exprs[e]? =
        some (.apply (.ternary .mix primary secondary factor)))
      (hcall : state.expressions.exprs[factor]? = some (.call function primary secondary uv))
      (hprimary : net.Takes state ⟨id, .primary⟩ (.vec3 codePrimary) primary)
      (hsecondary : net.Takes state ⟨id, .secondary⟩ (.vec3 codeSecondary) secondary) :
      Makes id (.code source socket) (some e)

/-- What is kept for the `out` pin of a node is made of the node, and pins under way have
no answer. -/
structure Wired : Prop where
  made : ∀ id answer, state.cached? ⟨id, .out⟩ = some answer →
    ∃ node, net.node? id = some node ∧ net.Makes state id node.kind answer
  clear : state.Clear state.inProgress

variable {net state} {later : Resolution}

theorem wired_start (net : Network) : net.Wired .start :=
  ⟨fun _ _ h => (nomatch h), fun _ h => (nomatch h)⟩

/-! ## What stays -/

theorem Brings.mono (h : state.Extends later) {pin : Endpoint} {answer : Option ExprId}
    (hbrings : net.Brings state pin answer) : net.Brings later pin answer := by
  unfold Brings at hbrings ⊢
  split
  · next edge hedge =>
    rw [hedge] at hbrings
    exact hbrings.imp_left (h.resolved edge.source answer)
  · next hnone =>
    rw [hnone] at hbrings
    exact hbrings

theorem Takes.mono (h : state.Extends later) {pin : Endpoint} {fallback : Literal}
    {operand : ExprId} (htakes : net.Takes state pin fallback operand) :
    net.Takes later pin fallback operand := by
  obtain ⟨answer, hbrings, hsupplies⟩ := htakes
  refine ⟨answer, hbrings.mono h, ?_⟩
  cases answer with
  | some e => exact hsupplies
  | none => exact h.exprs operand _ hsupplies

theorem Makes.mono (h : state.Extends later) {id : NodeId} {kind : NodeKind}
    {answer : Option ExprId} (hmakes : net.Makes state id kind answer) :
    net.Makes later id kind answer := by
  cases hmakes with
  | input e => exact .input e
  | math hentry hop hoperands =>
    exact .math (h.exprs _ _ hentry) hop (hoperands.imp fun _ _ htakes => htakes.mono h)
  | output channel => exact .output channel
  | code hblend hcall hprimary hsecondary =>
    exact .code (h.exprs _ _ hblend) (h.exprs _ _ hcall) (hprimary.mono h) (hsecondary.mono h)

theorem Wired.of_extends (hw : net.Wired state) (h : state.Extends later)
    (hresolved : later.resolved = state.resolved) (hclear : later.Clear later.inProgress) :
    net.Wired later := by
  refine ⟨fun id answer hanswer => ?_, hclear⟩
  rw [Resolution.cached?, hresolved] at hanswer
  obtain ⟨node, hnode, hmakes⟩ := hw.made id answer hanswer
  exact ⟨node, hnode, hmakes.mono h⟩

/-! ## Steps -/

/-- Run in `state`, the step `x` keeps what is there and the wiring, and `Q` holds of what
it answers. -/
structure Wires (net : Network) (state : Resolution) {α : Type} (x : Resolve α)
    (Q : Resolution → α → Prop) : Prop where
  keeps : state.Extends (x state).2
  inProgress : (x state).2.inProgress = state.inProgress
  wired : net.Wired (x state).2
  answers : ∀ a, (x state).1 = .ok a → Q (x state).2 a

namespace Wires

variable {α β : Type} {Q : Resolution → α → Prop} {P : Resolution → β → Prop}

theorem of_run {x : Resolve α} {result : Except Halt α} (hrun : x state = (result, later))
    (hk : state.Extends later) (hp : later.inProgress = state.inProgress)
    (hw : net.Wired later) (ha : ∀ a, result = .ok a → Q later a) : Wires net state x Q := by
  refine ⟨?_, ?_, ?_, ?_⟩ <;> rw [hrun]
  · exact hk
  · exact hp
  · exact hw
  · exact ha

theorem congr {x x' : Resolve α} (h : x state = x' state) (hx : Wires net state x' Q) :
    Wires net state x Q :=
  of_run h hx.keeps hx.inProgress hx.wired hx.answers

theorem pure {a : α} (hw : net.Wired state) (h : Q state a) :
    Wires net state (Resolve.pure a) Q where
  keeps := .refl state
  inProgress := rfl
  wired := hw
  answers a' ha := by
    obtain rfl : a = a' := Except.ok.inj ha
    exact h

theorem halt (hw : net.Wired state) (reason : Halt) :
    Wires net state (Resolve.halt reason : Resolve α) Q where
  keeps := .refl state
  inProgress := rfl
  wired := hw
  answers a ha := by cases ha

theorem bind {x : Resolve α} {f : α → Resolve β} (hx : Wires net state x Q)
    (hf : ∀ a later, state.Extends later → net.Wired later → Q later a →
      Wires net later (f a) P) : Wires net state (Resolve.bind x f) P := by
  obtain ⟨hk, hp, hw, ha⟩ := hx
  rcases hrun : x state with ⟨result, later⟩
  simp only [hrun] at hk hp hw ha
  cases result with
  | error reason =>
    have hbind : Resolve.bind x f state = (.error reason, later) := by
      simp only [Resolve.bind, hrun]
    apply of_run hbind hk hp hw
    intro b hb
    cases hb
  | ok a =>
    have hbind : Resolve.bind x f state = f a later := by simp only [Resolve.bind, hrun]
    obtain ⟨hk', hp', hw', hb⟩ := hf a later hk hw (ha a rfl)
    exact of_run hbind (hk.trans hk') (hp'.trans hp) hw' hb

theorem imp {P : Resolution → α → Prop} {x : Resolve α} (hx : Wires net state x Q)
    (h : ∀ later a, Q later a → P later a) : Wires net state x P :=
  ⟨hx.keeps, hx.inProgress, hx.wired, fun a ha => h _ a (hx.answers a ha)⟩

theorem of_exprs {x : Resolve α} (hw : net.Wired state)
    (hexprs : ∀ (id : ExprId) e, state.expressions.exprs[id]? = some e →
      (x state).2.expressions.exprs[id]? = some e)
    (hresolved : (x state).2.resolved = state.resolved)
    (hmarks : (x state).2.inProgress = state.inProgress)
    (ha : ∀ a, (x state).1 = .ok a → Q (x state).2 a) : Wires net state x Q := by
  have hkept : ∀ pin, (x state).2.cached? pin = state.cached? pin := by
    intro pin
    rw [Resolution.cached?, hresolved, Resolution.cached?]
  have hk : state.Extends (x state).2 := ⟨hexprs, fun pin answer h => (hkept pin).trans h⟩
  refine ⟨hk, hmarks, hw.of_extends hk hresolved ?_, ha⟩
  intro pin hpin
  rw [hmarks] at hpin
  exact (hkept pin).trans (hw.clear pin hpin)

theorem make (hw : net.Wired state) (e : Expr) :
    Wires net state (Resolve.make e) fun later id => later.expressions.exprs[id]? = some e := by
  refine of_exprs hw (Expressions.exprs_add state.expressions e) rfl rfl fun id hid => ?_
  obtain rfl : (state.expressions.add e).1 = id := Except.ok.inj hid
  show (state.expressions.add e).2.exprs[(state.expressions.add e).1]? = some e
  simp [Expressions.add]

theorem makeFunction (hw : net.Wired state) (f : CodeFunction) :
    Wires net state (Resolve.makeFunction f) fun _ _ => True :=
  of_exprs hw (fun _ _ h => h) rfl rfl fun _ _ => trivial

theorem report (hw : net.Wired state) (message : String) :
    Wires net state (Resolve.report message) fun _ _ => True :=
  of_exprs hw (fun _ _ h => h) rfl rfl fun _ _ => trivial

theorem orLiteral (hw : net.Wired state) {pin : Endpoint} {answer : Option ExprId}
    (hbrings : net.Brings state pin answer) (fallback : Literal) :
    Wires net state (orLiteral answer fallback) fun later operand =>
      net.Takes later pin fallback operand := by
  cases answer with
  | some e => exact .pure hw ⟨some e, hbrings, rfl⟩
  | none =>
    -- Nothing is brought still after the literal is made.
    have hmake := make hw (.literal fallback)
    refine ⟨hmake.keeps, hmake.inProgress, hmake.wired, fun operand h => ?_⟩
    exact ⟨none, hbrings.mono hmake.keeps, hmake.answers operand h⟩

theorem mapM {ι : Type} {f : ι → Resolve ExprId} {R : Resolution → ι → ExprId → Prop}
    {application : Application ι} (hw : net.Wired state)
    (hmono : ∀ {earlier later : Resolution} i operand, earlier.Extends later →
      R earlier i operand → R later i operand)
    (h : ∀ i later, net.Wired later → Wires net later (f i) fun latest => R latest i) :
    Wires net state (application.mapM f) fun later ids =>
      ids.op = application.op ∧ List.Forall₂ (R later) application.operands ids.operands := by
  -- What holds of an operand is kept while the others are made.
  cases application with
  | unary op x =>
    refine (h x state hw).bind fun a s₁ _ hw ha => .pure hw ⟨rfl, ?_⟩
    exact .cons ha .nil
  | binary op x y =>
    refine (h x state hw).bind fun a s₁ _ hw ha => ?_
    refine (h y s₁ hw).bind fun b s₂ h₂ hw hb => .pure hw ⟨rfl, ?_⟩
    exact .cons (hmono x a h₂ ha) (.cons hb .nil)
  | ternary op x y z =>
    refine (h x state hw).bind fun a s₁ _ hw ha => ?_
    refine (h y s₁ hw).bind fun b s₂ h₂ hw hb => ?_
    refine (h z s₂ hw).bind fun c s₃ h₃ hw hc => .pure hw ⟨rfl, ?_⟩
    exact .cons (hmono x a (h₂.trans h₃) ha) (.cons (hmono y b h₃ hb) (.cons hc .nil))

end Wires

/-! ## Nodes -/

theorem wires_input (hw : net.Wired state) (type : InputType) (value : Option Literal)
    (color : Option String) : Wires net state (type.resolve value color) fun _ _ => True := by
  cases type with
  | viewDirection =>
    simp only [InputType.resolve]
    refine (Wires.make hw _).bind fun camera _ _ hw _ => ?_
    refine (Wires.make hw _).bind fun position _ _ hw _ => ?_
    refine (Wires.make hw _).bind fun towardsCamera _ _ hw _ => ?_
    exact (Wires.make hw _).imp fun _ _ _ => trivial
  | _ => exact (Wires.make hw _).imp fun _ _ _ => trivial

theorem wires_blend (hw : net.Wired state) {id : NodeId} {primary secondary : ExprId}
    (hprimary : net.Takes state ⟨id, .primary⟩ (.vec3 codePrimary) primary)
    (hsecondary : net.Takes state ⟨id, .secondary⟩ (.vec3 codeSecondary) secondary)
    (function : CodeFunction) (source : String) (socket : Socket) :
    Wires net state (do
      let f ← Resolve.makeFunction function
      let uv ← Resolve.make (.builtin .uv)
      let factor ← Resolve.make (.call f primary secondary uv)
      some <$> Resolve.make (.apply (.ternary .mix primary secondary factor)))
      fun later answer => net.Makes later id (.code source socket) answer := by
  refine (Wires.makeFunction hw function).bind fun f s₁ h₁ hw _ => ?_
  refine (Wires.make hw _).bind fun uv s₂ h₂ hw _ => ?_
  refine (Wires.make hw _).bind fun factor s₃ h₃ hw hcall => ?_
  refine (Wires.make hw _).bind fun e s₄ h₄ hw hblend => .pure hw ?_
  have hkept := ((h₁.trans h₂).trans h₃).trans h₄
  exact .code hblend (h₄.exprs _ _ hcall) (hprimary.mono hkept) (hsecondary.mono hkept)

theorem wires_node (hw : net.Wired state) (id : NodeId) (node : Node)
    {feed : PinKey → Resolve (Option ExprId)}
    (hfeed : ∀ key later, net.Wired later →
      Wires net later (feed key) fun latest answer => net.Brings latest ⟨id, key⟩ answer) :
    Wires net state (node.resolve feed) fun later answer =>
      net.Makes later id node.kind answer := by
  simp only [Node.resolve]
  cases node.kind with
  | input type value color =>
    have hinput : ∀ value, Wires net state (some <$> type.resolve value color)
        fun later answer => net.Makes later id (.input type value color) answer :=
      fun value => (wires_input hw type value color).bind fun e _ _ hw _ => .pure hw (.input e)
    cases value with
    | none => exact hinput none
    | some literal =>
      by_cases hf : literal.isFinite = true
      · simp only [hf, if_true]
        exact hinput (some literal)
      · simp only [hf, Bool.false_eq_true, if_false]
        exact .halt hw _
  | math type =>
    refine (Wires.mapM (R := fun later pin operand => net.Takes later ⟨id, pin.key⟩
      (pin.socket.unconnected.shapedFor pin.socket) operand) hw ?_ ?_).bind
      fun application s₁ _ hw hoperands => ?_
    · intro earlier later pin operand h htakes
      exact htakes.mono h
    · intro pin later hw
      refine (hfeed pin.key later hw).bind fun answer s₁ _ hw hbrings => ?_
      exact .orLiteral hw hbrings _
    · refine (Wires.make hw _).bind fun e s₂ h₂ hw hentry => .pure hw ?_
      exact .math hentry hoperands.1 (hoperands.2.imp fun _ _ htakes => htakes.mono h₂)
  | output channel => exact .pure hw (.output channel)
  | code source socket =>
    refine (hfeed .primary state hw).bind fun answer s₁ _ hw hbrings => ?_
    refine (Wires.orLiteral hw hbrings _).bind fun primary s₂ _ hw hprimary => ?_
    refine (hfeed .secondary s₂ hw).bind fun answer s₃ h₃ hw hbrings => ?_
    refine (Wires.orLiteral hw hbrings _).bind fun secondary s₄ h₄ hw hsecondary => ?_
    cases CodeFunction.make (CodeFunction.nameOfNode node.id) source with
    | error error => exact .halt hw _
    | ok function =>
      exact wires_blend hw (hprimary.mono (h₃.trans h₄)) hsecondary function source socket

/-! ## Pins -/

/-- A pin of a node that is there, resolved while it is marked and remembered
afterwards. -/
theorem wires_kept (hw : net.Wired state) {pin : Endpoint} {node : Node}
    (hnode : net.node? pin.node = some node) (hnew : state.cached? pin = none)
    (hpin : pin ∉ state.inProgress) {x : Resolve (Option ExprId)}
    (hx : net.Wired (state.marking pin) → Wires net (state.marking pin) x fun later answer =>
      pin.pin = .out → net.Makes later pin.node node.kind answer) :
    Wires net state (do
      let answer ← Resolve.marked pin x
      Resolve.remember pin answer
      pure answer) fun later answer => net.Answers later pin answer := by
  have hmark : state.Extends (state.marking pin) := ⟨fun _ _ h => h, fun _ _ h => h⟩
  obtain ⟨hk, hp, hw', ha⟩ := hx (hw.of_extends hmark rfl (hw.clear.marking hnew))
  have hrun := run_kept pin x state
  rcases hr : x (state.marking pin) with ⟨result, after⟩
  simp only [hr] at hk hp hw' ha hrun
  -- The pin is marked until the step is done, so that it has no answer up to there.
  obtain ⟨hmarks, hafter, hclear⟩ := hw'.clear.of_marked hp
  cases result with
  | error reason =>
    have hunmark : after.Extends (after.unmarking pin) := ⟨fun _ _ h => h, fun _ _ h => h⟩
    refine .of_run hrun ((hmark.trans hk).trans hunmark) hmarks
      (hw'.of_extends hunmark rfl ?_) fun a h => nomatch h
    show after.Clear (after.inProgress.erase pin)
    rw [hmarks]
    exact hclear
  | ok answer =>
    have hremember : after.Extends (after.remembering pin answer) :=
      ⟨fun _ _ h => h, Resolution.remembers_remembering hafter answer⟩
    refine .of_run hrun ((hmark.trans hk).trans hremember) hmarks ⟨?_, ?_⟩ ?_
    · intro id answer' h
      rw [Resolution.cached?_remembering] at h
      split at h
      · -- The answer that is new.
        next hid =>
        obtain rfl : answer = answer' := Option.some.inj h
        subst hid
        exact ⟨node, hnode, (ha answer rfl rfl).mono hremember⟩
      · obtain ⟨other, hother, hmakes⟩ := hw'.made id answer' h
        exact ⟨other, hother, hmakes.mono hremember⟩
    · show (after.remembering pin answer).Clear (after.inProgress.erase pin)
      rw [hmarks]
      exact hclear.remembering hpin answer
    · intro answer' h
      obtain rfl := Except.ok.inj h
      left
      rw [Resolution.cached?_remembering, if_pos rfl]

/-- **The walk to a pin keeps the wiring**, and the pin has an answer afterwards. -/
theorem wires_resolveOutputWithin (net : Network) (depth : Nat) (pin : Endpoint)
    (state : Resolution) (hw : net.Wired state) :
    Wires net state (net.resolveOutputWithin depth pin) fun later answer =>
      net.Answers later pin answer := by
  induction depth generalizing pin state with
  | zero => exact .halt hw _
  | succ depth ih =>
    cases hcached : state.cached? pin with
    | some answer =>
      refine .congr ?_ (.pure hw (.inl hcached))
      simp only [resolveOutputWithin, hcached, Resolve.pure]
    | none =>
      cases hnode : net.node? pin.node with
      | none =>
        refine .congr ?_ (.pure hw (.inr ⟨hnode, rfl⟩))
        simp only [resolveOutputWithin, hcached, hnode, Resolve.pure]
      | some node =>
        by_cases hpin : pin ∈ state.inProgress
        · refine .congr ?_ (.halt hw (.failed (.cycle pin)))
          simp only [resolveOutputWithin, hcached, hnode, hpin, if_true, Resolve.halt]
        · refine .congr (by simp only [resolveOutputWithin, hcached, hnode, hpin, if_false]; rfl)
            (wires_kept hw hnode hcached hpin fun hmarked => ?_)
          by_cases hout : pin.pin = .out
          · simp only [hout, if_true]
            refine (wires_node hmarked pin.node node fun key later hw => ?_).imp
              fun _ _ hmakes _ => hmakes
            unfold Brings
            cases net.feeding? ⟨pin.node, key⟩ with
            | none => exact .pure hw rfl
            | some edge => exact ih edge.source later hw
          · simp only [hout, if_false]
            exact .pure hmarked fun h => h.elim

theorem wires_resolveInput (hw : net.Wired state) (pin : Endpoint) :
    Wires net state (net.resolveInput pin) fun later answer => net.Brings later pin answer := by
  unfold resolveInput Brings
  cases net.feeding? pin with
  | none => exact .pure hw rfl
  | some edge => exact wires_resolveOutputWithin net net.depthBound edge.source state hw

/-! ## Channels -/

theorem wires_resolveChannelWith (hw : net.Wired state) (defaults : MaterialDefaults)
    (channel : Channel) :
    Wires net state (net.resolveChannelWith defaults channel) fun later e =>
      ∀ node, net.output? channel = some node → net.Takes later ⟨node.id, .input⟩
        ((defaults.channel channel).shapedFor channel.socket) e := by
  unfold resolveChannelWith resolveChannel
  by_cases hf : (defaults.channel channel).isFinite = true
  · simp only [hf, if_true]
    cases houtput : net.output? channel with
    | none => exact (Wires.make hw _).imp fun _ _ _ node h => nomatch h
    | some node =>
      refine (wires_resolveInput hw _).bind fun answer s₁ _ hw hbrings => ?_
      -- The node is the only one that the statement is about.
      have hnode : ∀ node', some node = some node' → node = node' := fun _ => Option.some.inj
      cases answer with
      | some e =>
        refine .pure hw fun node' h => ?_
        obtain rfl := hnode node' h
        exact ⟨some e, hbrings, rfl⟩
      | none =>
        refine (Wires.report hw _).bind fun _ s₂ h₂ hw _ => ?_
        refine (Wires.orLiteral hw (hbrings.mono h₂) _).imp fun later e htakes node' h => ?_
        obtain rfl := hnode node' h
        exact htakes
  · simp only [hf, Bool.false_eq_true, if_false]
    exact .halt hw _

/-- **A compilation keeps the wiring**, and every channel takes what feeds its output
node. -/
theorem wires_resolveChannels (hw : net.Wired state) (defaults : MaterialDefaults) :
    Wires net state (net.resolveChannels defaults) fun later channels =>
      ∀ channel node, net.output? channel = some node → net.Takes later ⟨node.id, .input⟩
        ((defaults.channel channel).shapedFor channel.socket) (channels.get channel) := by
  have hstep := fun {s : Resolution} (hw : net.Wired s) (channel : Channel) =>
    wires_resolveChannelWith hw defaults channel
  refine (hstep hw .baseColor).bind fun baseColor s₁ _ hw hbaseColor => ?_
  refine (hstep hw .emissive).bind fun emissive s₂ h₂ hw hemissive => ?_
  refine (hstep hw .roughness).bind fun roughness s₃ h₃ hw hroughness => ?_
  refine (hstep hw .metalness).bind fun metalness s₄ h₄ hw hmetalness => ?_
  refine (hstep hw .opacity).bind fun opacity s₅ h₅ hw hopacity => ?_
  refine (hstep hw .normal).bind fun normal s₆ h₆ hw hnormal => .pure hw ?_
  -- What a channel took stays where it was put while the others are resolved.
  have l₅ := h₅.trans h₆
  have l₄ := h₄.trans l₅
  have l₃ := h₃.trans l₄
  intro channel node houtput
  cases channel with
  | baseColor => exact (hbaseColor node houtput).mono (h₂.trans l₃)
  | emissive => exact (hemissive node houtput).mono l₃
  | roughness => exact (hroughness node houtput).mono l₄
  | metalness => exact (hmetalness node houtput).mono l₅
  | normal => exact hnormal node houtput
  | opacity => exact (hopacity node houtput).mono h₆

end Network

end ShaderGraph
