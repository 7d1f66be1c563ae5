import ShaderGraph.Resolution

/-
What every walk leaves alone.

A walk to a pin is made of few kinds of steps: it adds an expression or a
function, marks a pin for as long as another walk runs, and remembers an answer. A
relation between resolutions that each of these keeps (`Frame`) holds between the
resolution before and after every walk, however it ends
(`Frame.keeps_resolveOutput`). The messages for the user are an instance: a walk
to a pin adds none.
-/
namespace ShaderGraph

/-- A relation between resolutions that the kinds of steps of a walk keep. -/
structure Frame (r : Resolution → Resolution → Prop) : Prop where
  refl : ∀ state, r state state
  trans : ∀ {state later latest}, r state later → r later latest → r state latest
  make : ∀ e state, r state (Resolve.make e state).2
  makeFunction : ∀ f state, r state (Resolve.makeFunction f state).2
  remember : ∀ pin answer state, r state (Resolve.remember pin answer state).2
  marked : ∀ pin state after, r { state with inProgress := pin :: state.inProgress } after →
    r state { after with inProgress := after.inProgress.erase pin }

/-- The relation holds between the resolution before a step and after it. -/
def Resolve.Keeps {α : Type} (r : Resolution → Resolution → Prop) (x : Resolve α) : Prop :=
  ∀ state, r state (x state).2

namespace Frame

variable {α β : Type} {r : Resolution → Resolution → Prop}

theorem keeps_pure (h : Frame r) (a : α) : (Resolve.pure a).Keeps r := h.refl

theorem keeps_halt (h : Frame r) (halt : Halt) : (Resolve.halt halt : Resolve α).Keeps r := h.refl

theorem keeps_bind (h : Frame r) {x : Resolve α} {f : α → Resolve β} (hx : x.Keeps r)
    (hf : ∀ a, (f a).Keeps r) : (Resolve.bind x f).Keeps r := by
  intro state
  have hstep := hx state
  simp only [Resolve.bind]
  rcases hrun : x state with ⟨_ | a, later⟩ <;> rw [hrun] at hstep
  · exact hstep
  · exact h.trans hstep (hf a later)

theorem keeps_map (h : Frame r) {x : Resolve α} (hx : x.Keeps r) (f : α → β) :
    Resolve.Keeps r (f <$> x) :=
  h.keeps_bind hx fun a => h.keeps_pure (f a)

theorem keeps_marked (h : Frame r) {x : Resolve α} (hx : x.Keeps r) (pin : Endpoint) :
    (Resolve.marked pin x).Keeps r := by
  intro state
  exact h.marked pin state _ (hx _)

theorem keeps_mapM (h : Frame r) {f : α → Resolve β} (hf : ∀ a, (f a).Keeps r)
    (application : Application α) : (application.mapM f).Keeps r := by
  cases application with
  | unary op x => exact h.keeps_bind (hf x) fun _ => h.keeps_pure _
  | binary op x y =>
    exact h.keeps_bind (hf x) fun _ => h.keeps_bind (hf y) fun _ => h.keeps_pure _
  | ternary op x y z =>
    exact h.keeps_bind (hf x) fun _ => h.keeps_bind (hf y) fun _ =>
      h.keeps_bind (hf z) fun _ => h.keeps_pure _

/-! ## Nodes -/

theorem keeps_orLiteral (h : Frame r) (value : Option ExprId) (fallback : Literal) :
    (orLiteral value fallback).Keeps r := by
  cases value with
  | none => exact h.make _
  | some id => exact h.keeps_pure id

theorem keeps_input (h : Frame r) (type : InputType) (value : Option Literal)
    (color : Option String) : (type.resolve value color).Keeps r := by
  cases type with
  | viewDirection =>
    exact h.keeps_bind (h.make _) fun _ => h.keeps_bind (h.make _) fun _ =>
      h.keeps_bind (h.make _) fun _ => h.make _
  | _ => exact h.make _

theorem keeps_node (h : Frame r) {feed : PinKey → Resolve (Option ExprId)}
    (hfeed : ∀ key, (feed key).Keeps r) (node : Node) : (node.resolve feed).Keeps r := by
  simp only [Node.resolve]
  cases node.kind with
  | input type value color =>
    cases value with
    | none => exact h.keeps_map (h.keeps_input type none color) some
    | some literal =>
      by_cases hf : literal.isFinite = true
      · simp only [hf, if_true]
        exact h.keeps_map (h.keeps_input type (some literal) color) some
      · simp only [hf, Bool.false_eq_true, if_false]
        exact h.keeps_halt _
  | math type =>
    refine h.keeps_bind (h.keeps_mapM (fun pin => ?_) _) fun _ => h.keeps_map (h.make _) some
    exact h.keeps_bind (hfeed pin.key) fun _ => h.keeps_orLiteral _ _
  | output channel => exact h.keeps_pure none
  | code source socket =>
    refine h.keeps_bind (hfeed .primary) fun _ => h.keeps_bind (h.keeps_orLiteral _ _) fun _ => ?_
    refine h.keeps_bind (hfeed .secondary) fun _ => h.keeps_bind (h.keeps_orLiteral _ _) fun _ => ?_
    cases CodeFunction.make (CodeFunction.nameOfNode node.id) source with
    | error error => exact h.keeps_halt _
    | ok function =>
      exact h.keeps_bind (h.makeFunction _) fun _ => h.keeps_bind (h.make _) fun _ =>
        h.keeps_bind (h.make _) fun _ => h.keeps_map (h.make _) some

/-! ## Pins -/

theorem keeps_resolveOutputWithin (h : Frame r) (net : Network) (depth : Nat) (pin : Endpoint) :
    (net.resolveOutputWithin depth pin).Keeps r := by
  induction depth generalizing pin with
  | zero => exact h.keeps_halt _
  | succ depth ih =>
    intro state
    simp only [Network.resolveOutputWithin]
    -- A pin that has an answer, whose node is not there, or that is under way, changes
    -- nothing; any other is marked while its node is resolved, and then remembered.
    cases state.cached? pin with
    | some answer => exact h.refl state
    | none =>
      cases net.node? pin.node with
      | none => exact h.refl state
      | some node =>
        by_cases hpin : pin ∈ state.inProgress
        · simp only [hpin, if_true]
          exact h.refl state
        · simp only [hpin, if_false]
          refine h.keeps_bind (h.keeps_marked ?_ pin) (fun answer => h.keeps_bind
            (h.remember pin answer) fun _ => h.keeps_pure answer) state
          by_cases hout : pin.pin = .out
          · simp only [hout, if_true]
            refine h.keeps_node (fun key => ?_) node
            cases net.feeding? ⟨pin.node, key⟩ with
            | some edge => exact ih edge.source
            | none => exact h.keeps_pure none
          · simp only [hout, if_false]
            exact h.keeps_pure none

theorem keeps_resolveOutput (h : Frame r) (net : Network) (pin : Endpoint) :
    (net.resolveOutput pin).Keeps r :=
  h.keeps_resolveOutputWithin net net.depthBound pin

theorem keeps_resolveInput (h : Frame r) (net : Network) (pin : Endpoint) :
    (net.resolveInput pin).Keeps r := by
  unfold Network.resolveInput
  split
  · exact h.keeps_resolveOutput net _
  · exact h.keeps_pure none

end Frame

theorem frame_diagnostics : Frame fun state later => later.diagnostics = state.diagnostics where
  refl _ := rfl
  trans h h' := h'.trans h
  make _ _ := rfl
  makeFunction _ _ := rfl
  remember _ _ _ := rfl
  marked _ _ _ h := h

theorem Network.diagnostics_resolveInput (net : Network) (pin : Endpoint) (state : Resolution) :
    (net.resolveInput pin state).2.diagnostics = state.diagnostics :=
  frame_diagnostics.keeps_resolveInput net pin state

end ShaderGraph
