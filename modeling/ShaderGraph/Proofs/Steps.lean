import ShaderGraph.Material
import ShaderGraph.Proofs.Finiteness
import ShaderGraph.Proofs.Memory
import Mathlib.Logic.Relation

/-
What a walk does, one step at a time.

A walk that answers does one thing after another to the resolution: it adds a finite
literal, a value of the renderer or an operator over expressions that are there, it marks
a pin, and it keeps the answer of the pin that was marked last. A code node is one step
too: its function, the call of it, the blend by the call and the answer are added
together (`Network.Step`). An expression that is offered, to operands and as an answer,
is never a call: a call is held by the blend that was made with it and by nothing else.

`Walks net state x Q`: if the step `x` answers, run in `state`, then it went there by
steps, left the marks as they were, and `Q` holds of what it answers. The compilation of
all channels walks (`walks_resolveChannels`). So what each step keeps holds of every
compilation that yields expressions.
-/
namespace ShaderGraph

/-- The expression calls a code function. -/
def Expr.isCall : Expr → Bool
  | call .. => true
  | _ => false

/-- The function of a code node: its source, under the name made of its id. -/
def Node.function? (node : Node) : Option CodeFunction :=
  match node.kind with
  | .code source _ => some ⟨CodeFunction.nameOfNode node.id, source⟩
  | _ => none

theorem CodeFunction.eq_of_make {name body : String} {f : CodeFunction}
    (h : CodeFunction.make name body = .ok f) : f = ⟨name, body⟩ := by
  unfold CodeFunction.make at h
  split at h
  · cases h
  · split at h
    · cases h
    · exact (Except.ok.inj h).symm

def Network.function? (net : Network) (id : NodeId) : Option CodeFunction :=
  (net.node? id).bind Node.function?

namespace Resolution

variable (state : Resolution)

def next : ExprId := state.expressions.exprs.size

/-- The resolution with one more expression. -/
def adding (e : Expr) : Resolution := { state with expressions := (state.expressions.add e).2 }

def addingFunction (f : CodeFunction) : Resolution :=
  { state with expressions := (state.expressions.addFunction f).2 }

/-- The resolution with all that a code node makes: its function, the texture coordinates, the
call of the function, and the blend of the operands by the call. -/
def blending (f : CodeFunction) (primary secondary : ExprId) : Resolution :=
  let call := .call state.expressions.functions.size primary secondary state.next
  (((state.addingFunction f).adding (.builtin .uv)).adding call).adding
    (.apply (.ternary .mix primary secondary (state.next + 1)))

/-- The place holds an expression that is no call. -/
def Offers (id : ExprId) : Prop :=
  ∃ e, state.expressions.exprs[id]? = some e ∧ e.isCall = false

def Offering : Prop := ∀ pin e, state.cached? pin = some (some e) → state.Offers e

variable {state}

@[simp] theorem next_adding (state : Resolution) (e : Expr) :
    (state.adding e).next = state.next + 1 := by
  simp [next, adding, Expressions.add]

theorem get_adding {e e' : Expr} {id : ExprId} :
    (state.adding e).expressions.exprs[id]? = some e' ↔
      state.expressions.exprs[id]? = some e' ∨ id = state.next ∧ e' = e := by
  simp only [adding, Expressions.add, Array.getElem?_push, next]
  by_cases hid : id = state.expressions.exprs.size
  · simp [hid, eq_comm]
  · simp [hid]

theorem get_blending {f : CodeFunction} {primary secondary id : ExprId} {e : Expr} :
    (state.blending f primary secondary).expressions.exprs[id]? = some e ↔
      state.expressions.exprs[id]? = some e ∨ id = state.next ∧ e = .builtin .uv ∨
        id = state.next + 1 ∧
          e = .call state.expressions.functions.size primary secondary state.next ∨
        id = state.next + 2 ∧
          e = .apply (.ternary .mix primary secondary (state.next + 1)) := by
  simp only [blending, get_adding, next_adding, addingFunction,
    Expressions.addFunction, or_assoc]
  rfl

theorem offers_adding (state : Resolution) {e : Expr} (he : e.isCall = false) :
    (state.adding e).Offers state.next :=
  ⟨e, get_adding.mpr (.inr ⟨rfl, rfl⟩), he⟩

theorem offers_blending (state : Resolution) (f : CodeFunction) (primary secondary : ExprId) :
    (state.blending f primary secondary).Offers (state.next + 2) :=
  ⟨_, get_blending.mpr (.inr (.inr (.inr ⟨rfl, rfl⟩))), rfl⟩

theorem offering_start : Offering .start := fun _ _ h => (nomatch h)

end Resolution

namespace Network

open Resolution (Offering)

/-- What a walk that answers does at a time. -/
inductive Step (net : Network) : Resolution → Resolution → Prop
  | literal (state : Resolution) {value : Literal} (hfinite : value.isFinite = true) :
      Step net state (state.adding (.literal value))
  | builtin (state : Resolution) (value : Builtin) :
      Step net state (state.adding (.builtin value))
  | apply {state : Resolution} {application : Application ExprId}
      (hoperands : ∀ x ∈ application.operands, state.Offers x) :
      Step net state (state.adding (.apply application))
  | report (state : Resolution) (diagnostics : List String) :
      Step net state { state with diagnostics }
  | mark {state : Resolution} {pin : Endpoint} (hnew : state.cached? pin = none)
      (hpin : pin ∉ state.inProgress) : Step net state (state.marking pin)
  | answer {state : Resolution} {pin : Endpoint} {rest : List Endpoint} {answer : Option ExprId}
      (hmarks : state.inProgress = pin :: rest)
      (hkind : pin.pin = .out → net.function? pin.node = none)
      (hoffers : ∀ e ∈ answer, state.Offers e) : Step net state (state.remembering pin answer)
  | code {state : Resolution} {id : NodeId} {rest : List Endpoint} {f : CodeFunction}
      {primary secondary : ExprId} (hmarks : state.inProgress = ⟨id, .out⟩ :: rest)
      (hkind : net.function? id = some f) (hprimary : state.Offers primary)
      (hsecondary : state.Offers secondary) :
      Step net state ((state.blending f primary secondary).remembering ⟨id, .out⟩
        (some (state.next + 2)))

/-- One step after another. -/
def Steps (net : Network) : Resolution → Resolution → Prop := Relation.ReflTransGen net.Step

section Kept

variable {net : Network} {state later latest : Resolution}

theorem Steps.refl (state : Resolution) : net.Steps state state := Relation.ReflTransGen.refl

theorem Steps.trans (h : net.Steps state later) (h' : net.Steps later latest) :
    net.Steps state latest :=
  Relation.ReflTransGen.trans h h'

theorem Step.steps (h : net.Step state later) : net.Steps state later :=
  Relation.ReflTransGen.single h

/-- What each step keeps holds after all of them if it held before. -/
theorem Steps.keep {P : Resolution → Prop} (h : net.Steps state later)
    (hstep : ∀ {state later}, net.Step state later → P state → P later) (hs : P state) :
    P later := by
  induction h with
  | refl => exact hs
  | tail _ hlast ih => exact hstep hlast ih

theorem Step.exprs (h : net.Step state later) {id : ExprId} {e : Expr}
    (he : state.expressions.exprs[id]? = some e) : later.expressions.exprs[id]? = some e := by
  cases h with
  | literal | builtin | apply => exact Resolution.get_adding.mpr (.inl he)
  | report | mark | answer => exact he
  | code => exact Resolution.get_blending.mpr (.inl he)

theorem Step.offers (h : net.Step state later) {id : ExprId} (ho : state.Offers id) :
    later.Offers id := by
  obtain ⟨e, he, hcall⟩ := ho
  exact ⟨e, h.exprs he, hcall⟩

theorem Steps.offers (h : net.Steps state later) {id : ExprId} (ho : state.Offers id) :
    later.Offers id :=
  h.keep (fun hstep => hstep.offers) ho

/-- An answer is one that was kept before, or the one of the pin that a step answered. -/
theorem Step.cached? (h : net.Step state later) {pin : Endpoint} {e : ExprId}
    (hkept : later.cached? pin = some (some e)) :
    state.cached? pin = some (some e) ∨ later.Offers e := by
  cases h with
  | literal | builtin | apply | report | mark => exact .inl hkept
  | answer _ _ hoffers =>
    rw [Resolution.cached?_remembering] at hkept
    split at hkept
    · exact .inr (hoffers e (Option.some.inj hkept))
    · exact .inl hkept
  | code =>
    rw [Resolution.cached?_remembering] at hkept
    split at hkept
    · obtain rfl := Option.some.inj (Option.some.inj hkept)
      exact .inr (state.offers_blending _ _ _)
    · exact .inl hkept

theorem Steps.offering (h : net.Steps state later) (hs : state.Offering) : later.Offering := by
  refine h.keep (fun hstep hs pin e hkept => ?_) hs
  rcases hstep.cached? hkept with hbefore | hnew
  · exact hstep.offers (hs pin e hbefore)
  · exact hnew

end Kept

/-! ## Walks -/

/-- If `x` answers, run in `state`, it went there by steps and left the marks as they were,
and `Q` holds of what it answers. -/
def Walks (net : Network) (state : Resolution) {α : Type} (x : Resolve α)
    (Q : Resolution → α → Prop) : Prop :=
  ∀ a later, x state = (.ok a, later) →
    net.Steps state later ∧ later.inProgress = state.inProgress ∧ Q later a

def OffersAnswer (state : Resolution) (answer : Option ExprId) : Prop :=
  ∀ e ∈ answer, state.Offers e

namespace Walks

variable {net : Network} {state : Resolution} {α β : Type} {Q : Resolution → α → Prop}
  {P : Resolution → β → Prop}

theorem pure {a : α} (h : Q state a) : Walks net state (Resolve.pure a) Q := by
  rintro a' later hrun
  obtain ⟨rfl, rfl⟩ : a = a' ∧ state = later := by simpa [Resolve.pure] using hrun
  exact ⟨.refl state, rfl, h⟩

theorem halt (reason : Halt) : Walks net state (Resolve.halt reason : Resolve α) Q := by
  intro a later hrun
  cases hrun

theorem congr {x x' : Resolve α} (h : x state = x' state) (hx : Walks net state x' Q) :
    Walks net state x Q := by
  intro a later hrun
  rw [h] at hrun
  exact hx a later hrun

theorem of_bind {x : Resolve α} {f : α → Resolve β} (hx : Walks net state x Q) {b : β}
    {last : Resolution} (hrun : Resolve.bind x f state = (.ok b, last)) :
    ∃ a later, net.Steps state later ∧ later.inProgress = state.inProgress ∧ Q later a ∧
      f a later = (.ok b, last) := by
  simp only [Resolve.bind] at hrun
  rcases hfirst : x state with ⟨_ | a, later⟩ <;> rw [hfirst] at hrun
  · cases hrun
  · obtain ⟨hsteps, hmarks, ha⟩ := hx a later hfirst
    exact ⟨a, later, hsteps, hmarks, ha, hrun⟩

theorem bind {x : Resolve α} {f : α → Resolve β} (hx : Walks net state x Q)
    (hf : ∀ a later, net.Steps state later → Q later a → Walks net later (f a) P) :
    Walks net state (Resolve.bind x f) P := by
  intro b last hrun
  obtain ⟨a, later, hsteps, hmarks, ha, hrun⟩ := hx.of_bind hrun
  obtain ⟨hsteps', hmarks', hb⟩ := hf a later hsteps ha b last hrun
  exact ⟨hsteps.trans hsteps', hmarks'.trans hmarks, hb⟩

theorem make {e : Expr} (h : net.Step state (state.adding e)) (he : e.isCall = false) :
    Walks net state (Resolve.make e) Resolution.Offers := by
  rintro id later hrun
  obtain ⟨rfl, rfl⟩ : state.next = id ∧ state.adding e = later := by
    simpa [Resolve.make, Resolution.next, Resolution.adding, Expressions.add] using hrun
  exact ⟨h.steps, rfl, state.offers_adding he⟩

theorem literal {value : Literal} (hfinite : value.isFinite = true) :
    Walks net state (Resolve.make (.literal value)) Resolution.Offers :=
  make (.literal state hfinite) rfl

theorem builtin (value : Builtin) :
    Walks net state (Resolve.make (.builtin value)) Resolution.Offers :=
  make (.builtin state value) rfl

theorem apply {application : Application ExprId}
    (hoperands : ∀ x ∈ application.operands, state.Offers x) :
    Walks net state (Resolve.make (.apply application)) Resolution.Offers :=
  make (.apply hoperands) rfl

theorem report (message : String) :
    Walks net state (Resolve.report message) fun _ _ => True := by
  rintro a later hrun
  obtain rfl : _ = later := (Prod.mk.inj hrun).2
  exact ⟨(Step.report state _).steps, rfl, trivial⟩

theorem orLiteral {answer : Option ExprId} (ha : OffersAnswer state answer) {fallback : Literal}
    (hfinite : fallback.isFinite = true) :
    Walks net state (orLiteral answer fallback) Resolution.Offers := by
  cases answer with
  | some e => exact .pure (ha e rfl)
  | none => exact literal hfinite

/-- Operands one after the other: what is offered stays so while the others are made. -/
theorem mapM {ι : Type} {f : ι → Resolve ExprId} {application : Application ι}
    (hs : state.Offering)
    (h : ∀ i later, later.Offering → Walks net later (f i) Resolution.Offers) :
    Walks net state (application.mapM f) fun later ids =>
      ∀ x ∈ ids.operands, later.Offers x := by
  cases application with
  | unary op x =>
    refine (h x state hs).bind fun a s₁ _ ha => .pure ?_
    simpa [Application.operands] using ha
  | binary op x y =>
    refine (h x state hs).bind fun a s₁ h₁ ha => ?_
    refine (h y s₁ (h₁.offering hs)).bind fun b s₂ h₂ hb => .pure ?_
    simpa [Application.operands] using ⟨h₂.offers ha, hb⟩
  | ternary op x y z =>
    refine (h x state hs).bind fun a s₁ h₁ ha => ?_
    refine (h y s₁ (h₁.offering hs)).bind fun b s₂ h₂ hb => ?_
    refine (h z s₂ (h₂.offering (h₁.offering hs))).bind fun c s₃ h₃ hc => .pure ?_
    simpa [Application.operands] using ⟨(h₂.trans h₃).offers ha, h₃.offers hb, hc⟩

end Walks

/-! ## Nodes -/

section Nodes

variable {net : Network} {state : Resolution}

theorem walks_input (net : Network) (state : Resolution) (type : InputType)
    {value : Option Literal} (hfinite : ∀ literal ∈ value, literal.isFinite = true)
    (color : Option String) :
    Walks net state (type.resolve value color) Resolution.Offers := by
  cases type with
  | float | vec2 | vec3 =>
    -- A value of another shape gives way to a constant.
    refine .literal ?_
    split
    · exact hfinite _ rfl
    · decide
  | color =>
    refine .literal ?_
    cases hread : color.bind HexColor.read? with
    | none => decide
    | some read =>
      obtain ⟨text, -, htext⟩ := Option.bind_eq_some_iff.mp hread
      exact HexColor.isFinite_read? htext
  | viewDirection =>
    simp only [InputType.resolve]
    refine (Walks.builtin _).bind fun camera s₁ _ hcamera => ?_
    refine (Walks.builtin _).bind fun position s₂ h₂ hposition => ?_
    refine (Walks.apply ?_).bind fun towards s₃ _ htowards => .apply ?_
    · simpa [Application.operands] using ⟨h₂.offers hcamera, hposition⟩
    · simpa [Application.operands] using htowards
  | _ => exact .builtin _

theorem walks_node (hs : state.Offering) {node : Node} (hkind : node.function? = none)
    {feed : PinKey → Resolve (Option ExprId)}
    (hfeed : ∀ key later, later.Offering → Walks net later (feed key) OffersAnswer) :
    Walks net state (node.resolve feed) OffersAnswer := by
  have hsome : ∀ {x : Resolve ExprId}, Walks net state x Resolution.Offers →
      Walks net state (some <$> x) OffersAnswer := fun hx =>
    hx.bind fun e later _ he => .pure fun _ ha => Option.some.inj ha ▸ he
  simp only [Node.resolve, Node.function?] at hkind ⊢
  cases hnode : node.kind with
  | input type value color =>
    cases value with
    | none => exact hsome (walks_input net state type (fun _ h => by cases h) color)
    | some literal =>
      by_cases hf : literal.isFinite = true
      · simp only [hf, if_true]
        refine hsome (walks_input net state type (fun _ h => ?_) color)
        exact Option.some.inj h ▸ hf
      · simp only [hf, Bool.false_eq_true, if_false]
        exact .halt _
  | math type =>
    refine (Walks.mapM hs fun pin later hs => ?_).bind fun application later _ ha => ?_
    · refine (hfeed pin.key later hs).bind fun answer _ _ ha => .orLiteral ha ?_
      exact Literal.isFinite_shapedFor (Literal.isFinite_unconnected _) _
    · refine (Walks.apply ha).bind fun e latest _ he => .pure fun _ ha => ?_
      exact Option.some.inj ha ▸ he
  | output channel => exact .pure fun _ h => by cases h
  | code source socket =>
    rw [hnode] at hkind
    cases hkind

theorem run_blend (state : Resolution) (f : CodeFunction) (primary secondary : ExprId) :
    (do
      let function ← Resolve.makeFunction f
      let uv ← Resolve.make (.builtin .uv)
      let factor ← Resolve.make (.call function primary secondary uv)
      some <$> Resolve.make (.apply (.ternary .mix primary secondary factor))) state =
      (.ok (some (state.next + 2)), state.blending f primary secondary) := by
  let called := (state.addingFunction f).adding (.builtin .uv)
  let blended := called.adding (.call state.expressions.functions.size primary secondary state.next)
  show (Except.ok (some blended.next),
    blended.adding (.apply (.ternary .mix primary secondary called.next))) = _
  rw [Resolution.next_adding, Resolution.next_adding]
  rfl

/-- A code node makes its blend once its inputs are there. -/
theorem run_code (hs : state.Offering) {node : Node} {f : CodeFunction}
    (hkind : node.function? = some f) {feed : PinKey → Resolve (Option ExprId)}
    (hfeed : ∀ key later, later.Offering → Walks net later (feed key) OffersAnswer)
    {answer : Option ExprId} {later : Resolution}
    (hrun : node.resolve feed state = (.ok answer, later)) :
    ∃ before primary secondary, net.Steps state before ∧ before.inProgress = state.inProgress ∧
      before.Offers primary ∧ before.Offers secondary ∧ answer = some (before.next + 2) ∧
      later = before.blending f primary secondary := by
  obtain ⟨source, socket, hcode, rfl⟩ : ∃ source socket, node.kind = .code source socket ∧
      ⟨CodeFunction.nameOfNode node.id, source⟩ = f := by
    unfold Node.function? at hkind
    cases hnode : node.kind <;> rw [hnode] at hkind
    case code source socket => exact ⟨source, socket, rfl, Option.some.inj hkind⟩
    all_goals cases hkind
  simp only [Node.resolve, hcode] at hrun
  obtain ⟨_, s₁, h₁, m₁, hanswer, hrun⟩ := (hfeed .primary state hs).of_bind hrun
  obtain ⟨primary, s₂, h₂, m₂, hprimary, hrun⟩ :=
    (Walks.orLiteral hanswer Literal.isFinite_codePrimary).of_bind hrun
  have hs₂ := (h₁.trans h₂).offering hs
  obtain ⟨_, s₃, h₃, m₃, hanswer, hrun⟩ := (hfeed .secondary s₂ hs₂).of_bind hrun
  obtain ⟨secondary, s₄, h₄, m₄, hsecondary, hrun⟩ :=
    (Walks.orLiteral hanswer Literal.isFinite_codeSecondary).of_bind hrun
  have hsteps := (h₁.trans h₂).trans (h₃.trans h₄)
  have hmarks := m₄.trans (m₃.trans (m₂.trans m₁))
  refine ⟨s₄, primary, secondary, hsteps, hmarks, (h₃.trans h₄).offers hprimary, hsecondary, ?_⟩
  -- From here on the run is the one of the function and its blend.
  cases hmake : CodeFunction.make (CodeFunction.nameOfNode node.id) source with
  | error error =>
    rw [hmake] at hrun
    cases hrun
  | ok f =>
    rw [hmake] at hrun
    obtain rfl := CodeFunction.eq_of_make hmake
    obtain ⟨hanswer, hlater⟩ := Prod.mk.inj ((run_blend s₄ _ primary secondary).symm.trans hrun)
    exact ⟨(Except.ok.inj hanswer).symm, hlater.symm⟩

end Nodes

/-! ## Pins -/

variable {net : Network} {state : Resolution}

/-- A pin that is marked, resolved and answered: by `answer`, or as a code node by `code`. -/
theorem walks_kept {pin : Endpoint} (hnew : state.cached? pin = none)
    (hpin : pin ∉ state.inProgress) {x : Resolve (Option ExprId)}
    (hx : ∀ answer after, x (state.marking pin) = (.ok answer, after) →
      ∃ before, net.Steps (state.marking pin) before ∧
        before.inProgress = pin :: state.inProgress ∧
        net.Step before (after.remembering pin answer) ∧
        after.inProgress = before.inProgress ∧ OffersAnswer after answer) :
    Walks net state (do
      let answer ← Resolve.marked pin x
      Resolve.remember pin answer
      pure answer) OffersAnswer := by
  intro answer later hrun
  rw [run_kept] at hrun
  rcases hfirst : x (state.marking pin) with ⟨_ | answer', after⟩ <;> rw [hfirst] at hrun
  · cases hrun
  · obtain ⟨rfl, rfl⟩ : answer' = answer ∧ after.remembering pin answer' = later := by
      simpa using hrun
    obtain ⟨before, hsteps, hmarks, hlast, hafter, hoffers⟩ := hx answer' after hfirst
    refine ⟨((Step.mark hnew hpin).steps.trans hsteps).trans hlast.steps, ?_, hoffers⟩
    show after.inProgress.erase pin = state.inProgress
    rw [hafter, hmarks, List.erase_cons_head]

/-- The `out` pin of a node is answered by one step, which for a code node makes more than one
entry. -/
theorem step_answering {pin : Endpoint} (hout : pin.pin = .out) {node : Node}
    (hkind : net.function? pin.node = node.function?) (hs : state.Offering)
    {feed : PinKey → Resolve (Option ExprId)}
    (hfeed : ∀ key later, later.Offering → Walks net later (feed key) OffersAnswer)
    {answer : Option ExprId} {after : Resolution}
    (hrun : node.resolve feed (state.marking pin) = (.ok answer, after)) :
    ∃ before, net.Steps (state.marking pin) before ∧
      before.inProgress = pin :: state.inProgress ∧
      net.Step before (after.remembering pin answer) ∧
      after.inProgress = before.inProgress ∧ OffersAnswer after answer := by
  have hmarked : (state.marking pin).Offering := hs
  cases hfunction : node.function? with
  | none =>
    obtain ⟨hsteps, hmarks, hoffers⟩ := walks_node hmarked hfunction hfeed answer after hrun
    exact ⟨after, hsteps, hmarks,
      .answer hmarks (fun _ => hkind.trans hfunction) hoffers, rfl, hoffers⟩
  | some f =>
    obtain ⟨before, primary, secondary, hsteps, hmarks, hprimary, hsecondary, rfl, rfl⟩ :=
      run_code hmarked hfunction hfeed hrun
    refine ⟨before, hsteps, hmarks, ?_, rfl, fun e he => ?_⟩
    · obtain ⟨id, key⟩ := pin
      obtain rfl : key = .out := hout
      exact .code hmarks (hkind.trans hfunction) hprimary hsecondary
    · exact Option.some.inj he ▸ before.offers_blending f primary secondary

/-- **The walk to a pin goes by steps**, and what it answers is offered. -/
theorem walks_resolveOutputWithin (net : Network) (depth : Nat) (pin : Endpoint)
    {state : Resolution} (hs : state.Offering) :
    Walks net state (net.resolveOutputWithin depth pin) OffersAnswer := by
  have hnothing : ∀ state : Resolution, OffersAnswer state none := fun _ e he => by cases he
  induction depth generalizing pin state with
  | zero => exact .halt _
  | succ depth ih =>
    cases hcached : state.cached? pin with
    | some answer =>
      refine .congr ?_ (.pure fun e he => hs pin e (he ▸ hcached))
      simp only [resolveOutputWithin, hcached, Resolve.pure]
    | none =>
      cases hnode : net.node? pin.node with
      | none =>
        refine .congr ?_ (.pure (hnothing state))
        simp only [resolveOutputWithin, hcached, hnode, Resolve.pure]
      | some node =>
        by_cases hpin : pin ∈ state.inProgress
        · refine .congr ?_ (.halt (.failed (.cycle pin)))
          simp only [resolveOutputWithin, hcached, hnode, hpin, if_true, Resolve.halt]
        · refine .congr (by simp only [resolveOutputWithin, hcached, hnode, hpin, if_false]; rfl)
            (walks_kept hcached hpin fun answer after hrun => ?_)
          by_cases hout : pin.pin = .out
          · have hkind : net.function? pin.node = node.function? := by
              rw [Network.function?, hnode, Option.bind_some]
            simp only [hout, if_true] at hrun
            refine step_answering hout hkind hs (fun key later hs => ?_) hrun
            cases net.feeding? ⟨pin.node, key⟩ with
            | none => exact .pure (hnothing later)
            | some edge => exact ih edge.source hs
          · simp only [hout, if_false] at hrun
            obtain ⟨rfl, rfl⟩ : none = answer ∧ state.marking pin = after := by
              simpa [pure, Resolve.pure] using hrun
            exact ⟨_, .refl _, rfl, .answer rfl (fun h => absurd h hout) (hnothing _), rfl,
              hnothing _⟩

theorem walks_resolveInput (net : Network) (pin : Endpoint) (hs : state.Offering) :
    Walks net state (net.resolveInput pin) OffersAnswer := by
  unfold resolveInput
  cases net.feeding? pin with
  | none => exact .pure fun e he => by cases he
  | some edge => exact walks_resolveOutputWithin net net.depthBound edge.source hs

/-! ## Channels -/

theorem walks_resolveChannelWith (net : Network) (hs : state.Offering)
    (defaults : MaterialDefaults) (channel : Channel) :
    Walks net state (net.resolveChannelWith defaults channel) Resolution.Offers := by
  unfold resolveChannelWith resolveChannel
  by_cases hf : (defaults.channel channel).isFinite = true
  · simp only [hf, if_true]
    have hfallback := Literal.isFinite_shapedFor hf channel.socket
    cases net.output? channel with
    | none => exact .literal hfallback
    | some node =>
      refine (walks_resolveInput net _ hs).bind fun answer s₁ _ ha => ?_
      cases answer with
      | some e => exact .pure (ha e rfl)
      | none => exact (Walks.report _).bind fun _ s₂ _ _ => .literal hfallback
  · simp only [hf, Bool.false_eq_true, if_false]
    exact .halt _

/-- **A compilation goes by steps**, and offers what it answers for each channel. -/
theorem walks_resolveChannels (net : Network) (hs : state.Offering)
    (defaults : MaterialDefaults) :
    Walks net state (net.resolveChannels defaults) fun later channels =>
      ∀ channel, later.Offers (channels.get channel) := by
  have hstep := fun {s : Resolution} (hs : s.Offering) (channel : Channel) =>
    walks_resolveChannelWith net hs defaults channel
  refine (hstep hs .baseColor).bind fun baseColor s₁ h₁ hbaseColor => ?_
  have hs := h₁.offering hs
  refine (hstep hs .emissive).bind fun emissive s₂ h₂ hemissive => ?_
  have hs := h₂.offering hs
  refine (hstep hs .roughness).bind fun roughness s₃ h₃ hroughness => ?_
  have hs := h₃.offering hs
  refine (hstep hs .metalness).bind fun metalness s₄ h₄ hmetalness => ?_
  have hs := h₄.offering hs
  refine (hstep hs .opacity).bind fun opacity s₅ h₅ hopacity => ?_
  have hs := h₅.offering hs
  refine (hstep hs .normal).bind fun normal s₆ h₆ hnormal => .pure ?_
  -- What was resolved early is still offered in the last resolution.
  have l₅ := h₅.trans h₆
  have l₄ := h₄.trans l₅
  have l₃ := h₃.trans l₄
  intro channel
  cases channel with
  | baseColor => exact (h₂.trans l₃).offers hbaseColor
  | emissive => exact l₃.offers hemissive
  | roughness => exact l₄.offers hroughness
  | metalness => exact l₅.offers hmetalness
  | normal => exact hnormal
  | opacity => exact h₆.offers hopacity

end Network

end ShaderGraph
