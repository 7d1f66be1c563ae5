import ShaderGraph.Proofs.Frame
import ShaderGraph.Proofs.Plans
import ShaderGraph.Proofs.Wiring
import Mathlib.Logic.Function.Iterate

/-
A resolution moment by moment.

A `Moment` is what a resolution is at, and all that it still has to do: the call that begins
or the plan that is carried out, the callers that wait, innermost first, and the state.
`Network.step` goes from one moment to the next and does one thing at a time. A call for a
pin answers at once if the pin has an answer, if its node is not there, or with a failure if
the pin is under way; else the pin is marked and its plan is carried out. A plan that ends
takes the mark off first; then the answer is kept, if there is one, and the caller goes on
with it. A failure ends the plan of every caller, one after another. No depth bounds this.

Every call ends (`carriesCall`, `call_ends`), whatever the state and whoever waits: the same
callers wait at its end, and it did no more than add to the state (`Network.Accrues`). Nothing
in the graph bounds the recursion, so the induction is on the nodes that are not under way,
one fewer for each call inside another. What it comes to is what the resolution comes to with
any depth that exceeds their number; so the moments of a query end with what the query comes
to (`query_ends`).
-/
namespace ShaderGraph

/-! ## Moments -/

abbrev Reply := Except ResolveError (Option ExprId)

namespace Reply

def outcome : Reply → Except Halt (Option ExprId)
  | .ok answer => .ok answer
  | .error error => .error (.failed error)

def plan : Reply → Plan (Option ExprId)
  | .ok answer => .done answer
  | .error error => .fail error

end Reply

/-- What a resolution is at. Plans are carried out for a pin or for a query, which owns no
pin. -/
inductive Control where
  /-- A call for a pin begins. -/
  | call (pin : Endpoint)
  /-- A plan is carried out. -/
  | work (owner : Option Endpoint) (plan : Plan (Option ExprId))
  /-- The plan for a pin has ended, and the pin is no longer marked. -/
  | unmarked (pin : Endpoint) (reply : Reply)
  /-- A call has ended. -/
  | reply (reply : Reply)

def Control.ended : Control → Bool
  | reply _ => true
  | _ => false

/-- A plan that waits for what a call comes to. -/
structure Caller where
  owner : Option Endpoint
  next : Option ExprId → Plan (Option ExprId)

/-- What a resolution is at, and who waits for it, innermost first. -/
structure Moment where
  control : Control
  callers : List Caller
  state : Resolution

namespace Moment

def start (net : Network) (query : Query) (state : Resolution) : Moment :=
  ⟨.work none (query.plan net), [], state⟩

def replied (reply : Reply) (state : Resolution) : Moment := ⟨.work none reply.plan, [], state⟩

/-- The callers wait, for a call that has not ended. -/
def Inside (callers : List Caller) (m : Moment) : Prop :=
  callers <:+ m.callers ∧ (m.callers = callers → m.control.ended = false)

theorem inside_self {control : Control} (h : control.ended = false) (callers : List Caller)
    (state : Resolution) : Inside callers ⟨control, callers, state⟩ :=
  ⟨List.suffix_refl callers, fun _ => h⟩

/-- While somebody waits in between, the others wait. -/
theorem Inside.of_suffix {caller : Caller} {callers : List Caller} {m : Moment}
    (h : caller :: callers <:+ m.callers) : m.Inside callers := by
  refine ⟨(List.suffix_cons caller callers).trans h, fun hsame => ?_⟩
  rw [hsame] at h
  exact absurd h.length_le (by simp)

end Moment

/-- Keeps the answer of a pin; a failure is not kept. -/
def Resolution.keeping (state : Resolution) (pin : Endpoint) : Reply → Resolution
  | .ok answer => { state with resolved := (pin, answer) :: state.resolved }
  | .error _ => state

theorem Resolution.cached?_keeping (state : Resolution) (pin q : Endpoint)
    (answer : Option ExprId) :
    (state.keeping pin (.ok answer)).cached? q =
      if q = pin then some answer else state.cached? q :=
  state.cached?_remembering pin q answer

namespace Network

variable (net : Network)

/-- The next moment. A query that has its reply stays at that. -/
def step : Moment → Moment
  | ⟨.call pin, callers, state⟩ =>
    match state.cached? pin with
    | some answer => ⟨.reply (.ok answer), callers, state⟩
    | none =>
      match net.node? pin.node with
      | none => ⟨.reply (.ok none), callers, state⟩
      | some node =>
        if pin ∈ state.inProgress then ⟨.reply (.error (.cycle pin)), callers, state⟩
        else ⟨.work (some pin) (net.plan node pin), callers, state.marking pin⟩
  | ⟨.work owner (.act action next), callers, state⟩ =>
    let (place, state) := action.perform state
    ⟨.work owner (next place), callers, state⟩
  | ⟨.work owner (.call pin next), callers, state⟩ => ⟨.call pin, ⟨owner, next⟩ :: callers, state⟩
  | ⟨.work (some pin) (.done answer), callers, state⟩ =>
    ⟨.unmarked pin (.ok answer), callers, state.unmarking pin⟩
  | ⟨.work (some pin) (.fail error), callers, state⟩ =>
    ⟨.unmarked pin (.error error), callers, state.unmarking pin⟩
  | ⟨.unmarked pin reply, callers, state⟩ => ⟨.reply reply, callers, state.keeping pin reply⟩
  | ⟨.reply (.ok answer), caller :: callers, state⟩ =>
    ⟨.work caller.owner (caller.next answer), callers, state⟩
  | ⟨.reply (.error error), caller :: callers, state⟩ =>
    ⟨.work caller.owner (.fail error), callers, state⟩
  | moment => moment

def moment (query : Query) (state : Resolution) (n : Nat) : Moment :=
  net.step^[n] (.start net query state)

/-- The first moment comes to the second, and the callers wait until then. -/
def LeadsTo (callers : List Caller) (m m' : Moment) : Prop :=
  ∃ n, net.step^[n] m = m' ∧ ∀ i < n, (net.step^[i] m).Inside callers

variable {net}

namespace LeadsTo

variable {callers : List Caller} {m m' m'' : Moment}

theorem refl (callers : List Caller) (m : Moment) : net.LeadsTo callers m m :=
  ⟨0, rfl, fun _ hi => absurd hi (Nat.not_lt_zero _)⟩

theorem trans (h : net.LeadsTo callers m m') (h' : net.LeadsTo callers m' m'') :
    net.LeadsTo callers m m'' := by
  obtain ⟨n, rfl, hin⟩ := h
  obtain ⟨k, rfl, hin'⟩ := h'
  refine ⟨k + n, Function.iterate_add_apply _ k n m, fun i hi => ?_⟩
  by_cases hfirst : i < n
  · exact hin i hfirst
  · obtain ⟨j, rfl⟩ : ∃ j, i = j + n := ⟨i - n, by omega⟩
    rw [Function.iterate_add_apply]
    exact hin' j (by omega)

theorem of_step (hin : m.Inside callers) (h : net.step m = m') : net.LeadsTo callers m m' := by
  refine ⟨1, h, fun i hi => ?_⟩
  obtain rfl : i = 0 := by omega
  exact hin

theorem step {control : Control} {state : Resolution} (hcontrol : control.ended = false)
    (h : net.step ⟨control, callers, state⟩ = m') :
    net.LeadsTo callers ⟨control, callers, state⟩ m' :=
  of_step (Moment.inside_self hcontrol callers state) h

theorem of_cons {caller : Caller} (h : net.LeadsTo (caller :: callers) m m') :
    net.LeadsTo callers m m' := by
  obtain ⟨n, hn, hin⟩ := h
  exact ⟨n, hn, fun i hi => .of_suffix (hin i hi).1⟩

end LeadsTo

/-! ## What is added -/

/-- What a plan may do to a resolution: it adds expressions, functions and answers, the
answers for pins of nodes that are there and that are not under way, and leaves the marks
as they were. -/
structure Accrues (net : Network) (state later : Resolution) : Prop where
  exprs : ∀ (id : ExprId) e, state.expressions.exprs[id]? = some e →
    later.expressions.exprs[id]? = some e
  functions : ∀ (id : FunctionId) f, state.expressions.functions[id]? = some f →
    later.expressions.functions[id]? = some f
  answers : ∀ pin answer, state.cached? pin = some answer → later.cached? pin = some answer
  added : ∀ pin answer, later.cached? pin = some answer → state.cached? pin = some answer ∨
    pin ∉ state.inProgress ∧ ∃ node, net.node? pin.node = some node
  inProgress : later.inProgress = state.inProgress

namespace Accrues

variable {state later latest : Resolution} {pin : Endpoint}

theorem refl (net : Network) (state : Resolution) : net.Accrues state state :=
  ⟨fun _ _ h => h, fun _ _ h => h, fun _ _ h => h, fun _ _ h => .inl h, rfl⟩

theorem trans (h : net.Accrues state later) (h' : net.Accrues later latest) :
    net.Accrues state latest := by
  refine ⟨fun id e he => h'.exprs id e (h.exprs id e he),
    fun id f hf => h'.functions id f (h.functions id f hf),
    fun pin answer ha => h'.answers pin answer (h.answers pin answer ha),
    fun pin answer ha => ?_, h'.inProgress.trans h.inProgress⟩
  rcases h'.added pin answer ha with hbefore | hnew
  · exact h.added pin answer hbefore
  · rw [h.inProgress] at hnew
    exact .inr hnew

theorem perform (net : Network) (action : Action) (state : Resolution) :
    net.Accrues state (action.perform state).2 := by
  cases action with
  | make e =>
    exact ⟨Expressions.exprs_add state.expressions e, fun _ _ h => h, fun _ _ h => h,
      fun _ _ h => .inl h, rfl⟩
  | makeFunction f =>
    exact ⟨fun _ _ h => h, (Expressions.grows_addFunction state.expressions f).functions,
      fun _ _ h => h, fun _ _ h => .inl h, rfl⟩
  | report message =>
    exact ⟨fun _ _ h => h, fun _ _ h => h, fun _ _ h => h, fun _ _ h => .inl h, rfl⟩

theorem cached?_of_mem (h : net.Accrues state later) (hnew : state.cached? pin = none)
    (hpin : pin ∈ state.inProgress) : later.cached? pin = none := by
  cases ha : later.cached? pin with
  | none => rfl
  | some answer =>
    rcases h.added pin answer ha with hbefore | ⟨hnot, -⟩
    · rw [hnew] at hbefore
      cases hbefore
    · exact absurd hpin hnot

theorem marked (hnew : state.cached? pin = none) (hpin : pin ∉ state.inProgress) {node : Node}
    (hnode : net.node? pin.node = some node) (h : net.Accrues (state.marking pin) later)
    (reply : Reply) : net.Accrues state ((later.unmarking pin).keeping pin reply) := by
  have hmarks : (later.unmarking pin).inProgress = state.inProgress := by
    show later.inProgress.erase pin = _
    rw [h.inProgress]
    exact List.erase_cons_head ..
  have hunmarked : net.Accrues state (later.unmarking pin) := by
    refine ⟨h.exprs, h.functions, h.answers, fun q answer ha => ?_, hmarks⟩
    refine (h.added q answer ha).imp_right fun ⟨hnot, hthere⟩ => ⟨fun hq => ?_, hthere⟩
    exact hnot (List.mem_cons_of_mem pin hq)
  cases reply with
  | error error => exact hunmarked
  | ok answer =>
    -- The pin had no answer while it was marked, so none is changed.
    have hafter : later.cached? pin = none := h.cached?_of_mem hnew List.mem_cons_self
    refine ⟨hunmarked.exprs, hunmarked.functions, fun q a ha => ?_, fun q a ha => ?_, hmarks⟩
    · exact later.remembers_remembering hafter answer q a (hunmarked.answers q a ha)
    · rw [Resolution.cached?_keeping] at ha
      split at ha
      · next hq =>
        subst hq
        exact .inr ⟨hpin, node, hnode⟩
      · exact hunmarked.added q a ha

end Accrues

/-! ## Calls -/

variable {state : Resolution} {pin : Endpoint}

/-- From `start` the moments lead to `finish`, with the same callers, and add to the state on
the way; what they come to is what `x` comes to with every depth from `enough` on. -/
def Carries (net : Network) (start : Control) (finish : Reply → Control) (enough : Nat)
    (x : Nat → Resolve (Option ExprId)) (state : Resolution) : Prop :=
  ∃ reply later,
    (∀ callers, net.LeadsTo callers ⟨start, callers, state⟩ ⟨finish reply, callers, later⟩) ∧
    net.Accrues state later ∧ ∀ depth, enough ≤ depth → x depth state = (reply.outcome, later)

/-- The call for a pin comes to what the walk to the pin comes to. -/
def CarriesCall (net : Network) (enough : Nat) (pin : Endpoint) (state : Resolution) : Prop :=
  net.Carries (.call pin) .reply enough (fun depth => net.resolveOutputWithin depth pin) state

/-- A plan comes to what it comes to by the walks. -/
def CarriesPlan (net : Network) (enough : Nat) (owner : Option Endpoint)
    (plan : Plan (Option ExprId)) (state : Resolution) : Prop :=
  net.Carries (.work owner plan) (fun reply => .work owner reply.plan) enough
    (fun depth => plan.run (net.resolveOutputWithin depth)) state

/-- A plan is carried out if its calls are, as long as the same pins are under way. -/
theorem carriesPlan {enough : Nat} (marks : List Endpoint)
    (hcall : ∀ pin state, state.inProgress = marks → net.CarriesCall enough pin state)
    (owner : Option Endpoint) (plan : Plan (Option ExprId)) (hmarks : state.inProgress = marks) :
    net.CarriesPlan enough owner plan state := by
  induction plan generalizing state with
  | done answer =>
    exact ⟨.ok answer, state, fun callers => .refl callers _, .refl net state, fun _ _ => rfl⟩
  | fail error =>
    exact ⟨.error error, state, fun callers => .refl callers _, .refl net state, fun _ _ => rfl⟩
  | act action next ih =>
    have haccrues := Accrues.perform net action state
    obtain ⟨reply, later, hleads, hlater, hrun⟩ :=
      ih (action.perform state).1 (haccrues.inProgress.trans hmarks)
    refine ⟨reply, later, fun callers => ?_, haccrues.trans hlater, hrun⟩
    exact (LeadsTo.step rfl rfl).trans (hleads callers)
  | call pin next ih =>
    obtain ⟨first, middle, hfirst, hmiddle, hwalk⟩ := hcall pin state hmarks
    -- With one more caller waiting, the call begins and ends; then that caller goes on.
    have hleads : ∀ callers, net.LeadsTo callers ⟨.work owner (.call pin next), callers, state⟩
        ⟨.reply first, ⟨owner, next⟩ :: callers, middle⟩ :=
      fun callers => (LeadsTo.step rfl rfl).trans (hfirst (⟨owner, next⟩ :: callers)).of_cons
    have hwaits : ∀ callers, Moment.Inside callers
        ⟨.reply first, ⟨owner, next⟩ :: callers, middle⟩ :=
      fun callers => .of_suffix (List.suffix_refl _)
    cases first with
    | error error =>
      refine ⟨.error error, middle, fun callers => ?_, hmiddle, fun depth hdepth => ?_⟩
      · exact (hleads callers).trans (.of_step (hwaits callers) rfl)
      · show Resolve.bind (net.resolveOutputWithin depth pin) _ state = _
        simp only [Resolve.bind, hwalk depth hdepth, Reply.outcome]
    | ok answer =>
      obtain ⟨reply, later, hrest, hlater, hrun⟩ :=
        ih answer (hmiddle.inProgress.trans hmarks)
      refine ⟨reply, later, fun callers => ?_, hmiddle.trans hlater, fun depth hdepth => ?_⟩
      · exact (hleads callers).trans ((LeadsTo.of_step (hwaits callers) rfl).trans (hrest callers))
      · show Resolve.bind (net.resolveOutputWithin depth pin) _ state = _
        simp only [Resolve.bind, hwalk depth hdepth, Reply.outcome]
        exact hrun depth hdepth

/-- A call that answers at once changes nothing. -/
theorem carriesCall_of_once (enough : Nat) (reply : Reply)
    (hstep : ∀ callers, net.step ⟨.call pin, callers, state⟩ = ⟨.reply reply, callers, state⟩)
    (hwalk : ∀ depth, net.resolveOutputWithin (depth + 1) pin state = (reply.outcome, state)) :
    net.CarriesCall (enough + 1) pin state := by
  refine ⟨reply, state, fun callers => .step rfl (hstep callers), .refl net state, ?_⟩
  intro depth hdepth
  obtain ⟨depth, rfl⟩ : ∃ less, depth = less + 1 := ⟨depth - 1, by omega⟩
  exact hwalk depth

/-- A call that marks its pin is carried out if the plan for the pin is. -/
theorem carriesCall_of_plan {enough : Nat} (hnew : state.cached? pin = none) {node : Node}
    (hnode : net.node? pin.node = some node) (hpin : pin ∉ state.inProgress)
    (hplan : net.CarriesPlan enough (some pin) (net.plan node pin) (state.marking pin)) :
    net.CarriesCall (enough + 1) pin state := by
  obtain ⟨reply, later, hleads, haccrues, hrun⟩ := hplan
  refine ⟨reply, (later.unmarking pin).keeping pin reply, fun callers => ?_,
    .marked hnew hpin hnode haccrues reply, fun depth hdepth => ?_⟩
  · have hbegin : net.step ⟨.call pin, callers, state⟩ =
        ⟨.work (some pin) (net.plan node pin), callers, state.marking pin⟩ := by
      simp only [step, hnew, hnode, hpin, if_false]
    have hend : net.step ⟨.work (some pin) reply.plan, callers, later⟩ =
        ⟨.unmarked pin reply, callers, later.unmarking pin⟩ := by
      cases reply <;> rfl
    exact (LeadsTo.step rfl hbegin).trans ((hleads callers).trans
      ((LeadsTo.step rfl hend).trans (.step rfl rfl)))
  · obtain ⟨depth, rfl⟩ : ∃ less, depth = less + 1 := ⟨depth - 1, by omega⟩
    have hplanned : (net.plan node pin).run (net.resolveOutputWithin depth)
        (state.marking pin) = (reply.outcome, later) := hrun depth (by omega)
    refine (net.resolveOutputWithin_succ depth pin state).trans ?_
    simp only [hnew, hnode, hpin, if_false, hplanned]
    cases reply <;> rfl

/-- **Every call ends**, whatever the state: the walk to the pin comes to the same with every
depth that exceeds the number of nodes that are not under way. -/
theorem carriesCall (net : Network) (pin : Endpoint) (state : Resolution) :
    net.CarriesCall ((net.unvisited state.inProgress).length + 1) pin state := by
  induction hn : (net.unvisited state.inProgress).length using Nat.strongRecOn
    generalizing pin state with
  | ind n ih =>
    subst hn
    cases hcached : state.cached? pin with
    | some answer =>
      refine carriesCall_of_once _ (.ok answer) (fun callers => ?_) fun depth => ?_
      · simp only [step, hcached]
      · simp only [resolveOutputWithin, hcached, Reply.outcome]
    | none =>
      cases hnode : net.node? pin.node with
      | none =>
        refine carriesCall_of_once _ (.ok none) (fun callers => ?_) fun depth => ?_
        · simp only [step, hcached, hnode]
        · simp only [resolveOutputWithin, hcached, hnode, Reply.outcome]
      | some node =>
        by_cases hpin : pin ∈ state.inProgress
        · refine carriesCall_of_once _ (.error (.cycle pin)) (fun callers => ?_)
            fun depth => ?_
          · simp only [step, hcached, hnode, hpin, if_true]
          · simp only [resolveOutputWithin, hcached, hnode, hpin, if_true, Reply.outcome]
        · refine carriesCall_of_plan hcached hnode hpin ?_
          by_cases hout : pin.pin = .out
          · -- The pin takes its node off those that are not under way.
            have hless := unvisited_cons_lt hnode hpin hout
            refine carriesPlan (pin :: state.inProgress)
              (fun source later hmarks => ?_) _ _ rfl
            obtain ⟨reply, latest, hleads, haccrues, hrun⟩ :=
              ih (net.unvisited (pin :: state.inProgress)).length hless source later
                (by rw [hmarks])
            exact ⟨reply, latest, hleads, haccrues, fun depth hdepth => hrun depth (by omega)⟩
          · rw [show net.plan node pin = .done none from if_neg hout]
            exact ⟨.ok none, _, fun callers => .refl callers _, .refl net _, fun _ _ => rfl⟩

/-! ## Queries -/

theorem moment_add (net : Network) (query : Query) (state : Resolution) (n k : Nat) :
    net.moment query state (n + k) = net.step^[k] (net.moment query state n) := by
  rw [moment, Nat.add_comm]
  exact Function.iterate_add_apply _ k n _

theorem step_replied (net : Network) (reply : Reply) (state : Resolution) :
    net.step (.replied reply state) = .replied reply state := by
  cases reply <;> rfl

/-- **Every query ends** at what it comes to, and stays there. -/
theorem query_ends (net : Network) (query : Query) (state : Resolution) :
    ∃ reply n, query.ask net state = (reply.outcome, (query.ask net state).2) ∧
      (∀ k, net.moment query state (n + k) = .replied reply (query.ask net state).2) ∧
      net.Accrues state (query.ask net state).2 := by
  have hbound := net.unvisited_length_le state.inProgress
  have hplan : net.CarriesPlan net.depthBound none (query.plan net) state := by
    refine carriesPlan state.inProgress (fun pin later hmarks => ?_) _ _ rfl
    obtain ⟨reply, latest, hleads, haccrues, hrun⟩ := carriesCall net pin later
    refine ⟨reply, latest, hleads, haccrues, fun depth hdepth => hrun depth ?_⟩
    rw [hmarks]
    unfold depthBound at hdepth
    omega
  obtain ⟨reply, later, hleads, haccrues, hrun⟩ := hplan
  obtain ⟨n, hn, -⟩ := hleads []
  have hask : query.ask net state = (reply.outcome, later) := by
    rw [Query.ask_eq_run]
    exact hrun net.depthBound (Nat.le_refl _)
  refine ⟨reply, n, ?_, fun k => ?_, ?_⟩ <;> rw [hask]
  · rw [moment_add, moment, Moment.start, hn]
    exact Function.iterate_fixed (step_replied net reply later) k
  · exact haccrues

/-- **The call that begins at a moment of a query ends** at a later one, with what the walk to
the pin comes to. -/
theorem call_ends {query : Query} {n : Nat} (h : (net.moment query state n).control = .call pin) :
    ∃ reply later k,
      net.resolveOutput pin (net.moment query state n).state = (reply.outcome, later) ∧
      net.moment query state (n + k) =
        ⟨.reply reply, (net.moment query state n).callers, later⟩ ∧
      (∀ i < k, (net.moment query state (n + i)).Inside (net.moment query state n).callers) ∧
      net.Accrues (net.moment query state n).state later ∧
      later.diagnostics = (net.moment query state n).state.diagnostics := by
  simp only [moment_add]
  rcases hm : net.moment query state n with ⟨control, callers, before⟩
  rw [hm] at h
  obtain rfl : control = .call pin := h
  obtain ⟨reply, later, hleads, haccrues, hrun⟩ := carriesCall net pin before
  obtain ⟨k, hk, hin⟩ := hleads callers
  have hwalk : net.resolveOutput pin before = (reply.outcome, later) :=
    hrun net.depthBound (Nat.add_le_add_right (net.unvisited_length_le before.inProgress) 1)
  refine ⟨reply, later, k, hwalk, hk, hin, haccrues, ?_⟩
  have hsame := frame_diagnostics.keeps_resolveOutput net pin before
  rwa [hwalk] at hsame

end Network

end ShaderGraph
