import ShaderGraph.Proofs.Moments
import ShaderGraph.Proofs.SharedNodes
import Mathlib.Data.List.Chain

/-
What is true at every moment of a resolution.

The pins under way have no answers, are distinct, and each of them depends on the one marked
after it; answers are kept for nodes that are there, and something is the answer only for the
`out` pin of a node that is no output node (`Network.Orderly`). A step keeps that only where
the rest of the moment fits: a plan that waits or is carried out belongs to the pin that was
marked for it, in the order of the marks, asks for nothing but what feeds that pin's node,
and answers what the pin may be answered (`Network.Coherent`). With that, one step keeps all
of it (`coherent_step`), so all moments of a query have it (`coherent_moment`), and so do the
resolutions that queries lead to, failed ones among them (`orderly_after`). What this says of
a snapshot and of the calls inside a query is `Snapshot.queries_run_in_order`.
-/
namespace ShaderGraph

namespace Network

/-- The pins under way are a chain of distinct pins without answers, and the answers kept may
be kept. -/
structure Orderly (net : Network) (state : Resolution) : Prop where
  clear : state.Clear state.inProgress
  kept : ∀ pin answer, state.cached? pin = some answer →
    (∃ node, net.node? pin.node = some node) ∧ net.Allows pin answer
  distinct : state.inProgress.Nodup
  chain : state.inProgress.IsChain fun inner outer => net.DependsOn outer inner

theorem orderly_start (net : Network) : net.Orderly .start :=
  ⟨fun _ h => (nomatch h), fun _ _ h => (nomatch h), .nil, .nil⟩

namespace Orderly

variable {net : Network} {state : Resolution} {pin : Endpoint} {rest : List Endpoint}

theorem perform (h : net.Orderly state) (action : Action) :
    net.Orderly (action.perform state).2 := by
  cases action <;> exact ⟨h.clear, h.kept, h.distinct, h.chain⟩

theorem marking (h : net.Orderly state) (hnew : state.cached? pin = none)
    (hpin : pin ∉ state.inProgress)
    (hlast : ∀ outer ∈ state.inProgress.head?, net.DependsOn outer pin) :
    net.Orderly (state.marking pin) :=
  ⟨h.clear.marking hnew, h.kept, h.distinct.cons hpin, List.isChain_cons.mpr ⟨hlast, h.chain⟩⟩

theorem unmarking (h : net.Orderly state) (hmarks : state.inProgress = pin :: rest) :
    net.Orderly (state.unmarking pin) ∧ (state.unmarking pin).inProgress = rest ∧ pin ∉ rest := by
  obtain ⟨herase, -, hclear⟩ := h.clear.of_marked hmarks
  have hafter : (state.unmarking pin).inProgress = rest := herase
  have hdistinct := h.distinct
  have hchain := h.chain
  rw [hmarks] at hdistinct hchain
  refine ⟨⟨?_, h.kept, ?_, ?_⟩, hafter, (List.nodup_cons.mp hdistinct).1⟩ <;> rw [hafter]
  · exact hclear
  · exact (List.nodup_cons.mp hdistinct).2
  · exact (List.isChain_cons.mp hchain).2

theorem keeping (h : net.Orderly state) (hpin : pin ∉ state.inProgress) {node : Node}
    (hnode : net.node? pin.node = some node) {reply : Reply}
    (hreply : ∀ answer, reply = .ok answer → net.Allows pin answer) :
    net.Orderly (state.keeping pin reply) := by
  cases reply with
  | error error => exact h
  | ok answer =>
    refine ⟨h.clear.remembering hpin answer, fun q a ha => ?_, h.distinct, h.chain⟩
    rw [Resolution.cached?_keeping] at ha
    split at ha
    · next hq =>
      subst hq
      obtain rfl := Option.some.inj ha
      exact ⟨⟨node, hnode⟩, hreply answer rfl⟩
    · exact h.kept q a ha

end Orderly

end Network

/-! ## Moments -/

namespace Moment

/-- Whose plans have begun and not ended, innermost first. -/
def owners (m : Moment) : List (Option Endpoint) :=
  match m.control with
  | .work owner _ => owner :: m.callers.map Caller.owner
  | _ => m.callers.map Caller.owner

end Moment

namespace Network

/-- A plan that may be a plan for the pin. -/
def Suits (net : Network) (pin : Endpoint) (plan : Plan (Option ExprId)) : Prop :=
  plan.Within (net.Asks pin) (net.Allows pin)

/-- A caller that waits for a pin asked for something that feeds the pin's node, and goes on
with a plan for the pin. -/
def Waits (net : Network) (caller : Caller) : Prop :=
  ∀ pin, caller.owner = some pin →
    (∃ source, net.Asks pin source) ∧ ∀ answer, net.Suits pin (caller.next answer)

/-- What a resolution is at fits the pins under way: a call is for a pin that the last of
them asks for, and a plan is one for its owner. -/
def Fits (net : Network) (marks : List Endpoint) : Control → Prop
  | .call pin => ∀ outer ∈ marks.head?, net.Asks outer pin
  | .work none _ => True
  | .work (some pin) plan => (∃ node, net.node? pin.node = some node) ∧ net.Suits pin plan
  | .unmarked pin reply =>
    pin ∉ marks ∧ (∃ node, net.node? pin.node = some node) ∧ net.Suits pin reply.plan
  | .reply _ => True

/-- All that is there at a moment belongs together. -/
structure Coherent (net : Network) (m : Moment) : Prop where
  orderly : net.Orderly m.state
  owners : m.owners = m.state.inProgress.map some ++ [none]
  waits : ∀ caller ∈ m.callers, net.Waits caller
  fits : net.Fits m.state.inProgress m.control

variable {net : Network} {state : Resolution}

/-- The pin whose plan is carried out was the last to be marked. -/
theorem marks_of_owners {owner : Option Endpoint} {owners : List (Option Endpoint)}
    {marks : List Endpoint} (h : owner :: owners = marks.map some ++ [none]) :
    (owner = none ∧ marks = [] ∧ owners = []) ∨
      ∃ pin rest, owner = some pin ∧ marks = pin :: rest ∧ owners = rest.map some ++ [none] := by
  cases marks with
  | nil =>
    obtain ⟨howner, howners⟩ := List.cons_eq_cons.mp h
    exact .inl ⟨howner, rfl, howners⟩
  | cons pin rest =>
    obtain ⟨howner, howners⟩ := List.cons_eq_cons.mp h
    exact .inr ⟨pin, rest, howner, rfl, howners⟩

theorem Asks.node? {pin source : Endpoint} (h : net.Asks pin source) :
    ∃ node, net.node? pin.node = some node := by
  cases h with
  | feed hnode => exact ⟨_, hnode⟩

/-- A call is answered at once, or its pin is marked. -/
theorem coherent_call {pin : Endpoint} {callers : List Caller}
    (h : net.Coherent ⟨.call pin, callers, state⟩) :
    net.Coherent (net.step ⟨.call pin, callers, state⟩) := by
  have hreply : ∀ reply, net.Coherent ⟨.reply reply, callers, state⟩ :=
    fun reply => ⟨h.orderly, h.owners, h.waits, trivial⟩
  simp only [step]
  cases hcached : state.cached? pin with
  | some answer => exact hreply _
  | none =>
    cases hnode : net.node? pin.node with
    | none => exact hreply _
    | some node =>
      by_cases hpin : pin ∈ state.inProgress
      · simp only [hpin, if_true]
        exact hreply _
      · simp only [hpin, if_false]
        have hlast : ∀ outer ∈ state.inProgress.head?, net.DependsOn outer pin :=
          fun outer houter => (h.fits outer houter).dependsOn hnode
        exact ⟨h.orderly.marking hcached hpin hlast, congrArg (some pin :: ·) h.owners, h.waits,
          ⟨node, hnode⟩, plan_within hnode⟩

theorem coherent_unmarked {pin : Endpoint} {callers : List Caller} (reply : Reply)
    (h : net.Coherent ⟨.work (some pin) reply.plan, callers, state⟩) :
    net.Coherent ⟨.unmarked pin reply, callers, state.unmarking pin⟩ := by
  obtain ⟨hnone, -⟩ | ⟨_, rest, howner, hmarks, howners⟩ := marks_of_owners h.owners
  · cases hnone
  obtain rfl := Option.some.inj howner
  obtain ⟨horderly, hafter, hpin⟩ := h.orderly.unmarking hmarks
  refine ⟨horderly, ?_, h.waits, ?_, h.fits⟩ <;> simp only [hafter]
  · exact howners
  · exact hpin

/-- A plan that calls for a pin waits for it. -/
theorem coherent_waiting {owner : Option Endpoint} {pin : Endpoint} {callers : List Caller}
    {next : Option ExprId → Plan (Option ExprId)}
    (h : net.Coherent ⟨.work owner (.call pin next), callers, state⟩) :
    net.Coherent ⟨.call pin, ⟨owner, next⟩ :: callers, state⟩ := by
  obtain ⟨rfl, hmarks, -⟩ | ⟨outer, rest, rfl, hmarks, -⟩ := marks_of_owners h.owners
  · refine ⟨h.orderly, h.owners, List.forall_mem_cons.mpr ⟨?_, h.waits⟩, ?_⟩
    · exact fun pin hpin => nomatch hpin
    · intro outer houter
      rw [hmarks] at houter
      cases houter
  · obtain ⟨hasks, hnext⟩ := h.fits.2
    refine ⟨h.orderly, h.owners, List.forall_mem_cons.mpr ⟨?_, h.waits⟩, ?_⟩
    · intro q hq
      obtain rfl := Option.some.inj hq
      exact ⟨⟨pin, hasks⟩, hnext⟩
    · intro q hq
      rw [hmarks] at hq
      obtain rfl := Option.some.inj hq
      exact hasks

theorem coherent_resumed {caller : Caller} {callers : List Caller} {reply : Reply}
    {plan : Plan (Option ExprId)} (h : net.Coherent ⟨.reply reply, caller :: callers, state⟩)
    (hplan : ∀ pin, caller.owner = some pin → net.Suits pin plan) :
    net.Coherent ⟨.work caller.owner plan, callers, state⟩ := by
  obtain ⟨hcaller, hwaits⟩ := List.forall_mem_cons.mp h.waits
  refine ⟨h.orderly, h.owners, hwaits, ?_⟩
  show net.Fits _ (.work caller.owner plan)
  cases howner : caller.owner with
  | none => exact trivial
  | some pin =>
    obtain ⟨source, hasks⟩ := (hcaller pin howner).1
    exact ⟨hasks.node?, hplan pin howner⟩

/-- **One step** keeps everything together. -/
theorem coherent_step {m : Moment} (h : net.Coherent m) : net.Coherent (net.step m) := by
  rcases m with ⟨control, callers, state⟩
  cases control with
  | call pin => exact coherent_call h
  | work owner plan =>
    cases plan with
    | done answer =>
      cases owner with
      | none => exact h
      | some pin => exact coherent_unmarked (.ok answer) h
    | fail error =>
      cases owner with
      | none => exact h
      | some pin => exact coherent_unmarked (.error error) h
    | act action next =>
      have hmarks := (Accrues.perform net action state).inProgress
      refine ⟨h.orderly.perform action, ?_, h.waits, ?_⟩
      · show owner :: _ = (action.perform state).2.inProgress.map some ++ [none]
        rw [hmarks]
        exact h.owners
      · cases owner with
        | none => exact trivial
        | some pin => exact ⟨h.fits.1, h.fits.2 _⟩
    | call pin next => exact coherent_waiting h
  | unmarked pin reply =>
    obtain ⟨hpin, ⟨node, hnode⟩, hsuits⟩ := h.fits
    have horderly : net.Orderly (state.keeping pin reply) := by
      refine h.orderly.keeping hpin hnode fun answer hanswer => ?_
      subst hanswer
      exact hsuits
    have hmarks : (state.keeping pin reply).inProgress = state.inProgress := by
      cases reply <;> rfl
    refine ⟨horderly, ?_, h.waits, trivial⟩
    show _ = (state.keeping pin reply).inProgress.map some ++ [none]
    rw [hmarks]
    exact h.owners
  | reply reply =>
    cases callers with
    | nil => cases reply <;> exact h
    | cons caller callers =>
      cases reply with
      | ok answer =>
        exact coherent_resumed h fun pin howner =>
          (h.waits caller List.mem_cons_self pin howner).2 answer
      | error error => exact coherent_resumed h fun _ _ => trivial

/-- **Every moment of a query** that is asked when nothing is under way. -/
theorem coherent_moment (horderly : net.Orderly state) (hidle : state.inProgress = [])
    (query : Query) (n : Nat) : net.Coherent (net.moment query state n) := by
  induction n with
  | zero =>
    refine ⟨horderly, ?_, fun _ h => (nomatch h), trivial⟩
    show [none] = state.inProgress.map some ++ [none]
    rw [hidle]
    rfl
  | succ n ih =>
    rw [moment, Function.iterate_succ_apply']
    exact coherent_step ih

/-! ## Queries -/

/-- **After any queries** the resolution is in order, and nothing is under way. -/
theorem orderly_after (net : Network) (queries : List Query) {state : Resolution}
    (horderly : net.Orderly state) (hidle : state.inProgress = []) :
    net.Orderly (Query.after net state queries) ∧
      (Query.after net state queries).inProgress = [] := by
  induction queries generalizing state with
  | nil => exact ⟨horderly, hidle⟩
  | cons query rest ih =>
    obtain ⟨reply, n, -, hend, haccrues⟩ := query_ends net query state
    have hlast := (coherent_moment horderly hidle query (n + 0)).orderly
    rw [hend 0] at hlast
    exact ih hlast (haccrues.inProgress.trans hidle)

end Network

/-- What the user is told by a query: at most one message by one for a channel, nothing by one
for a pin. -/
def Query.Tells (state later : Resolution) : Query → Prop
  | output _ | input _ => later.diagnostics = state.diagnostics
  | channel .. => ∃ messages, later.diagnostics = state.diagnostics ++ messages ∧
      messages.length ≤ 1

theorem Network.tells_ask (net : Network) (query : Query) (state : Resolution) :
    query.Tells state (query.ask net state).2 := by
  cases query with
  | output pin => exact frame_diagnostics.keeps_resolveOutput net pin state
  | input pin => exact net.diagnostics_resolveInput pin state
  | channel channel socket fallback =>
    have hquiet : ∀ later : Resolution, later.diagnostics = state.diagnostics →
        ∃ messages, later.diagnostics = state.diagnostics ++ messages ∧ messages.length ≤ 1 :=
      fun later h => ⟨[], h.trans (List.append_nil _).symm, Nat.zero_le 1⟩
    simp only [Query.Tells, Query.ask, resolveChannel]
    cases net.output? channel with
    | none => exact hquiet _ rfl
    | some node =>
      have hinput := net.diagnostics_resolveInput ⟨node.id, .input⟩ state
      show ∃ messages, (Resolve.bind (Resolve.bind (net.resolveInput ⟨node.id, .input⟩) _) _
        state).2.diagnostics = _ ∧ _
      simp only [Resolve.bind]
      generalize net.resolveInput ⟨node.id, .input⟩ state = run at hinput ⊢
      rcases run with ⟨_ | _ | e, later⟩
      · exact hquiet later hinput
      · exact ⟨_, congrArg (· ++ _) hinput, Nat.le_refl 1⟩
      · exact hquiet later hinput

namespace Snapshot

/-- What is under way and kept in a resolution of the snapshot is in order. -/
structure InOrder (snapshot : Snapshot) (state : Resolution) : Prop where
  /-- No pin that is under way has an answer. -/
  clear : state.Clear state.inProgress
  /-- Answers are kept for nodes of the snapshot. -/
  there : ∀ pin answer, state.cached? pin = some answer →
    ∃ node ∈ snapshot.nodes, node.id = pin.node
  /-- Something is the answer only for the pin `out` of an input, math or code node. -/
  filled : ∀ pin e, state.cached? pin = some (some e) →
    pin.pin = .out ∧ ∃ node, snapshot.network.node? pin.node = some node ∧
      (node.category = .input ∨ node.category = .math ∨ node.category = .code)

theorem inOrder_of_orderly {snapshot : Snapshot} {state : Resolution}
    (h : snapshot.network.Orderly state) : snapshot.InOrder state := by
  refine ⟨h.clear, fun pin answer hkept => ?_, fun pin e hkept => ?_⟩
  · obtain ⟨⟨node, hnode⟩, -⟩ := h.kept pin answer hkept
    exact ⟨node, mem_nodes_of_node? hnode, id_of_node? hnode⟩
  · obtain ⟨-, hallows⟩ := h.kept pin (some e) hkept
    obtain ⟨hout, node, hnode, hcategory⟩ := hallows (Option.some_ne_none e)
    refine ⟨hout, node, hnode, ?_⟩
    cases h : node.category with
    | output => exact absurd h hcategory
    | _ => simp

/-- A query that is asked of a resolution of the snapshot: how it ends, how each call in it
ends, and that each of its moments is in order. -/
structure RunsInOrder (snapshot : Snapshot) (state : Resolution) (query : Query) : Prop where
  /-- The query ends at what it comes to, and stays there. -/
  ends : ∃ reply n, query.ask snapshot.network state =
      (reply.outcome, (query.ask snapshot.network state).2) ∧
    ∀ k, snapshot.network.moment query state (n + k) =
      .replied reply (query.ask snapshot.network state).2
  /-- The query adds to what is kept and leaves the pins under way as they were, whatever it
  comes to. -/
  accrues : snapshot.network.Accrues state (query.ask snapshot.network state).2
  /-- The query tells the user at most what its kind may tell. -/
  tells : query.Tells state (query.ask snapshot.network state).2
  /-- A call inside the query ends, with what the walk to its pin comes to and while the same
  callers wait; it adds to what is kept, leaves the pins under way as they were and tells the
  user nothing, whatever it comes to. -/
  calls : ∀ n pin, (snapshot.network.moment query state n).control = .call pin →
    ∃ reply later k,
      snapshot.network.resolveOutput pin (snapshot.network.moment query state n).state =
        (reply.outcome, later) ∧
      snapshot.network.moment query state (n + k) =
        ⟨.reply reply, (snapshot.network.moment query state n).callers, later⟩ ∧
      (∀ i < k, (snapshot.network.moment query state (n + i)).Inside
        (snapshot.network.moment query state n).callers) ∧
      snapshot.network.Accrues (snapshot.network.moment query state n).state later ∧
      later.diagnostics = (snapshot.network.moment query state n).state.diagnostics
  /-- Each moment is in order, inside calls too. -/
  moments : ∀ n, snapshot.InOrder (snapshot.network.moment query state n).state

/-- **Queries run in order.** Whatever was asked of a resolution of a snapshot before, and
whether that failed or not, the next query ends and runs in order: neither it nor a call
inside it leaves a mark, changes an answer or keeps one for a node that is not there. -/
theorem queries_run_in_order (snapshot : Snapshot) (queries : List Query) (query : Query) :
    snapshot.RunsInOrder (Query.after snapshot.network .start queries) query := by
  obtain ⟨horderly, hidle⟩ :=
    snapshot.network.orderly_after queries (Network.orderly_start _) rfl
  obtain ⟨reply, n, hask, hend, haccrues⟩ :=
    Network.query_ends snapshot.network query (Query.after snapshot.network .start queries)
  refine ⟨⟨reply, n, hask, hend⟩, haccrues, Network.tells_ask _ query _, ?calls, ?moments⟩
  case calls => exact fun n pin hcall => Network.call_ends hcall
  case moments =>
    intro n
    exact inOrder_of_orderly (Network.coherent_moment horderly hidle query n).orderly

end Snapshot

end ShaderGraph
