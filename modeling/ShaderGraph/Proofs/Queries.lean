import ShaderGraph.Proofs.Memory
import Mathlib.Data.List.Forall2

/-
Queries on one resolution.

A query asks for an output pin, for what feeds an input pin, or for a channel.
`askAll` asks a list of queries of one resolution, one after another, those that
fail included; `Query.walk` answers one query by the walk that keeps nothing. What
proves the first equal to the second is that every query leaves the resolution
sound (`query_agrees`), so that each one starts where the walk may be trusted.
-/
namespace ShaderGraph

namespace Network

/-- The tree of a channel, by a walk that keeps nothing. -/
def walkChannel (net : Network) (channel : Channel) (socket : Socket) (fallback : Literal)
    (path : List Endpoint) : Except ResolveError Tree :=
  match net.output? channel with
  | none => .ok (.literal (fallback.shapedFor socket))
  | some node => do
    return (← net.walkInput path ⟨node.id, .input⟩).getD (.literal (fallback.shapedFor socket))

theorem mirrors_report {net : Network} {state : Resolution} (hs : net.Sound state)
    (message : String) :
    Mirrors net state (Resolve.report message) (fun _ => .ok ()) (fun _ _ _ => True) := by
  have hl : state.Later (Resolve.report message state).2 := ⟨.refl _, fun _ _ h => h, rfl⟩
  exact ⟨hl, hs.of_later hl rfl, fun _ _ => ⟨(), trivial, fun _ _ => rfl⟩,
    fun _ he => (nomatch he), by simp [Resolve.report]⟩

theorem mirrors_resolveChannel {net : Network} {state : Resolution} (hs : net.Sound state)
    (channel : Channel) (socket : Socket) (fallback : Literal) :
    Mirrors net state (net.resolveChannel channel socket fallback)
      (net.walkChannel channel socket fallback) ReadsAs := by
  unfold resolveChannel walkChannel
  cases net.output? channel with
  | none => exact mirrors_literal hs _
  | some node =>
    refine (mirrors_resolveInput hs ⟨node.id, .input⟩).bind fun answer tree later _ hs h => ?_
    cases answer with
    | none =>
      cases tree with
      | none => exact (mirrors_report hs _).next fun _ _ _ hs _ => mirrors_literal hs _
      | some t => cases h
    | some id =>
      cases tree with
      | none => cases h
      | some t => exact .pure hs (Expressions.reads_some.mp h)

end Network

/-- A question to a resolution. -/
inductive Query where
  | output (pin : Endpoint)
  | input (pin : Endpoint)
  | channel (channel : Channel) (socket : Socket) (fallback : Literal)
  deriving DecidableEq, Repr

/-- What a query comes to: an answer or a failure, and the resolution after it. -/
abbrev Outcome := Except Halt (Option ExprId) × Resolution

namespace Query

def ask (net : Network) : Query → Resolve (Option ExprId)
  | output pin => net.resolveOutput pin
  | input pin => net.resolveInput pin
  | channel c socket fallback => some <$> net.resolveChannel c socket fallback

/-- Asks one resolution several queries, whether they fail or not. -/
def askAll (net : Network) : Resolution → List Query → List Outcome
  | _, [] => []
  | state, query :: rest => query.ask net state :: askAll net (query.ask net state).2 rest

/-- The answer of the walk that keeps nothing. -/
def walk (net : Network) : Query → Except ResolveError (Option Tree)
  | output pin => net.walk [] pin
  | input pin => net.walkInput [] pin
  | channel c socket fallback => some <$> net.walkChannel c socket fallback []

end Query

/-- A query and the walk come to the same: an expression that reads as the tree
found, nothing, or a failure for one reason. -/
def Outcome.Agrees : Outcome → Except ResolveError (Option Tree) → Prop
  | (.ok answer, state), .ok tree => state.expressions.Reads answer tree
  | (.error (.failed e), _), .error e' => e = e'
  | _, _ => False

namespace Network

theorem Mirrors.agrees {net : Network} {state : Resolution} {x : Resolve (Option ExprId)}
    {y : List Endpoint → Except ResolveError (Option Tree)}
    (hx : Mirrors net state x y Expressions.Reads) (hidle : state.inProgress = []) :
    Outcome.Agrees (x state) (y []) := by
  obtain ⟨-, -, ha, he, hb⟩ := hx
  rcases hr : x state with ⟨result, later⟩
  rw [hr] at ha he hb
  cases result with
  | ok answer =>
    obtain ⟨tree, hR, hy⟩ := ha answer rfl
    rw [hy [] fun _ h => nomatch h]
    exact hR
  | error halt =>
    cases halt with
    | failed e => rw [← hidle, he e rfl]; rfl
    | depthExceeded => exact absurd rfl hb

/-- One query leaves the resolution sound and idle, and agrees with the walk. -/
theorem query_agrees {net : Network} {state : Resolution} (hs : net.Sound state)
    (hidle : state.inProgress = []) (query : Query) :
    Outcome.Agrees (query.ask net state) (query.walk net) ∧
      net.Sound (query.ask net state).2 ∧ (query.ask net state).2.inProgress = [] := by
  cases query with
  | output pin =>
    have h := mirrors_resolveOutput hs pin
    exact ⟨h.agrees hidle, h.sound, h.later.inProgress.trans hidle⟩
  | input pin =>
    have h := mirrors_resolveInput hs pin
    exact ⟨h.agrees hidle, h.sound, h.later.inProgress.trans hidle⟩
  | channel channel socket fallback =>
    -- A channel always has an expression; as an answer it is one that is there.
    have h : Mirrors net state (some <$> net.resolveChannel channel socket fallback)
        (fun path => net.walkChannel channel socket fallback path >>= fun t => .ok (some t))
        Expressions.Reads :=
      (mirrors_resolveChannel hs channel socket fallback).map
        fun _ _ _ h => Expressions.reads_some.mpr h
    refine ⟨?_, h.sound, h.later.inProgress.trans hidle⟩
    have hmap : (Query.channel channel socket fallback).walk net =
        net.walkChannel channel socket fallback [] >>= fun t => .ok (some t) := by
      simp only [Query.walk]
      cases net.walkChannel channel socket fallback [] <;> rfl
    rw [hmap]
    exact h.agrees hidle

theorem queries_agree {net : Network} (queries : List Query) {state : Resolution}
    (hs : net.Sound state) (hidle : state.inProgress = []) :
    List.Forall₂ Outcome.Agrees (Query.askAll net state queries)
      (queries.map fun query => query.walk net) := by
  induction queries generalizing state with
  | nil => exact .nil
  | cons query rest ih =>
    obtain ⟨ha, hs', hidle'⟩ := query_agrees hs hidle query
    exact .cons ha (ih hs' hidle')

end Network

/-- **Memory changes no answer.** Whatever queries are asked of one resolution of a
snapshot, in whatever order and failed ones among them, each comes to what the walk
that keeps nothing comes to: the same tree, nothing, or the same failure. -/
theorem Snapshot.queries_agree_with_walk (snapshot : Snapshot) (queries : List Query) :
    List.Forall₂ Outcome.Agrees (Query.askAll snapshot.network .start queries)
      (queries.map fun query => query.walk snapshot.network) :=
  snapshot.network.queries_agree queries (Network.sound_start _) rfl

end ShaderGraph
