import ShaderGraph.Proofs.Allotment
import ShaderGraph.Proofs.Queries

/-
Sharing follows nodes.

Queries are asked of one resolution one after another, failed ones among them, and each of
them may leave part of the graph resolved. What is kept at the end is then shared by nodes
(`Network.SharedByNode`): a node has one expression, and no two nodes have the same one; the
operand at an input pin is the expression of the node that supplies the pin, or a literal
that is used nowhere else.

Every query leaves the resolution allotted (`allots_ask`), so do all of them
(`allotted_after`), and what they answered has its use in the final list (`Answered`). The
uses tell the expressions apart: that of a node was made for its `out` pin, a literal was
made for the one pin that it fills or for the one query that it answers.
-/
namespace ShaderGraph

namespace Query

def after (net : Network) : Resolution → List Query → Resolution
  | state, [] => state
  | state, query :: rest => after net (query.ask net state).2 rest

end Query

namespace Network

/-- The operand stands where an input pin belongs, in the expression that is kept for the node
of the pin. A code node's operand stands there both in the blend and in the call. -/
def StandsAt (net : Network) (state : Resolution) (operand : ExprId) (pin : Endpoint) : Prop :=
  ∃ node e, net.node? pin.node = some node ∧ state.Keeps pin.node e ∧
    state.expressions.Operand node.kind pin.pin e operand

/-- What is kept after queries is shared by nodes, and so are the answers. -/
structure SharedByNode (net : Network) (queries : List Query) (outcomes : List Outcome)
    (state : Resolution) : Prop where
  /-- An output pin that is answered yields the expression kept for its node. -/
  output : ∀ (i : Nat) pin answer later, queries[i]? = some (.output pin) →
    outcomes[i]? = some (.ok answer, later) → Delivers state (net.source? pin) answer
  /-- What comes in at an input pin that is answered is the expression kept for the node that
  supplies it. -/
  input : ∀ (i : Nat) pin answer later, queries[i]? = some (.input pin) →
    outcomes[i]? = some (.ok answer, later) → Delivers state (net.supplier? pin) answer
  /-- A node has one expression, and different nodes have different ones. -/
  nodes : ∀ id id' e e', state.Keeps id e → state.Keeps id' e' → (e = e' ↔ id = id')
  /-- There is one operand at each input pin of a node. -/
  operands : ∀ id node e, net.node? id = some node → state.Keeps id e →
    ∀ input ∈ node.kind.inputs, ∃! operand, state.expressions.Operand node.kind input.key e operand
  /-- The operand at a pin that a node supplies is the expression of that node. -/
  supplied : ∀ operand pin source, net.StandsAt state operand pin →
    net.supplier? pin = some source → state.Keeps source operand
  /-- The operand at any other pin is a literal that stands at no other pin, is the expression
  of no node and answers no query. -/
  filled : ∀ operand pin, net.StandsAt state operand pin → net.supplier? pin = none →
    (∃ value, state.expressions.exprs[operand]? = some (.literal value)) ∧
    (∀ pin', net.StandsAt state operand pin' → pin' = pin) ∧ (∀ id, ¬ state.Keeps id operand) ∧
    ∀ (i : Nat) later, outcomes[i]? ≠ some (.ok (some operand), later)
  /-- A channel has the expression of the node that supplies it, or a literal that stands at
  no pin, is the expression of no node and answers no other query. -/
  channel : ∀ (i : Nat) channel socket fallback e later,
    queries[i]? = some (.channel channel socket fallback) →
    outcomes[i]? = some (.ok (some e), later) →
    match net.channelSupplier? channel with
    | some source => state.Keeps source e
    | none => (∃ value, state.expressions.exprs[e]? = some (.literal value)) ∧
        (∀ pin, ¬ net.StandsAt state e pin) ∧ (∀ id, ¬ state.Keeps id e) ∧
        ∀ (j : Nat) later', outcomes[j]? = some (.ok (some e), later') → j = i

variable {net : Network} {state later : Resolution} {uses uses' : List Use}

/-! ## Queries -/

/-- The answer of the query of a number: what a node supplies, or a literal made for a channel
that no node supplies. -/
def Answered (net : Network) (state : Resolution) (uses : List Use) (number : Nat) :
    Query → Option ExprId → Prop
  | .output pin, answer => Delivers state (net.source? pin) answer
  | .input pin, answer => Delivers state (net.supplier? pin) answer
  | .channel channel _ _, answer => ∃ e, answer = some e ∧
      Places state uses (net.channelSupplier? channel) (.channel number) e

theorem Answered.mono (h : Grown state uses later uses') {number : Nat} {query : Query}
    {answer : Option ExprId} (hanswered : net.Answered state uses number query answer) :
    net.Answered later uses' number query answer := by
  cases query with
  | output pin => exact Delivers.mono h.keeps hanswered
  | input pin => exact Delivers.mono h.keeps hanswered
  | channel channel socket fallback =>
    obtain ⟨e, he, hplaces⟩ := hanswered
    exact ⟨e, he, hplaces.mono h⟩

/-- **A query allots**, whatever it comes to. -/
theorem allots_ask (hs : net.Allotted state uses) (query : Query) (number : Nat) :
    Allots net state uses (query.ask net) fun later uses' answer =>
      net.Answered later uses' number query answer := by
  cases query with
  | output pin => exact allots_resolveOutputWithin net net.depthBound pin state uses hs
  | input pin => exact allots_resolveInput hs pin
  | channel channel socket fallback =>
    refine (allots_resolveChannel hs channel socket fallback number).bind
      fun e _ _ _ hs hplaces => .pure hs ?_
    exact ⟨e, rfl, hplaces⟩

/-- **All queries allot**, and their answers are still what they were when all were asked. -/
theorem allotted_after (queries : List Query) (first : Nat) (hs : net.Allotted state uses) :
    ∃ uses', Grown state uses (Query.after net state queries) uses' ∧
      net.Allotted (Query.after net state queries) uses' ∧
      ∀ (i : Nat) answer later, (Query.askAll net state queries)[i]? = some (.ok answer, later) →
        ∃ query, queries[i]? = some query ∧
          net.Answered (Query.after net state queries) uses' (first + i) query answer := by
  induction queries generalizing state uses first with
  | nil => exact ⟨uses, .refl state uses, hs, fun i answer later h => by cases h⟩
  | cons query rest ih =>
    obtain ⟨hrun, hgrown, -, hallotted, hanswers⟩ := allots_ask hs query first
    obtain ⟨uses', hgrown', hallotted', hanswers'⟩ := ih (first + 1) hallotted
    simp only [Query.after, Query.askAll, hrun]
    refine ⟨uses', hgrown.trans hgrown', hallotted', fun i answer later h => ?_⟩
    cases i with
    | zero =>
      have hfirst := Option.some.inj h
      refine ⟨query, rfl, ?_⟩
      exact (hanswers answer (congrArg Prod.fst hfirst)).mono hgrown'
    | succ i =>
      obtain ⟨query', hquery', hanswered⟩ := hanswers' i answer later h
      refine ⟨query', hquery', ?_⟩
      rw [Nat.add_assoc, Nat.add_comm 1 i] at hanswered
      exact hanswered

/-! ## Uses tell expressions apart -/

theorem exists_input {table : Expressions} {kind : NodeKind} {key : PinKey} {e operand : ExprId}
    (h : table.Operand kind key e operand) : ∃ input ∈ kind.inputs, input.key = key := by
  cases h with
  | @math type _ _ _ i application hentry hop hplace hget =>
    clear hentry hop hget
    revert hplace
    cases type <;> cases key <;> simp [MathType.place?, NodeKind.inputs, MathType.application,
      Application.operands]
  | primary => exact ⟨_, List.mem_cons_self, rfl⟩
  | secondary => exact ⟨_, List.mem_cons_of_mem _ List.mem_cons_self, rfl⟩

namespace Allotted

theorem use_of_keeps (hs : net.Allotted state uses) {id : NodeId} {e : ExprId}
    (h : state.Keeps id e) : uses[e]? = some (.answer ⟨id, .out⟩) := by
  have hkept := hs.kept ⟨id, .out⟩ (some e) h
  cases hkept with
  | expression _ _ huse _ => exact huse

theorem places (hs : net.Allotted state uses) {operand : ExprId} {pin : Endpoint}
    (h : net.StandsAt state operand pin) :
    Places state uses (net.supplier? pin) (.filling pin) operand := by
  obtain ⟨node, e, hnode, hkeeps, hoperand⟩ := h
  obtain ⟨input, hinput, hkey⟩ := exists_input hoperand
  have hkept := hs.kept ⟨pin.node, .out⟩ (some e) hkeeps
  cases hkept with
  | expression _ hnode' _ hoperands =>
    obtain rfl := Option.some.inj (hnode.symm.trans hnode')
    obtain ⟨operand', hplaces, hoperand'⟩ := hoperands input hinput
    rw [hkey] at hplaces hoperand'
    rw [hoperand.unique hoperand']
    exact hplaces

theorem not_keeps (hs : net.Allotted state uses) {e : ExprId} {use : Use}
    (huse : uses[e]? = some use) (hother : ∀ pin, use ≠ .answer pin) (id : NodeId) :
    ¬ state.Keeps id e := by
  intro hkeeps
  exact hother _ (Option.some.inj (huse.symm.trans (hs.use_of_keeps hkeeps)))

/-- What stands at a pin and is the expression of no node was made for the pin. -/
theorem use_of_standsAt (hs : net.Allotted state uses) {operand : ExprId} {pin : Endpoint}
    (h : net.StandsAt state operand pin) (hnot : ∀ id, ¬ state.Keeps id operand) :
    uses[operand]? = some (.filling pin) :=
  (hs.places h).use hnot

end Allotted

theorem Answered.use {number : Nat} {query : Query} {e : ExprId}
    (h : net.Answered state uses number query (some e)) (hnot : ∀ id, ¬ state.Keeps id e) :
    uses[e]? = some (.channel number) := by
  have hdelivers : ∀ source, ¬ Delivers state source (some e) := by
    intro source hdelivers
    obtain ⟨id, hkeeps⟩ := hdelivers.keeps
    exact hnot id hkeeps
  cases query with
  | output pin => exact absurd h (hdelivers _)
  | input pin => exact absurd h (hdelivers _)
  | channel channel socket fallback =>
    obtain ⟨e', he, hplaces⟩ := h
    obtain rfl := Option.some.inj he
    exact hplaces.use hnot

end Network

/-- **Sharing follows nodes exactly.** Whatever queries are asked of one resolution of a
snapshot, in whatever order and failed ones among them: two nodes have the same expression just
if they are the same node, every pin that a node supplies has that node's expression as its
operand, and whatever else stands at a pin or answers for a channel is a literal of its own. -/
theorem Snapshot.shared_by_node (snapshot : Snapshot) (queries : List Query) :
    snapshot.network.SharedByNode queries (Query.askAll snapshot.network .start queries)
      (Query.after snapshot.network .start queries) := by
  obtain ⟨uses, -, hs, hanswers⟩ :=
    Network.allotted_after queries 0 (Network.allotted_start snapshot.network)
  generalize Query.after snapshot.network .start queries = state at hs hanswers ⊢
  generalize Query.askAll snapshot.network .start queries = outcomes at hanswers ⊢
  simp only [Nat.zero_add] at hanswers
  -- The answer of the query that stands at a place of the list.
  have hanswered : ∀ {i : Nat} {query answer later}, queries[i]? = some query →
      outcomes[i]? = some (.ok answer, later) →
      snapshot.network.Answered state uses i query answer := by
    intro i query answer later hquery houtcome
    obtain ⟨query', hquery', h⟩ := hanswers i answer later houtcome
    obtain rfl := Option.some.inj (hquery.symm.trans hquery')
    exact h
  have hnumber : ∀ {i : Nat} {e later}, outcomes[i]? = some (.ok (some e), later) →
      (∀ id, ¬ state.Keeps id e) → uses[e]? = some (.channel i) := by
    intro i e later houtcome hnot
    obtain ⟨query, -, h⟩ := hanswers i (some e) later houtcome
    exact h.use hnot
  constructor
  case output => exact fun i pin answer later hquery houtcome => hanswered hquery houtcome
  case input => exact fun i pin answer later hquery houtcome => hanswered hquery houtcome
  case nodes =>
    intro id id' e e' hkeeps hkeeps'
    constructor
    · rintro rfl
      have hsame := (hs.use_of_keeps hkeeps).symm.trans (hs.use_of_keeps hkeeps')
      exact congrArg Endpoint.node (Use.answer.inj (Option.some.inj hsame))
    · rintro rfl
      exact Option.some.inj (Option.some.inj (hkeeps.symm.trans hkeeps'))
  case operands =>
    intro id node e hnode hkeeps input hinput
    have hkept := hs.kept ⟨id, .out⟩ (some e) hkeeps
    cases hkept with
    | expression _ hnode' _ hoperands =>
      obtain rfl := Option.some.inj (hnode.symm.trans hnode')
      obtain ⟨operand, -, hoperand⟩ := hoperands input hinput
      exact ⟨operand, hoperand, fun other hother => hother.unique hoperand⟩
  case supplied =>
    intro operand pin source hstands hsupplier
    have hplaces := hs.places hstands
    rw [hsupplier] at hplaces
    exact hplaces
  case filled =>
    intro operand pin hstands hsupplier
    have hplaces := hs.places hstands
    rw [hsupplier] at hplaces
    obtain ⟨huse, hliteral⟩ := hplaces
    have hnot := hs.not_keeps huse fun _ h => nomatch h
    refine ⟨hliteral, fun pin' hstands' => ?_, hnot, fun i later houtcome => ?_⟩
    · have huse' := hs.use_of_standsAt hstands' hnot
      exact Use.filling.inj (Option.some.inj (huse'.symm.trans huse))
    · have hother := Option.some.inj (huse.symm.trans (hnumber houtcome hnot))
      cases hother
  case channel =>
    intro i channel socket fallback e later hquery houtcome
    obtain ⟨e', he, hplaces⟩ := hanswered hquery houtcome
    obtain rfl := Option.some.inj he
    cases hsupplier : snapshot.network.channelSupplier? channel with
    | some source =>
      rw [hsupplier] at hplaces
      exact hplaces
    | none =>
      rw [hsupplier] at hplaces
      obtain ⟨huse, hliteral⟩ := hplaces
      have hnot := hs.not_keeps huse fun _ h => nomatch h
      refine ⟨hliteral, fun pin hstands => ?_, hnot, fun j later' houtcome' => ?_⟩
      · have hother := Option.some.inj (huse.symm.trans (hs.use_of_standsAt hstands hnot))
        cases hother
      · have huse' := hnumber houtcome' hnot
        exact Use.channel.inj (Option.some.inj (huse'.symm.trans huse))

/-- Two sums over one number, one of them also over a node that feeds itself. -/
def interrupted : Snapshot where
  nodes := [.input "low" "Low" .float, .math "loop" "Loop" .abs, .math "stuck" "Stuck" .add,
    .math "sum" "Sum" .add]
  edges := [⟨"edge-1", ⟨"low", .out⟩, ⟨"stuck", .primary⟩⟩,
    ⟨"edge-2", ⟨"loop", .out⟩, ⟨"stuck", .secondary⟩⟩,
    ⟨"edge-3", ⟨"loop", .out⟩, ⟨"loop", .input⟩⟩,
    ⟨"edge-4", ⟨"low", .out⟩, ⟨"sum", .primary⟩⟩]

/-- The number was resolved for the sum that failed, and is shared by the one that did not. -/
example :
    let state := Query.after interrupted.network .start
      [.output ⟨"stuck", .out⟩, .output ⟨"sum", .out⟩]
    state.Keeps "low" 0 ∧ state.Keeps "sum" 2 ∧ state.expressions.operands 2 = [0, 1] := by
  refine ⟨?_, ?_, ?_⟩ <;> rfl

end ShaderGraph
