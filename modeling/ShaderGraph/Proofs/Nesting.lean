import ShaderGraph.Proofs.Coherence
import Mathlib.Data.List.Nodup
import Mathlib.Data.List.Perm.Subperm

/-
How deep calls are nested.

Edges may lead anywhere, back to where they came from too, so nothing in a graph itself bounds
the calls of a query. What bounds them is that a caller waits with its pin marked
(`Coherent.waiting_sublist`), that marks are distinct, and that only the `out` pin of a node
that is there asks for anything (`Coherent.waiting_out`). So the callers that wait have
distinct nodes, no more than the graph has ids (`Coherent.waiting_length_le`), and besides
them one call may have begun.
-/
namespace ShaderGraph

namespace Moment

/-- The pins whose calls wait for an inner one to end, innermost first. -/
def waiting (m : Moment) : List Endpoint := m.callers.filterMap Caller.owner

/-- How many calls have begun and not gone on from their end: those that wait, and the one
that the resolution is at, if it is not at the plan of the query. -/
def nested (m : Moment) : Nat :=
  m.waiting.length + match m.control with
    | .work none _ => 0
    | _ => 1

theorem nested_le (m : Moment) : m.nested ≤ m.waiting.length + 1 := by
  unfold nested
  split <;> omega

end Moment

namespace Network

namespace Coherent

variable {net : Network} {m : Moment}

theorem waiting_sublist (h : net.Coherent m) : m.waiting.Sublist m.state.inProgress := by
  have hcallers : (m.callers.map Caller.owner).Sublist m.owners := by
    unfold Moment.owners
    split
    · exact List.sublist_cons_self _ _
    · exact List.Sublist.refl _
  have hmarks := hcallers.filterMap id
  rw [h.owners, List.filterMap_append, List.filterMap_map, List.filterMap_map] at hmarks
  simpa [Moment.waiting] using hmarks

/-- A caller that waits waits for the `out` pin of a node that is there. -/
theorem waiting_out (h : net.Coherent m) {pin : Endpoint} (hpin : pin ∈ m.waiting) :
    pin = ⟨pin.node, .out⟩ ∧ pin.node ∈ net.nodes.keys := by
  obtain ⟨caller, hcaller, howner⟩ := List.mem_filterMap.mp hpin
  obtain ⟨⟨source, hasks⟩, -⟩ := h.waits caller hcaller pin howner
  cases hasks with
  | feed hnode => exact ⟨rfl, mem_keys_of_node? hnode⟩

theorem waiting_length_le (h : net.Coherent m) : m.waiting.length ≤ net.nodes.keys.length := by
  have hdistinct : m.waiting.Nodup := h.waiting_sublist.nodup h.orderly.distinct
  have hnodes : (m.waiting.map Endpoint.node).Nodup := by
    refine hdistinct.map_on fun p hp q hq hsame => ?_
    rw [(h.waiting_out hp).1, (h.waiting_out hq).1, hsame]
  have hkeys : m.waiting.map Endpoint.node ⊆ net.nodes.keys := by
    intro id hid
    obtain ⟨pin, hpin, rfl⟩ := List.mem_map.mp hid
    exact (h.waiting_out hpin).2
  have hlength := (List.subperm_of_subset hnodes hkeys).length_le
  rwa [List.length_map] at hlength

end Coherent

end Network

/-- **Calls are nested at most as deep as there are nodes, and one more.** Whatever was asked
of a resolution of a snapshot before, the next query ends; and at each of its moments at most
one call more is nested than the snapshot has ids, the calls that wait have their pins under
way, and the pins under way are distinct, each of them dependent on the one marked after it. -/
theorem Snapshot.nesting_bounded (snapshot : Snapshot) (queries : List Query) (query : Query) :
    let net := snapshot.network
    let state := Query.after net .start queries
    (∃ reply n, query.ask net state = (reply.outcome, (query.ask net state).2) ∧
      ∀ k, net.moment query state (n + k) = .replied reply (query.ask net state).2) ∧
    ∀ n, let m := net.moment query state n
      m.nested ≤ (snapshot.nodes.map Node.id).eraseDups.length + 1 ∧
      m.waiting.Sublist m.state.inProgress ∧
      m.state.inProgress.Nodup ∧
      m.state.inProgress.IsChain fun inner outer => net.DependsOn outer inner := by
  intro net state
  obtain ⟨horderly, hidle⟩ := net.orderly_after queries net.orderly_start rfl
  obtain ⟨reply, n, hask, hend, -⟩ := net.query_ends query state
  refine ⟨⟨reply, n, hask, hend⟩, fun n => ?_⟩
  have h : net.Coherent (net.moment query state n) := Network.coherent_moment horderly hidle query n
  have hkeys : net.nodes.keys.length = (snapshot.nodes.map Node.id).eraseDups.length := by
    rw [show net.nodes = .ofList _ from rfl, OrderedMap.keys_ofList, List.map_map]
    rfl
  have hnested := (Moment.nested_le (net.moment query state n)).trans
    (Nat.add_le_add_right h.waiting_length_le 1)
  rw [hkeys] at hnested
  exact ⟨hnested, h.waiting_sublist, h.orderly.distinct, h.orderly.chain⟩

/-- A sum over a node that feeds itself nests as deep as two nodes can. -/
example :
    let net := Snapshot.network {
      nodes := [.math "sum" "Sum" .add, .math "loop" "Loop" .abs]
      edges := [⟨"edge-1", ⟨"loop", .out⟩, ⟨"sum", .primary⟩⟩,
        ⟨"edge-2", ⟨"loop", .out⟩, ⟨"loop", .input⟩⟩] }
    let m := net.moment (.output ⟨"sum", .out⟩) .start 5
    m.nested = 3 ∧ m.state.inProgress = [⟨"loop", .out⟩, ⟨"sum", .out⟩] := by
  refine ⟨?_, ?_⟩ <;> rfl

end ShaderGraph
