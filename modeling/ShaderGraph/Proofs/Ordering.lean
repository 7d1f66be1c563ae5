import ShaderGraph.Proofs.Agreement
import ShaderGraph.Wgsl
import Mathlib.Data.List.Find
import Mathlib.Data.List.Nodup
import Mathlib.Data.List.Pairwise

/-
The order of a snapshot's lists.

A snapshot is `Unambiguous` if nothing in it is settled by order: its nodes have different
ids, at most one of them ends each channel, and at most one edge ends at each pin. What a
compilation searches for is then the only match in its list, and is found in every order of
the list (`node?_of_perm`, `output?_of_perm`, `feeding?_of_perm`). So the networks of all
orders agree, and compile to the same (`Snapshot.compile_perm`): which failure is met first,
and how messages, bindings and functions follow one another, is decided by the channels
and by the pins of the nodes. Cyclic snapshots are no exception.
-/
namespace ShaderGraph

theorem Node.Alike.rel_refl (found : Option Node) : Option.Rel Node.Alike found found := by
  cases found with
  | none => exact .none
  | some node => exact .some (.refl node)

namespace Snapshot

/-- No id is that of two nodes, no channel is ended by two nodes, and no pin is the end of two
edges. -/
structure Unambiguous (snapshot : Snapshot) : Prop where
  nodes : (snapshot.nodes.map Node.id).Nodup
  outputs : (snapshot.nodes.filterMap Node.channel?).Nodup
  edges : (snapshot.edges.map Edge.target).Nodup

namespace Unambiguous

variable {snapshot snapshot' : Snapshot}

theorem size_network (h : snapshot.Unambiguous) :
    snapshot.network.nodes.size = snapshot.nodes.length := by
  have hkeys : ((snapshot.nodes.map fun node => (node.id, node)).map Prod.fst).Nodup := by
    rw [List.map_map]
    exact h.nodes
  rw [network, OrderedMap.size, OrderedMap.entries_ofList hkeys, List.length_map]

theorem of_perm (h : snapshot.Unambiguous) (hnodes : snapshot.nodes.Perm snapshot'.nodes)
    (hedges : snapshot.edges.Perm snapshot'.edges) : snapshot'.Unambiguous where
  nodes := (hnodes.map Node.id).nodup_iff.mp h.nodes
  outputs := (hnodes.filterMap Node.channel?).nodup_iff.mp h.outputs
  edges := (hedges.map Edge.target).nodup_iff.mp h.edges

theorem node?_of_perm (h : snapshot.Unambiguous) (hnodes : snapshot.nodes.Perm snapshot'.nodes)
    (id : NodeId) : snapshot'.network.node? id = snapshot.network.node? id := by
  have hreversed : snapshot'.nodes.reverse.Perm snapshot.nodes.reverse :=
    (List.reverse_perm _).trans (hnodes.symm.trans (List.reverse_perm _).symm)
  rw [node?_network, node?_network]
  refine (List.find?_eq_find?_of_perm hreversed.symm ?_).symm
  rintro node ⟨hnode, hid⟩ node' ⟨hnode', hid'⟩
  rw [List.mem_reverse] at hnode hnode'
  exact List.inj_on_of_nodup_map h.nodes hnode hnode'
    ((beq_iff_eq.mp hid).symm.trans (beq_iff_eq.mp hid'))

theorem eq_of_channel? (h : snapshot.Unambiguous) {node node' : Node}
    (hnode : node ∈ snapshot.nodes) (hnode' : node' ∈ snapshot.nodes) {channel : Channel}
    (hchannel : node.channel? = some channel) (hchannel' : node'.channel? = some channel) :
    node = node' := by
  let Apart (node node' : Node) : Prop :=
    ∀ c, node.channel? = some c → ∀ c', node'.channel? = some c' → c ≠ c'
  have : Std.Symm Apart := ⟨fun _ _ hapart c hc c' hc' => (hapart c' hc' c hc).symm⟩
  have hapart : snapshot.nodes.Pairwise Apart := List.pairwise_filterMap.mp h.outputs
  by_contra hne
  exact hapart.forall hnode hnode' hne channel hchannel channel hchannel' rfl

theorem output?_of_perm (h : snapshot.Unambiguous) (hnodes : snapshot.nodes.Perm snapshot'.nodes)
    (hedges : snapshot.edges.Perm snapshot'.edges) (channel : Channel) :
    snapshot'.network.output? channel = snapshot.network.output? channel := by
  rw [output?_network, output?_network, output?, output?, settledNodes_of_nodup h.nodes,
    settledNodes_of_nodup (h.of_perm hnodes hedges).nodes]
  refine (List.find?_eq_find?_of_perm hnodes ?_).symm
  rintro node ⟨hnode, hchannel⟩ node' ⟨hnode', hchannel'⟩
  exact h.eq_of_channel? hnode hnode' (beq_iff_eq.mp hchannel) (beq_iff_eq.mp hchannel')

theorem feeding?_of_perm (h : snapshot.Unambiguous) (hedges : snapshot.edges.Perm snapshot'.edges)
    (pin : Endpoint) : snapshot'.network.feeding? pin = snapshot.network.feeding? pin := by
  refine (List.find?_eq_find?_of_perm hedges ?_).symm
  rintro edge ⟨hedge, htarget⟩ edge' ⟨hedge', htarget'⟩
  exact List.inj_on_of_nodup_map h.edges hedge hedge'
    ((beq_iff_eq.mp htarget).trans (beq_iff_eq.mp htarget').symm)

/-- **A compilation reads the same in every order.** -/
theorem agrees (h : snapshot.Unambiguous) (hnodes : snapshot.nodes.Perm snapshot'.nodes)
    (hedges : snapshot.edges.Perm snapshot'.edges) :
    snapshot.network.Agrees snapshot'.network fun _ => True where
  size := by
    rw [h.size_network, (h.of_perm hnodes hedges).size_network, hnodes.length_eq]
  source _ _ _ := trivial
  node id _ := by
    rw [h.node?_of_perm hnodes id]
    exact Node.Alike.rel_refl _
  feeding id node _ input _ := by rw [h.feeding?_of_perm hedges]
  output channel := by
    rw [h.output?_of_perm hnodes hedges channel]
    exact Node.Alike.rel_refl _

end Unambiguous

variable {snapshot snapshot' : Snapshot}

/-- **The order of nodes and edges does not matter.** Let two snapshots have the same nodes and
the same edges, in whatever order each. If the nodes have different ids, at most one of them
ends each channel and at most one edge ends at each pin, then both compile to the same
messages in the same order, and to the same material, in which the same expressions are
shared; so it is written as the same text. If one falls back, so does the other, with the
message of the same failure. -/
theorem compile_perm (h : snapshot.Unambiguous) (hnodes : snapshot.nodes.Perm snapshot'.nodes)
    (hedges : snapshot.edges.Perm snapshot'.edges) (defaults : MaterialDefaults) :
    (snapshot'.compile defaults).diagnostics = (snapshot.compile defaults).diagnostics ∧
    (snapshot'.compile defaults).material = (snapshot.compile defaults).material ∧
    (snapshot'.compile defaults).material.node?.map NodeMaterial.wgsl =
      (snapshot.compile defaults).material.node?.map NodeMaterial.wgsl := by
  rw [compile_eq (h.agrees hnodes hedges) defaults]
  exact ⟨rfl, rfl, rfl⟩

/-- A number that is used twice, a node that feeds itself, and a channel that lost its edge. -/
def layered : Snapshot where
  nodes := [.input "low" "Low" .float, .math "sum" "Sum" .add, .math "loop" "Loop" .abs,
    .output "rough" "Roughness" .roughness, .output "veil" "Veil" .opacity]
  edges := [⟨"edge-1", ⟨"low", .out⟩, ⟨"sum", .primary⟩⟩,
    ⟨"edge-2", ⟨"low", .out⟩, ⟨"sum", .secondary⟩⟩,
    ⟨"edge-3", ⟨"loop", .out⟩, ⟨"loop", .input⟩⟩,
    ⟨"edge-4", ⟨"sum", .out⟩, ⟨"rough", .input⟩⟩]

/-- The same from the last node and the last edge to the first. -/
def layeredUpwards : Snapshot := ⟨layered.nodes.reverse, layered.edges.reverse⟩

theorem compile_layeredUpwards :
    layered.Unambiguous ∧ layered.nodes.Perm layeredUpwards.nodes ∧
    layered.edges.Perm layeredUpwards.edges ∧
    (layeredUpwards.compile .standard).diagnostics = (layered.compile .standard).diagnostics ∧
    (layeredUpwards.compile .standard).material = (layered.compile .standard).material ∧
    (layeredUpwards.compile .standard).material.node?.map NodeMaterial.wgsl =
      (layered.compile .standard).material.node?.map NodeMaterial.wgsl := by
  have hlayered : layered.Unambiguous := ⟨by decide, by decide, by decide⟩
  have hnodes : layered.nodes.Perm layeredUpwards.nodes := (List.reverse_perm _).symm
  have hedges : layered.edges.Perm layeredUpwards.edges := (List.reverse_perm _).symm
  exact ⟨hlayered, hnodes, hedges, compile_perm hlayered hnodes hedges .standard⟩

end Snapshot

end ShaderGraph
