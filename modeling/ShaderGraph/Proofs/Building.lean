import ShaderGraph.Graph
import ShaderGraph.Proofs.Connections

/-
Graphs that are built.

A graph is `Built` by adding nodes under ids that are not in use and by connecting
pins; edges may get ids that other edges have. Each node of such a graph is stored
under its own id, and each edge joins pins that suit each other (`Graph.Built.valid`),
since a connection that would not is refused. So the network that a compilation of
the graph reads has just the graph's nodes (`Graph.Valid.node?_network`), and is well
connected (`Graph.Valid.wellConnected`).
-/
namespace ShaderGraph

namespace Graph

/-- The graphs that nodes under new ids and connections lead to. -/
inductive Built : Graph → Prop
  | empty (name : String) : Built (.empty name)
  | addNode {g : Graph} {node : Node} (h : Built g) (hnew : g.node? node.id = none) :
      Built (g.addNode node)
  | connect {g : Graph} {σ : Type} {draw : σ → EdgeId × σ} {ids : σ} {source target : Endpoint}
      {connected : Connected σ} (h : Built g)
      (hconnect : g.connectWith draw ids source target = .ok connected) : Built connected.graph

/-- The edge joins an output pin of one node with an input pin of another that it
suits. -/
def Joins (g : Graph) (source target : Endpoint) : Prop :=
  ∃ sourceNode targetNode output input,
    g.node? source.node = some sourceNode ∧ g.node? target.node = some targetNode ∧
    sourceNode.kind.output? source.pin = some output ∧
    targetNode.kind.input? target.pin = some input ∧
    output.socket.feeds input.socket = true

/-- Nodes are stored under their own ids, and edges join pins that suit each other. -/
structure Valid (g : Graph) : Prop where
  keyed : ∀ id node, g.node? id = some node → node.id = id
  joined : ∀ edge ∈ g.edges.values, g.Joins edge.source edge.target

/-- A connection that is not refused joins pins that suit each other, of two different
nodes, and ends at a pin that nothing feeds. -/
theorem of_connectionError? {g : Graph} {source target : Endpoint}
    (h : g.connectionError? source target = none) :
    g.Joins source target ∧ source.node ≠ target.node ∧ g.isFed target = false := by
  unfold connectionError? at h
  split at h
  · cases h
  · cases h
  · next sourceNode targetNode hsource htarget =>
    split at h
    · cases h
    · cases h
    · next output input houtput hinput =>
      -- Each of the three checks after the pins was passed.
      split at h
      · cases h
      · next hfeeds =>
        split at h
        · cases h
        · next hloop =>
          split at h
          · cases h
          · next hfed =>
            refine ⟨⟨sourceNode, targetNode, output, input, hsource, htarget, houtput, hinput, ?_⟩,
              hloop, by simpa using hfed⟩
            simpa using hfeeds

theorem Built.addEdge {g : Graph} (h : g.Built) (edge : Edge)
    (hnone : g.connectionError? edge.source edge.target = none) : (g.addEdge edge).Built :=
  @Built.connect g Unit (fun ids => (edge.id, ids)) () edge.source edge.target
    ⟨g.addEdge edge, edge.id, ()⟩ h (by rw [connectWith, hnone])

theorem node?_addNode (g : Graph) (node : Node) (id : NodeId) :
    (g.addNode node).node? id = if id = node.id then some node else g.node? id :=
  OrderedMap.get?_insert g.nodes node.id id node

theorem Joins.addNode {g : Graph} {node : Node} (hnew : g.node? node.id = none)
    {source target : Endpoint} (h : g.Joins source target) :
    (g.addNode node).Joins source target := by
  have hkeep : ∀ id found, g.node? id = some found → (g.addNode node).node? id = some found := by
    intro id found hfound
    rw [node?_addNode, if_neg, hfound]
    rintro rfl
    rw [hnew] at hfound
    cases hfound
  obtain ⟨sourceNode, targetNode, output, input, hsource, htarget, hpins⟩ := h
  exact ⟨sourceNode, targetNode, output, input, hkeep _ _ hsource, hkeep _ _ htarget, hpins⟩

/-- **Building keeps a graph valid.** -/
theorem Built.valid {g : Graph} (h : g.Built) : g.Valid := by
  induction h with
  | empty name => exact ⟨fun _ _ h => (nomatch h), fun _ h => (nomatch h)⟩
  | @addNode g node h hnew ih =>
    refine ⟨fun id found hfound => ?_, fun edge hedge => (ih.joined edge hedge).addNode hnew⟩
    rw [node?_addNode] at hfound
    split at hfound
    · next hid => rw [← Option.some.inj hfound, hid]
    · exact ih.keyed id found hfound
  | @connect g σ draw ids source target connected h hconnect ih =>
    unfold connectWith at hconnect
    split at hconnect
    · cases hconnect
    · next hnone =>
      obtain rfl := Except.ok.inj hconnect
      refine ⟨ih.keyed, fun edge hedge => ?_⟩
      show g.Joins edge.source edge.target
      -- An edge is the new one, or was there before under this or another id.
      rcases OrderedMap.mem_values_insert hedge with rfl | hold
      · exact (of_connectionError? hnone).1
      · exact ih.joined edge hold

namespace Valid

variable {g : Graph}

theorem node?_network (h : g.Valid) (id : NodeId) : g.snapshot.network.node? id = g.node? id := by
  have hiff : ∀ node, g.snapshot.network.node? id = some node → g.node? id = some node := by
    intro node hnode
    obtain ⟨key, hkey⟩ := OrderedMap.mem_values_iff.mp (Snapshot.mem_nodes_of_node? hnode)
    obtain rfl : node.id = key := h.keyed key node hkey
    rw [← Snapshot.id_of_node? hnode]
    exact hkey
  cases hnode : g.node? id with
  | none =>
    cases hnetwork : g.snapshot.network.node? id with
    | none => rfl
    | some node => rw [hiff node hnetwork] at hnode; cases hnode
  | some node =>
    -- The node is among those of the snapshot, so some node with its id is found.
    have hmem : node ∈ g.snapshot.nodes := OrderedMap.mem_values_iff.mpr ⟨id, hnode⟩
    cases hnetwork : g.snapshot.network.node? id with
    | none =>
      rw [Snapshot.node?_network] at hnetwork
      have := List.find?_eq_none.mp hnetwork node (List.mem_reverse.mpr hmem)
      exact absurd (beq_iff_eq.mpr (h.keyed id node hnode).symm) this
    | some found => rw [← hnode, hiff found hnetwork]

theorem wellConnected (h : g.Valid) : g.snapshot.network.WellConnected := by
  intro edge hedge
  obtain ⟨source, target, output, input, hsource, htarget, hpins⟩ := h.joined edge hedge
  refine ⟨source, target, output, input, ?_, ?_, hpins⟩
  · rw [h.node?_network, hsource]
  · rw [h.node?_network, htarget]

end Valid

end Graph

end ShaderGraph
