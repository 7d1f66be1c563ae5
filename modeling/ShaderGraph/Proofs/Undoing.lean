import ShaderGraph.Proofs.Editing

/-
Edits that are taken back.

A new node goes to the end of the nodes, and its edges to the end of the edges; nothing is
replaced as long as no id is drawn that is in use (`DrawsUnused`). So whatever is tried in
between, the removal of the node drops all that was added and nothing else: the edges there
were mention nodes there were, and none of these is the new one.

  1. `Editor.run_attaches`: attempts to connect one node only put edges of that node at the
     end.
  2. `Graph.removeNode_of_added`: a node and edges of it that were put at the end are removed
     without a trace.
  3. `Editor.edits_undone`: taking the node or the edge away gives back the graph there was.
-/
namespace ShaderGraph

/-! ## Attempts to connect a node -/

/-- The edit tries to connect a pin of the node, be it as source or as target. -/
def Edit.Attaches (node : NodeId) : Edit → Prop
  | .connect source _ target _ => source = node ∨ target = node
  | _ => False

instance (node : NodeId) (edit : Edit) : Decidable (edit.Attaches node) :=
  match edit with
  | .connect source _ target _ => inferInstanceAs (Decidable (source = node ∨ target = node))
  | .addNode _ | .removeNode _ | .disconnect _ | .updateCode .. | .rename _ => .isFalse fun h => h

section Runs

variable {σ : Type} (draw : σ → EdgeId × σ)

/-- If the edit draws an id, then one that no edge has. A connection that is refused draws
none. -/
def Edit.DrawsUnused (editor : Editor σ) : Edit → Prop
  | .connect source sourcePin target targetPin =>
    editor.graph.connectionError? ⟨source, sourcePin.getD .out⟩ ⟨target, targetPin.getD .input⟩ =
      none → (draw editor.ids).1 ∉ editor.graph.edges.keys
  | _ => True

instance (editor : Editor σ) (edit : Edit) : Decidable (edit.DrawsUnused draw editor) :=
  match edit with
  | .connect .. => inferInstanceAs (Decidable (_ → _))
  | .addNode _ | .removeNode _ | .disconnect _ | .updateCode .. | .rename _ => .isTrue trivial

namespace Editor

/-- Along the edits no id is drawn that an edge has. -/
def DrawsUnused : Editor σ → List Edit → Prop
  | _, [] => True
  | editor, edit :: rest => edit.DrawsUnused draw editor ∧ DrawsUnused (editor.step draw edit) rest

instance decidableDrawsUnused :
    (editor : Editor σ) → (edits : List Edit) → Decidable (DrawsUnused draw editor edits)
  | _, [] => .isTrue trivial
  | editor, edit :: rest =>
    have := decidableDrawsUnused (editor.step draw edit) rest
    inferInstanceAs (Decidable (_ ∧ _))

variable {draw} {node : NodeId}

theorem step_attaches {editor : Editor σ} {edit : Edit} (hattaches : edit.Attaches node)
    (hunused : edit.DrawsUnused draw editor) :
    let after := (editor.step draw edit).graph
    after.name = editor.graph.name ∧ after.nodes = editor.graph.nodes ∧
      ∃ added, after.edges.entries = editor.graph.edges.entries ++ added ∧
        ∀ entry ∈ added, entry.2.involves node = true := by
  cases edit with
  | connect source sourcePin target targetPin =>
    intro after
    rcases editor.graph.connectWith_cases draw editor.ids ⟨source, sourcePin.getD .out⟩
      ⟨target, targetPin.getD .input⟩ with ⟨error, hrefused⟩ | ⟨hnone, hconnected⟩
    · have hafter : after = editor.graph := by
        show (editor.step draw _).graph = _
        rw [step, hrefused]
      rw [hafter]
      exact ⟨rfl, rfl, [], (List.append_nil _).symm, List.forall_mem_nil _⟩
    · have hafter : after = editor.graph.addEdge ⟨(draw editor.ids).1,
          ⟨source, sourcePin.getD .out⟩, ⟨target, targetPin.getD .input⟩⟩ := by
        show (editor.step draw _).graph = _
        rw [step, hconnected]
      rw [hafter]
      refine ⟨rfl, rfl, [_], OrderedMap.insertEntry_of_not_mem (hunused hnone) _, ?_⟩
      intro entry hentry
      obtain rfl := List.mem_singleton.mp hentry
      have hnode : source = node ∨ target = node := hattaches
      simpa [Edge.involves] using hnode
  | addNode _ | removeNode _ | disconnect _ | updateCode _ _ | rename _ => cases hattaches

/-- Attempts to connect the node put edges of the node at the end, and change nothing else. -/
theorem run_attaches {editor : Editor σ} {edits : List Edit}
    (hattaches : ∀ edit ∈ edits, edit.Attaches node) (hunused : DrawsUnused draw editor edits) :
    let after := (editor.run draw edits).graph
    after.name = editor.graph.name ∧ after.nodes = editor.graph.nodes ∧
      ∃ added, after.edges.entries = editor.graph.edges.entries ++ added ∧
        ∀ entry ∈ added, entry.2.involves node = true := by
  induction edits generalizing editor with
  | nil => exact ⟨rfl, rfl, [], (List.append_nil _).symm, List.forall_mem_nil _⟩
  | cons edit rest ih =>
    obtain ⟨hname, hnodes, first, hfirst, hfirstEdges⟩ :=
      step_attaches (hattaches edit List.mem_cons_self) hunused.1
    obtain ⟨hname', hnodes', added, hadded, haddedEdges⟩ :=
      ih (fun other hother => hattaches other (List.mem_cons_of_mem edit hother)) hunused.2
    refine ⟨hname'.trans hname, hnodes'.trans hnodes, first ++ added, ?_, ?_⟩
    · rw [← List.append_assoc, ← hfirst]
      exact hadded
    · exact List.forall_mem_append.mpr ⟨hfirstEdges, haddedEdges⟩

end Editor

end Runs

/-! ## Taking back -/

namespace Graph

/-- A new node and its edges, put at the end, are removed without a trace. -/
theorem removeNode_of_added {g after : Graph} {node : Node}
    (hends : ∀ edge ∈ g.edges.values,
      (g.node? edge.source.node).isSome ∧ (g.node? edge.target.node).isSome)
    (hnew : g.node? node.id = none) (hname : after.name = g.name)
    (hnodes : after.nodes = (g.addNode node).nodes) {added : List (EdgeId × Edge)}
    (hedges : after.edges.entries = g.edges.entries ++ added)
    (hadded : ∀ entry ∈ added, entry.2.involves node.id = true) :
    after.removeNode node.id = (some node, g) := by
  have hold : ∀ entry ∈ g.edges.entries, entry.2.involves node.id = false := by
    intro entry hentry
    obtain ⟨hsource, htarget⟩ := hends entry.2 (List.mem_map_of_mem hentry)
    have hother : ∀ id, (g.node? id).isSome → id ≠ node.id := by
      rintro _ hsome rfl
      rw [hnew] at hsome
      cases hsome
    simp [Edge.involves, hother _ hsource, hother _ htarget]
  have hget : after.nodes.get? node.id = some node := by
    rw [hnodes]
    exact (node?_addNode g node node.id).trans (if_pos rfl)
  have herase : after.nodes.erase node.id = g.nodes := by
    rw [hnodes]
    exact OrderedMap.erase_insert (OrderedMap.not_mem_keys_of_get? hnew) node
  have hfilter : (after.edges.filter fun entry => !entry.2.involves node.id) = g.edges := by
    apply OrderedMap.ext
    show after.edges.entries.filter _ = g.edges.entries
    rw [hedges, List.filter_append, List.filter_eq_self.mpr (by simpa using hold),
      List.filter_eq_nil_iff.mpr (by simpa using hadded), List.append_nil]
  rw [removeNode, hget, herase, hfilter, hname]

theorem disconnect_addEdge {g : Graph} {edge : Edge} (hnew : edge.id ∉ g.edges.keys) :
    (g.addEdge edge).disconnect edge.id = (some edge, g) := by
  have hget : (g.edges.insert edge.id edge).get? edge.id = some edge :=
    (OrderedMap.get?_insert ..).trans (if_pos rfl)
  rw [disconnect, addEdge, hget, OrderedMap.erase_insert hnew]

end Graph

namespace Editor

/-- **Edits are taken back without a trace.**

In a graph whose edges mention nodes of the graph only, a node is added under an id that no
node has, and connections from and to it are tried, any of which may be refused. If none of
them draws an id that an edge has, the removal of the node returns it, and gives back the graph
there was, with its nodes and edges in their order.

A connection that draws an id that no edge has is made undone by dropping the edge of that id:
the edge is returned, and the graph is what it was. -/
theorem edits_undone {σ : Type} (draw : σ → EdgeId × σ) :
    (∀ (editor : Editor σ) (node : Node) (attempts : List Edit),
      (∀ edge ∈ editor.graph.edges.values,
        (editor.graph.node? edge.source.node).isSome ∧
        (editor.graph.node? edge.target.node).isSome) →
      editor.graph.node? node.id = none →
      (∀ attempt ∈ attempts, attempt.Attaches node.id) →
      DrawsUnused draw editor (.addNode node :: attempts) →
      ((editor.run draw (.addNode node :: attempts)).graph.removeNode node.id) =
        (some node, editor.graph)) ∧
    ∀ (g : Graph) (ids : σ) (source target : Endpoint) (connected : Graph.Connected σ),
      g.connectWith draw ids source target = .ok connected →
      connected.edge ∉ g.edges.keys →
      connected.graph.disconnect connected.edge =
        (some ⟨connected.edge, source, target⟩, g) := by
  constructor
  · intro editor node attempts hends hnew hattaches hunused
    obtain ⟨hname, hnodes, added, hadded, hinvolves⟩ := run_attaches hattaches hunused.2
    exact Graph.removeNode_of_added hends hnew hname hnodes hadded hinvolves
  · intro g ids source target connected hconnect hunused
    rcases g.connectWith_cases draw ids source target with ⟨error, hrefused⟩ | ⟨-, hconnected⟩
    · rw [hrefused] at hconnect
      cases hconnect
    · obtain rfl := Except.ok.inj (hconnected.symm.trans hconnect)
      exact Graph.disconnect_addEdge hunused

/-- Time feeds a sine, which feeds the emission. -/
def pulsing : Editor EdgeIds :=
  (⟨.empty "Pulsing", .fresh⟩ : Editor EdgeIds).run EdgeIds.draw
    [.addNode (.input "time" "Time" .time), .addNode (.math "wave" "Wave" .sine),
      .addNode (.output "glow" "Glow" .emissive), .addNode (.output "light" "Light" .opacity),
      .connect "time" none "wave" none, .connect "wave" none "glow" none]

/-- Attempts to connect a clamp: to itself, to a pin that is taken, to a node that is not
there, and to three pins that are free. -/
def clamping : List Edit :=
  [.connect "clamp" none "clamp" none, .connect "clamp" none "glow" none,
    .connect "clamp" none "lamp" none, .connect "wave" none "clamp" none,
    .connect "time" none "clamp" (some .min), .connect "wave" none "clamp" (some .max)]

theorem edits_undone_pulsing :
    let clamp : Node := .math "clamp" "Clamp" .clamp
    let after := (pulsing.run EdgeIds.draw (.addNode clamp :: clamping)).graph
    after.edges.keys = ["edge-1", "edge-2", "edge-3", "edge-4", "edge-5"] ∧
    after.removeNode "clamp" = (some clamp, pulsing.graph) ∧
    ∃ connected, pulsing.graph.connectWith EdgeIds.draw ⟨7⟩ ⟨"wave", .out⟩ ⟨"light", .input⟩ =
        .ok connected ∧
      connected.graph.disconnect "edge-8" =
        (some ⟨"edge-8", ⟨"wave", .out⟩, ⟨"light", .input⟩⟩, pulsing.graph) := by
  intro clamp after
  obtain ⟨hnode, hedge⟩ := edits_undone EdgeIds.draw
  refine ⟨by decide, ?_, _, rfl, ?_⟩
  · exact hnode pulsing clamp clamping (by decide) (by decide) (by decide) (by decide)
  · exact hedge pulsing.graph ⟨7⟩ _ _ _ rfl (by decide)

end Editor

end ShaderGraph
