import ShaderGraph.Proofs.Editing
import ShaderGraph.Proofs.Words

/-
What becomes of edges when ids are used again.

A node that is added under an id in use takes the place of the node that had it, and the
edges of that node stay. A connection whose id is drawn again takes the place of the
edge that had it. This file proves what this can do, and that nothing else does it.

  1. `joins_or_endReplaced`: an edge of a graph being edited joins pins that suit each
     other, as was checked when it was made, or one of its ends has since been replaced by
     a node that the edge does not fit. So if nodes are only added under ids that are not
     in use, every edge does (`valid_run`).
  2. `edges_of_connect`: a connection puts its edge at the end of the list, after all the
     edges there were, if its id is not in use; else it replaces one edge, and loses it.
  3. `draw_not_mem_keys_run`: a supply that alone serves a graph draws no id in use.
-/
namespace ShaderGraph

/-! ## Nodes that take the place of others -/

namespace Graph

variable {g g' : Graph} {source target : Endpoint}

/-- Only the output pins of the source and the input pins of the target matter. -/
theorem Joins.congr (h : g.Joins source target)
    (hsource : (g'.node? source.node).map (·.kind.outputs) =
      (g.node? source.node).map (·.kind.outputs))
    (htarget : (g'.node? target.node).map (·.kind.inputs) =
      (g.node? target.node).map (·.kind.inputs)) : g'.Joins source target := by
  obtain ⟨sourceNode, targetNode, output, input, hs, ht, houtput, hinput, hfeeds⟩ := h
  rw [hs, Option.map_some, Option.map_eq_some_iff] at hsource
  rw [ht, Option.map_some, Option.map_eq_some_iff] at htarget
  obtain ⟨sourceNode', hs', houtputs⟩ := hsource
  obtain ⟨targetNode', ht', hinputs⟩ := htarget
  refine ⟨sourceNode', targetNode', output, input, hs', ht', ?_, ?_, hfeeds⟩
  · rw [NodeKind.output?, houtputs]
    exact houtput
  · rw [NodeKind.input?, hinputs]
    exact hinput

/-- A new body leaves the pins of a code node as they are. -/
theorem Joins.updateCode (h : g.Joins source target) (id : NodeId) (code : String) :
    ((g.updateCode? id code).getD g).Joins source target := by
  rcases updateCode?_cases g id code with hsame | ⟨node, old, socket, hnode, hkind, hchanged⟩
  · rw [hsame]
    exact h
  · rw [hchanged]
    apply h.congr
    · rw [node?_modifyNode]
      split
      · next heq => rw [heq, hnode, Option.map_map, Option.map_some, Option.map_some, hkind]; rfl
      · rfl
    · rw [node?_modifyNode]
      split
      · next heq => rw [heq, hnode, Option.map_map, Option.map_some, Option.map_some, hkind]; rfl
      · rfl

end Graph

/-- The edit adds no node under an id in use. -/
def Edit.AddsUnused (g : Graph) : Edit → Prop
  | .addNode node => g.node? node.id = none
  | _ => True

instance (g : Graph) (edit : Edit) : Decidable (edit.AddsUnused g) :=
  match edit with
  | .addNode node => inferInstanceAs (Decidable (g.node? node.id = none))
  | .removeNode _ | .connect .. | .disconnect _ | .updateCode .. | .rename _ => .isTrue trivial

namespace Editor

variable {σ : Type} (draw : σ → EdgeId × σ) (editor : Editor σ)

/-- An edge that does not join pins that suit each other after an edit was there before it;
and if it did join them, the edit put a node in the place of one of its ends. -/
theorem of_not_joins_step {edit : Edit} {edge : Edge}
    (hedge : edge ∈ (editor.step draw edit).graph.edges.values)
    (hnot : ¬ (editor.step draw edit).graph.Joins edge.source edge.target) :
    edge ∈ editor.graph.edges.values ∧
      (editor.graph.Joins edge.source edge.target → ∃ node, edit = .addNode node ∧
        (editor.graph.node? node.id).isSome ∧ edge.involves node.id = true) := by
  rcases editor.step_edges draw edit with ⟨hedges, -⟩ | ⟨source, target, hnone, hadded⟩
  · refine ⟨(hedges.map Prod.snd).subset hedge, fun h => ?_⟩
    -- The edge is broken where the nodes at its ends change.
    cases edit with
    | addNode node =>
      refine ⟨node, rfl, ?_, ?_⟩
      · by_contra hnew
        exact hnot (h.addNode (by simpa using hnew))
      · by_contra hapart
        simp only [Edge.involves, Bool.or_eq_true, beq_iff_eq, not_or] at hapart
        apply hnot
        apply h.congr
        · rw [step, Graph.node?_addNode, if_neg hapart.1]
        · rw [step, Graph.node?_addNode, if_neg hapart.2]
    | removeNode id =>
      have hapart := (Graph.mem_edges_removeNode.mp hedge).2
      simp only [Edge.involves, Bool.or_eq_false_iff, beq_eq_false_iff_ne] at hapart
      apply absurd _ hnot
      apply h.congr
      · rw [step, Graph.node?_removeNode, if_neg hapart.1]
      · rw [step, Graph.node?_removeNode, if_neg hapart.2]
    | connect source sourcePin target targetPin =>
      apply absurd _ hnot
      rcases editor.step_connect draw source target sourcePin targetPin with
        hsame | ⟨_, _, -, hadded⟩
      · rw [hsame]
        exact h
      · rw [hadded]
        exact h
    | disconnect id => exact absurd h hnot
    | updateCode id source => exact absurd (h.updateCode id source) hnot
    | rename name => exact absurd h hnot
  · rw [hadded] at hedge hnot
    rcases OrderedMap.mem_values_insert hedge with rfl | hold
    · exact absurd (Graph.of_connectionError? hnone).1 hnot
    · exact ⟨hold, fun h => absurd h hnot⟩

/-- In the course of the edits a node was put in the place of one of the edge's ends. The
edge joined pins that suited each other until then, not so afterwards, and it has been in
the graph from before that edit to the last one. -/
def EndReplaced (edits : List Edit) (edge : Edge) : Prop :=
  ∃ before node after, edits = before ++ .addNode node :: after ∧
    ((editor.run draw before).graph.node? node.id).isSome ∧ edge.involves node.id = true ∧
    (editor.run draw before).graph.Joins edge.source edge.target ∧
    ¬ ((editor.run draw before).graph.addNode node).Joins edge.source edge.target ∧
    ∀ during, during <+: .addNode node :: after →
      edge ∈ (editor.run draw (before ++ during)).graph.edges.values

variable {draw editor}

theorem EndReplaced.concat {edits : List Edit} {edge : Edge}
    (h : EndReplaced draw editor edits edge) {edit : Edit}
    (hedge : edge ∈ (editor.run draw (edits ++ [edit])).graph.edges.values) :
    EndReplaced draw editor (edits ++ [edit]) edge := by
  obtain ⟨before, node, after, rfl, hold, hinvolves, hjoined, hbroken, hthere⟩ := h
  refine ⟨before, node, after ++ [edit], ?_, hold, hinvolves, hjoined, hbroken, ?_⟩
  · rw [List.append_assoc, List.cons_append]
  · intro during hduring
    rw [← List.cons_append, List.prefix_concat_iff] at hduring
    rcases hduring with rfl | hduring
    · rw [← List.append_assoc]
      exact hedge
    · exact hthere during hduring

/-- **Only a node in the place of an end breaks an edge**, along any run from a graph whose
edges all join pins that suit each other. -/
theorem joins_or_endReplaced
    (hstart : ∀ edge ∈ editor.graph.edges.values, editor.graph.Joins edge.source edge.target)
    (edits : List Edit) :
    ∀ edge ∈ (editor.run draw edits).graph.edges.values,
      (editor.run draw edits).graph.Joins edge.source edge.target ∨
        EndReplaced draw editor edits edge := by
  -- On the last edit: it breaks the edge, or what is so before it stays so.
  induction edits using List.reverseRecOn with
  | nil => exact fun edge hedge => .inl (hstart edge hedge)
  | append_singleton edits edit ih =>
    intro edge hedge
    by_cases hjoins : (editor.run draw (edits ++ [edit])).graph.Joins edge.source edge.target
    · exact .inl hjoins
    · right
      have hstep := hedge
      rw [run_concat] at hstep hjoins
      obtain ⟨hbefore, hend⟩ := of_not_joins_step draw _ hstep hjoins
      rcases ih edge hbefore with hjoined | hreplaced
      · obtain ⟨node, rfl, hold, hinvolves⟩ := hend hjoined
        refine ⟨edits, node, [], rfl, hold, hinvolves, hjoined, hjoins, fun during hduring => ?_⟩
        rcases List.prefix_cons_iff.mp hduring with rfl | ⟨rest, rfl, hrest⟩
        · rw [List.append_nil]
          exact hbefore
        · obtain rfl := List.prefix_nil.mp hrest
          exact hedge
      · exact hreplaced.concat hedge

/-- Nodes are added only under ids that are not in use. -/
def AddsUnused (draw : σ → EdgeId × σ) : Editor σ → List Edit → Prop
  | _, [] => True
  | editor, edit :: rest =>
    edit.AddsUnused editor.graph ∧ AddsUnused draw (editor.step draw edit) rest

instance decidableAddsUnused (draw : σ → EdgeId × σ) :
    (editor : Editor σ) → (edits : List Edit) → Decidable (AddsUnused draw editor edits)
  | _, [] => .isTrue trivial
  | editor, edit :: rest =>
    have := decidableAddsUnused draw (editor.step draw edit) rest
    inferInstanceAs (Decidable (_ ∧ _))

theorem AddsUnused.node?_eq_none {before after : List Edit} {node : Node}
    (h : AddsUnused draw editor (before ++ .addNode node :: after)) :
    (editor.run draw before).graph.node? node.id = none := by
  induction before generalizing editor with
  | nil => exact h.1
  | cons edit before ih => exact ih h.2

/-- Where no node takes the place of another, the graph stays valid. -/
theorem valid_run {name : String} {ids : σ} {edits : List Edit}
    (hunused : AddsUnused draw ⟨.empty name, ids⟩ edits) :
    ((⟨.empty name, ids⟩ : Editor σ).run draw edits).graph.Valid := by
  have hconsistent : ((⟨.empty name, ids⟩ : Editor σ).run draw edits).graph.Consistent :=
    Graph.Consistent.run draw (Graph.Consistent.empty name) edits
  refine ⟨fun id node hnode => hconsistent.nodes.of_get? hnode, fun edge hedge => ?_⟩
  rcases joins_or_endReplaced (List.forall_mem_nil _) edits edge hedge with hjoins | hreplaced
  · exact hjoins
  · obtain ⟨before, node, after, rfl, hold, -⟩ := hreplaced
    rw [hunused.node?_eq_none] at hold
    cases hold

/-- **Edges stay as they were checked, unless an end is replaced.** Whatever is done to a
graph from the start, each of its edges leads from an output pin of its source to an input
pin of its target that it suits, or one of the two nodes was replaced by another, which the
edge does not fit, since the edge was made. And whatever is done next, an edge that it leaves
without such pins was there before; if it had them, a node was added in the place of one of
its ends. -/
theorem edges_join_unless_replaced {σ : Type} (draw : σ → EdgeId × σ) (ids : σ) (name : String)
    (edits : List Edit) :
    let start : Editor σ := ⟨.empty name, ids⟩
    let g := (start.run draw edits).graph
    (∀ edge ∈ g.edges.values,
      g.Joins edge.source edge.target ∨ EndReplaced draw start edits edge) ∧
    ∀ edit, ∀ edge ∈ (start.run draw (edits ++ [edit])).graph.edges.values,
      ¬ (start.run draw (edits ++ [edit])).graph.Joins edge.source edge.target →
      edge ∈ g.edges.values ∧
        (g.Joins edge.source edge.target → ∃ node, edit = .addNode node ∧
          (g.node? node.id).isSome ∧ edge.involves node.id = true) := by
  intro start g
  refine ⟨joins_or_endReplaced (List.forall_mem_nil _) edits, fun edit edge hedge hnot => ?_⟩
  rw [run_concat] at hedge hnot
  exact of_not_joins_step draw _ hedge hnot

/-- A sine is fed, and then a node that takes no input stands in its place. -/
def sineReplaced : List Edit :=
  [.addNode (.input "time" "Time" .time), .addNode (.math "wave" "Wave" .sine),
    .connect "time" none "wave" none, .addNode (.input "wave" "Wave" .float)]

theorem not_joins_sineReplaced :
    let g := ((⟨.empty "Replaced", .fresh⟩ : Editor EdgeIds).run EdgeIds.draw sineReplaced).graph
    ¬ g.Joins ⟨"time", .out⟩ ⟨"wave", .input⟩ := by
  intro g
  rintro ⟨source, target, output, input, -, htarget, -, hinput, -⟩
  have hnode : g.node? "wave" = some (.input "wave" "Wave" .float) := by decide
  obtain rfl := Option.some.inj (hnode.symm.trans htarget)
  cases hinput

theorem unjoined_of_sineReplaced :
    let g := ((⟨.empty "Replaced", .fresh⟩ : Editor EdgeIds).run EdgeIds.draw sineReplaced).graph
    ∃ edge ∈ g.edges.values, ¬ g.Joins edge.source edge.target := by
  intro g
  have hedge : (⟨"edge-1", ⟨"time", .out⟩, ⟨"wave", .input⟩⟩ : Edge) ∈ g.edges.values := by decide
  exact ⟨_, hedge, not_joins_sineReplaced⟩

theorem endReplaced_of_sineReplaced :
    let start : Editor EdgeIds := ⟨.empty "Replaced", .fresh⟩
    let g := (start.run EdgeIds.draw sineReplaced).graph
    ∃ edge ∈ g.edges.values, EndReplaced EdgeIds.draw start sineReplaced edge ∧
      edge ∈ (start.run EdgeIds.draw (sineReplaced.take 3)).graph.edges.values := by
  intro start g
  have hedge : (⟨"edge-1", ⟨"time", .out⟩, ⟨"wave", .input⟩⟩ : Edge) ∈ g.edges.values := by decide
  obtain ⟨hcases, -⟩ := edges_join_unless_replaced EdgeIds.draw .fresh "Replaced" sineReplaced
  obtain ⟨-, hlast⟩ :=
    edges_join_unless_replaced EdgeIds.draw .fresh "Replaced" (sineReplaced.take 3)
  refine ⟨_, hedge, (hcases _ hedge).resolve_left not_joins_sineReplaced, ?_⟩
  exact (hlast (.addNode (.input "wave" "Wave" .float)) _ hedge not_joins_sineReplaced).1

end Editor

/-! ## Edges that take the place of others -/

/-- **A connection comes last, or in the place of the edge whose id it draws.** If the id is
not in use, the edges are those there were, in order, and then the new one. If it is, the
new edge stands in the place of the edge that had the id, which is lost. -/
theorem Graph.edges_of_connect {g : Graph} {ids : EdgeIds} {source target : NodeId}
    {sourcePin targetPin : Option PinKey} {connected : Graph.Connected EdgeIds}
    (h : g.connect ids source sourcePin target targetPin = .ok connected) :
    let edge : Edge :=
      ⟨connected.edge, ⟨source, sourcePin.getD .out⟩, ⟨target, targetPin.getD .input⟩⟩
    (connected.edge ∉ g.edges.keys →
      connected.graph.edges.values = g.edges.values ++ [edge] ∧
      connected.graph.edges.size = g.edges.size + 1) ∧
    (connected.edge ∈ g.edges.keys →
      connected.graph.edges.entries = (g.edges.entries.map fun entry =>
        if entry.1 = connected.edge then (connected.edge, edge) else entry) ∧
      connected.graph.edges.size = g.edges.size) := by
  unfold Graph.connect at h
  rcases g.connectWith_cases EdgeIds.draw ids ⟨source, sourcePin.getD .out⟩
    ⟨target, targetPin.getD .input⟩ with ⟨error, hrefused⟩ | ⟨-, hconnected⟩
  · rw [hrefused] at h
    cases h
  · rw [hconnected] at h
    obtain rfl := Except.ok.inj h
    intro edge
    refine ⟨fun hunused => ?_, fun hused => ?_⟩
    · have hentries : (g.edges.insert edge.id edge).entries = g.edges.entries ++ [(edge.id, edge)] :=
        OrderedMap.insertEntry_of_not_mem hunused edge
      constructor
      · show (g.edges.insert edge.id edge).entries.map Prod.snd = _
        rw [hentries, List.map_append]
        rfl
      · show (g.edges.insert edge.id edge).entries.length = _
        rw [hentries, List.length_append]
        rfl
    · have hentries := OrderedMap.insertEntry_of_mem hused g.edges.distinct edge
      refine ⟨hentries, ?_⟩
      show (OrderedMap.insertEntry edge.id edge g.edges.entries).length = _
      rw [hentries, List.length_map]
      rfl

/-- The time feeds a sine, and nothing feeds the emission yet. -/
def halfConnected : Graph :=
  let nodes := [.input "time" "Time" .time, .math "wave" "Wave" .sine,
    .output "glow" "Glow" .emissive]
  (nodes.foldl Graph.addNode (.empty "Half")).addEdge
    ⟨"edge-1", ⟨"time", .out⟩, ⟨"wave", .input⟩⟩

theorem edges_of_connect_halfConnected :
    ∃ connected, halfConnected.connect ⟨1⟩ "wave" none "glow" none = .ok connected ∧
      connected.edge ∉ halfConnected.edges.keys ∧
      connected.graph.edges.values = halfConnected.edges.values ++
        [⟨connected.edge, ⟨"wave", .out⟩, ⟨"glow", .input⟩⟩] := by
  obtain ⟨connected, h⟩ :
      ∃ connected, halfConnected.connect ⟨1⟩ "wave" none "glow" none = .ok connected := ⟨_, rfl⟩
  have hunused : connected.edge ∉ halfConnected.edges.keys := by
    obtain rfl := Except.ok.inj h
    decide
  exact ⟨connected, h, hunused, ((Graph.edges_of_connect h).1 hunused).1⟩

/-- A supply that starts anew draws the id of the edge that is there, which is lost. -/
theorem edge_lost_of_halfConnected :
    ∃ connected, halfConnected.connect .fresh "wave" none "glow" none = .ok connected ∧
      halfConnected.edges.values = [⟨"edge-1", ⟨"time", .out⟩, ⟨"wave", .input⟩⟩] ∧
      connected.graph.edges.values = [⟨"edge-1", ⟨"wave", .out⟩, ⟨"glow", .input⟩⟩] :=
  ⟨_, rfl, by decide, by decide⟩

/-! ## A supply of its own -/

/-- The edges have ids that were drawn from a supply, of which `n` were drawn. -/
def Graph.NumberedTo (g : Graph) (n : Nat) : Prop :=
  ∀ key ∈ g.edges.keys, ∃ k ≤ n, key = "edge-" ++ toString k

theorem EdgeIds.eq_of_text_eq {j k : Nat} (h : "edge-" ++ toString j = "edge-" ++ toString k) :
    j = k := by
  have hdigits := congrArg String.toList h
  simp only [String.toList_append, List.append_cancel_left_eq, Nat.toString_eq_repr,
    Nat.toList_repr] at hdigits
  exact Text.toDigits_injective hdigits

theorem Graph.NumberedTo.draw_not_mem {g : Graph} {ids : EdgeIds} (h : g.NumberedTo ids.drawn) :
    ids.draw.1 ∉ g.edges.keys := by
  intro hmem
  obtain ⟨k, hk, heq⟩ := h _ hmem
  have := EdgeIds.eq_of_text_eq heq
  omega

theorem Editor.numberedTo_step {editor : Editor EdgeIds}
    (h : editor.graph.NumberedTo editor.ids.drawn) (edit : Edit) :
    (editor.step EdgeIds.draw edit).graph.NumberedTo (editor.step EdgeIds.draw edit).ids.drawn := by
  rcases editor.step_edges EdgeIds.draw edit with ⟨hedges, hids⟩ | ⟨source, target, -, hadded⟩
  · rw [hids]
    exact fun key hkey => h key ((hedges.map Prod.fst).subset hkey)
  · rw [hadded]
    intro key hkey
    have hkeys := OrderedMap.keys_insert editor.graph.edges editor.ids.draw.1
      ⟨editor.ids.draw.1, source, target⟩
    rw [if_neg h.draw_not_mem] at hkeys
    rcases List.mem_append.mp (hkeys ▸ hkey) with hold | hnew
    · obtain ⟨k, hk, rfl⟩ := h key hold
      exact ⟨k, Nat.le_succ_of_le hk, rfl⟩
    · exact ⟨editor.ids.drawn + 1, Nat.le_refl _, List.mem_singleton.mp hnew⟩

/-- **A supply that alone serves a graph draws no id in use**, whatever it has drawn before. -/
theorem Editor.draw_not_mem_keys_run (ids : EdgeIds) (name : String) (edits : List Edit) :
    let editor := (⟨.empty name, ids⟩ : Editor EdgeIds).run EdgeIds.draw edits
    editor.ids.draw.1 ∉ editor.graph.edges.keys := by
  have hrun : ∀ (edits : List Edit) (editor : Editor EdgeIds),
      editor.graph.NumberedTo editor.ids.drawn →
      (editor.run EdgeIds.draw edits).graph.NumberedTo (editor.run EdgeIds.draw edits).ids.drawn := by
    intro edits
    induction edits with
    | nil => exact fun editor h => h
    | cons edit rest ih => exact fun editor h => ih _ (numberedTo_step h edit)
  apply Graph.NumberedTo.draw_not_mem
  exact hrun edits ⟨.empty name, ids⟩ (List.forall_mem_nil _)

end ShaderGraph
