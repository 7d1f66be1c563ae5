import ShaderGraph.StarterGraph
import ShaderGraph.Proofs.Building

/-
Runs of edits.

An `Editor` is a graph with the supply that its edges get their ids from. The supply
may draw any ids, and draw one id again and again. `Editor.step` does one edit and
`Editor.run` one after the other; an edit that is refused changes nothing.

What is proved:
  1. `Consistent.step`: no edit breaks the consistency of a graph. Nodes and edges are
     stored under their own ids, edges join two different nodes of the graph, and no two
     edges end at one pin.
  2. `buildWith_ok`: the starter graph is built with every supply, since each of its links
     ends at a pin of its own.
  3. `editing_keeps_consistent`: every graph that edits lead to, from a graph without
     nodes, the graph of a new material or the starter graph, is consistent.

A connection keeps the last property also where its id is in use and it takes the
place of an edge: the pin it ends at was found free before the id was drawn.
-/
namespace ShaderGraph

/-- What is done to a graph that is being edited. -/
inductive Edit where
  | addNode (node : Node)
  | removeNode (id : NodeId)
  | connect (source : NodeId) (sourcePin : Option PinKey) (target : NodeId)
      (targetPin : Option PinKey)
  | disconnect (id : EdgeId)
  | updateCode (id : NodeId) (source : String)
  | rename (name : String)
  deriving DecidableEq, Repr

/-- A graph being edited, with the supply that its edges get their ids from. -/
structure Editor (σ : Type) where
  graph : Graph
  ids : σ

namespace Editor

variable {σ : Type} (draw : σ → EdgeId × σ)

def step (editor : Editor σ) : Edit → Editor σ
  | .addNode node => { editor with graph := editor.graph.addNode node }
  | .removeNode id => { editor with graph := (editor.graph.removeNode id).2 }
  | .connect source sourcePin target targetPin =>
    match editor.graph.connectWith draw editor.ids ⟨source, sourcePin.getD .out⟩
        ⟨target, targetPin.getD .input⟩ with
    | .error _ => editor
    | .ok connected => ⟨connected.graph, connected.ids⟩
  | .disconnect id => { editor with graph := (editor.graph.disconnect id).2 }
  | .updateCode id source =>
    { editor with graph := (editor.graph.updateCode? id source).getD editor.graph }
  | .rename name => { editor with graph := { editor.graph with name } }

def run (editor : Editor σ) (edits : List Edit) : Editor σ := edits.foldl (step draw) editor

theorem run_append (editor : Editor σ) (edits more : List Edit) :
    editor.run draw (edits ++ more) = (editor.run draw edits).run draw more :=
  List.foldl_append

theorem run_concat (editor : Editor σ) (edits : List Edit) (edit : Edit) :
    editor.run draw (edits ++ [edit]) = (editor.run draw edits).step draw edit :=
  run_append draw editor edits [edit]

theorem run_induction {P : Graph → Prop} {editor : Editor σ}
    (hstep : ∀ (editor : Editor σ) edit, P editor.graph → P (editor.step draw edit).graph)
    (h : P editor.graph) (edits : List Edit) : P (editor.run draw edits).graph := by
  induction edits generalizing editor with
  | nil => exact h
  | cons edit rest ih => exact ih (hstep editor edit h)

end Editor

/-! ## What edits do to nodes and edges -/

namespace Graph

variable {g : Graph}

theorem node?_removeNode (g : Graph) (id other : NodeId) :
    (g.removeNode id).2.node? other = if other = id then none else g.node? other :=
  OrderedMap.get?_erase g.nodes id other

theorem node?_modifyNode (g : Graph) (id other : NodeId) (change : Node → Node) :
    (g.modifyNode id change).node? other =
      if other = id then (g.node? id).map change else g.node? other :=
  OrderedMap.get?_modify g.nodes id other change

/-- The body of a code node is replaced, or nothing is. -/
theorem updateCode?_cases (g : Graph) (id : NodeId) (source : String) :
    (g.updateCode? id source).getD g = g ∨ ∃ node old socket,
      g.node? id = some node ∧ node.kind = .code old socket ∧
      (g.updateCode? id source).getD g =
        g.modifyNode id fun node => { node with kind := .code source socket } := by
  unfold updateCode?
  split
  · next node hnode =>
    split
    · next old socket hkind => exact .inr ⟨node, old, socket, hnode, hkind, rfl⟩
    · exact .inl rfl
  · exact .inl rfl

theorem connectWith_cases {σ : Type} (g : Graph) (draw : σ → EdgeId × σ) (ids : σ)
    (source target : Endpoint) :
    (∃ error, g.connectWith draw ids source target = .error error) ∨
    (g.connectionError? source target = none ∧ g.connectWith draw ids source target =
      .ok ⟨g.addEdge ⟨(draw ids).1, source, target⟩, (draw ids).1, (draw ids).2⟩) := by
  unfold connectWith
  cases h : g.connectionError? source target with
  | some error => exact .inl ⟨error, rfl⟩
  | none => exact .inr ⟨rfl, rfl⟩

theorem mem_edges_removeNode {id : NodeId} {edge : Edge} :
    edge ∈ (g.removeNode id).2.edges.values ↔
      edge ∈ g.edges.values ∧ edge.involves id = false := by
  simp only [removeNode, OrderedMap.filter, OrderedMap.values, List.mem_map, List.mem_filter,
    Bool.not_eq_true']
  constructor
  · rintro ⟨entry, ⟨hentry, hinvolves⟩, rfl⟩
    exact ⟨⟨entry, hentry, rfl⟩, hinvolves⟩
  · rintro ⟨⟨entry, hentry, rfl⟩, hinvolves⟩
    exact ⟨entry, ⟨hentry, hinvolves⟩, rfl⟩

end Graph

theorem Editor.step_connect {σ : Type} (draw : σ → EdgeId × σ) (editor : Editor σ)
    (source target : NodeId) (sourcePin targetPin : Option PinKey) :
    editor.step draw (.connect source sourcePin target targetPin) = editor ∨
    ∃ s t, editor.graph.connectionError? s t = none ∧
      editor.step draw (.connect source sourcePin target targetPin) =
        ⟨editor.graph.addEdge ⟨(draw editor.ids).1, s, t⟩, (draw editor.ids).2⟩ := by
  rw [step]
  rcases editor.graph.connectWith_cases draw editor.ids ⟨source, sourcePin.getD .out⟩
    ⟨target, targetPin.getD .input⟩ with ⟨error, hrefused⟩ | ⟨hnone, hconnected⟩
  · rw [hrefused]
    exact .inl rfl
  · rw [hconnected]
    exact .inr ⟨_, _, hnone, rfl⟩

/-- An edit drops edges and draws no id, or it adds one edge that there was no reason to
refuse, with an id that it draws. -/
theorem Editor.step_edges {σ : Type} (draw : σ → EdgeId × σ) (editor : Editor σ) (edit : Edit) :
    ((editor.step draw edit).graph.edges.entries.Sublist editor.graph.edges.entries ∧
      (editor.step draw edit).ids = editor.ids) ∨
    ∃ source target, editor.graph.connectionError? source target = none ∧
      editor.step draw edit =
        ⟨editor.graph.addEdge ⟨(draw editor.ids).1, source, target⟩, (draw editor.ids).2⟩ := by
  cases edit with
  | addNode node => exact .inl ⟨List.Sublist.refl _, rfl⟩
  | removeNode id => exact .inl ⟨List.filter_sublist, rfl⟩
  | connect source sourcePin target targetPin =>
    rcases editor.step_connect draw source target sourcePin targetPin with hsame | hadded
    · rw [hsame]
      exact .inl ⟨List.Sublist.refl _, rfl⟩
    · exact .inr hadded
  | disconnect id => exact .inl ⟨List.filter_sublist, rfl⟩
  | updateCode id source =>
    rw [step]
    rcases editor.graph.updateCode?_cases id source with hsame | ⟨_, _, _, _, _, hchanged⟩
    · rw [hsame]
      exact .inl ⟨List.Sublist.refl _, rfl⟩
    · rw [hchanged]
      exact .inl ⟨List.Sublist.refl _, rfl⟩
  | rename name => exact .inl ⟨List.Sublist.refl _, rfl⟩

/-! ## Consistency -/

/-- Nodes and edges are stored under their own ids, edges join two different nodes that
are there, and no two edges end at one pin. -/
structure Graph.Consistent (g : Graph) : Prop where
  nodes : g.nodes.KeyedBy Node.id
  edges : g.edges.KeyedBy Edge.id
  ends : ∀ edge ∈ g.edges.values,
    (g.node? edge.source.node).isSome ∧ (g.node? edge.target.node).isSome
  loopless : ∀ edge ∈ g.edges.values, edge.source.node ≠ edge.target.node
  single : (g.edges.values.map Edge.target).Nodup

namespace Graph.Consistent

variable {g : Graph}

theorem empty (name : String) : (Graph.empty name).Consistent where
  nodes := .empty _
  edges := .empty _
  ends := List.forall_mem_nil _
  loopless := List.forall_mem_nil _
  single := List.nodup_nil

/-- With no new edges a graph stays consistent as long as the ends of its edges stay. -/
theorem of_sublist {g' : Graph} (h : g.Consistent) (hnodes : g'.nodes.KeyedBy Node.id)
    (hedges : g'.edges.entries.Sublist g.edges.entries)
    (hends : ∀ edge ∈ g'.edges.values, ∀ id, edge.involves id = true →
      (g.node? id).isSome → (g'.node? id).isSome) : g'.Consistent := by
  have hvalues : g'.edges.values.Sublist g.edges.values := hedges.map Prod.snd
  refine ⟨hnodes, fun entry hentry => h.edges entry (hedges.subset hentry), ?_, ?_, ?_⟩
  · intro edge hedge
    obtain ⟨hsource, htarget⟩ := h.ends edge (hvalues.subset hedge)
    exact ⟨hends edge hedge _ (by simp [Edge.involves]) hsource,
      hends edge hedge _ (by simp [Edge.involves]) htarget⟩
  · intro edge hedge
    exact h.loopless edge (hvalues.subset hedge)
  · exact h.single.sublist (hvalues.map Edge.target)

theorem addNode (h : g.Consistent) (node : Node) : (g.addNode node).Consistent := by
  apply of_sublist h
  · exact h.nodes.insert rfl
  · exact List.Sublist.refl _
  · intro edge _ id _ hid
    rw [node?_addNode]
    split
    · rfl
    · exact hid

theorem removeNode (h : g.Consistent) (id : NodeId) : (g.removeNode id).2.Consistent := by
  apply of_sublist h
  · exact h.nodes.filter _
  · exact List.filter_sublist
  · intro edge hedge other hinvolves hother
    rw [node?_removeNode, if_neg]
    · exact hother
    · -- The edges of the node are dropped with it.
      rintro rfl
      rw [(mem_edges_removeNode.mp hedge).2] at hinvolves
      cases hinvolves

theorem addEdge (h : g.Consistent) {edge : Edge}
    (hnone : g.connectionError? edge.source edge.target = none) : (g.addEdge edge).Consistent := by
  obtain ⟨⟨source, target, _, _, hsource, htarget, _⟩, hloop, hfree⟩ := of_connectionError? hnone
  refine ⟨h.nodes, h.edges.insert rfl, ?_, ?_, ?_⟩
  · intro e he
    rcases OrderedMap.mem_values_insert he with rfl | hold
    · exact ⟨Option.isSome_iff_exists.mpr ⟨source, hsource⟩,
        Option.isSome_iff_exists.mpr ⟨target, htarget⟩⟩
    · exact h.ends e hold
  · intro e he
    rcases OrderedMap.mem_values_insert he with rfl | hold
    · exact hloop
    · exact h.loopless e hold
  · -- No edge ended at the pin, the one whose place is taken included.
    apply OrderedMap.nodup_map_values_insert h.single
    intro hmem
    obtain ⟨other, hother, htarget⟩ := List.mem_map.mp hmem
    have := List.any_eq_false.mp hfree other hother
    simp [Edge.feeds, htarget] at this

theorem disconnect (h : g.Consistent) (id : EdgeId) : (g.disconnect id).2.Consistent :=
  h.of_sublist h.nodes List.filter_sublist fun _ _ _ _ hid => hid

theorem updateCode (h : g.Consistent) (id : NodeId) (source : String) :
    ((g.updateCode? id source).getD g).Consistent := by
  rcases updateCode?_cases g id source with hsame | ⟨node, old, socket, hnode, -, hchanged⟩
  · rw [hsame]
    exact h
  · rw [hchanged]
    apply of_sublist h
    · exact h.nodes.modify (fun _ => by rfl) id
    · exact List.Sublist.refl _
    · intro edge _ other _ hother
      rw [node?_modifyNode]
      split
      · rw [hnode]
        rfl
      · exact hother

theorem rename (h : g.Consistent) (name : String) : { g with name }.Consistent :=
  ⟨h.nodes, h.edges, h.ends, h.loopless, h.single⟩

/-- **No edit breaks consistency.** -/
theorem step {σ : Type} (draw : σ → EdgeId × σ) {editor : Editor σ}
    (h : editor.graph.Consistent) (edit : Edit) : (editor.step draw edit).graph.Consistent := by
  cases edit with
  | addNode node => exact h.addNode node
  | removeNode id => exact h.removeNode id
  | connect source sourcePin target targetPin =>
    rcases editor.step_connect draw source target sourcePin targetPin with
      hsame | ⟨_, _, hnone, hadded⟩
    · rw [hsame]
      exact h
    · rw [hadded]
      exact h.addEdge hnone
  | disconnect id => exact h.disconnect id
  | updateCode id source => exact h.updateCode id source
  | rename name => exact h.rename name

theorem run {σ : Type} (draw : σ → EdgeId × σ) {editor : Editor σ} (h : editor.graph.Consistent)
    (edits : List Edit) : (editor.run draw edits).graph.Consistent :=
  Editor.run_induction draw (fun _ edit h => h.step draw edit) h edits

theorem length_feeding (h : g.Consistent) (pin : Endpoint) :
    (g.edges.values.filter (·.feeds pin)).length ≤ 1 := by
  calc (g.edges.values.filter (·.feeds pin)).length
      = g.edges.values.countP (·.feeds pin) := List.countP_eq_length_filter.symm
    _ = (g.edges.values.map Edge.target).count pin := by
        rw [List.count_eq_countP, List.countP_map]
        rfl
    _ ≤ 1 := List.nodup_iff_count.mp h.single pin

end Graph.Consistent

/-! ## The starter graph -/

namespace StarterGraph

variable {σ : Type} {draw : σ → EdgeId × σ}

/-- Without its edges the graph has no reason to refuse the link. -/
def Fits (g : Graph) (link : NodeId × Endpoint) : Prop :=
  { g with edges := .empty }.connectionError? ⟨link.1, .out⟩ link.2 = none

instance (g : Graph) (link : NodeId × Endpoint) : Decidable (Fits g link) :=
  inferInstanceAs (Decidable (_ = _))

theorem Fits.connectionError? {g : Graph} {link : NodeId × Endpoint} (h : Fits g link)
    (hfree : g.isFed link.2 = false) : g.connectionError? ⟨link.1, .out⟩ link.2 = none := by
  unfold Fits Graph.connectionError? at h
  unfold Graph.connectionError?
  simp only [Graph.node?, hfree] at h ⊢
  exact h

/-- Links that fit, and end at pins of their own that are free, are all connected. -/
theorem connectAll_ok {links : List (NodeId × Endpoint)} {g : Graph} (ids : σ)
    (hfits : ∀ link ∈ links, Fits g link) (hdistinct : (links.map Prod.snd).Nodup)
    (hfree : ∀ link ∈ links, g.isFed link.2 = false) :
    ∃ built rest, connectAll draw g ids links = .ok (built, rest) := by
  induction links generalizing g ids with
  | nil => exact ⟨g, ids, rfl⟩
  | cons link links ih =>
    rw [List.map_cons, List.nodup_cons] at hdistinct
    have hnone := (hfits link List.mem_cons_self).connectionError? (hfree link List.mem_cons_self)
    unfold connectAll
    rcases g.connectWith_cases draw ids ⟨link.1, .out⟩ link.2 with ⟨error, hrefused⟩ | ⟨-, hok⟩
    · rw [Graph.connectWith, hnone] at hrefused
      cases hrefused
    · simp only [hok]
      refine ih _ ?_ hdistinct.2 ?_
      · intro other hother
        exact hfits other (List.mem_cons_of_mem link hother)
      intro other hother
      -- The new edge ends elsewhere, and the others did before.
      apply List.any_eq_false.mpr
      intro edge hedge
      rcases OrderedMap.mem_values_insert hedge with rfl | hold
      · have hne : link.2 ≠ other.2 := by
          intro heq
          apply hdistinct.1
          rw [heq]
          exact List.mem_map_of_mem hother
        simpa [Edge.feeds] using hne
      · exact List.any_eq_false.mp (hfree other (List.mem_cons_of_mem link hother)) edge hold

theorem buildWith_ok (draw : σ → EdgeId × σ) (ids : σ) :
    ∃ built rest, buildWith draw ids = .ok (built, rest) := by
  apply connectAll_ok ids
  · decide
  · decide
  · decide

theorem consistent_connectAll {links : List (NodeId × Endpoint)} {g built : Graph} {ids rest : σ}
    (h : g.Consistent) (hbuilt : connectAll draw g ids links = .ok (built, rest)) :
    built.Consistent := by
  induction links generalizing g ids with
  | nil =>
    obtain ⟨rfl, -⟩ := Prod.mk.inj (Except.ok.inj hbuilt)
    exact h
  | cons link links ih =>
    unfold connectAll at hbuilt
    rcases g.connectWith_cases draw ids ⟨link.1, .out⟩ link.2 with ⟨error, hrefused⟩ | ⟨hnone, hok⟩
    · simp only [hrefused] at hbuilt
      cases hbuilt
    · simp only [hok] at hbuilt
      exact ih (h.addEdge hnone) hbuilt

theorem consistent_scattered : scattered.Consistent := by
  have hnodes : ∀ (nodes : List Node) (g : Graph), g.Consistent →
      (nodes.foldl Graph.addNode g).Consistent := by
    intro nodes
    induction nodes with
    | nil => exact fun g h => h
    | cons node rest ih => exact fun g h => ih _ (h.addNode node)
  exact hnodes nodes .blank (.empty _)

end StarterGraph

/-- **Editing keeps a graph consistent**, whatever ids its edges get. From a graph
without nodes, the graph of a new material or the starter graph, which is always built,
edits lead to consistent graphs only; their nodes have different ids, so have their edges,
and at most one edge feeds a pin. -/
theorem Editor.editing_keeps_consistent {σ : Type} (draw : σ → EdgeId × σ) (ids : σ)
    (name : String) (edits : List Edit) :
    ∃ starter rest, StarterGraph.buildWith draw ids = .ok (starter, rest) ∧
      ∀ start ∈ [⟨.empty name, ids⟩, ⟨.blank, ids⟩, (⟨starter, rest⟩ : Editor σ)],
        let g := (start.run draw edits).graph
        g.Consistent ∧ (g.snapshot.nodes.map Node.id).Nodup ∧
        (g.snapshot.edges.map Edge.id).Nodup ∧
        ∀ pin, (g.snapshot.edges.filter (·.feeds pin)).length ≤ 1 := by
  obtain ⟨starter, rest, hbuilt⟩ := StarterGraph.buildWith_ok draw ids
  refine ⟨starter, rest, hbuilt, ?_⟩
  have hruns : ∀ start : Editor σ, start.graph.Consistent →
      let g := (start.run draw edits).graph
      g.Consistent ∧ (g.snapshot.nodes.map Node.id).Nodup ∧
      (g.snapshot.edges.map Edge.id).Nodup ∧
      ∀ pin, (g.snapshot.edges.filter (·.feeds pin)).length ≤ 1 := by
    intro start hstart
    have h := hstart.run draw edits
    exact ⟨h, h.nodes.nodup, h.edges.nodup, h.length_feeding⟩
  have hstarter : starter.Consistent :=
    StarterGraph.consistent_connectAll StarterGraph.consistent_scattered hbuilt
  simp only [List.forall_mem_cons, List.not_mem_nil, false_imp_iff, implies_true, and_true]
  exact ⟨hruns _ (.empty name), hruns _ (.empty _), hruns _ hstarter⟩

end ShaderGraph
