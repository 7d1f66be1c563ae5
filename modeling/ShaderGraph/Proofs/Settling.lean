import ShaderGraph.Proofs.NormalForm

/-
Normalizing again.

An outline that is `Tidy` and has both ends is left as it is (`Tidy.normalize_eq`), and
every result of normalizing is tidy. What a pass may lack is an end: the only node of one
kind can lose its id, to a later node or to the fallback of the other kind. A tidy outline
loses an end in the second way only, and then the fallback that took the id is the only
node of the other kind, so the next pass puts in the end that is missing and takes nothing
away (`has_normalize_normalize`). Hence the third pass settles every outline
(`normalize_settles`), and the first one those in which no node is lost.
-/
namespace ShaderGraph.Outline

/-- No id stands twice, and every edge joins ids that are there. -/
structure Tidy (outline : Outline) : Prop where
  distinct : (outline.nodes.map (·.id)).Nodup
  joined : ∀ edge ∈ outline.edges,
    edge.source ∈ outline.nodes.map (·.id) ∧ edge.target ∈ outline.nodes.map (·.id)

variable {outline : Outline} {node : OutlineNode} {kind : OutlineKind}

/-! ## What stays as it is -/

theorem tidy_normalize (outline : Outline) : outline.normalize.graph.Tidy := by
  refine ⟨nodup_normalize outline, fun edge hedge => ?_⟩
  rw [edges_normalize, List.mem_filter] at hedge
  exact of_decide_eq_true hedge.2

/-- A tidy outline with both ends is its own normal form, and there is nothing to tell. -/
theorem Tidy.normalize_eq (h : outline.Tidy)
    (hends : ∀ kind ∈ [OutlineKind.input, .output], outline.has kind = true) :
    outline.normalize.graph = outline ∧ outline.normalize.messages = [] ∧
      outline.normalize.usedFallbacks = false := by
  have hrepairs : outline.repairs = [] := by
    rw [repairs, hends .input (by decide), hends .output (by decide)]
    rfl
  have hnodes : outline.normalize.graph.nodes = outline.nodes := by
    have hkeys : ((outline.nodes.map fun node => (node.id, node)).map Prod.fst).Nodup := by
      rw [List.map_map]
      exact h.distinct
    show outline.repairedNodes.values = outline.nodes
    rw [repairedNodes, hrepairs, List.map_nil, List.append_nil, OrderedMap.values,
      OrderedMap.entries_ofList hkeys, List.map_map]
    exact List.map_id outline.nodes
  have hedges : outline.normalize.graph.edges = outline.edges := by
    rw [edges_normalize, hnodes]
    exact List.filter_eq_self.mpr fun edge hedge => decide_eq_true (h.joined edge hedge)
  refine ⟨?_, ?_, ?_⟩
  · calc outline.normalize.graph
        = ⟨outline.normalize.graph.nodes, outline.normalize.graph.edges⟩ := rfl
      _ = outline := by rw [hnodes, hedges]
  · show outline.repairs.map Prod.snd = []
    rw [hrepairs, List.map_nil]
  · show (!outline.repairs.isEmpty) = false
    rw [hrepairs]
    rfl

/-! ## Which ends a pass leaves -/

theorem last?_id_eq_some_iff (h : (outline.nodes.map (·.id)).Nodup) :
    outline.last? node.id = some node ↔ node ∈ outline.nodes := by
  refine ⟨mem_nodes_of_last?, fun hnode => ?_⟩
  obtain ⟨last, hlast⟩ := exists_last? (List.mem_map_of_mem hnode)
  rw [hlast, List.inj_on_of_nodup_map h (mem_nodes_of_last? hlast) hnode (id_of_last? hlast)]

/-- An end is there after a pass if it was missing, or if a node of its kind keeps its id. -/
theorem has_normalize_iff (h : (outline.nodes.map (·.id)).Nodup)
    (hkind : kind ∈ [OutlineKind.input, .output]) :
    outline.normalize.graph.has kind = true ↔ outline.has kind = false ∨
      ∃ node ∈ outline.nodes, node.kind = kind ∧
        ∀ other, outline.PutsIn other → other.id ≠ node.id := by
  rw [has_iff]
  constructor
  · rintro ⟨node, hnode, rfl⟩
    rcases mem_nodes_normalize.mp hnode with hputsIn | ⟨hlast, hkept⟩
    · exact .inl (not_has_of_putsIn hputsIn)
    · exact .inr ⟨node, (last?_id_eq_some_iff h).mp hlast, rfl, hkept⟩
  · rintro (hmissing | ⟨node, hnode, rfl, hkept⟩)
    · obtain ⟨node, hputsIn, hnode⟩ := exists_putsIn hkind hmissing
      exact ⟨node, mem_nodes_normalize.mpr (.inl hputsIn), hnode⟩
    · exact ⟨node, mem_nodes_normalize.mpr (.inr ⟨(last?_id_eq_some_iff h).mpr hnode, hkept⟩), rfl⟩

theorem kind_of_putsIn (h : outline.PutsIn node) : node.kind ∈ [OutlineKind.input, .output] := by
  rcases putsIn_iff.mp h with ⟨rfl, -⟩ | ⟨rfl, -⟩ <;> decide

theorem id_ne_of_kind_ne {outline' : Outline} {other : OutlineNode} (h : outline.PutsIn node)
    (h' : outline'.PutsIn other) (hkind : node.kind ≠ other.kind) : node.id ≠ other.id := by
  rcases putsIn_iff.mp h with ⟨rfl, -⟩ | ⟨rfl, -⟩ <;>
    rcases putsIn_iff.mp h' with ⟨rfl, -⟩ | ⟨rfl, -⟩
  · exact absurd rfl hkind
  · decide
  · decide
  · exact absurd rfl hkind

theorem kind_ne_of_putsIn (h : outline.PutsIn node) (hhas : outline.has kind = true) :
    node.kind ≠ kind := by
  rintro rfl
  rw [not_has_of_putsIn h] at hhas
  cases hhas

/-- Where a tidy outline loses an end, the fallback of the other end took its id. -/
theorem exists_putsIn_of_lost (h : (outline.nodes.map (·.id)).Nodup)
    (hkind : kind ∈ [OutlineKind.input, .output])
    (hlost : outline.normalize.graph.has kind = false) :
    ∃ node, outline.PutsIn node ∧ node.kind ≠ kind := by
  have hnot := mt (has_normalize_iff h hkind).mpr (Bool.eq_false_iff.mp hlost)
  rw [not_or, Bool.not_eq_false] at hnot
  obtain ⟨node, hnode, rfl⟩ := has_iff.mp hnot.1
  by_contra hnone
  exact hnot.2 ⟨node, hnode, rfl, fun other hother =>
    absurd ⟨other, hother, kind_ne_of_putsIn hother hnot.1⟩ hnone⟩

/-- **Two passes give a tidy outline both its ends.** -/
theorem has_normalize_normalize (h : (outline.nodes.map (·.id)).Nodup) :
    ∀ kind ∈ [OutlineKind.input, .output],
      outline.normalize.graph.normalize.graph.has kind = true := by
  intro kind hkind
  rw [has_normalize_iff (nodup_normalize outline) hkind]
  cases hhas : outline.normalize.graph.has kind with
  | false => exact .inl rfl
  | true =>
    right
    by_cases hnone : ∃ other, outline.normalize.graph.PutsIn other
    · -- The end that the first pass lost is put in, and took its fallback's id from no one.
      obtain ⟨other, hother⟩ := hnone
      have hlost := not_has_of_putsIn hother
      obtain ⟨node, hnode, hne⟩ := exists_putsIn_of_lost h (kind_of_putsIn hother) hlost
      have hkinds : node.kind = kind := by
        have hall : ∀ a ∈ [OutlineKind.input, .output], ∀ b ∈ [OutlineKind.input, .output],
            ∀ c ∈ [OutlineKind.input, .output], a ≠ b → b ≠ c → a = c := by decide
        exact hall _ (kind_of_putsIn hnode) _ (kind_of_putsIn hother) _ hkind hne
          (kind_ne_of_putsIn hother hhas)
      refine ⟨node, mem_nodes_normalize.mpr (.inl hnode), hkinds, fun third hthird => ?_⟩
      exact id_ne_of_kind_ne hthird hnode (hkinds ▸ kind_ne_of_putsIn hthird hhas)
    · obtain ⟨node, hnode, rfl⟩ := has_iff.mp hhas
      exact ⟨node, hnode, rfl, fun other hother => absurd ⟨other, hother⟩ hnone⟩

/-- One pass leaves both ends where no node of an end has the id of the other end's
fallback. -/
theorem has_normalize_of_unclaimed (h : (outline.nodes.map (·.id)).Nodup)
    (hinput : ∀ node ∈ outline.nodes, node.kind = .input → node.id ≠ "output-fallback")
    (houtput : ∀ node ∈ outline.nodes, node.kind = .output → node.id ≠ "input-fallback") :
    ∀ kind ∈ [OutlineKind.input, .output], outline.normalize.graph.has kind = true := by
  intro kind hkind
  rw [has_normalize_iff h hkind]
  cases hhas : outline.has kind with
  | false => exact .inl rfl
  | true =>
    obtain ⟨node, hnode, rfl⟩ := has_iff.mp hhas
    refine .inr ⟨node, hnode, rfl, fun other hother hid => ?_⟩
    -- The fallback is of the other end, so the node may not have its id.
    have hne := (kind_ne_of_putsIn hother hhas).symm
    rcases putsIn_iff.mp hother with ⟨rfl, -⟩ | ⟨rfl, -⟩
    · have hkind' :=
        (List.mem_cons.mp hkind).resolve_right fun hmem => hne (List.mem_singleton.mp hmem)
      exact hinput node hnode hkind' hid.symm
    · have hkind' := (List.mem_cons.mp hkind).resolve_left hne
      exact houtput node hnode (List.mem_singleton.mp hkind') hid.symm

/-- **The third pass settles every outline**, and nothing is told of a fourth. The first pass
does where no id stands twice and no end has the id of the other end's fallback; the next
one shows the nodes in the same order. -/
theorem normalize_settles (outline : Outline) :
    let pass : Outline → Outline := fun outline => outline.normalize.graph
    let third := pass (pass (pass outline))
    (pass third = third ∧ third.normalize.messages = [] ∧ third.normalize.usedFallbacks = false) ∧
    ((outline.nodes.map (·.id)).Nodup →
      (∀ node ∈ outline.nodes, node.kind = .input → node.id ≠ "output-fallback") →
      (∀ node ∈ outline.nodes, node.kind = .output → node.id ≠ "input-fallback") →
      pass (pass outline) = pass outline ∧ (pass outline).normalize.messages = [] ∧
        (pass outline).normalize.usedFallbacks = false ∧
        (pass outline).normalize.order = outline.normalize.order) := by
  intro pass third
  constructor
  · exact (tidy_normalize _).normalize_eq (has_normalize_normalize (nodup_normalize outline))
  · intro hdistinct hinput houtput
    obtain ⟨hgraph, hmessages, hused⟩ :=
      (tidy_normalize outline).normalize_eq (has_normalize_of_unclaimed hdistinct hinput houtput)
    refine ⟨hgraph, hmessages, hused, ?_⟩
    calc (pass outline).normalize.order
        = ((pass (pass outline)).nodes.mergeSort comesBefore).map (·.id) := rfl
      _ = ((pass outline).nodes.mergeSort comesBefore).map (·.id) := by
        rw [show pass (pass outline) = pass outline from hgraph]
      _ = outline.normalize.order := rfl

/-- An input that feeds an operator with the id of a fallback, and a node that is not there. -/
def claimedOperator : Outline where
  nodes := [⟨"time", "Time", .input, none⟩, ⟨"output-fallback", "Scale", .operator, none⟩]
  edges := [⟨"time", "output-fallback"⟩, ⟨"time", "ghost"⟩]

theorem settles_claimedOperator :
    let first := claimedOperator.normalize.graph
    (claimedOperator.nodes.map (·.id)).Nodup ∧
      (∀ node ∈ claimedOperator.nodes, node.kind = .input → node.id ≠ "output-fallback") ∧
      (∀ node ∈ claimedOperator.nodes, node.kind = .output → node.id ≠ "input-fallback") ∧
      first.normalize.graph = first ∧ first.normalize.messages = [] ∧
      first.normalize.usedFallbacks = false ∧
      first.normalize.order = claimedOperator.normalize.order := by
  have hdistinct : (claimedOperator.nodes.map (·.id)).Nodup := by decide
  have hinput : ∀ node ∈ claimedOperator.nodes, node.kind = .input →
      node.id ≠ "output-fallback" := by decide
  have houtput : ∀ node ∈ claimedOperator.nodes, node.kind = .output →
      node.id ≠ "input-fallback" := by decide
  exact ⟨hdistinct, hinput, houtput,
    (normalize_settles claimedOperator).2 hdistinct hinput houtput⟩

/-- Two passes do not settle an output that an input replaces under the id of its fallback. -/
example :
    let pass : Outline → Outline := fun outline => outline.normalize.graph
    let start : Outline := ⟨[⟨"output-fallback", "Out", .output, none⟩,
      ⟨"output-fallback", "In", .input, none⟩], []⟩
    pass (pass (pass start)) ≠ pass (pass start) := by
  decide

end ShaderGraph.Outline
