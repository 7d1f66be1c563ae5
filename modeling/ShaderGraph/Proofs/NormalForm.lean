import ShaderGraph.Proofs.Normalizing
import Mathlib.Data.List.Lex
import Mathlib.Data.List.Sort
import Mathlib.Data.Prod.Lex
import Mathlib.Data.String.Basic

/-
The normal form of an outline.

`NormalForm` says in full what normalizing yields. The nodes are those of the ids of
the outline, each id at its first place, and after them the fallbacks under new ids; an
edge stays if both its ends are ids of the result, so the edges to a fallback do; the
display order is strictly increasing in role, then label, then place in the result. This
settles the result (`normalize_eq_iff`): the order in which the steps are taken, such as
the fallbacks before the edges, can be read off it.
-/
namespace ShaderGraph

/-- Inputs stand before operators, and these before outputs. -/
def OutlineKind.place (kind : OutlineKind) : Nat :=
  [OutlineKind.input, .operator, .output].idxOf kind

def OutlineNode.codes (node : OutlineNode) : List Nat := node.label.toList.map Char.toNat

namespace Outline

/-- The fallbacks that are put in, the output first, each with the message that tells it: those
of a kind that no node of the list has. -/
def inserted (outline : Outline) : List (OutlineNode × String) :=
  [(fallbackOutput, "Inserted fallback output node."),
    (fallbackInput, "Inserted fallback input node.")].filter fun fallback =>
      ∀ node ∈ outline.nodes, node.kind ≠ fallback.1.kind

/-- What the display order goes by: the role, and then the label in the order of code points. -/
def displayKey (node : OutlineNode) : Nat ×ₗ List Nat := toLex (node.kind.place, node.codes)

/-- The first node is shown before the second: by the display order, and where that does not
tell them apart, by their places in the list. -/
def ShownBefore (nodes : List OutlineNode) (a b : OutlineNode) : Prop :=
  displayKey a < displayKey b ∨ displayKey a = displayKey b ∧
    (nodes.map (·.id)).idxOf a.id < (nodes.map (·.id)).idxOf b.id

/-- What normalizing an outline yields. -/
structure NormalForm (outline : Outline) (result : NormalizedOutline) : Prop where
  ids : result.graph.nodes.map (·.id) = (outline.nodes.map (·.id)).eraseDups ++
    (outline.inserted.map (·.1.id)).filter (· ∉ outline.nodes.map (·.id))
  nodes : ∀ node ∈ result.graph.nodes, node ∈ outline.inserted.map Prod.fst ∨
    outline.last? node.id = some node ∧ node.id ∉ outline.inserted.map (·.1.id)
  edges : result.graph.edges = outline.edges.filter fun edge =>
    edge.source ∈ result.graph.nodes.map (·.id) ∧ edge.target ∈ result.graph.nodes.map (·.id)
  order : ∃ sorted : List OutlineNode, sorted.Perm result.graph.nodes ∧
    sorted.Pairwise (ShownBefore result.graph.nodes) ∧ result.order = sorted.map (·.id)
  messages : result.messages = outline.inserted.map Prod.snd
  told : result.messages ≠ [] ↔ outline.inserted ≠ []
  usedFallbacks : result.usedFallbacks = true ↔ outline.inserted ≠ []

variable {outline : Outline} {nodes : List OutlineNode} {node a b c : OutlineNode} {id : String}

/-! ## Fallbacks -/

theorem inserted_eq_repairs (outline : Outline) : outline.inserted = outline.repairs := by
  have hmissing : ∀ kind, decide (∀ node ∈ outline.nodes, node.kind ≠ kind) = !outline.has kind := by
    intro kind
    rw [Bool.eq_iff_iff, decide_eq_true_iff, Bool.not_eq_true', ← Bool.not_eq_true, has_iff]
    simp
  simp only [inserted, List.filter_cons, hmissing, List.filter_nil, repairs]
  cases hout : outline.has .output <;> cases hin : outline.has .input <;>
    simp [fallbackOutput, fallbackInput, hout, hin]

theorem mem_inserted_iff : node ∈ outline.inserted.map Prod.fst ↔ outline.PutsIn node := by
  rw [inserted_eq_repairs, PutsIn]

theorem id_mem_inserted_iff :
    id ∈ outline.inserted.map (·.1.id) ↔ ∃ other, outline.PutsIn other ∧ other.id = id := by
  simp only [← mem_inserted_iff, List.mem_map]
  constructor
  · rintro ⟨fallback, hfallback, rfl⟩
    exact ⟨fallback.1, ⟨fallback, hfallback, rfl⟩, rfl⟩
  · rintro ⟨_, ⟨fallback, hfallback, rfl⟩, rfl⟩
    exact ⟨fallback, hfallback, rfl⟩

theorem nodup_inserted (outline : Outline) : (outline.inserted.map (·.1.id)).Nodup := by
  apply List.Nodup.sublist (List.filter_sublist.map _)
  decide

/-! ## Nodes -/

theorem ids_normalize (outline : Outline) :
    outline.normalize.graph.nodes.map (·.id) = (outline.nodes.map (·.id)).eraseDups ++
      (outline.inserted.map (·.1.id)).filter (· ∉ outline.nodes.map (·.id)) := by
  have hkeys : outline.repairedNodes.keys =
      (outline.nodes.map (·.id) ++ outline.inserted.map (·.1.id)).eraseDups := by
    rw [repairedNodes, OrderedMap.keys_ofList, List.map_map, List.map_append, inserted_eq_repairs,
      List.map_map]
    rfl
  have hnew : (outline.inserted.map (·.1.id)).removeAll (outline.nodes.map (·.id)) =
      (outline.inserted.map (·.1.id)).filter (· ∉ outline.nodes.map (·.id)) := by
    refine List.filter_congr fun id _ => ?_
    rw [List.elem_eq_mem, decide_not]
  show outline.repairedNodes.values.map (·.id) = _
  rw [(keyedBy_repairedNodes outline).map_values, hkeys, List.eraseDups_append, hnew,
    eraseDups_of_nodup ((nodup_inserted outline).filter _)]

theorem mem_nodes_normalize_iff : node ∈ outline.normalize.graph.nodes ↔
    node ∈ outline.inserted.map Prod.fst ∨
      outline.last? node.id = some node ∧ node.id ∉ outline.inserted.map (·.1.id) := by
  rw [mem_nodes_normalize, mem_inserted_iff, id_mem_inserted_iff, not_exists]
  simp only [not_and]

theorem contains_repairedNodes : outline.repairedNodes.contains id = true ↔
    id ∈ outline.normalize.graph.nodes.map (·.id) := by
  show _ ↔ id ∈ outline.repairedNodes.values.map (·.id)
  rw [(keyedBy_repairedNodes outline).map_values, OrderedMap.contains_iff]

theorem edges_normalize (outline : Outline) :
    outline.normalize.graph.edges = outline.edges.filter fun edge =>
      edge.source ∈ outline.normalize.graph.nodes.map (·.id) ∧
        edge.target ∈ outline.normalize.graph.nodes.map (·.id) := by
  refine List.filter_congr fun edge _ => ?_
  rw [Bool.eq_iff_iff, Bool.and_eq_true, contains_repairedNodes, contains_repairedNodes,
    decide_eq_true_iff]

/-! ## Display order -/

theorem OutlineKind.place_eq_rank (kind : OutlineKind) : kind.place = kind.rank := by
  cases kind <;> rfl

theorem codes_lt_of_label_lt (h : a.label < b.label) : a.codes < b.codes :=
  List.map_lt (fun _ _ hchar => UInt32.lt_iff_toNat_lt.mp hchar) (String.lt_iff.mp h)

theorem codes_lt_iff : a.codes < b.codes ↔ a.label < b.label := by
  refine ⟨fun h => ?_, codes_lt_of_label_lt⟩
  rcases lt_trichotomy a.label b.label with hlt | heq | hgt
  · exact hlt
  · rw [OutlineNode.codes, OutlineNode.codes, heq] at h
    exact absurd h (lt_irrefl _)
  · exact absurd h (lt_asymm (codes_lt_of_label_lt hgt))

theorem comesBefore_iff : comesBefore a b = true ↔ displayKey a ≤ displayKey b := by
  rw [← not_lt, displayKey, displayKey, Prod.Lex.toLex_lt_toLex, codes_lt_iff,
    OutlineKind.place_eq_rank, OutlineKind.place_eq_rank, comesBefore]
  simp only [Bool.or_eq_true, Bool.and_eq_true, decide_eq_true_iff, beq_iff_eq]
  grind

theorem comesBefore_trans (a b c : OutlineNode) (hab : comesBefore a b = true)
    (hbc : comesBefore b c = true) : comesBefore a c = true :=
  comesBefore_iff.mpr ((comesBefore_iff.mp hab).trans (comesBefore_iff.mp hbc))

theorem comesBefore_total (a b : OutlineNode) : (comesBefore a b || comesBefore b a) = true := by
  rw [Bool.or_eq_true, comesBefore_iff, comesBefore_iff]
  exact le_total _ _

theorem idxOf_id {i : Nat} (h : (nodes.map (·.id)).Nodup) (hnode : nodes[i]? = some node) :
    (nodes.map (·.id)).idxOf node.id = i := by
  obtain ⟨hi, rfl⟩ := List.getElem?_eq_some_iff.mp hnode
  have hplace := h.idxOf_getElem i (by simpa using hi)
  rwa [List.getElem_map] at hplace

/-- **Sorting keeps the order of nodes that the display order does not tell apart.** -/
theorem pairwise_mergeSort_shownBefore (h : (nodes.map (·.id)).Nodup) :
    (nodes.mergeSort comesBefore).Pairwise (ShownBefore nodes) := by
  -- The sort is that of the nodes with their places, where the places settle what is left.
  rw [← List.mergeSort_zipIdx, List.pairwise_map]
  have hsorted := List.pairwise_mergeSort (List.zipIdxLE_trans comesBefore_trans)
    (List.zipIdxLE_total comesBefore_total) nodes.zipIdx
  have hperm := List.mergeSort_perm nodes.zipIdx (List.zipIdxLE comesBefore)
  have hplaces : (nodes.zipIdx.map Prod.snd).Nodup := by
    rw [List.zipIdx_map_snd]
    exact List.nodup_range'
  have hdistinct := hperm.nodup_iff.mpr (List.Nodup.of_map Prod.snd hplaces)
  refine (hsorted.and hdistinct).imp_of_mem ?_
  rintro ⟨a, i⟩ ⟨b, j⟩ ha hb ⟨hle, hne⟩
  have ha : nodes[i]? = some a := List.mem_zipIdx_iff_getElem?.mp (hperm.mem_iff.mp ha)
  have hb : nodes[j]? = some b := List.mem_zipIdx_iff_getElem?.mp (hperm.mem_iff.mp hb)
  rw [ShownBefore, idxOf_id h ha, idxOf_id h hb]
  simp only [List.zipIdxLE, comesBefore_iff] at hle
  split at hle
  · next hab =>
    split at hle
    · next hba =>
      right
      refine ⟨le_antisymm hab hba, lt_of_le_of_ne (of_decide_eq_true hle) ?_⟩
      rintro rfl
      exact hne (by rw [Option.some.inj (ha.symm.trans hb)])
    · next hba => exact .inl (lt_of_not_ge hba)
  · cases hle

/-! ## The result as a whole -/

theorem normalForm_normalize (outline : Outline) : NormalForm outline outline.normalize where
  ids := ids_normalize outline
  nodes _ hnode := mem_nodes_normalize_iff.mp hnode
  edges := edges_normalize outline
  order := ⟨_, List.mergeSort_perm _ _, pairwise_mergeSort_shownBefore (nodup_normalize outline), rfl⟩
  messages := by rw [inserted_eq_repairs]; rfl
  told := by
    show outline.repairs.map Prod.snd ≠ [] ↔ _
    rw [inserted_eq_repairs]
    simp
  usedFallbacks := by
    show (!outline.repairs.isEmpty) = true ↔ _
    rw [inserted_eq_repairs]
    simp

theorem ShownBefore.asymm (h : ShownBefore nodes a b) : ¬ ShownBefore nodes b a := by
  rintro (hlt | ⟨heq, hplace⟩)
  · rcases h with h | ⟨h, -⟩
    · exact lt_asymm h hlt
    · exact hlt.ne h.symm
  · rcases h with h | ⟨-, h⟩
    · exact h.ne heq.symm
    · exact lt_asymm h hplace

/-- Nodes with the ids of a list of which they are a part are that list. -/
theorem eq_of_ids_eq {more : List OutlineNode} (hids : nodes.map (·.id) = more.map (·.id))
    (hdistinct : (more.map (·.id)).Nodup) (hsubset : ∀ node ∈ nodes, node ∈ more) :
    nodes = more := by
  have hlength : nodes.length = more.length := by simpa using congrArg List.length hids
  refine List.ext_getElem hlength fun i hi hi' => ?_
  have hplace : (nodes.map (·.id))[i]? = (more.map (·.id))[i]? := by rw [hids]
  have hid : nodes[i].id = more[i].id := by simpa [hi, hi'] using hplace
  exact List.inj_on_of_nodup_map hdistinct (hsubset _ (List.getElem_mem hi)) (List.getElem_mem hi') hid

/-- **Normalizing yields the normal form**, which settles the result: the nodes of the ids at
their first places and then the new fallbacks, the edges between them, the display order,
and the report of what was put in. -/
theorem normalize_eq_iff (outline : Outline) (result : NormalizedOutline) :
    outline.normalize = result ↔ NormalForm outline result := by
  refine ⟨fun heq => heq ▸ normalForm_normalize outline, fun h => ?_⟩
  have h' := normalForm_normalize outline
  have hnodes : result.graph.nodes = outline.normalize.graph.nodes :=
    eq_of_ids_eq (h.ids.trans h'.ids.symm) (nodup_normalize outline) fun node hnode =>
      mem_nodes_normalize_iff.mpr (h.nodes node hnode)
  have hedges : result.graph.edges = outline.normalize.graph.edges := by
    rw [h.edges, h'.edges, hnodes]
  have hmessages : result.messages = outline.normalize.messages := h.messages.trans h'.messages.symm
  have hused : result.usedFallbacks = outline.normalize.usedFallbacks :=
    Bool.eq_iff_iff.mpr (h.usedFallbacks.trans h'.usedFallbacks.symm)
  have horder : result.order = outline.normalize.order := by
    obtain ⟨sorted, hperm, hsorted, horder⟩ := h.order
    obtain ⟨sorted', hperm', hsorted', horder'⟩ := h'.order
    rw [hnodes] at hperm hsorted
    have heq : sorted = sorted' :=
      (hperm.trans hperm'.symm).eq_of_pairwise (fun _ _ _ _ hab hba => absurd hba hab.asymm)
        hsorted hsorted'
    rw [horder, horder', heq]
  obtain ⟨⟨nodes, edges⟩, messages, usedFallbacks, order⟩ := result
  subst hnodes hedges hmessages hused horder
  rfl

/-- An operator on its own gets both ends, and stands between them. -/
example : normalize ⟨[⟨"op-1", "Multiply", .operator, none⟩], [⟨"op-1", "output-fallback"⟩]⟩ =
    { graph := ⟨[⟨"op-1", "Multiply", .operator, none⟩, fallbackOutput, fallbackInput],
        [⟨"op-1", "output-fallback"⟩]⟩
      messages := ["Inserted fallback output node.", "Inserted fallback input node."]
      usedFallbacks := true
      order := ["input-fallback", "op-1", "output-fallback"] } := by
  cbv

end Outline

end ShaderGraph
