import ShaderGraph.Outline
import ShaderGraph.Proofs.Entries

/-
What normalizing an outline keeps and what it puts in.

The nodes of the result are the last definitions of all ids, but under the id of a
fallback that is put in only the fallback (`mem_nodes_normalize`); no id stands twice.
Whether a fallback is needed is judged by the node list with all its repetitions, and a
fallback is written over whatever has its id. So the result has an input and an output
node and keeps every last definition just if (`repaired_normalize_iff`)
* no node has the id of a fallback that is put in, and
* a kind that the node list mentions is the kind of the last definition of some id.
Where a later node takes the only input's id, nothing is put in and no input is left
(`not_repaired_of_redefinedInput`).
-/
namespace ShaderGraph.Outline

/-- The last definition that the node list gives an id. -/
def last? (outline : Outline) (id : String) : Option OutlineNode :=
  outline.nodes.reverse.find? fun node => id == node.id

/-- The node is a fallback that normalizing puts in. -/
def PutsIn (outline : Outline) (node : OutlineNode) : Prop := node ∈ outline.repairs.map Prod.fst

/-- What a repair is for: the result has a node of either end, holds each id once, and
loses no definition that the outline gave last. -/
structure Repaired (outline result : Outline) : Prop where
  hasInput : result.has .input = true
  hasOutput : result.has .output = true
  distinct : (result.nodes.map (·.id)).Nodup
  kept : ∀ id node, outline.last? id = some node → node ∈ result.nodes

/-- A repair is possible with the fallbacks that normalizing chooses: their ids are not in
use, and where the node list mentions an end, there is a last definition of that kind. -/
structure Repairable (outline : Outline) : Prop where
  unused : ∀ node, outline.PutsIn node → node.id ∉ outline.nodes.map (·.id)
  defined : ∀ kind ∈ [OutlineKind.input, .output], outline.has kind = true →
    ∃ id node, outline.last? id = some node ∧ node.kind = kind

variable {outline : Outline} {id : String} {node : OutlineNode} {kind : OutlineKind}

/-! ## Last definitions -/

theorem id_of_last? (h : outline.last? id = some node) : node.id = id := by
  have hid := List.find?_some h
  exact (beq_iff_eq.mp hid).symm

theorem mem_nodes_of_last? (h : outline.last? id = some node) : node ∈ outline.nodes :=
  List.mem_reverse.mp (List.mem_of_find?_eq_some h)

theorem exists_last? (h : id ∈ outline.nodes.map (·.id)) : ∃ node, outline.last? id = some node := by
  obtain ⟨node, hnode, rfl⟩ := List.mem_map.mp h
  rw [← Option.isSome_iff_exists, last?, List.find?_isSome]
  exact ⟨node, List.mem_reverse.mpr hnode, beq_self_eq_true node.id⟩

theorem has_iff : outline.has kind = true ↔ ∃ node ∈ outline.nodes, node.kind = kind := by
  simp [has]

/-! ## Fallbacks -/

theorem putsIn_iff : outline.PutsIn node ↔
    node = fallbackOutput ∧ outline.has .output = false ∨
      node = fallbackInput ∧ outline.has .input = false := by
  unfold PutsIn repairs
  cases outline.has .output <;> cases outline.has .input <;> simp

/-- A fallback is put in where its kind is missing. -/
theorem not_has_of_putsIn (h : outline.PutsIn node) : outline.has node.kind = false := by
  rcases putsIn_iff.mp h with ⟨rfl, hmissing⟩ | ⟨rfl, hmissing⟩ <;> exact hmissing

theorem exists_putsIn (hkind : kind ∈ [OutlineKind.input, .output])
    (hmissing : outline.has kind = false) : ∃ node, outline.PutsIn node ∧ node.kind = kind := by
  rcases List.mem_cons.mp hkind with rfl | hkind
  · exact ⟨fallbackInput, putsIn_iff.mpr (.inr ⟨rfl, hmissing⟩), rfl⟩
  · obtain rfl := List.mem_singleton.mp hkind
    exact ⟨fallbackOutput, putsIn_iff.mpr (.inl ⟨rfl, hmissing⟩), rfl⟩

theorem eq_of_putsIn {other : OutlineNode} (h : outline.PutsIn node) (h' : outline.PutsIn other)
    (hid : node.id = other.id) : node = other := by
  have hne : fallbackOutput.id ≠ fallbackInput.id := by decide
  rcases putsIn_iff.mp h with ⟨rfl, -⟩ | ⟨rfl, -⟩ <;>
    rcases putsIn_iff.mp h' with ⟨rfl, -⟩ | ⟨rfl, -⟩
  · rfl
  · exact absurd hid hne
  · exact absurd hid.symm hne
  · rfl

/-! ## Nodes of the result -/

theorem keyedBy_repairedNodes (outline : Outline) :
    OrderedMap.KeyedBy (·.id) outline.repairedNodes :=
  OrderedMap.KeyedBy.ofList _ _

/-- What is found under an id: a fallback that is put in, else the last definition. -/
theorem get?_repairedNodes (outline : Outline) (id : String) :
    outline.repairedNodes.get? id =
      ((outline.repairs.map Prod.fst).reverse.find? fun node => id == node.id).or
        (outline.last? id) := by
  rw [repairedNodes, OrderedMap.get?_ofList, ← List.map_reverse, OrderedMap.lookup_map_key,
    List.reverse_append, List.find?_append, last?]

theorem mem_nodes_normalize_iff_get? :
    node ∈ outline.normalize.graph.nodes ↔ outline.repairedNodes.get? node.id = some node := by
  show node ∈ outline.repairedNodes.values ↔ _
  rw [OrderedMap.mem_values_iff]
  constructor
  · rintro ⟨key, hkey⟩
    rwa [← (keyedBy_repairedNodes outline).of_get? hkey] at hkey
  · exact fun h => ⟨node.id, h⟩

theorem mem_nodes_normalize :
    node ∈ outline.normalize.graph.nodes ↔ outline.PutsIn node ∨
      outline.last? node.id = some node ∧ ∀ other, outline.PutsIn other → other.id ≠ node.id := by
  rw [mem_nodes_normalize_iff_get?, get?_repairedNodes]
  cases hfound : (outline.repairs.map Prod.fst).reverse.find? fun other => node.id == other.id with
  | none =>
    have hother : ∀ other, outline.PutsIn other → other.id ≠ node.id := by
      intro other hother hid
      have := List.find?_eq_none.mp hfound other (List.mem_reverse.mpr hother)
      exact this (beq_iff_eq.mpr hid.symm)
    rw [Option.none_or]
    constructor
    · exact fun h => .inr ⟨h, hother⟩
    · rintro (h | ⟨h, -⟩)
      · exact absurd rfl (hother node h)
      · exact h
  | some found =>
    have hputsIn : outline.PutsIn found := List.mem_reverse.mp (List.mem_of_find?_eq_some hfound)
    have hfound' := List.find?_some hfound
    have hid : node.id = found.id := beq_iff_eq.mp hfound'
    rw [Option.some_or, Option.some.injEq]
    constructor
    · rintro rfl
      exact .inl hputsIn
    · rintro (h | ⟨-, h⟩)
      · exact (eq_of_putsIn h hputsIn hid).symm
      · exact absurd hid.symm (h found hputsIn)

theorem nodup_normalize (outline : Outline) :
    (outline.normalize.graph.nodes.map (·.id)).Nodup :=
  (keyedBy_repairedNodes outline).nodup

/-! ## When the repair succeeds -/

theorem Repaired.repairable (h : Repaired outline outline.normalize.graph) :
    outline.Repairable := by
  have hends : ∀ kind ∈ [OutlineKind.input, .output], outline.normalize.graph.has kind = true := by
    intro kind hkind
    rcases List.mem_cons.mp hkind with rfl | hkind
    · exact h.hasInput
    · rw [List.mem_singleton.mp hkind]
      exact h.hasOutput
  constructor
  · -- A last definition under the id of a fallback would be the fallback, whose kind is missing.
    intro node hnode hid
    obtain ⟨last, hlast⟩ := exists_last? hid
    have hkept := h.kept node.id last hlast
    have hputsIn : outline.PutsIn last := by
      rcases mem_nodes_normalize.mp hkept with hlast' | ⟨-, hother⟩
      · exact hlast'
      · exact absurd (id_of_last? hlast).symm (hother node hnode)
    have hhas : outline.has last.kind = true := has_iff.mpr ⟨last, mem_nodes_of_last? hlast, rfl⟩
    rw [not_has_of_putsIn hputsIn] at hhas
    cases hhas
  · intro kind hkind hhas
    obtain ⟨node, hnode, rfl⟩ := has_iff.mp (hends kind hkind)
    rcases mem_nodes_normalize.mp hnode with hputsIn | ⟨hlast, -⟩
    · rw [not_has_of_putsIn hputsIn] at hhas
      cases hhas
    · exact ⟨node.id, node, hlast, rfl⟩

theorem Repairable.repaired (h : outline.Repairable) :
    Repaired outline outline.normalize.graph := by
  have hkept : ∀ id node, outline.last? id = some node →
      node ∈ outline.normalize.graph.nodes := by
    intro id node hlast
    have hid : node.id ∈ outline.nodes.map (·.id) :=
      List.mem_map_of_mem (mem_nodes_of_last? hlast)
    rw [mem_nodes_normalize]
    refine .inr ⟨by rwa [id_of_last? hlast], fun other hother heq => ?_⟩
    exact h.unused other hother (heq ▸ hid)
  have hends : ∀ kind ∈ [OutlineKind.input, .output],
      outline.normalize.graph.has kind = true := by
    intro kind hkind
    rw [has_iff]
    cases hhas : outline.has kind with
    | true =>
      obtain ⟨id, node, hlast, hnode⟩ := h.defined kind hkind hhas
      exact ⟨node, hkept id node hlast, hnode⟩
    | false =>
      obtain ⟨node, hputsIn, hnode⟩ := exists_putsIn hkind hhas
      exact ⟨node, mem_nodes_normalize.mpr (.inl hputsIn), hnode⟩
  exact ⟨hends _ (by decide), hends _ (by decide), nodup_normalize outline, hkept⟩

/-- Normalizing gives each id once, with a fallback that is put in or else with its last
definition, and it repairs the outline just if that is possible with the fallbacks that it
chooses. -/
theorem repaired_normalize_iff (outline : Outline) :
    (outline.normalize.graph.nodes.map (·.id)).Nodup ∧
      (∀ node, node ∈ outline.normalize.graph.nodes ↔ outline.PutsIn node ∨
        outline.last? node.id = some node ∧ ∀ other, outline.PutsIn other → other.id ≠ node.id) ∧
      (Repaired outline outline.normalize.graph ↔ outline.Repairable) :=
  ⟨nodup_normalize outline, fun _ => mem_nodes_normalize, Repaired.repairable, Repairable.repaired⟩

/-- An input whose id a later operator takes, and an output. -/
def redefinedInput : Outline where
  nodes := [⟨"a", "A", .input, none⟩, ⟨"a", "A", .operator, none⟩, ⟨"o", "O", .output, none⟩]
  edges := []

/-- The input that a later node replaces still counts as one, so none is put in. -/
theorem not_repaired_of_redefinedInput :
    ¬Repaired redefinedInput redefinedInput.normalize.graph := by
  intro h
  have hnone : redefinedInput.normalize.graph.has .input = false := by decide
  rw [h.hasInput] at hnone
  cases hnone

end ShaderGraph.Outline
