import ShaderGraph.Proofs.Ownership
import ShaderGraph.Proofs.Wgsl.Typing

/-
One function for each code node.

The emitter declares the functions of the calls that it writes out, which are those that
the channels reach, and each call belongs to one code node (`Snapshot.mem_declared_iff`); so
the declared functions are in one to one correspondence with the code nodes that occur in
the channels.

`Spells source final e c` says which code stands for an expression in a module whose
emission ended in `final`; a call is of the name that its function is declared under. The
channels and the bindings of a module are spelled so (`NodeMaterial.spells_ofMaterial`). All
this is put together in `one_function_per_code_node`.
-/
namespace ShaderGraph.Wgsl

variable {source : Source} {final : Emission}

/-- The code stands for the expression, in a module whose emission ended in `final`. -/
def Spells (source : Source) (final : Emission) (id : ExprId) (code : Code) : Prop :=
  ∃ written, Renders source final ⟨id, code, written⟩

/-- Each binding is written out and stands for the expression that has its number. -/
def SpelledBindings (source : Source) (final state : Emission) : Prop :=
  ∀ k code, state.bindings[k]? = some code → ∃ id, final.names.lookup id = some k ∧
    Spells source final id code ∧ ∀ j, code ≠ .bound j

theorem Renders.spells {r : Rendering} (h : Renders source final r) :
    Spells source final r.id r.code :=
  ⟨r.written, h⟩

theorem RendersBindings.spelled {state : Emission} {renderings : List Rendering}
    (h : RendersBindings source final state.bindings renderings) :
    SpelledBindings source final state := by
  intro k code hk
  rw [← h.codes, List.getElem?_map, Option.map_eq_some_iff] at hk
  obtain ⟨r, hr, rfl⟩ := hk
  have hmem := List.mem_of_getElem? hr
  exact ⟨r.id, h.named k r hr, (h.renders r hmem).spells, h.written r hmem⟩

end ShaderGraph.Wgsl

namespace ShaderGraph

open Wgsl

theorem NodeMaterial.spells_ofMaterial {material : NodeMaterial} (h : material.WellFormed) :
    SpelledBindings (materialSource material) (finalEmission material) (finalEmission material) ∧
      ∀ channel, ∃ code,
        Spells (materialSource material) (finalEmission material)
          (material.channels.get channel) code ∧
        (Module.ofMaterial material).channels.get channel =
          code.coerce ((materialSource material).typeOf (material.channels.get channel))
            (channelType channel) := by
  obtain ⟨codes, log, htrace, hget⟩ := exists_trace h
  obtain ⟨bound, shown, hbound, hshown, -⟩ := exists_renderings h htrace hget
  refine ⟨hbound.spelled, fun channel => ?_⟩
  obtain ⟨hid, hrenders, hcode⟩ := hshown channel
  exact ⟨_, hid ▸ hrenders.spells, hcode⟩

/-! ## Compilations -/

theorem functionName_of_function? {net : Network} {id : NodeId} {f : CodeFunction}
    (h : net.function? id = some f) : FunctionName f.name := by
  obtain ⟨node, -, hnode⟩ := Option.bind_eq_some_iff.mp h
  unfold Node.function? at hnode
  split at hnode
  · obtain rfl := Option.some.inj hnode
    exact FunctionName.nameOfNode node.id
  · cases hnode

namespace Snapshot

variable {snapshot : Snapshot} {defaults : MaterialDefaults} {material : NodeMaterial}

/-- The channels reach a call just if they reach the blend of the node that owns it. -/
theorem reachable_call_iff (h : (snapshot.compile defaults).material = .node material)
    {f : FunctionId} {id : NodeId} {place : ExprId}
    (hmade : snapshot.network.Made (snapshot.resolution defaults) f id place) :
    material.expressions.Reachable material.channels.toList place ↔
      material.expressions.Reachable material.channels.toList (place + 1) := by
  obtain ⟨hexpressions, -, -⟩ := wired_of_compile h
  obtain ⟨-, hheld, hoffers⟩ := owned_of_compile h
  rw [hexpressions]
  refine hmade.reachable_iff hheld fun root hroot => ?_
  obtain ⟨channel, -, rfl⟩ := List.mem_map.mp hroot
  exact hoffers channel

section Owners

variable (h : (snapshot.compile defaults).material = .node material)
  {owners : List (NodeId × ExprId)}
  (howned : snapshot.network.Owned (snapshot.resolution defaults) owners)

include h howned

/-- The functions that the module of a compilation declares are those of the owners whose
blends the channels reach. -/
theorem mem_declared_iff (f : FunctionId) :
    f ∈ (finalEmission material).functions.map Prod.fst ↔ ∃ id place,
      owners[f]? = some (id, place) ∧
      material.expressions.Reachable material.channels.toList (place + 1) := by
  obtain ⟨hexpressions, -, -⟩ := wired_of_compile h
  have hwell := wellFormed_of_compile h
  obtain ⟨codes, log, htrace, -⟩ := exists_trace hwell
  rw [htrace.functions_eq, Source.mem_declareAll, List.map_nil, or_iff_right List.not_mem_nil]
  constructor
  · rintro ⟨place, hlog, primary, secondary, uv, hcall⟩
    have hcall' : material.expressions.exprs[place]? = some (.call f primary secondary uv) := hcall
    rw [hexpressions] at hcall'
    obtain ⟨id, hid⟩ := howned.call place f primary secondary uv hcall'
    refine ⟨id, place, hid, (reachable_call_iff h (howned.made f id place hid)).mp ?_⟩
    exact htrace.reachable_of_mem hlog
  · rintro ⟨id, place, hid, hreach⟩
    have hmade := howned.made f id place hid
    obtain ⟨primary, secondary, uv, hcall, -⟩ := hmade.entries
    rw [← hexpressions] at hcall
    have hoperands : material.expressions.operands place ≠ [] := by
      rw [Expressions.operands, hcall]
      exact List.cons_ne_nil _ _
    have hone := htrace.count_eq_one hwell.ordered (root_lt hwell) hoperands
      ((reachable_call_iff h hmade).mpr hreach)
    exact ⟨place, List.count_pos_iff.mp (by omega), primary, secondary, uv, hcall⟩

/-- A function that is declared is that of the code node that owns it. -/
theorem function?_of_declared {f : FunctionId}
    (hf : f ∈ (finalEmission material).functions.map Prod.fst) :
    snapshot.network.function? (Network.owner owners f) =
      some (material.expressions.functions.getD f default) := by
  obtain ⟨hexpressions, -, -⟩ := wired_of_compile h
  obtain ⟨id, place, hid, -⟩ := (mem_declared_iff h howned f).mp hf
  obtain ⟨function, hkind, hget⟩ := (howned.made f id place hid).function
  rw [← hexpressions] at hget
  rw [Network.owner_of_get hid, hkind, Array.getD_eq_getD_getElem?, hget, Option.getD_some]

end Owners

theorem functionName_of_declared (h : (snapshot.compile defaults).material = .node material) :
    ∀ entry ∈ (finalEmission material).functions, FunctionName entry.2 := by
  obtain ⟨⟨owners, howned⟩, -, -⟩ := owned_of_compile h
  obtain ⟨codes, log, htrace, -⟩ := exists_trace (wellFormed_of_compile h)
  have hfunctions := htrace.functions_eq
  rw [hfunctions]
  refine Source.forall_names_declareAll fun place hplace f hcall => ?_
  have hf : f ∈ (finalEmission material).functions.map Prod.fst := by
    rw [hfunctions, Source.mem_declareAll]
    exact .inr ⟨place, hplace, hcall⟩
  exact functionName_of_function? (function?_of_declared h howned hf)

theorem functions_ofMaterial (material : NodeMaterial) :
    (Module.ofMaterial material).functions = (finalEmission material).functions.map fun entry =>
      (entry.2, material.expressions.functions.getD entry.1 default) := rfl

end Snapshot

theorem Material.eq_node_of_node? {m : Material} {material : NodeMaterial}
    (h : m.node? = some material) : m = .node material := by
  cases m with
  | node other => exact congrArg Material.node (Option.some.inj h)
  | fallback other => cases h

end ShaderGraph
