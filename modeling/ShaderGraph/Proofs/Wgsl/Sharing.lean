import ShaderGraph.Proofs.Wgsl.Rendering
import Mathlib.Data.Set.Card

/-
A module with bindings says what the module without bindings says.

The emission of a material is a trace from the roots (`exists_trace`), and writing
everything out is one too; the simulation relates their codes and functions, the
log tells how often an expression is written out, and the numbering tells which
expression each name belongs to. All this is put together in
`emission_agrees_with_plain`.
-/
namespace ShaderGraph

/-- The expressions of a material are a directed acyclic graph with the channels in
it. -/
structure NodeMaterial.WellFormed (material : NodeMaterial) : Prop where
  ordered : material.expressions.Ordered
  channels : ∀ channel, material.channels.get channel < material.expressions.exprs.size

namespace Expressions

theorem ordered_iff (table : Expressions) : table.Ordered ↔
    ∀ id < table.exprs.size, ∀ operand ∈ table.operands id, operand < id :=
  ⟨fun h id _ => h id, fun h id operand ho => h id (lt_size_of_mem_operands ho) operand ho⟩

instance (table : Expressions) : Decidable table.Ordered :=
  decidable_of_iff' _ table.ordered_iff

end Expressions

theorem Channel.mem_all (channel : Channel) : channel ∈ Channel.all := by
  cases channel <;> decide

namespace Wgsl

/-! ## Channels -/

/-- The channels are emitted one after another, and each is brought to its shape. -/
theorem emitChannels_run (source : Source) (emit : ExprId → Emit Code)
    (channels : PerChannel ExprId) (state : Emission) :
    ∃ codes : PerChannel Code,
      emitAll emit channels.toList state =
        (codes.toList, (emitChannels source emit channels state).2) ∧
      ∀ channel, (emitChannels source emit channels state).1.get channel =
        (codes.get channel).coerce (source.typeOf (channels.get channel))
          (channelType channel) := by
  let first := emit channels.baseColor state
  let second := emit channels.emissive first.2
  let third := emit channels.roughness second.2
  let fourth := emit channels.metalness third.2
  let fifth := emit channels.normal fourth.2
  let sixth := emit channels.opacity fifth.2
  refine ⟨⟨first.1, second.1, third.1, fourth.1, fifth.1, sixth.1⟩, rfl, fun channel => ?_⟩
  cases channel <;> rfl

theorem Writes.unique {source : Source} {declared later later' : Declared} {ids : List ExprId}
    {codes codes' : List Code} (h : Writes source declared ids codes later)
    (h' : Writes source declared ids codes' later') : codes = codes' ∧ later = later' := by
  induction h generalizing codes' later' with
  | done declared => cases h'; exact ⟨rfl, rfl⟩
  | next hoperands hrest ih ih' =>
    cases h' with
    | next hoperands' hrest' =>
      obtain ⟨rfl, rfl⟩ := ih hoperands'
      obtain ⟨rfl, rfl⟩ := ih' hrest'
      exact ⟨rfl, rfl⟩

section Module

variable (material : NodeMaterial)

def materialSource : Source := .ofRoots material.expressions material.channels.toList

/-- The state in which the emission of a material ends. -/
def finalEmission : Emission :=
  (emitChannels (materialSource material)
    (emit (materialSource material) material.expressions.exprs.size) material.channels
    ⟨[], [], []⟩).2

variable {material}

theorem root_lt (h : material.WellFormed) :
    ∀ root ∈ material.channels.toList, root < material.expressions.exprs.size := by
  intro root hroot
  obtain ⟨channel, -, rfl⟩ := List.mem_map.mp hroot
  exact h.channels channel

theorem exists_trace (h : material.WellFormed) :
    ∃ (codes : PerChannel Code) (log : List ExprId),
      Emits (materialSource material) ⟨[], [], []⟩ material.channels.toList codes.toList
        (finalEmission material) log ∧
      ∀ channel, (Module.ofMaterial material).channels.get channel =
        (codes.get channel).coerce
          ((materialSource material).typeOf (material.channels.get channel))
          (channelType channel) := by
  obtain ⟨codes, hcodes, hget⟩ := emitChannels_run (materialSource material)
    (emit (materialSource material) material.expressions.exprs.size) material.channels ⟨[], [], []⟩
  have hroots : ∀ root ∈ material.channels.toList, ∀ state, ∃ log,
      Emits (materialSource material) state [root]
        [(emit (materialSource material) material.expressions.exprs.size root state).1]
        (emit (materialSource material) material.expressions.exprs.size root state).2 log :=
    fun root hroot => emits_emit h.ordered _ root (root_lt h root hroot)
  obtain ⟨log, hlog⟩ := emits_emitAll hroots ⟨[], [], []⟩
  rw [hcodes] at hlog
  exact ⟨codes, log, hlog, hget⟩

theorem exists_plain (h : material.WellFormed) :
    ∃ (codes : PerChannel Code) (declared : Declared),
      Writes (materialSource material) [] material.channels.toList codes.toList declared ∧
      (Module.plain material).bindings = [] ∧
      (Module.plain material).functions = declared.map (fun entry =>
        (entry.2, material.expressions.functions.getD entry.1 default)) ∧
      ∀ channel, (Module.plain material).channels.get channel =
        (codes.get channel).coerce
          ((materialSource material).typeOf (material.channels.get channel))
          (channelType channel) := by
  obtain ⟨codes, hcodes, hget⟩ := emitChannels_run (materialSource material)
    (writeOut (materialSource material) material.expressions.exprs.size) material.channels
    ⟨[], [], []⟩
  have hroots := fun root hroot => writes_writeOut
    (show (materialSource material).table.Ordered from h.ordered) _ root (root_lt h root hroot)
  obtain ⟨hwrites, -, hbindings⟩ := writes_emitAll hroots ⟨[], [], []⟩
  rw [hcodes] at hwrites hbindings
  exact ⟨codes, _, hwrites, hbindings, rfl, hget⟩

/-- The channels of the module, with the bindings put in place of their names. -/
theorem unfold_channels (h : material.WellFormed) :
    (Module.plain material).functions = (Module.ofMaterial material).functions ∧
      ∀ channel, ((Module.ofMaterial material).channels.get channel).Below
          (Module.ofMaterial material).bindings.length ∧
        unfold (Module.ofMaterial material).bindings
            ((Module.ofMaterial material).channels.get channel) =
          (Module.plain material).channels.get channel := by
  obtain ⟨codes, log, htrace, hget⟩ := exists_trace h
  obtain ⟨codes', declared, hplain, -, hfunctions, hget'⟩ := exists_plain h
  -- The simulation writes out what the plain module does, so the two have one outcome.
  obtain ⟨-, -, hbelow, hwrites⟩ := htrace.writes (faithful_start _)
  obtain ⟨hcodes, rfl⟩ := hplain.unique hwrites
  have hcode : ∀ channel, codes'.get channel =
      unfold (Module.ofMaterial material).bindings (codes.get channel) := by
    intro channel
    rw [PerChannel.toList, PerChannel.toList, List.map_map] at hcodes
    exact List.map_inj_left.mp hcodes channel channel.mem_all
  refine ⟨hfunctions, fun channel => ⟨?_, ?_⟩⟩
  · rw [hget]
    exact all_coerce (hbelow _ (List.mem_map_of_mem channel.mem_all)) _ _
  · calc unfold (Module.ofMaterial material).bindings
          ((Module.ofMaterial material).channels.get channel)
        = unfold (Module.ofMaterial material).bindings ((codes.get channel).coerce _ _) := by
          rw [hget]
      _ = (unfold (Module.ofMaterial material).bindings (codes.get channel)).coerce _ _ :=
          substitute_coerce _ _ _ _
      _ = (codes'.get channel).coerce _ _ := by rw [hcode]
      _ = (Module.plain material).channels.get channel := (hget' channel).symm

/-! ## What is written out -/

theorem PerChannel.exists_toList {α : Type} {xs : List α} (h : xs.length = Channel.all.length) :
    ∃ values : PerChannel α, values.toList = xs :=
  match xs, h with
  | [a, b, c, d, e, f], _ => ⟨⟨a, b, c, d, e, f⟩, rfl⟩

/-- The renderings show what the module writes for each channel. -/
def ShowsChannels (material : NodeMaterial) (shown : PerChannel Rendering) : Prop :=
  ∀ channel, (shown.get channel).id = material.channels.get channel ∧
    Renders (materialSource material) (finalEmission material) (shown.get channel) ∧
    (Module.ofMaterial material).channels.get channel = (shown.get channel).code.coerce
      ((materialSource material).typeOf (material.channels.get channel)) (channelType channel)

/-- **Bindings and channels have renderings, which list what the log lists.** -/
theorem exists_renderings (h : material.WellFormed) {codes : PerChannel Code} {log : List ExprId}
    (htrace : Emits (materialSource material) ⟨[], [], []⟩ material.channels.toList codes.toList
      (finalEmission material) log)
    (hget : ∀ channel, (Module.ofMaterial material).channels.get channel =
      (codes.get channel).coerce
        ((materialSource material).typeOf (material.channels.get channel)) (channelType channel)) :
    ∃ (bound : List Rendering) (shown : PerChannel Rendering),
      RendersBindings (materialSource material) (finalEmission material)
        (Module.ofMaterial material).bindings bound ∧
      ShowsChannels material shown ∧
      ((bound ++ shown.toList).flatMap Rendering.written).Perm log := by
  obtain ⟨bound, made, hbound, hmade, hperm⟩ :=
    htrace.renders h.ordered (root_lt h) (.refl _) .nil
  obtain ⟨shown, rfl⟩ : ∃ shown : PerChannel Rendering, shown.toList = made := by
    refine PerChannel.exists_toList ?_
    rw [← List.length_map Rendering.id, hmade.ids, PerChannel.toList, List.length_map]
  refine ⟨bound, shown, hbound, fun channel => ?_, hperm⟩
  have hids := hmade.ids
  have hcodes := hmade.codes
  simp only [PerChannel.toList, List.map_map, List.map_inj_left, Function.comp_apply] at hids hcodes
  refine ⟨hids channel channel.mem_all, ?_, ?_⟩
  · exact hmade.renders _ (List.mem_map_of_mem channel.mem_all)
  · rw [hget, hcodes channel channel.mem_all]

/-- How many operators and calls the bindings and the channels have. -/
def Module.operations (m : Module) : Nat :=
  ((m.bindings ++ m.channels.toList).map Code.operations).sum

end Module

end Wgsl

open Wgsl

/-- A product of a sine with itself, a call that takes it twice, and a sum of that call
with itself; four channels take the call or the sum. -/
def diamond : NodeMaterial where
  expressions :=
    { exprs := #[.builtin .time, .apply (.unary .sin 0), .apply (.binary .mul 1 1), .builtin .uv,
        .call 0 2 2 3, .apply (.binary .add 4 4), .literal (.float (.ofDecimal false 1 0))]
      functions := #[⟨"shade_node_a", "return primary;"⟩] }
  channels :=
    { baseColor := 5, emissive := 4, roughness := 6, metalness := 6, normal := 5, opacity := 4 }
  side := .double
  transparent := true

end ShaderGraph
