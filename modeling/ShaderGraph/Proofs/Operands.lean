import ShaderGraph.Proofs.Replacement
import ShaderGraph.Proofs.Wiring
import Mathlib.Data.List.Nodup

/-
Connections in the material.

An edge of a graph is a promise: what its source yields stands, in the material, where
its target pin says. Three parts of a compilation have to agree for this: the check of
a connection, the pins that a node declares, and the operands that a node looks for.

What is said apart from them: the operator of a math node and the place of each of its
pins among the operands (`MathType.operator`, `MathType.place?`), and where a code node's
inputs go (`Expressions.Operand`).

What is proved of a graph whose nodes were added under unused ids, if it compiles:
  1. `Graph.Needs.exists_kept`: every node that a channel depends on has an expression.
  2. `Editor.edges_in_material`: an edge into the node that ends a channel makes that
     channel the expression of its source; an edge into any other node that a channel
     depends on makes the operand of its pin the expression of its source; and the
     messages name just the channels whose node has no edge.

The expression is the one that its source keeps, not one that reads alike: all that one
node feeds shares one entry of the table.
-/
namespace ShaderGraph

/-! ## Places of operands -/

namespace MathType

def operator : MathType → Op
  | .add => .binary .add
  | .multiply => .binary .mul
  | .lerp => .ternary .mix
  | .clamp => .ternary .clamp
  | .pow => .binary .pow
  | .smoothstep => .ternary .smoothstep
  | .sine => .unary .sin
  | .abs => .unary .abs

/-- The place, among the operands of the operator, of what comes in at a pin. -/
def place? : MathType → PinKey → Option Nat
  | .add, .primary | .multiply, .primary | .pow, .primary | .lerp, .primary => some 0
  | .add, .secondary | .multiply, .secondary | .pow, .secondary | .lerp, .secondary => some 1
  | .lerp, .factor => some 2
  | .clamp, .input => some 0
  | .clamp, .min => some 1
  | .clamp, .max => some 2
  | .smoothstep, .min => some 0
  | .smoothstep, .max => some 1
  | .smoothstep, .input => some 2
  | .sine, .input | .abs, .input => some 0
  | _, _ => none

theorem op_application (type : MathType) : type.application.op = type.operator := by
  cases type <;> rfl

theorem places (type : MathType) :
    type.application.operands.map (fun pin => type.place? pin.key) =
      (List.range type.operator.arity).map some := by
  cases type <;> rfl

theorem place?_of_getElem? {type : MathType} {i : Nat} {pin : Pin}
    (h : type.application.operands[i]? = some pin) : type.place? pin.key = some i := by
  have hlt : i < type.operator.arity := by
    rw [← op_application, ← Application.length_operands]
    exact (List.getElem?_eq_some_iff.mp h).1
  have hplace := congrArg (·[i]?) type.places
  simp only [List.getElem?_map, h, List.getElem?_range hlt, Option.map_some] at hplace
  exact Option.some.inj hplace

end MathType

/-- The expression `e` of a node of a kind has `operand` where the input pin of a key
belongs. The inputs of a code node are both blended and handed to its function. -/
inductive Expressions.Operand (table : Expressions) : NodeKind → PinKey → ExprId → ExprId → Prop
  | math {type : MathType} {key : PinKey} {e operand : ExprId} {i : Nat}
      {application : Application ExprId}
      (hentry : table.exprs[e]? = some (.apply application))
      (hop : application.op = type.operator) (hplace : type.place? key = some i)
      (hoperand : application.operands[i]? = some operand) :
      Operand table (.math type) key e operand
  | primary {source : String} {socket : Socket} {e factor secondary uv operand : ExprId}
      {function : FunctionId}
      (hblend : table.exprs[e]? = some (.apply (.ternary .mix operand secondary factor)))
      (hcall : table.exprs[factor]? = some (.call function operand secondary uv)) :
      Operand table (.code source socket) .primary e operand
  | secondary {source : String} {socket : Socket} {e factor primary uv operand : ExprId}
      {function : FunctionId}
      (hblend : table.exprs[e]? = some (.apply (.ternary .mix primary operand factor)))
      (hcall : table.exprs[factor]? = some (.call function primary operand uv)) :
      Operand table (.code source socket) .secondary e operand

/-- Operands that belong to the pins of a math node one by one stand where these belong. -/
theorem Expressions.exists_operand {table : Expressions} {type : MathType} {e : ExprId}
    {application : Application ExprId} {R : Pin → ExprId → Prop}
    (hentry : table.exprs[e]? = some (.apply application))
    (hop : application.op = type.application.op)
    (hoperands : List.Forall₂ R type.application.operands application.operands) {input : Pin}
    (hinput : input ∈ type.application.operands) :
    ∃ operand, R input operand ∧ table.Operand (.math type) input.key e operand := by
  obtain ⟨i, hi⟩ : ∃ i : Nat, type.application.operands[i]? = some input :=
    List.mem_iff_getElem?.mp hinput
  obtain ⟨hlt, hget⟩ := List.getElem?_eq_some_iff.mp hi
  have hlt' : i < application.operands.length := hoperands.length_eq ▸ hlt
  have hbelongs := hoperands.get hlt hlt'
  simp only [List.get_eq_getElem, hget] at hbelongs
  have hoperand := List.getElem?_eq_getElem hlt'
  exact ⟨_, hbelongs, .math hentry (hop.trans type.op_application)
    (MathType.place?_of_getElem? hi) hoperand⟩

theorem Network.Makes.exists_operand {net : Network} {state : Resolution} {id : NodeId}
    {kind : NodeKind} {e : ExprId} (h : net.Makes state id kind (some e)) {key : PinKey}
    {input : Pin} (hinput : kind.input? key = some input) :
    ∃ fallback operand, net.Takes state ⟨id, key⟩ fallback operand ∧
      state.expressions.Operand kind key e operand := by
  obtain ⟨hmem, rfl⟩ := NodeKind.of_input? hinput
  cases h with
  | input e => cases hmem
  | math hentry hop hoperands =>
    obtain ⟨operand, htakes, hoperand⟩ := Expressions.exists_operand hentry hop hoperands hmem
    exact ⟨_, operand, htakes, hoperand⟩
  | code hblend hcall hprimary hsecondary =>
    -- A code node has these two inputs and no other.
    simp only [NodeKind.inputs, codeInputs, List.mem_cons, List.not_mem_nil, or_false] at hmem
    rcases hmem with rfl | rfl
    · exact ⟨_, _, hprimary, .primary hblend hcall⟩
    · exact ⟨_, _, hsecondary, .secondary hblend hcall⟩

/-! ## Graphs -/

namespace Graph

/-- The first node that ends a channel. -/
def output? (g : Graph) (channel : Channel) : Option Node :=
  g.nodes.values.find? (·.channel? == some channel)

/-- The channel depends on the node: an edge leads from it to the first node that ends the
channel, or to a node that the channel depends on. -/
inductive Needs (g : Graph) (channel : Channel) : NodeId → Prop
  | output {edge : Edge} {node : Node} (hedge : edge ∈ g.edges.values)
      (houtput : g.output? channel = some node) (htarget : edge.target.node = node.id) :
      Needs g channel edge.source.node
  | step {edge : Edge} (hedge : edge ∈ g.edges.values)
      (htarget : Needs g channel edge.target.node) : Needs g channel edge.source.node

/-- The message for a channel: there is one if no edge ends at the first node that ends the
channel. -/
def missing? (g : Graph) (channel : Channel) : Option String :=
  (g.output? channel).bind fun node =>
    if g.edges.values.any (·.target.node == node.id) then none
    else some (missingInput channel node)

variable {g : Graph} {edge : Edge}

theorem Consistent.feeding? (h : g.Consistent) (hedge : edge ∈ g.edges.values) :
    g.snapshot.network.feeding? edge.target = some edge := by
  cases hfeeding : g.snapshot.network.feeding? edge.target with
  | none =>
    have := List.find?_eq_none.mp hfeeding edge hedge
    simp [Edge.feeds] at this
  | some other =>
    obtain ⟨hother, htarget⟩ := Network.of_feeding? hfeeding
    rw [List.inj_on_of_nodup_map h.single hother hedge htarget]

/-- The first node that ends a channel is the one that a compilation finds. -/
theorem Consistent.output?_snapshot (h : g.Consistent) (channel : Channel) :
    g.snapshot.output? channel = g.output? channel := by
  rw [Snapshot.output?, Snapshot.settledNodes_of_nodup h.nodes.nodup]
  rfl

theorem Consistent.target_eq (h : g.Consistent) (hvalid : g.Valid) (hedge : edge ∈ g.edges.values)
    {channel : Channel} {node : Node} (houtput : g.output? channel = some node)
    (htarget : edge.target.node = node.id) : edge.target = ⟨node.id, .input⟩ := by
  rw [← h.output?_snapshot] at houtput
  obtain ⟨hnode, hinputs⟩ := Snapshot.of_output? houtput
  obtain ⟨_, target, _, input, _, htarget', _, hinput, _⟩ := hvalid.joined edge hedge
  rw [hvalid.node?_network, ← htarget, htarget'] at hnode
  obtain rfl := Option.some.inj hnode
  -- The node has one input pin.
  obtain ⟨hmem, hkey⟩ := NodeKind.of_input? hinput
  rw [hinputs, List.mem_singleton] at hmem
  have hpin : edge.target.pin = .input := by rw [← hkey, hmem, channel.pin_eq]
  rw [← htarget, ← hpin]

theorem Consistent.kept_of_takes (h : g.Consistent) (hvalid : g.Valid) {state : Resolution}
    (hw : g.snapshot.network.Wired state) (hedge : edge ∈ g.edges.values) {fallback : Literal}
    {operand : ExprId} (htakes : g.snapshot.network.Takes state edge.target fallback operand) :
    state.cached? ⟨edge.source.node, .out⟩ = some (some operand) := by
  obtain ⟨answer, hbrings, hsupplies⟩ := htakes
  unfold Network.Brings at hbrings
  rw [h.feeding? hedge] at hbrings
  obtain ⟨source, _, output, _, hsource, _, houtput, _, _⟩ := hvalid.joined edge hedge
  obtain ⟨hout, houtputs⟩ := NodeKind.outputs_of_output? houtput
  have hpin : edge.source = ⟨edge.source.node, .out⟩ := by rw [← hout]
  rcases hbrings with hcached | ⟨hmissing, -⟩
  · rw [hpin] at hcached
    obtain ⟨node, hnode, hmakes⟩ := hw.made _ _ hcached
    rw [hvalid.node?_network, hsource] at hnode
    obtain rfl := Option.some.inj hnode
    -- Only a node without output pins yields nothing.
    cases answer with
    | none =>
      cases hkind : source.kind with
      | output channel => rw [hkind] at houtputs; cases houtputs
      | _ => rw [hkind] at hmakes; cases hmakes
    | some e =>
      obtain rfl : operand = e := hsupplies
      exact hcached
  · rw [hvalid.node?_network, hsource] at hmissing
    cases hmissing

/-- What is kept for the node at the end of an edge has, as the operand of the edge's pin,
what is kept for the node at its start. -/
theorem Consistent.operand_of_kept (h : g.Consistent) (hvalid : g.Valid) {state : Resolution}
    (hw : g.snapshot.network.Wired state) (hedge : edge ∈ g.edges.values) {e : ExprId}
    (hkept : state.cached? ⟨edge.target.node, .out⟩ = some (some e)) :
    ∃ node operand, g.node? edge.target.node = some node ∧
      state.cached? ⟨edge.source.node, .out⟩ = some (some operand) ∧
      state.expressions.Operand node.kind edge.target.pin e operand := by
  obtain ⟨_, target, _, input, _, htarget, _, hinput, _⟩ := hvalid.joined edge hedge
  obtain ⟨node, hnode, hmakes⟩ := hw.made _ _ hkept
  rw [hvalid.node?_network, htarget] at hnode
  obtain rfl := Option.some.inj hnode
  obtain ⟨fallback, operand, htakes, hoperand⟩ := hmakes.exists_operand hinput
  exact ⟨target, operand, htarget, h.kept_of_takes hvalid hw hedge htakes, hoperand⟩

/-- **Every node that a channel depends on has an expression**, in a resolution in which the
node that ends the channel has its input. -/
theorem Needs.exists_kept (h : g.Consistent) (hvalid : g.Valid) {state : Resolution}
    (hw : g.snapshot.network.Wired state) {channel : Channel}
    (hchannel : ∀ node, g.output? channel = some node → ∃ fallback operand,
      g.snapshot.network.Takes state ⟨node.id, .input⟩ fallback operand)
    {id : NodeId} (hneeds : g.Needs channel id) :
    ∃ e, state.cached? ⟨id, .out⟩ = some (some e) := by
  induction hneeds with
  | @output edge node hedge houtput htarget =>
    obtain ⟨fallback, operand, htakes⟩ := hchannel node houtput
    rw [← h.target_eq hvalid hedge houtput htarget] at htakes
    exact ⟨operand, h.kept_of_takes hvalid hw hedge htakes⟩
  | @step edge hedge _ ih =>
    obtain ⟨e, hkept⟩ := ih
    obtain ⟨_, operand, _, hsource, _⟩ := h.operand_of_kept hvalid hw hedge hkept
    exact ⟨operand, hsource⟩

end Graph

/-! ## Compilations -/

namespace Snapshot

def resolution (snapshot : Snapshot) (defaults : MaterialDefaults) : Resolution :=
  (snapshot.network.resolveChannels defaults .start).2

/-- Asked once more in that resolution, the `out` pin of the node answers with the
expression, and nothing new is made. -/
def Yields (snapshot : Snapshot) (defaults : MaterialDefaults) (id : NodeId) (e : ExprId) : Prop :=
  snapshot.network.resolveOutput ⟨id, .out⟩ (snapshot.resolution defaults) =
    (.ok (some e), snapshot.resolution defaults)

variable {snapshot : Snapshot} {defaults : MaterialDefaults} {material : NodeMaterial}

theorem yields_of_kept {id : NodeId} {e : ExprId}
    (h : (snapshot.resolution defaults).cached? ⟨id, .out⟩ = some (some e)) :
    snapshot.Yields defaults id e := by
  unfold Yields Network.resolveOutput Network.depthBound
  simp only [Network.resolveOutputWithin, h]

theorem wired_of_compile (h : (snapshot.compile defaults).material = .node material) :
    material.expressions = (snapshot.resolution defaults).expressions ∧
      snapshot.network.Wired (snapshot.resolution defaults) ∧
      ∀ channel node, snapshot.output? channel = some node →
        snapshot.network.Takes (snapshot.resolution defaults) ⟨node.id, .input⟩
          ((defaults.channel channel).shapedFor channel.socket) (material.channels.get channel) := by
  obtain ⟨channels, later, hrun, rfl, -⟩ := run_of_compile h
  have hwires := Network.wires_resolveChannels snapshot.network.wired_start defaults
  refine ⟨?_, hwires.wired, fun channel node houtput => ?_⟩
  · rw [resolution, hrun]
  · rw [← output?_network] at houtput
    exact hwires.answers channels (by rw [hrun]) channel node houtput

end Snapshot

namespace Graph

variable {g : Graph} {defaults : MaterialDefaults} {material : NodeMaterial}

theorem Consistent.feeding?_eq_none_iff (h : g.Consistent) (hvalid : g.Valid) {channel : Channel}
    {node : Node} (houtput : g.output? channel = some node) :
    g.snapshot.network.feeding? ⟨node.id, .input⟩ = none ↔
      ∀ edge ∈ g.edges.values, edge.target.node ≠ node.id := by
  constructor
  · intro hnone edge hedge htarget
    have hfeeding := h.feeding? hedge
    rw [h.target_eq hvalid hedge houtput htarget, hnone] at hfeeding
    cases hfeeding
  · intro hfree
    apply List.find?_eq_none.mpr
    intro edge hedge hfeeds
    apply hfree edge hedge
    rw [beq_iff_eq.mp hfeeds]

/-- The message that a channel comes to is the one for want of an edge. -/
theorem Consistent.message_eq_missing? (h : g.Consistent) (hvalid : g.Valid) {channel : Channel}
    {result : ChannelValue} (hvalue : g.snapshot.channelValue defaults channel = .ok result) :
    result.message = g.missing? channel := by
  have hmessage := Snapshot.message_of_channelValue hvalid.wellConnected hvalue
  rw [hmessage, Snapshot.feeding?, h.output?_snapshot, missing?]
  cases houtput : g.output? channel with
  | none => rfl
  | some node =>
    simp only [Option.bind_some, Option.map_some]
    cases hfeeding : g.snapshot.network.feeding? ⟨node.id, .input⟩ with
    | none =>
      have hfree := (h.feeding?_eq_none_iff hvalid houtput).mp hfeeding
      rw [if_neg]
      simpa using hfree
    | some edge =>
      obtain ⟨hedge, htarget⟩ := Network.of_feeding? hfeeding
      rw [if_pos]
      exact List.any_eq_true.mpr ⟨edge, hedge, by rw [htarget]; exact beq_self_eq_true node.id⟩

theorem Consistent.diagnostics_eq (h : g.Consistent) (hvalid : g.Valid)
    (hcompile : (g.snapshot.compile defaults).material = .node material) :
    (g.snapshot.compile defaults).diagnostics = compileOrder.filterMap g.missing? := by
  obtain ⟨hfailure, hdiagnostics, -, -⟩ := Snapshot.of_compile hcompile
  rw [hdiagnostics]
  refine List.filterMap_congr fun channel hchannel => ?_
  have hok := List.findSome?_eq_none_iff.mp hfailure channel hchannel
  cases hvalue : g.snapshot.channelValue defaults channel with
  | error error => rw [hvalue] at hok; cases hok
  | ok result => exact h.message_eq_missing? hvalid hvalue

end Graph

/-- **No connection is ignored.** Let a graph come about from one without nodes by edits
that add nodes under unused ids only, and let it compile to a node material. An edge to the
first node that ends a channel makes the channel the very expression that its source yields.
An edge to any other node that a channel depends on makes it the operand of that node's
expression at the place of the edge's pin. The messages, in the order in which the
channels are compiled, name each channel whose node has no edge, and nothing else. -/
theorem Editor.edges_in_material {σ : Type} {draw : σ → EdgeId × σ} {ids : σ} {name : String}
    {edits : List Edit} (hunused : AddsUnused draw ⟨.empty name, ids⟩ edits)
    {defaults : MaterialDefaults} {material : NodeMaterial} :
    let g := ((⟨.empty name, ids⟩ : Editor σ).run draw edits).graph
    (g.snapshot.compile defaults).material = .node material →
      material.expressions = (g.snapshot.resolution defaults).expressions ∧
      (∀ edge ∈ g.edges.values, ∀ channel node, g.output? channel = some node →
        edge.target.node = node.id →
        g.snapshot.Yields defaults edge.source.node (material.channels.get channel)) ∧
      (∀ edge ∈ g.edges.values, ∀ channel, g.Needs channel edge.target.node →
        ∃ node e operand, g.node? edge.target.node = some node ∧
          g.snapshot.Yields defaults edge.target.node e ∧
          g.snapshot.Yields defaults edge.source.node operand ∧
          material.expressions.Operand node.kind edge.target.pin e operand) ∧
      (g.snapshot.compile defaults).diagnostics = compileOrder.filterMap g.missing? := by
  intro g hcompile
  have hvalid : g.Valid := valid_run hunused
  have hconsistent : g.Consistent := Graph.Consistent.run draw (Graph.Consistent.empty name) edits
  obtain ⟨hexpressions, hwired, htakes⟩ := Snapshot.wired_of_compile hcompile
  simp only [hconsistent.output?_snapshot] at htakes
  refine ⟨hexpressions, ?_, ?_, hconsistent.diagnostics_eq hvalid hcompile⟩
  · intro edge hedge channel node houtput htarget
    have hchannel := htakes channel node houtput
    rw [← hconsistent.target_eq hvalid hedge houtput htarget] at hchannel
    exact Snapshot.yields_of_kept (hconsistent.kept_of_takes hvalid hwired hedge hchannel)
  · intro edge hedge channel hneeds
    obtain ⟨e, hkept⟩ := hneeds.exists_kept hconsistent hvalid hwired
      fun node houtput => ⟨_, _, htakes channel node houtput⟩
    obtain ⟨node, operand, hnode, hsource, hoperand⟩ :=
      hconsistent.operand_of_kept hvalid hwired hedge hkept
    rw [← hexpressions] at hoperand
    exact ⟨node, e, operand, hnode, Snapshot.yields_of_kept hkept, Snapshot.yields_of_kept hsource,
      hoperand⟩

/-- A fade over time towards the emission, and an opacity that loses its edge. -/
def fading : List Edit :=
  [.addNode (.input "time" "Time" .time), .addNode (.input "low" "Low" .float),
    .addNode (.math "fade" "Fade" .smoothstep), .addNode (.output "glow" "Glow" .emissive),
    .addNode (.output "veil" "Veil" .opacity), .connect "low" none "fade" (some .min),
    .connect "time" none "fade" none, .connect "fade" none "glow" none,
    .connect "low" none "veil" none, .disconnect "edge-4"]

/-- The time is the last operand of the fade, and the fade is the emission. -/
theorem fading_in_material :
    Editor.AddsUnused EdgeIds.draw ⟨.empty "Fading", .fresh⟩ fading ∧
    let g := ((⟨.empty "Fading", .fresh⟩ : Editor EdgeIds).run EdgeIds.draw fading).graph
    ∃ material, (g.snapshot.compile .standard).material = .node material ∧
      g.snapshot.Yields .standard "fade" (material.channels.get .emissive) ∧
      (∃ e operand, g.snapshot.Yields .standard "fade" e ∧
        g.snapshot.Yields .standard "time" operand ∧
        material.expressions.Operand (.math .smoothstep) .input e operand) ∧
      (g.snapshot.compile .standard).diagnostics = ["Missing input for Veil"] := by
  have hunused : Editor.AddsUnused EdgeIds.draw ⟨.empty "Fading", .fresh⟩ fading := by decide
  refine ⟨hunused, ?_⟩
  intro g
  obtain ⟨material, hmaterial⟩ :
      ∃ material, (g.snapshot.compile .standard).material = .node material := ⟨_, rfl⟩
  obtain ⟨-, hchannels, hoperands, hmessages⟩ := Editor.edges_in_material hunused hmaterial
  have hfade : (⟨"edge-2", ⟨"time", .out⟩, ⟨"fade", .input⟩⟩ : Edge) ∈ g.edges.values := by decide
  have hglow : (⟨"edge-3", ⟨"fade", .out⟩, ⟨"glow", .input⟩⟩ : Edge) ∈ g.edges.values := by decide
  have houtput : g.output? .emissive = some (.output "glow" "Glow" .emissive) := by decide
  obtain ⟨node, e, operand, hnode, hyields, htime, hoperand⟩ :=
    hoperands _ hfade .emissive (.output hglow houtput rfl)
  have hkind : g.node? "fade" = some (.math "fade" "Fade" .smoothstep) := by decide
  obtain rfl := Option.some.inj (hkind.symm.trans hnode)
  refine ⟨material, hmaterial, hchannels _ hglow .emissive _ houtput rfl,
    ⟨e, operand, hyields, htime, hoperand⟩, ?_⟩
  rw [hmessages]
  decide

end ShaderGraph
