import ShaderGraph.Node.Pins
import ShaderGraph.Proofs.Compilation
import Mathlib.Tactic.Choose

/-
Connections between pins.

In a network that is `WellConnected` every edge leads from an output pin that is
there to an input pin that is there, and the sockets suit each other. A node has at
most one output pin, `out` (`NodeKind.outputs_of_output?`), and a node that has it
yields something (`Node.exists_tree`), so an edge that feeds an input pin brings it
something of a suitable socket (`Network.WellConnected.fed`). So does the edge into the
node that ends a channel (`Snapshot.of_channelValue`).
-/
namespace ShaderGraph

/-- Every edge leads from an output pin to an input pin that suits it. -/
def Network.WellConnected (net : Network) : Prop :=
  ∀ edge ∈ net.edges, ∃ source target output input,
    net.node? edge.source.node = some source ∧ net.node? edge.target.node = some target ∧
    source.kind.output? edge.source.pin = some output ∧
    target.kind.input? edge.target.pin = some input ∧ output.socket.feeds input.socket = true

namespace NodeKind

variable {kind : NodeKind} {key : PinKey} {output input : Pin}

theorem of_output? (h : kind.output? key = some output) :
    output ∈ kind.outputs ∧ output.key = key :=
  ⟨List.mem_of_find?_eq_some h,
    beq_iff_eq.mp (List.find?_some (p := fun pin : Pin => pin.key == key) h)⟩

theorem outputs_of_mem (h : output ∈ kind.outputs) :
    output.key = .out ∧ kind.outputs = [output] := by
  cases kind with
  | input type value color =>
    obtain rfl : output = outPin type.socket := by simpa [outputs] using h
    exact ⟨rfl, rfl⟩
  | math type =>
    obtain rfl : output = type.output := by simpa [outputs] using h
    refine ⟨?_, rfl⟩
    cases type <;> rfl
  | output channel => cases h
  | code source socket =>
    obtain rfl : output = outPin socket := by simpa [outputs] using h
    exact ⟨rfl, rfl⟩

/-- The output pin that a node has is `out`, and it has no other. -/
theorem outputs_of_output? (h : kind.output? key = some output) :
    key = .out ∧ kind.outputs = [output] := by
  obtain ⟨hmem, rfl⟩ := of_output? h
  exact outputs_of_mem hmem

theorem output?_of_mem (h : output ∈ kind.outputs) : kind.output? output.key = some output := by
  simp [output?, (outputs_of_mem h).2]

theorem of_input? (h : kind.input? key = some input) : input ∈ kind.inputs ∧ input.key = key :=
  ⟨List.mem_of_find?_eq_some h,
    beq_iff_eq.mp (List.find?_some (p := fun pin : Pin => pin.key == key) h)⟩

theorem input?_of_mem (h : input ∈ kind.inputs) : kind.input? input.key = some input := by
  cases kind with
  | input type value color => cases h
  | math type =>
    revert input
    cases type <;> decide
  | output channel =>
    obtain rfl : input = channel.pin := by simpa [inputs] using h
    simp [input?, inputs]
  | code source socket =>
    revert input
    simp only [inputs, input?]
    decide

end NodeKind

namespace Node

variable {node : Node} {feed : PinKey → Except ResolveError (Option Tree)}

theorem tree_input {type : InputType} {value : Option Literal} {color : Option String}
    (hkind : node.kind = .input type value color) {tree : Option Tree}
    (h : node.tree feed = .ok tree) : tree = some (type.tree value color) := by
  simp only [Node.tree, hkind] at h
  cases value with
  | none => exact (Except.ok.inj h).symm
  | some literal =>
    by_cases hfinite : literal.isFinite = true
    · simp only [hfinite, if_true, Except.ok.injEq] at h
      exact h.symm
    · simp [hfinite] at h

theorem tree_math {type : MathType} (hkind : node.kind = .math type) {tree : Option Tree}
    (h : node.tree feed = .ok tree) :
    ∃ operand : Pin → Tree, tree = some (.apply (type.application.map operand)) ∧
      ∀ pin ∈ type.application.operands, ∃ fed, feed pin.key = .ok fed ∧
        operand pin = fed.getD (.literal (pin.socket.unconnected.shapedFor pin.socket)) := by
  simp only [Node.tree, hkind] at h
  obtain ⟨trees, htrees, h⟩ := except_bind_ok h
  have : Nonempty Tree := ⟨.builtin .time⟩
  have hpins := Application.mapM_ok htrees
  choose! operand hoperand using hpins
  rw [Application.mapM_eq_pure hoperand] at htrees
  obtain rfl := Except.ok.inj htrees
  refine ⟨operand, (Except.ok.inj h).symm, fun pin hpin => ?_⟩
  obtain ⟨fed, hfed, hgetD⟩ := except_bind_ok (hoperand pin hpin)
  exact ⟨fed, hfed, (Except.ok.inj hgetD).symm⟩

theorem tree_code {source : String} {socket : Socket} (hkind : node.kind = .code source socket)
    {tree : Option Tree} (h : node.tree feed = .ok tree) :
    ∃ function primary secondary, feed .primary = .ok primary ∧ feed .secondary = .ok secondary ∧
      let p := primary.getD (.literal (.vec3 codePrimary))
      let s := secondary.getD (.literal (.vec3 codeSecondary))
      tree = some (.ternary .mix p s (.call function p s (.builtin .uv))) := by
  simp only [Node.tree, hkind] at h
  obtain ⟨primary, hprimary, h⟩ := except_bind_ok h
  obtain ⟨secondary, hsecondary, h⟩ := except_bind_ok h
  cases hmake : CodeFunction.make (CodeFunction.nameOfNode node.id) source with
  | error e => rw [hmake] at h; cases h
  | ok function =>
    rw [hmake] at h
    exact ⟨function, primary, secondary, hprimary, hsecondary, (Except.ok.inj h).symm⟩

theorem exists_tree {output : Pin} (houtput : node.kind.outputs = [output]) {tree : Option Tree}
    (h : node.tree feed = .ok tree) : ∃ t, tree = some t := by
  cases hkind : node.kind with
  | input type value color => exact ⟨_, tree_input hkind h⟩
  | math type =>
    obtain ⟨operand, htree, -⟩ := tree_math hkind h
    exact ⟨_, htree⟩
  | output channel => rw [hkind] at houtput; cases houtput
  | code source socket =>
    obtain ⟨function, primary, secondary, -, -, htree⟩ := tree_code hkind h
    exact ⟨_, htree⟩

end Node

namespace Network

variable {net : Network} {pin : Endpoint} {edge : Edge}

theorem of_feeding? (h : net.feeding? pin = some edge) : edge ∈ net.edges ∧ edge.target = pin :=
  ⟨List.mem_of_find?_eq_some h,
    beq_iff_eq.mp (List.find?_some (p := fun edge : Edge => edge.feeds pin) h)⟩

/-- What feeds an input pin is the `out` pin of a node, whose socket suits it. -/
theorem WellConnected.fed (hwell : net.WellConnected) {id : NodeId} {node : Node} {input : Pin}
    (hnode : net.node? id = some node) (hinput : input ∈ node.kind.inputs)
    (hedge : net.feeding? ⟨id, input.key⟩ = some edge) :
    ∃ source output, edge.source = ⟨edge.source.node, .out⟩ ∧
      net.node? edge.source.node = some source ∧ source.kind.outputs = [output] ∧
      output.socket.feeds input.socket = true := by
  obtain ⟨hmem, htarget⟩ := of_feeding? hedge
  obtain ⟨source, target, output, input', hsource, htarget', houtput, hinput', hfeeds⟩ :=
    hwell edge hmem
  rw [htarget] at htarget' hinput'
  obtain rfl : node = target := Option.some.inj (hnode.symm.trans htarget')
  obtain rfl : input = input' :=
    Option.some.inj ((NodeKind.input?_of_mem hinput).symm.trans hinput')
  obtain ⟨hout, houtputs⟩ := NodeKind.outputs_of_output? houtput
  exact ⟨source, output, by rw [← hout], hsource, houtputs, hfeeds⟩

/-- A walk to the `out` pin of a node that has one finds a tree if it does not fail. -/
theorem exists_tree_of_walk {path : List Endpoint} {node : Node} {output : Pin}
    (hout : pin = ⟨pin.node, .out⟩) (hnode : net.node? pin.node = some node)
    (houtput : node.kind.outputs = [output]) {tree : Option Tree}
    (h : net.walk path pin = .ok tree) : ∃ t, tree = some t := by
  by_cases hp : pin ∈ path
  · rw [walk_of_mem hnode hp] at h
    cases h
  · rw [walk_of_out hnode hp (congrArg Endpoint.pin hout)] at h
    exact Node.exists_tree houtput h

end Network

/-! ## Channels -/

theorem Channel.pin_eq (channel : Channel) :
    channel.pin = ⟨.input, channel.pin.label, channel.socket⟩ := by
  cases channel <;> rfl

namespace Snapshot

theorem of_output? {snapshot : Snapshot} {channel : Channel} {node : Node}
    (h : snapshot.output? channel = some node) :
    snapshot.network.node? node.id = some node ∧ node.kind.inputs = [channel.pin] := by
  refine ⟨node?_of_mem_settledNodes (List.mem_of_find?_eq_some h), ?_⟩
  have hchannel : node.channel? = some channel :=
    beq_iff_eq.mp (List.find?_some (p := fun node : Node => node.channel? == some channel) h)
  unfold Node.channel? at hchannel
  cases hkind : node.kind with
  | output channel' =>
    rw [hkind] at hchannel
    obtain rfl := Option.some.inj hchannel
    rfl
  | _ => rw [hkind] at hchannel; cases hchannel

def feeding? (snapshot : Snapshot) (channel : Channel) : Option Edge :=
  (snapshot.output? channel).bind fun node => snapshot.network.feeding? ⟨node.id, .input⟩

/-- A channel comes to the literal of its default, with a message if there is a node that
ends it, or to what an output pin that suits it yields. -/
theorem of_channelValue {snapshot : Snapshot} (hwell : snapshot.network.WellConnected)
    {defaults : MaterialDefaults} {channel : Channel} {result : ChannelValue}
    (h : snapshot.channelValue defaults channel = .ok result) :
    match snapshot.feeding? channel with
    | none => result = ⟨.literal ((defaults.channel channel).shapedFor channel.socket),
        (snapshot.output? channel).map (missingInput channel)⟩
    | some edge => ∃ source output tree,
        snapshot.network.node? edge.source.node = some source ∧
        source.kind.outputs = [output] ∧ output.socket.feeds channel.socket = true ∧
        snapshot.network.walk [] edge.source = .ok (some tree) ∧ result = ⟨tree, none⟩ := by
  unfold channelValue at h
  unfold feeding?
  split at h
  · cases houtput : snapshot.output? channel with
    | none =>
      rw [houtput] at h
      exact (Except.ok.inj h).symm
    | some node =>
      rw [houtput] at h
      simp only [Network.walkInput] at h
      rw [Option.bind_some]
      cases hedge : snapshot.network.feeding? ⟨node.id, .input⟩ with
      | none =>
        simp only [hedge, Except.ok.injEq] at h
        exact h.symm
      | some edge =>
        obtain ⟨hnode, hinputs⟩ := of_output? houtput
        obtain ⟨source, output, hout, hsource, houtputs, hfeeds⟩ :=
          hwell.fed hnode (by rw [hinputs, channel.pin_eq]; exact List.mem_singleton_self _) hedge
        simp only [hedge] at h
        cases hwalk : snapshot.network.walk [] edge.source with
        | error error => simp only [hwalk] at h; cases h
        | ok tree =>
          obtain ⟨t, rfl⟩ := Network.exists_tree_of_walk hout hsource houtputs hwalk
          simp only [hwalk, Except.ok.injEq] at h
          exact ⟨source, output, t, hsource, houtputs, hfeeds, hwalk, h.symm⟩
  · cases h

theorem tree_of_channelValue {snapshot : Snapshot} (hwell : snapshot.network.WellConnected)
    {defaults : MaterialDefaults} {channel : Channel} {result : ChannelValue}
    (h : snapshot.channelValue defaults channel = .ok result) :
    match snapshot.feeding? channel with
    | none => result.tree = .literal ((defaults.channel channel).shapedFor channel.socket)
    | some edge => ∃ source output,
        snapshot.network.node? edge.source.node = some source ∧
        source.kind.outputs = [output] ∧ output.socket.feeds channel.socket = true ∧
        snapshot.network.walk [] edge.source = .ok (some result.tree) := by
  have hvalue := of_channelValue hwell h
  split
  · next hnone =>
    rw [hnone] at hvalue
    exact congrArg ChannelValue.tree hvalue
  · next edge hedge =>
    rw [hedge] at hvalue
    obtain ⟨source, output, tree, hsource, houtputs, hfeeds, hwalk, rfl⟩ := hvalue
    exact ⟨source, output, hsource, houtputs, hfeeds, hwalk⟩

/-- A channel has a message where a node ends it that nothing feeds. -/
theorem message_of_channelValue {snapshot : Snapshot} (hwell : snapshot.network.WellConnected)
    {defaults : MaterialDefaults} {channel : Channel} {result : ChannelValue}
    (h : snapshot.channelValue defaults channel = .ok result) :
    result.message = match snapshot.feeding? channel with
      | none => (snapshot.output? channel).map (missingInput channel)
      | some _ => none := by
  have hvalue := of_channelValue hwell h
  split
  · next hnone =>
    rw [hnone] at hvalue
    exact congrArg ChannelValue.message hvalue
  · next edge hedge =>
    rw [hedge] at hvalue
    obtain ⟨source, output, tree, -, -, -, -, rfl⟩ := hvalue
    rfl

end Snapshot

end ShaderGraph
