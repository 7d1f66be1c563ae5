import ShaderGraph.Proofs.Connections
import ShaderGraph.Proofs.Values

/-
The value of a graph, socket by socket.

`Network.value` evaluates the nodes as they declare their pins: what comes into an
input pin is brought to the shape of its socket, an input pin without a connection
has the value of its socket, and the operator is applied to operands of these shapes.
The tree of an output pin widens its operands only where an operator meets them, so
its value may be a scalar that fills the value of the pin (`Network.widens_walk`);
brought to the shape of a channel the two are the same
(`Snapshot.value_of_channelValue`).
-/
namespace ShaderGraph

variable {κ : Type}

def Interpretation.input (I : Interpretation κ) (type : InputType) (value : Option Literal)
    (color : Option String) : Option (Value κ) :=
  match type, value with
  | .float, some (.float v) => some (I.literal (.float v))
  | .float, _ => some (I.literal (.float (.ofDecimal false 1 0)))
  | .vec2, some (.vec2 v) => some (I.literal (.vec2 v))
  | .vec2, _ => some (I.literal (.vec2 ⟨.ofDecimal false 0 0, .ofDecimal false 0 0⟩))
  | .vec3, some (.vec3 v) => some (I.literal (.vec3 v))
  | .vec3, _ =>
    some (I.literal (.vec3 ⟨.ofDecimal false 5 (-1), .ofDecimal false 5 (-1), .ofDecimal false 5 (-1)⟩))
  | .color, _ => some (I.literal (.vec3 ((color.bind HexColor.read?).getD neutralColor)))
  | .time, _ => some (I.builtin .time)
  | .uv, _ => some (I.builtin .uv)
  | .normalWorld, _ => some (I.builtin .normalWorld)
  | .positionWorld, _ => some (I.builtin .positionWorld)
  | .viewDirection, _ => do
    let towardsCamera ← I.apply (.binary .sub (I.builtin .cameraPosition) (I.builtin .positionWorld))
    I.apply (.unary .normalize towardsCamera)

/-- What a node yields from the values of its input pins. What user code computes has
no value here. -/
def Node.value (I : Interpretation κ) (node : Node) (operand : Pin → Option (Value κ)) :
    Option (Value κ) :=
  match node.kind with
  | .input type value color => I.input type value color
  | .math type => do I.apply (← type.application.mapM operand)
  | .output _ => none
  | .code .. => none

namespace Network

/-- The value of an output pin: each input pin of the node has the value that its socket
takes. A node that is not there, a pin on its own path and a pin other than `out` have
no value. -/
def value (net : Network) (I : Interpretation κ) (path : List Endpoint) (pin : Endpoint) :
    Option (Value κ) :=
  match _hnode : net.node? pin.node with
  | none => none
  | some node =>
    if _hpath : pin ∈ path then none
    else if _hout : pin.pin = .out then
      node.value I fun input =>
        match net.feeding? ⟨pin.node, input.key⟩ with
        | some edge =>
          (net.value I (pin :: path) edge.source).bind (·.widen? (.ofSocket input.socket))
        | none => some (I.literal input.socket.unconnected)
    else none
termination_by (net.unvisited path).length
decreasing_by exact unvisited_cons_lt _hnode _hpath _hout

/-- The value that comes into an input pin, in the shape of its socket. -/
def inputValue (net : Network) (I : Interpretation κ) (path : List Endpoint) (node : NodeId)
    (input : Pin) : Option (Value κ) :=
  match net.feeding? ⟨node, input.key⟩ with
  | some edge => (net.value I path edge.source).bind (·.widen? (.ofSocket input.socket))
  | none => some (I.literal input.socket.unconnected)

theorem value_of_out {net : Network} {I : Interpretation κ} {path : List Endpoint} {id : NodeId}
    {node : Node} (h : net.node? id = some node) (hp : ⟨id, .out⟩ ∉ path) :
    net.value I path ⟨id, .out⟩ = node.value I (net.inputValue I (⟨id, .out⟩ :: path) id) := by
  rw [value]; split
  · next hs => rw [h] at hs; cases hs
  · next node' hs =>
    obtain rfl : node = node' := Option.some.inj (h.symm.trans hs)
    rw [dif_neg hp, dif_pos rfl]
    rfl

end Network

/-! ## Nodes -/

section Nodes

variable {I : Interpretation κ}

/-- What a value of one socket fills, it fills in every socket that it may feed. -/
theorem Value.Widens.feeds {v w : Value κ} (h : Value.Widens v w) {source target : Socket}
    (hw : w.shape = .ofSocket source) (hfeeds : source.feeds target = true) :
    ∃ full, w.widen? (.ofSocket target) = some full ∧ Value.Widens v full ∧
      full.shape = .ofSocket target := by
  by_cases hfloat : w.shape = .float
  · obtain ⟨x, rfl, rfl⟩ := h.scalars hfloat
    exact ⟨_, rfl, .splat _ x, Value.shape_splat _ x⟩
  · -- Sockets that are no scalars suit each other only if they have one shape.
    have hshape : ValueType.ofSocket source = .ofSocket target := by
      rw [hw] at hfloat
      cases source <;> cases target <;> simp_all [Socket.feeds, ValueType.ofSocket]
    rw [← hshape, ← hw]
    exact ⟨w, (Value.Widens.refl w).widen?, h, rfl⟩

theorem Interpretation.shape_unconnected (I : Interpretation κ) (socket : Socket) :
    (I.literal socket.unconnected).shape = .ofSocket socket := by
  cases socket <;> rfl

theorem exists_vec3 {v : Value κ} (h : v.shape = .vec3) : ∃ x y z, v = .vec3 x y z := by
  cases v with
  | float x => cases h
  | vec2 x y => cases h
  | vec3 x y z => exact ⟨x, y, z, rfl⟩

theorem value_input (I : Interpretation κ) (type : InputType) (value : Option Literal)
    (color : Option String) :
    ∃ v, I.input type value color = some v ∧ v.shape = .ofSocket type.socket ∧
      (type.tree value color).value I = some v := by
  cases type with
  | float | vec2 | vec3 =>
    -- A value of another shape than the node's is passed over on both sides.
    cases value with
    | none => exact ⟨_, rfl, rfl, rfl⟩
    | some literal => cases literal <;> exact ⟨_, rfl, rfl, rfl⟩
  | color => exact ⟨_, rfl, rfl, rfl⟩
  | time | uv | normalWorld | positionWorld => exact ⟨_, rfl, I.shape_builtin _, rfl⟩
  | viewDirection =>
    obtain ⟨x, y, z, hcamera⟩ := exists_vec3 (I.shape_builtin .cameraPosition)
    obtain ⟨x', y', z', hposition⟩ := exists_vec3 (I.shape_builtin .positionWorld)
    let direction := I.normalize (I.binary .sub x x', I.binary .sub y y', I.binary .sub z z')
    refine ⟨.vec3 direction.1 direction.2.1 direction.2.2, ?_, rfl, ?_⟩
    · simp only [Interpretation.input, hcamera, hposition]
      rfl
    · simp only [InputType.tree, Tree.value, hcamera, hposition]
      rfl

/-- **A node that is fed late yields late.** If the trees that feed a node have values
that fill what its sockets take, the value of its tree fills what it yields. -/
theorem widens_node {node : Node} (hcode : node.category ≠ .code) {output : Pin}
    (houtput : node.kind.outputs = [output])
    {feed : PinKey → Except ResolveError (Option Tree)} {operand : Pin → Option (Value κ)}
    (hfeed : ∀ input ∈ node.kind.inputs, ∀ tree, feed input.key = .ok tree →
      ∃ v w, (tree.getD (.literal (input.socket.unconnected.shapedFor input.socket))).value I = some v ∧
        operand input = some w ∧ Value.Widens v w ∧ w.shape = .ofSocket input.socket)
    {t : Tree} (h : node.tree feed = .ok (some t)) :
    ∃ v w, t.value I = some v ∧ node.value I operand = some w ∧ Value.Widens v w ∧
      w.shape = .ofSocket output.socket := by
  cases hkind : node.kind with
  | input type value color =>
    rw [hkind] at houtput
    obtain rfl : outPin type.socket = output := by simpa [NodeKind.outputs] using houtput
    obtain rfl := Option.some.inj (Node.tree_input hkind h)
    obtain ⟨v, hinput, hshape, hvalue⟩ := value_input I type value color
    exact ⟨v, v, hvalue, by simpa only [Node.value, hkind] using hinput, .refl v, hshape⟩
  | math type =>
    obtain ⟨tree, htree, hfed⟩ := Node.tree_math hkind h
    obtain rfl := Option.some.inj htree
    rw [hkind] at houtput hfeed
    obtain rfl : type.output = output := by simpa [NodeKind.outputs] using houtput
    -- Each pin has its values, late and in the shape of the socket.
    have hpins : ∀ pin ∈ type.application.operands, ∃ v w, (tree pin).value I = some v ∧
        operand pin = some w ∧ Value.Widens v w ∧ w.shape = .ofSocket pin.socket := by
      intro pin hpin
      obtain ⟨fed, hfed, htree⟩ := hfed pin hpin
      rw [htree]
      exact hfeed pin hpin fed hfed
    have : Nonempty (Value κ) := ⟨I.builtin .time⟩
    choose! late full hlate hfull hwidens using hpins
    obtain ⟨v, w, hv, hw, hwidens, hshape⟩ := I.widens_math type hwidens
    refine ⟨v, w, (Tree.value_apply hlate).trans hv, ?_, hwidens, hshape⟩
    simp only [Node.value, hkind, Application.mapM_eq_pure hfull]
    exact hw
  | output channel => rw [hkind] at houtput; cases houtput
  | code source socket => simp [Node.category, hkind] at hcode

end Nodes

/-! ## Walks -/

namespace Network

variable {net : Network} {I : Interpretation κ}

/-- **What a walk finds fills what the sockets say.** In a network that is well
connected and has no code nodes, the value of an output pin's tree fills the value of
the pin. -/
theorem widens_walk (hwell : net.WellConnected)
    (hcode : ∀ id node, net.node? id = some node → node.category ≠ .code) {path : List Endpoint}
    {pin : Endpoint} {t : Tree} (h : net.walk path pin = .ok (some t)) {node : Node} {output : Pin}
    (hnode : net.node? pin.node = some node) (houtput : node.kind.outputs = [output]) :
    ∃ v w, t.value I = some v ∧ net.value I path pin = some w ∧ Value.Widens v w ∧
      w.shape = .ofSocket output.socket := by
  refine walk_induction (P := fun path pin t => ∀ node output, net.node? pin.node = some node →
    node.kind.outputs = [output] → ∃ v w, t.value I = some v ∧ net.value I path pin = some w ∧
      Value.Widens v w ∧ w.shape = .ofSocket output.socket) ?_ h node output hnode houtput
  intro path id node t hnode hp htree hfed node' output hnode' houtput
  obtain rfl : node = node' := Option.some.inj (hnode.symm.trans hnode')
  rw [value_of_out hnode hp]
  refine widens_node (hcode id node hnode) houtput (fun input hinput tree hfeed => ?_) htree
  simp only [walkInput] at hfeed
  cases hedge : net.feeding? ⟨id, input.key⟩ with
  | none =>
    -- Without a connection the tree is the literal of the socket.
    rw [hedge] at hfeed
    obtain rfl := Except.ok.inj hfeed
    refine ⟨I.literal input.socket.unconnected, I.literal input.socket.unconnected, ?_, ?_,
      .refl _, I.shape_unconnected input.socket⟩
    · cases input.socket <;> rfl
    · rw [inputValue, hedge]
  | some edge =>
    rw [hedge] at hfeed
    obtain ⟨source, output', hout, hsource, houtputs, hfeeds⟩ := hwell.fed hnode hinput hedge
    obtain ⟨t', rfl⟩ := exists_tree_of_walk hout hsource houtputs hfeed
    obtain ⟨v, w, hv, hw, hwidens, hshape⟩ :=
      hfed input.key edge t' hedge hfeed source output' hsource houtputs
    obtain ⟨full, hfull, hwidens, hshape⟩ := hwidens.feeds hshape hfeeds
    refine ⟨v, full, hv, ?_, hwidens, hshape⟩
    rw [inputValue, hedge]
    simp only [hw, Option.bind_some]
    exact hfull

end Network

/-! ## Channels -/

namespace Snapshot

/-- The value of a channel: what comes into the node that ends it, in the shape of its
socket, or the default where there is no such node or nothing comes in. -/
def value (snapshot : Snapshot) (I : Interpretation κ) (defaults : MaterialDefaults)
    (channel : Channel) : Option (Value κ) :=
  let default := I.literal (defaults.channel channel)
  match snapshot.output? channel with
  | none => some default
  | some node =>
    match snapshot.network.feeding? ⟨node.id, channel.pin.key⟩ with
    | none => some default
    | some edge =>
      (snapshot.network.value I [] edge.source).bind (·.widen? (.ofSocket channel.pin.socket))

theorem value_eq (snapshot : Snapshot) (I : Interpretation κ) (defaults : MaterialDefaults)
    (channel : Channel) :
    snapshot.value I defaults channel =
      match snapshot.feeding? channel with
      | none => some (I.literal (defaults.channel channel))
      | some edge =>
        (snapshot.network.value I [] edge.source).bind (·.widen? (.ofSocket channel.socket)) := by
  have hpin : channel.pin = ⟨.input, channel.pin.label, channel.socket⟩ := channel.pin_eq
  unfold value feeding?
  rw [hpin]
  cases snapshot.output? channel <;> rfl

theorem value_default (I : Interpretation κ) (defaults : MaterialDefaults) (channel : Channel) :
    (Tree.literal ((defaults.channel channel).shapedFor channel.socket)).value I =
        some (I.literal (defaults.channel channel)) ∧
      (I.literal (defaults.channel channel)).as I.zero (.ofSocket channel.socket) =
        I.literal (defaults.channel channel) := by
  cases channel <;> exact ⟨rfl, rfl⟩

/-- What a channel comes to, brought to the shape of the channel, is its value. -/
theorem value_of_channelValue {snapshot : Snapshot} (hwell : snapshot.network.WellConnected)
    (hcode : ∀ node ∈ snapshot.nodes, node.category ≠ .code) (I : Interpretation κ)
    {defaults : MaterialDefaults} {channel : Channel} {result : ChannelValue}
    (h : snapshot.channelValue defaults channel = .ok result) :
    ∃ v, result.tree.value I = some v ∧
      snapshot.value I defaults channel = some (v.as I.zero (.ofSocket channel.socket)) := by
  obtain ⟨hfallback, hshape⟩ := value_default I defaults channel
  have htree := tree_of_channelValue hwell h
  rw [value_eq]
  cases hedge : snapshot.feeding? channel with
  | none =>
    simp only [hedge] at htree ⊢
    exact ⟨_, by rw [htree, hfallback], by rw [hshape]⟩
  | some edge =>
    simp only [hedge] at htree ⊢
    obtain ⟨source, output, hsource, houtputs, hfeeds, hwalk⟩ := htree
    obtain ⟨v, w, hv, hw, hwidens, hshape⟩ := Network.widens_walk hwell
      (fun _ node hfound => hcode node (mem_nodes_of_node? hfound)) hwalk hsource houtputs
    -- The value of the pin fills the channel, and so does that of the tree.
    obtain ⟨full, hfull, hwidens, hshape⟩ := hwidens.feeds hshape hfeeds
    exact ⟨v, hv, by rw [hw, Option.bind_some, hfull, hwidens.as_eq hshape.symm]⟩

end Snapshot

end ShaderGraph
