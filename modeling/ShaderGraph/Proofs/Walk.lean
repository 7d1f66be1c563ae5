import ShaderGraph.Proofs.Tree

/-
The walk without memory.

`Network.walk` finds what an output pin yields and keeps nothing: it follows the
same edges as a resolution, but a pin that feeds several others is walked to
again for each of them. The pins on the way to the present one are its path, and
a pin that lies on its own path is a cycle. The walk ends because the path takes
up one node of the network after the other (`unvisited_cons_lt`).
-/
namespace ShaderGraph

/-! ## Nodes -/

def InputType.tree (type : InputType) (value : Option Literal) (color : Option String) : Tree :=
  match type with
  | .float => .literal <| match value with
    | some (.float v) => .float v
    | _ => .float (.ofDecimal false 1 0)
  | .vec2 => .literal <| match value with
    | some (.vec2 v) => .vec2 v
    | _ => .vec2 ⟨.ofDecimal false 0 0, .ofDecimal false 0 0⟩
  | .vec3 => .literal <| match value with
    | some (.vec3 v) => .vec3 v
    | _ => .vec3 ⟨.ofDecimal false 5 (-1), .ofDecimal false 5 (-1), .ofDecimal false 5 (-1)⟩
  | .color => .literal <| .vec3 <| (color.bind HexColor.read?).getD neutralColor
  | .time => .builtin .time
  | .uv => .builtin .uv
  | .normalWorld => .builtin .normalWorld
  | .positionWorld => .builtin .positionWorld
  | .viewDirection =>
    .unary .normalize (.binary .sub (.builtin .cameraPosition) (.builtin .positionWorld))

/-- The tree of a node's `out` pin, where `feed` tells what feeds an input pin. -/
def Node.tree (node : Node) (feed : PinKey → Except ResolveError (Option Tree)) :
    Except ResolveError (Option Tree) :=
  match node.kind with
  | .input type value color =>
    match value with
    | some literal =>
      if literal.isFinite then .ok (some (type.tree value color))
      else .error (.nonFiniteValue node.id)
    | none => .ok (some (type.tree value color))
  | .math type => do
    let application ← type.application.mapM fun pin => do
      return (← feed pin.key).getD (.literal (pin.socket.unconnected.shapedFor pin.socket))
    return some (.apply application)
  | .code source _ => do
    let primary := (← feed .primary).getD (.literal (.vec3 codePrimary))
    let secondary := (← feed .secondary).getD (.literal (.vec3 codeSecondary))
    match CodeFunction.make (CodeFunction.nameOfNode node.id) source with
    | .error error => .error (.code error)
    | .ok function =>
      return some (.ternary .mix primary secondary
        (.call function primary secondary (.builtin .uv)))
  | .output _ => .ok none

/-! ## Pins -/

namespace Network

/-- The nodes whose `out` pin is not on the path. -/
def unvisited (net : Network) (path : List Endpoint) : List NodeId :=
  net.nodes.keys.filter fun id => ⟨id, .out⟩ ∉ path

theorem unvisited_length_le (net : Network) (path : List Endpoint) :
    (net.unvisited path).length ≤ net.nodes.size := by
  refine Nat.le_trans (List.length_filter_le _ _) ?_
  simp [OrderedMap.keys, OrderedMap.size]

theorem mem_keys_of_node? {net : Network} {id : NodeId} {node : Node}
    (h : net.node? id = some node) : id ∈ net.nodes.keys := by
  simp only [node?, OrderedMap.get?] at h
  obtain ⟨_, _, hl, _⟩ := List.lookup_eq_some_iff.mp h
  simp [OrderedMap.keys, hl]

/-- A step onto a node that is there and not on the path leaves fewer to visit. -/
theorem unvisited_cons_lt {net : Network} {path : List Endpoint} {pin : Endpoint} {node : Node}
    (hnode : net.node? pin.node = some node) (hpath : pin ∉ path) (hout : pin.pin = .out) :
    (net.unvisited (pin :: path)).length < (net.unvisited path).length := by
  have hpin : pin = ⟨pin.node, .out⟩ := by cases pin; simp_all
  -- The node of the pin was to visit, and is all that the step takes off.
  have hmem : pin.node ∈ net.unvisited path :=
    List.mem_filter.mpr ⟨mem_keys_of_node? hnode, by simp [← hpin, hpath]⟩
  have hsub : net.unvisited (pin :: path) =
      (net.unvisited path).filter fun id => (⟨id, .out⟩ : Endpoint) ≠ pin := by
    simp only [unvisited, List.filter_filter]
    refine List.filter_congr fun id _ => ?_
    simp [List.mem_cons, not_or]
  rw [hsub]
  refine List.length_filter_lt_length_iff_exists.mpr ⟨pin.node, hmem, ?_⟩
  simp [← hpin]

/-- What an output pin yields, by a walk that keeps nothing. A node that is not
there yields nothing, a pin on its own path is a cycle, and only the pin `out`
yields anything. -/
def walk (net : Network) (path : List Endpoint) (pin : Endpoint) :
    Except ResolveError (Option Tree) :=
  match _hnode : net.node? pin.node with
  | none => .ok none
  | some node =>
    if _hpath : pin ∈ path then .error (.cycle pin)
    else if _hout : pin.pin = .out then
      node.tree fun key =>
        match net.feeding? ⟨pin.node, key⟩ with
        | some edge => net.walk (pin :: path) edge.source
        | none => .ok none
    else .ok none
termination_by (net.unvisited path).length
decreasing_by exact unvisited_cons_lt _hnode _hpath _hout

/-- What feeds an input pin, by a walk that keeps nothing. -/
def walkInput (net : Network) (path : List Endpoint) (pin : Endpoint) :
    Except ResolveError (Option Tree) :=
  match net.feeding? pin with
  | some edge => net.walk path edge.source
  | none => .ok none

variable {net : Network} {path : List Endpoint} {pin : Endpoint}

theorem walk_of_missing (h : net.node? pin.node = none) : net.walk path pin = .ok none := by
  rw [walk]; split
  · rfl
  · next hs => rw [h] at hs; cases hs

theorem walk_of_mem {node : Node} (h : net.node? pin.node = some node) (hp : pin ∈ path) :
    net.walk path pin = .error (.cycle pin) := by
  rw [walk]; split
  · next hs => rw [h] at hs; cases hs
  · rw [dif_pos hp]

theorem walk_of_not_out (hp : pin ∉ path)
    (ho : pin.pin ≠ .out) : net.walk path pin = .ok none := by
  rw [walk]; split
  · rfl
  · rw [dif_neg hp, dif_neg ho]

theorem walk_of_out {node : Node} (h : net.node? pin.node = some node) (hp : pin ∉ path)
    (ho : pin.pin = .out) :
    net.walk path pin = node.tree fun key => net.walkInput (pin :: path) ⟨pin.node, key⟩ := by
  rw [walk]; split
  · next hs => rw [h] at hs; cases hs
  · next node' hs =>
    obtain rfl : node = node' := Option.some.inj (h.symm.trans hs)
    rw [dif_neg hp, dif_pos ho]
    rfl

/-- What holds of a node's tree if it holds of the trees that feed the node, holds of
every tree that a walk finds. -/
theorem walk_induction {P : List Endpoint → Endpoint → Tree → Prop}
    (hstep : ∀ path id node t, net.node? id = some node → ⟨id, .out⟩ ∉ path →
      node.tree (fun key => net.walkInput (⟨id, .out⟩ :: path) ⟨id, key⟩) = .ok (some t) →
      (∀ key edge t', net.feeding? ⟨id, key⟩ = some edge →
        net.walk (⟨id, .out⟩ :: path) edge.source = .ok (some t') →
          P (⟨id, .out⟩ :: path) edge.source t') → P path ⟨id, .out⟩ t)
    {t : Tree} (h : net.walk path pin = .ok (some t)) : P path pin t := by
  induction hn : (net.unvisited path).length using Nat.strongRecOn generalizing path pin t with
  | ind n ih =>
    subst hn
    obtain ⟨id, key⟩ := pin
    cases hnode : net.node? id with
    | none => rw [walk_of_missing hnode] at h; cases h
    | some node =>
      by_cases hp : ⟨id, key⟩ ∈ path
      · rw [walk_of_mem hnode hp] at h; cases h
      · by_cases hout : key = .out
        · subst hout
          rw [walk_of_out hnode hp rfl] at h
          refine hstep path id node t hnode hp h fun key edge t' _ hwalk => ?_
          exact ih _ (unvisited_cons_lt hnode hp rfl) hwalk rfl
        · rw [walk_of_not_out hp hout] at h; cases h

end Network

end ShaderGraph
