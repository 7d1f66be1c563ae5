import ShaderGraph.Proofs.Connections

/-
Networks that a compilation cannot tell apart.

A walk reads little of a network: what a node does, and, at each input pin that the node
declares, where the edge starts that feeds it. A compilation reads in addition which node
ends a channel, and the title of that node. Two networks agree on the nodes that are known
(`Network.Agrees`) if all this is the same for them, and if edges start at nodes that are
known, so that a walk never leaves these.

The two networks need not have equally many nodes, so a walk in one of them may have the
greater depth. `x.Within y` says that `y` does what `x` does unless `x` runs into its depth
bound. A walk is within the walk of no smaller depth in a network that agrees
(`Agrees.within_resolveOutput`, by induction on the depth); since no compilation runs into
its bound, the two come to the same (`Snapshot.compile_eq`), entry by entry of the table.
-/
namespace ShaderGraph

/-- The kinds do the same: they differ at most in the socket that a code node declares. -/
inductive NodeKind.Alike : NodeKind → NodeKind → Prop
  | refl (kind : NodeKind) : Alike kind kind
  | code (source : String) (socket socket' : Socket) :
      Alike (.code source socket) (.code source socket')

/-- The nodes are the same to a compilation: they have one id and do the same, and if they
end a channel they have one title. -/
structure Node.Alike (node node' : Node) : Prop where
  id : node'.id = node.id
  kind : node.kind.Alike node'.kind
  title : ∀ channel, node.channel? = some channel → node'.title = node.title

namespace Node.Alike

variable {node node' : Node}

theorem refl (node : Node) : node.Alike node := ⟨rfl, .refl _, fun _ _ => rfl⟩

theorem channel?_eq (h : node.Alike node') : node'.channel? = node.channel? := by
  have hkind := h.kind
  unfold Node.channel?
  generalize node.kind = kind at hkind ⊢
  generalize node'.kind = kind' at hkind ⊢
  cases hkind <;> rfl

end Node.Alike

/-! ## Steps of different depth -/

namespace Resolve

variable {α β : Type}

/-- The second step does what the first one does, unless the first runs into its depth
bound. -/
def Within (x y : Resolve α) : Prop :=
  ∀ state, (x state).1 ≠ .error .depthExceeded → y state = x state

namespace Within

theorem refl (x : Resolve α) : Within x x := fun _ _ => rfl

/-- What runs into its depth bound is within every step. -/
theorem of_exceeded (y : Resolve α) : Within (halt .depthExceeded) y :=
  fun _ h => absurd rfl h

theorem bind {x y : Resolve α} {f g : α → Resolve β} (hx : Within x y)
    (hf : ∀ a, Within (f a) (g a)) : Within (Resolve.bind x f) (Resolve.bind y g) := by
  intro state hbound
  simp only [Resolve.bind] at hbound ⊢
  -- The first step does not run into its bound, for then both would.
  rcases hrun : x state with ⟨result, later⟩
  rw [hrun] at hbound
  have hfirst : (x state).1 ≠ .error .depthExceeded := by
    rw [hrun]
    rintro rfl
    exact hbound rfl
  rw [hx state hfirst, hrun]
  cases result with
  | ok a => exact hf a later hbound
  | error reason => rfl

theorem marked {x y : Resolve α} (hx : Within x y) (pin : Endpoint) :
    Within (Resolve.marked pin x) (Resolve.marked pin y) := by
  intro state hbound
  simp only [Resolve.marked] at hbound ⊢
  rw [hx _ hbound]

theorem mapM {f g : α → Resolve β} {application : Application α}
    (h : ∀ a ∈ application.operands, Within (f a) (g a)) :
    Within (application.mapM f) (application.mapM g) := by
  cases application with
  | unary op x => exact (h x (by simp [Application.operands])).bind fun _ => refl _
  | binary op x y =>
    refine (h x (by simp [Application.operands])).bind fun _ => ?_
    exact (h y (by simp [Application.operands])).bind fun _ => refl _
  | ternary op x y z =>
    refine (h x (by simp [Application.operands])).bind fun _ => ?_
    refine (h y (by simp [Application.operands])).bind fun _ => ?_
    exact (h z (by simp [Application.operands])).bind fun _ => refl _

/-- Nodes that are alike, of which what feeds the input pins is within the other. -/
theorem node {node node' : Node} (h : node.Alike node')
    {feed feed' : PinKey → Resolve (Option ExprId)}
    (hfeed : ∀ input ∈ node.kind.inputs, Within (feed input.key) (feed' input.key)) :
    Within (node.resolve feed) (node'.resolve feed') := by
  obtain ⟨hid, hkind, -⟩ := h
  simp only [Node.resolve, hid]
  generalize node.kind = kind at hkind hfeed ⊢
  generalize node'.kind = kind' at hkind ⊢
  cases kind with
  | input type value color =>
    cases hkind
    exact refl _
  | math type =>
    cases hkind
    refine (mapM fun input hinput => ?_).bind fun _ => refl _
    exact (hfeed input hinput).bind fun _ => refl _
  | output channel =>
    cases hkind
    exact refl _
  | code source socket =>
    obtain ⟨socket', rfl⟩ : ∃ socket', kind' = .code source socket' := by
      cases hkind <;> exact ⟨_, rfl⟩
    have hprimary := hfeed ⟨.primary, "Primary", .vec3⟩ (by simp [NodeKind.inputs, codeInputs])
    have hsecondary := hfeed ⟨.secondary, "Secondary", .vec3⟩
      (by simp [NodeKind.inputs, codeInputs])
    refine hprimary.bind fun _ => (refl _).bind fun _ => ?_
    exact hsecondary.bind fun _ => refl _

end Within

end Resolve

/-! ## Networks -/

/-- A compilation reads the same in both networks, as far as the known nodes go, and edges of
the first start at known nodes only. -/
structure Network.Agrees (net net' : Network) (Known : NodeId → Prop) : Prop where
  size : net.nodes.size ≤ net'.nodes.size
  source : ∀ pin edge, net.feeding? pin = some edge → Known edge.source.node
  node : ∀ id, Known id → Option.Rel Node.Alike (net.node? id) (net'.node? id)
  feeding : ∀ id node, net.node? id = some node → ∀ input ∈ node.kind.inputs,
    (net'.feeding? ⟨id, input.key⟩).map Edge.source = (net.feeding? ⟨id, input.key⟩).map Edge.source
  output : ∀ channel, Option.Rel Node.Alike (net.output? channel) (net'.output? channel)

namespace Network.Agrees

variable {net net' : Network} {Known : NodeId → Prop}

/-- A pin that is fed in one of the networks is fed from the same pin in the other. -/
theorem within_feed (h : net.Agrees net' Known) {id : NodeId} {node : Node}
    (hnode : net.node? id = some node) {input : Pin} (hinput : input ∈ node.kind.inputs)
    {walk walk' : Endpoint → Resolve (Option ExprId)}
    (hwalk : ∀ pin, Known pin.node → (walk pin).Within (walk' pin)) :
    Resolve.Within
      (match net.feeding? ⟨id, input.key⟩ with
        | some edge => walk edge.source
        | none => pure none)
      (match net'.feeding? ⟨id, input.key⟩ with
        | some edge => walk' edge.source
        | none => pure none) := by
  have hsource := h.feeding id node hnode input hinput
  cases hedge : net.feeding? ⟨id, input.key⟩ with
  | none =>
    rw [hedge, Option.map_none, Option.map_eq_none_iff] at hsource
    rw [hsource]
    exact .refl _
  | some edge =>
    rw [hedge, Option.map_some, Option.map_eq_some_iff] at hsource
    obtain ⟨edge', hedge', hsame⟩ := hsource
    simp only [hedge', hsame]
    exact hwalk edge.source (h.source _ _ hedge)

/-- **A walk does the same in the other network**, where its depth is no smaller. -/
theorem within_resolveOutput (h : net.Agrees net' Known) {depth depth' : Nat}
    (hdepth : depth ≤ depth') {pin : Endpoint} (hpin : Known pin.node) :
    (net.resolveOutputWithin depth pin).Within (net'.resolveOutputWithin depth' pin) := by
  induction depth generalizing depth' pin with
  | zero => exact .of_exceeded _
  | succ depth ih =>
    obtain ⟨depth', rfl⟩ : ∃ less, depth' = less + 1 := ⟨depth' - 1, by omega⟩
    have hless : depth ≤ depth' := by omega
    intro state
    simp only [resolveOutputWithin]
    cases state.cached? pin with
    | some answer => exact fun _ => rfl
    | none =>
      have hnodes := h.node pin.node hpin
      generalize hnode : net.node? pin.node = found at hnodes
      generalize net'.node? pin.node = found' at hnodes
      cases hnodes with
      | none => exact fun _ => rfl
      | @some node node' halike =>
        by_cases hunder : pin ∈ state.inProgress
        · simp only [hunder, if_true]
          exact fun _ => trivial
        · simp only [hunder, if_false]
          refine Resolve.Within.bind (.marked ?_ pin) (fun _ => .refl _) state
          by_cases hout : pin.pin = .out
          · simp only [hout, if_true]
            refine .node halike fun input hinput => ?_
            exact h.within_feed hnode hinput fun source hsource => ih hless hsource
          · simp only [hout, if_false]
            exact .refl _

end Network.Agrees

/-! ## Compilations -/

namespace Snapshot

variable {snapshot snapshot' : Snapshot} {Known : NodeId → Prop}

theorem within_resolveChannel (h : snapshot.network.Agrees snapshot'.network Known)
    (channel : Channel) (socket : Socket) (fallback : Literal) :
    (snapshot.network.resolveChannel channel socket fallback).Within
      (snapshot'.network.resolveChannel channel socket fallback) := by
  have houtputs := h.output channel
  simp only [Network.resolveChannel]
  generalize hnode : snapshot.network.output? channel = found at houtputs
  generalize snapshot'.network.output? channel = found' at houtputs
  cases houtputs with
  | none => exact .refl _
  | @some node node' halike =>
    rw [output?_network] at hnode
    obtain ⟨hfound, hinputs⟩ := of_output? hnode
    have htitle : node'.title = node.title := by
      refine halike.title channel ?_
      have := List.find?_some hnode
      exact beq_iff_eq.mp this
    have hpin : channel.pin ∈ node.kind.inputs := by
      rw [hinputs]
      exact List.mem_singleton_self _
    have hkey : channel.pin.key = .input := by rw [channel.pin_eq]
    have hdepth : snapshot.network.depthBound ≤ snapshot'.network.depthBound :=
      Nat.succ_le_succ h.size
    have hinput : (snapshot.network.resolveInput ⟨node.id, .input⟩).Within
        (snapshot'.network.resolveInput ⟨node.id, .input⟩) := by
      have hfeed := h.within_feed hfound hpin fun source hsource =>
        h.within_resolveOutput hdepth hsource
      rw [hkey] at hfeed
      exact hfeed
    simp only [halike.id, htitle]
    exact hinput.bind fun _ => .refl _

theorem within_resolveChannels (h : snapshot.network.Agrees snapshot'.network Known)
    (defaults : MaterialDefaults) :
    (snapshot.network.resolveChannels defaults).Within
      (snapshot'.network.resolveChannels defaults) := by
  have hstep : ∀ channel, (snapshot.network.resolveChannelWith defaults channel).Within
      (snapshot'.network.resolveChannelWith defaults channel) := by
    intro channel
    simp only [Network.resolveChannelWith]
    split
    · exact within_resolveChannel h channel _ _
    · exact .refl _
  refine (hstep .baseColor).bind fun _ => (hstep .emissive).bind fun _ => ?_
  refine (hstep .roughness).bind fun _ => (hstep .metalness).bind fun _ => ?_
  exact (hstep .opacity).bind fun _ => (hstep .normal).bind fun _ => .refl _

/-- No compilation runs into its depth bound. -/
theorem resolveChannels_bounded (snapshot : Snapshot) (defaults : MaterialDefaults) :
    (snapshot.network.resolveChannels defaults .start).1 ≠ .error .depthExceeded := by
  have hfollows : Follows snapshot defaults compileOrder .start
      (snapshot.network.resolveChannels defaults) _ :=
    follows_resolveChannels (Network.sound_start _) rfl
  unfold Follows at hfollows
  intro hexceeded
  cases hfailure : snapshot.failure? defaults compileOrder with
  | some error =>
    rw [hfailure, hexceeded] at hfollows
    cases hfollows
  | none =>
    rw [hfailure] at hfollows
    obtain ⟨_, _, hrun, -⟩ := hfollows
    rw [hrun] at hexceeded
    cases hexceeded

/-- **Snapshots whose networks agree compile to the same**: the same messages, and the same
material down to the places of its expressions. -/
theorem compile_eq (h : snapshot.network.Agrees snapshot'.network Known)
    (defaults : MaterialDefaults) : snapshot'.compile defaults = snapshot.compile defaults := by
  have hrun := within_resolveChannels h defaults .start
    (snapshot.resolveChannels_bounded defaults)
  simp only [compile, Network.compile, hrun]

end Snapshot

end ShaderGraph
