import ShaderGraph.Proofs.Connections
import ShaderGraph.Proofs.Shapes

/-
Shapes that meet in a graph.

A tree fits (`Tree.Fits`) if no operand has two components, the coordinates of a call
apart, and a factor that is a vector blends scalars only where it may be narrowed. In a
network that is well connected no output that feeds anything has two components, so
every tree that is found fits (`Network.yields_walk`). What may be narrowed depends on the
code nodes, since a code node blends its operands as they are, whatever socket it
declares (`Network.Narrows`): only what holds a call; only the calls themselves, where
code nodes that are declared scalars blend scalars; nothing, where there are no code
nodes.
-/
namespace ShaderGraph

namespace Tree

def IsCall (t : Tree) : Prop :=
  ∃ function primary secondary uv, t = .call function primary secondary uv

def HasCall : Tree → Prop
  | literal _ => False
  | builtin _ => False
  | unary _ x => x.HasCall
  | binary _ x y => x.HasCall ∨ y.HasCall
  | ternary _ x y z => x.HasCall ∨ y.HasCall ∨ z.HasCall
  | call .. => True

theorem hasCall_apply {application : Application Tree} :
    (Tree.apply application).HasCall ↔ ∃ x ∈ application.operands, x.HasCall := by
  cases application <;> simp [Tree.apply, HasCall, Application.operands]

/-- No operand has two components, but for the coordinates of a call, and the factor of
a blend of scalars is a scalar or may be narrowed. -/
def Fits (narrowed : Tree → Prop) : Tree → Prop
  | literal _ => True
  | builtin _ => True
  | unary _ x => x.Fits narrowed ∧ x.valueType ≠ .vec2
  | binary _ x y =>
    (x.Fits narrowed ∧ x.valueType ≠ .vec2) ∧ y.Fits narrowed ∧ y.valueType ≠ .vec2
  | ternary op x y z =>
    ((x.Fits narrowed ∧ x.valueType ≠ .vec2) ∧ (y.Fits narrowed ∧ y.valueType ≠ .vec2) ∧
      z.Fits narrowed ∧ z.valueType ≠ .vec2) ∧
    (op = .mix → x.valueType = .float → y.valueType = .float → z.valueType = .float ∨ narrowed z)
  | call _ primary secondary uv =>
    (primary.Fits narrowed ∧ primary.valueType ≠ .vec2) ∧
    (secondary.Fits narrowed ∧ secondary.valueType ≠ .vec2) ∧
    uv.Fits narrowed ∧ uv.valueType = .vec2

variable {narrowed : Tree → Prop}

theorem fits_apply {application : Application Tree} :
    (Tree.apply application).Fits narrowed ↔
      (∀ x ∈ application.operands, x.Fits narrowed ∧ x.valueType ≠ .vec2) ∧
      ∀ x y z, application = .ternary .mix x y z → x.valueType = .float → y.valueType = .float →
        z.valueType = .float ∨ narrowed z := by
  cases application with
  | unary op x => simp [Tree.apply, Fits, Application.operands]
  | binary op x y => simp [Tree.apply, Fits, Application.operands]
  | ternary op x y z =>
    simp only [Tree.apply, Fits, Application.operands, List.mem_cons, List.not_mem_nil, or_false,
      forall_eq_or_imp, forall_eq, Application.ternary.injEq]
    refine and_congr_right fun _ => ⟨fun h => ?_, fun h hop => ?_⟩
    · rintro x' y' z' ⟨rfl, rfl, rfl, rfl⟩
      exact h rfl
    · exact h x y z ⟨hop, rfl, rfl, rfl⟩

end Tree

theorem Expressions.fits_operands {table : Expressions} {narrowed : Tree → Prop} {id : ExprId}
    {t : Tree} (ht : table.tree? id = some t) (h : t.Fits narrowed) :
    ∀ x ∈ table.operands id, ∃ t', table.tree? x = some t' ∧ t'.Fits narrowed := by
  obtain ⟨e, he, hread⟩ := exists_of_tree? ht
  rw [operands, he]
  cases e with
  | literal value => exact List.forall_mem_nil _
  | builtin value => exact List.forall_mem_nil _
  | apply application =>
    obtain ⟨trees, htrees, rfl⟩ := Option.map_eq_some_iff.mp hread
    intro x hx
    obtain ⟨t', hmem, hx'⟩ := Application.exists_of_mapM htrees hx
    exact ⟨t', hx', ((Tree.fits_apply.mp h).1 t' hmem).1⟩
  | call f primary secondary uv =>
    simp only [Expr.tree?, bind, Option.bind_eq_some_iff] at hread
    obtain ⟨_, -, p, hp, s, hs, u, hu, htree⟩ := hread
    obtain rfl := Option.some.inj htree
    simp only [Expr.operands, List.forall_mem_cons, List.not_mem_nil, false_imp_iff, implies_true,
      and_true]
    exact ⟨⟨p, hp, h.1.1⟩, ⟨s, hs, h.2.1.1⟩, ⟨u, hu, h.2.2.1⟩⟩

theorem ValueType.widest_of_ne_vec2 {a b : ValueType} (ha : a ≠ .vec2) (hb : b ≠ .vec2) :
    (a = .float ∨ a = a.widest b) ∧ (b = .float ∨ b = a.widest b) ∧ a.widest b ≠ .vec2 := by
  revert ha hb
  cases a <;> cases b <;> decide

theorem Application.valueType_ne_vec2 {application : Application ValueType}
    (h : ∀ x ∈ application.operands, x ≠ .vec2) : application.valueType ≠ .vec2 := by
  cases application with
  | unary op x => exact h x (by simp [operands])
  | binary op x y =>
    exact (ValueType.widest_of_ne_vec2 (h x (by simp [operands])) (h y (by simp [operands]))).2.2
  | ternary op x y z =>
    obtain ⟨-, -, hxy⟩ :=
      ValueType.widest_of_ne_vec2 (h x (by simp [operands])) (h y (by simp [operands]))
    obtain ⟨-, -, hxyz⟩ := ValueType.widest_of_ne_vec2 hxy (h z (by simp [operands]))
    cases op with
    | mix => exact hxy
    | clamp => exact hxyz
    | smoothstep => exact hxyz

theorem Application.valueType_eq_float {application : Application ValueType}
    (h : ∀ x ∈ application.operands, x = .float) : application.valueType = .float := by
  cases application with
  | unary op x => exact h x (by simp [operands])
  | binary op x y =>
    obtain rfl := h x (by simp [operands])
    obtain rfl := h y (by simp [operands])
    rfl
  | ternary op x y z =>
    obtain rfl := h x (by simp [operands])
    obtain rfl := h y (by simp [operands])
    obtain rfl := h z (by simp [operands])
    cases op <;> rfl

/-! ## Networks -/

theorem Socket.ne_vec2_of_feeds {source target : Socket} (h : source.feeds target = true)
    (htarget : target ≠ .vec2) : source ≠ .vec2 := by
  rintro rfl
  cases target <;> simp_all [feeds]

theorem NodeKind.input_ne_vec2 {kind : NodeKind} {input : Pin} (h : input ∈ kind.inputs) :
    input.socket ≠ .vec2 := by
  cases kind with
  | input type value color => cases h
  | math type =>
    revert input
    cases type <;> decide
  | output channel =>
    obtain rfl : input = channel.pin := by simpa [inputs] using h
    cases channel <;> decide
  | code source socket =>
    revert input
    simp only [inputs]
    decide

namespace Network

/-- What feeds the code nodes that are declared scalars are outputs that are declared
scalars. -/
def ScalarCode (net : Network) : Prop :=
  ∀ id node source, net.node? id = some node → node.kind = .code source .float →
    ∀ input ∈ node.kind.inputs, ∃ edge sourceNode output,
      net.feeding? ⟨id, input.key⟩ = some edge ∧ net.node? edge.source.node = some sourceNode ∧
      sourceNode.kind.output? edge.source.pin = some output ∧ output.socket = .float

/-- What may be narrowed are the calls of code nodes and what is `loose`: what may be a
vector though it comes from a scalar socket, as it does from a code node that is declared
a scalar and blends vectors. -/
structure Narrows (net : Network) (loose narrowed : Tree → Prop) : Prop where
  of_loose : ∀ t, loose t → narrowed t
  apply : ∀ application : Application Tree, ∀ x ∈ application.operands, loose x →
    loose (.apply application)
  call : ∀ id node source socket, net.node? id = some node → node.kind = .code source socket →
    ∀ function primary secondary uv, narrowed (.call function primary secondary uv)
  blend : net.ScalarCode ∨ ∀ function primary secondary uv,
    loose (.ternary .mix primary secondary (.call function primary secondary uv))

theorem narrows_hasCall (net : Network) : net.Narrows Tree.HasCall Tree.HasCall :=
  ⟨fun _ h => h, fun _ x hx h => Tree.hasCall_apply.mpr ⟨x, hx, h⟩,
    fun _ _ _ _ _ _ _ _ _ _ => trivial, .inr fun _ _ _ _ => .inr (.inr trivial)⟩

theorem narrows_isCall {net : Network} (h : net.ScalarCode) :
    net.Narrows (fun _ => False) Tree.IsCall :=
  ⟨fun _ => False.elim, fun _ _ _ => False.elim, fun _ _ _ _ _ _ f p s u => ⟨f, p, s, u, rfl⟩,
    .inl h⟩

theorem narrows_nothing {net : Network}
    (h : ∀ id node, net.node? id = some node → node.category ≠ .code) :
    net.Narrows (fun _ => False) fun _ => False := by
  have hnone : ∀ id node source socket, net.node? id = some node →
      node.kind ≠ .code source socket := by
    intro id node source socket hnode hkind
    have := h id node hnode
    simp [Node.category, hkind] at this
  exact ⟨fun _ => False.elim, fun _ _ _ => False.elim,
    fun _ _ _ _ hnode hkind => absurd hkind (hnone _ _ _ _ hnode),
    .inl fun _ _ _ hnode hkind => absurd hkind (hnone _ _ _ _ hnode)⟩

/-- What an output of some socket yields: a tree that fits, has not two components, and
is a scalar if the socket is one, unless it is loose. -/
structure Yields (loose narrowed : Tree → Prop) (socket : Socket) (t : Tree) : Prop where
  fits : t.Fits narrowed
  wide : t.valueType ≠ .vec2
  scalar : socket = .float → t.valueType = .float ∨ loose t

variable {net : Network} {loose narrowed : Tree → Prop}

theorem yields_literal {value : Literal} {socket : Socket}
    (h : value.valueType = .ofSocket socket) (hvec2 : socket ≠ .vec2) :
    Yields loose narrowed socket (.literal value) := by
  refine ⟨trivial, ?_, fun hfloat => .inl ?_⟩
  · rw [Tree.valueType, h]
    cases socket <;> simp_all [ValueType.ofSocket]
  · rw [Tree.valueType, h, hfloat]
    rfl

theorem Yields.feeds {source target : Socket} {t : Tree} (h : Yields loose narrowed source t)
    (hfeeds : source.feeds target = true) : Yields loose narrowed target t := by
  refine ⟨h.fits, h.wide, fun hfloat => h.scalar ?_⟩
  subst hfloat
  cases source <;> simp_all [Socket.feeds]

theorem yields_input (type : InputType) (value : Option Literal) (color : Option String)
    (hvec2 : type.socket ≠ .vec2) :
    Yields loose narrowed type.socket (type.tree value color) := by
  cases type with
  | float =>
    refine yields_literal ?_ hvec2
    split <;> rfl
  | vec3 =>
    refine yields_literal ?_ hvec2
    split <;> rfl
  | color => exact yields_literal rfl hvec2
  | vec2 | uv => exact absurd rfl hvec2
  | time => exact ⟨trivial, ValueType.noConfusion, fun _ => .inl rfl⟩
  | normalWorld | positionWorld => exact ⟨trivial, ValueType.noConfusion, fun h => nomatch h⟩
  | viewDirection =>
    exact ⟨⟨⟨⟨trivial, ValueType.noConfusion⟩, trivial, ValueType.noConfusion⟩,
      ValueType.noConfusion⟩, ValueType.noConfusion, fun h => nomatch h⟩

/-- An operator yields a scalar from scalar operands, or something loose. -/
theorem yields_apply (h : net.Narrows loose narrowed) {application : Application Tree}
    (hscalar : ∀ x ∈ application.operands, x.valueType = .float ∨ loose x) :
    (Tree.apply application).valueType = .float ∨ loose (.apply application) := by
  by_cases hall : ∀ x ∈ application.operands, x.valueType = .float
  · rw [Tree.valueType_apply]
    exact .inl (Application.valueType_eq_float (Application.forall_operands_map.mpr hall))
  · obtain ⟨x, hx, hvector⟩ : ∃ x ∈ application.operands, x.valueType ≠ .float := by
      simpa using hall
    exact .inr (h.apply application x hx ((hscalar x hx).resolve_left hvector))

theorem yields_math (hnarrows : net.Narrows loose narrowed) (type : MathType)
    {operand : Pin → Tree}
    (h : ∀ pin ∈ type.application.operands, Yields loose narrowed pin.socket (operand pin)) :
    Yields loose narrowed type.output.socket (.apply (type.application.map operand)) := by
  refine ⟨Tree.fits_apply.mpr ⟨Application.forall_operands_map.mpr fun pin hpin => ?_,
    fun x y z hmix _ _ => ?_⟩, ?_, fun hfloat => ?_⟩
  · exact ⟨(h pin hpin).fits, (h pin hpin).wide⟩
  · -- The factor of a blend comes from a scalar socket.
    cases type with
    | lerp =>
      have hpin := (h ⟨.factor, "T", .float⟩ (by decide)).scalar rfl
      simp only [MathType.application, Application.map, Application.ternary.injEq] at hmix
      obtain ⟨-, -, -, rfl⟩ := hmix
      exact hpin.imp_right (hnarrows.of_loose _)
    | _ => simp [MathType.application, Application.map] at hmix
  · rw [Tree.valueType_apply, Application.map_map]
    exact Application.valueType_ne_vec2 (Application.forall_operands_map.mpr fun pin hpin =>
      (h pin hpin).wide)
  · have hsockets : ∀ pin ∈ type.application.operands, pin.socket = .float := by
      cases type with
      | add => cases hfloat
      | lerp => cases hfloat
      | _ => decide
    exact yields_apply hnarrows (Application.forall_operands_map.mpr fun pin hpin =>
      (h pin hpin).scalar (hsockets pin hpin))

/-- A code node yields what its socket says, if its operands fit and what it blends is a
scalar or loose where its socket is a scalar's. -/
theorem yields_code {function : CodeFunction} {primary secondary : Tree} {socket : Socket}
    (hcall : narrowed (.call function primary secondary (.builtin .uv)))
    (hprimary : primary.Fits narrowed ∧ primary.valueType ≠ .vec2)
    (hsecondary : secondary.Fits narrowed ∧ secondary.valueType ≠ .vec2)
    (hscalar : socket = .float →
      (primary.valueType = .float ∧ secondary.valueType = .float) ∨
        loose (.ternary .mix primary secondary (.call function primary secondary (.builtin .uv)))) :
    Yields loose narrowed socket
      (.ternary .mix primary secondary (.call function primary secondary (.builtin .uv))) := by
  have huv : (Tree.builtin .uv).Fits narrowed ∧ (Tree.builtin .uv).valueType = .vec2 :=
    ⟨trivial, rfl⟩
  have hvec3 : (Tree.call function primary secondary (.builtin .uv)).valueType ≠ .vec2 :=
    ValueType.noConfusion
  refine ⟨⟨⟨hprimary, hsecondary, ⟨hprimary, hsecondary, huv⟩, hvec3⟩, fun _ _ _ => .inr hcall⟩,
    ?_, fun hfloat => (hscalar hfloat).imp_left fun ⟨hp, hs⟩ => ?_⟩
  · refine Application.valueType_ne_vec2 ?_
    simp only [Application.operands, List.forall_mem_cons, List.not_mem_nil, false_imp_iff,
      implies_true, and_true]
    exact ⟨hprimary.2, hsecondary.2, hvec3⟩
  · rw [Tree.valueType, hp, hs]
    rfl

theorem yields_node (h : net.Narrows loose narrowed) {id : NodeId} {node : Node} {output : Pin}
    (hnode : net.node? id = some node) (houtput : node.kind.outputs = [output])
    (hvec2 : output.socket ≠ .vec2) {feed : PinKey → Except ResolveError (Option Tree)}
    (hfeed : ∀ input ∈ node.kind.inputs, ∀ t, feed input.key = .ok (some t) →
      Yields loose narrowed input.socket t)
    (hscalar : net.ScalarCode → ∀ source, node.kind = .code source .float →
      ∀ input ∈ node.kind.inputs, ∀ fed, feed input.key = .ok fed →
        ∃ t, fed = some t ∧ (t.valueType = .float ∨ loose t))
    {t : Tree} (ht : node.tree feed = .ok (some t)) : Yields loose narrowed output.socket t := by
  cases hkind : node.kind with
  | input type value color =>
    rw [hkind] at houtput
    obtain rfl : outPin type.socket = output := by simpa [NodeKind.outputs] using houtput
    obtain rfl := Option.some.inj (Node.tree_input hkind ht)
    exact yields_input type value color hvec2
  | math type =>
    obtain ⟨operand, htree, hoperand⟩ := Node.tree_math hkind ht
    obtain rfl := Option.some.inj htree
    rw [hkind] at houtput hfeed
    obtain rfl : type.output = output := by simpa [NodeKind.outputs] using houtput
    refine yields_math h type fun pin hpin => ?_
    obtain ⟨fed, hfed, heq⟩ := hoperand pin hpin
    rw [heq]
    cases fed with
    | none =>
      have hinput : pin ∈ (NodeKind.math type).inputs := hpin
      refine yields_literal ?_ (NodeKind.input_ne_vec2 hinput)
      cases pin.socket <;> rfl
    | some t => exact hfeed pin hpin t hfed
  | output channel => rw [hkind] at houtput; cases houtput
  | code source socket =>
    obtain ⟨function, primary, secondary, hprimary, hsecondary, htree⟩ := Node.tree_code hkind ht
    obtain rfl := Option.some.inj htree
    rw [hkind] at houtput hfeed hscalar
    obtain rfl : outPin socket = output := by simpa [NodeKind.outputs] using houtput
    have hinput : ∀ pin ∈ codeInputs, ∀ fed, feed pin.key = .ok fed → ∀ v,
        (fed.getD (.literal (.vec3 v))).Fits narrowed ∧
          (fed.getD (.literal (.vec3 v))).valueType ≠ .vec2 := by
      intro pin hpin fed hfed v
      cases fed with
      | none => exact ⟨trivial, ValueType.noConfusion⟩
      | some t => exact ⟨(hfeed pin hpin t hfed).fits, (hfeed pin hpin t hfed).wide⟩
    have hfirst : ⟨.primary, "Primary", .vec3⟩ ∈ codeInputs := by decide
    have hsecond : ⟨.secondary, "Secondary", .vec3⟩ ∈ codeInputs := by decide
    refine yields_code (h.call id node source socket hnode hkind _ _ _ _)
      (hinput _ hfirst primary hprimary codePrimary)
      (hinput _ hsecond secondary hsecondary codeSecondary) fun hfloat => ?_
    obtain rfl : socket = .float := hfloat
    rcases h.blend with hcode | hloose
    · obtain ⟨p, rfl, hp⟩ := hscalar hcode source rfl _ hfirst primary hprimary
      obtain ⟨s, rfl, hs⟩ := hscalar hcode source rfl _ hsecond secondary hsecondary
      -- An operand that is loose makes the blend loose.
      rcases hp with hp | hp
      · rcases hs with hs | hs
        · exact .inl ⟨hp, hs⟩
        · exact .inr (h.apply (.ternary .mix p s _) s (by simp [Application.operands]) hs)
      · exact .inr (h.apply (.ternary .mix p s _) p (by simp [Application.operands]) hp)
    · exact .inr (hloose _ _ _ _)

/-- **What a walk finds fits.** In a network that is well connected, the tree of an
output pin of no two components yields what the socket of the pin says. -/
theorem yields_walk (hwell : net.WellConnected) (hnarrows : net.Narrows loose narrowed)
    {path : List Endpoint} {pin : Endpoint} {t : Tree} (h : net.walk path pin = .ok (some t))
    {node : Node} {output : Pin} (hnode : net.node? pin.node = some node)
    (houtput : node.kind.outputs = [output]) (hvec2 : output.socket ≠ .vec2) :
    Yields loose narrowed output.socket t := by
  refine walk_induction (P := fun _ pin t => ∀ node output, net.node? pin.node = some node →
    node.kind.outputs = [output] → output.socket ≠ .vec2 →
      Yields loose narrowed output.socket t) ?_ h node output hnode houtput hvec2
  intro path id node t hnode hp htree hfed node' output hnode' houtput hvec2
  obtain rfl : node = node' := Option.some.inj (hnode.symm.trans hnode')
  refine yields_node hnarrows hnode houtput hvec2 (fun input hinput t' hfeed => ?_)
    (fun hcode source hkind input hinput fed hfeed => ?_) htree
  · simp only [walkInput] at hfeed
    cases hedge : net.feeding? ⟨id, input.key⟩ with
    | none => rw [hedge] at hfeed; cases hfeed
    | some edge =>
      rw [hedge] at hfeed
      obtain ⟨source, output', -, hsource, houtputs, hfeeds⟩ := hwell.fed hnode hinput hedge
      have hyields := hfed input.key edge t' hedge hfeed source output' hsource houtputs
        (Socket.ne_vec2_of_feeds hfeeds (NodeKind.input_ne_vec2 hinput))
      exact hyields.feeds hfeeds
  · obtain ⟨edge, source, output', hedge, hsource, houtput', hfloat⟩ :=
      hcode id node _ hnode hkind input hinput
    simp only [walkInput, hedge] at hfeed
    obtain ⟨source', output'', hout, hsource', houtputs, -⟩ := hwell.fed hnode hinput hedge
    obtain rfl : source = source' := Option.some.inj (hsource.symm.trans hsource')
    obtain rfl : output' = output'' := by
      simpa using (NodeKind.outputs_of_output? houtput').2.symm.trans houtputs
    obtain ⟨t', rfl⟩ := exists_tree_of_walk hout hsource houtputs hfeed
    have hyields := hfed input.key edge t' hedge hfeed source output' hsource houtputs
      (by rw [hfloat]; exact Socket.noConfusion)
    exact ⟨t', rfl, hyields.scalar hfloat⟩

end Network

theorem Snapshot.yields_channelValue {snapshot : Snapshot} (hwell : snapshot.network.WellConnected)
    {loose narrowed : Tree → Prop} (hnarrows : snapshot.network.Narrows loose narrowed) {defaults : MaterialDefaults}
    {channel : Channel} {result : ChannelValue}
    (h : snapshot.channelValue defaults channel = .ok result) :
    Network.Yields loose narrowed channel.socket result.tree := by
  have hvec2 : channel.socket ≠ .vec2 := by cases channel <;> decide
  have htree := tree_of_channelValue hwell h
  cases hedge : snapshot.feeding? channel with
  | none =>
    simp only [hedge] at htree
    rw [htree]
    refine Network.yields_literal ?_ hvec2
    cases channel <;> rfl
  | some edge =>
    simp only [hedge] at htree
    obtain ⟨source, output, hsource, houtputs, hfeeds, hwalk⟩ := htree
    have hyields := Network.yields_walk hwell hnarrows hwalk hsource houtputs
      (Socket.ne_vec2_of_feeds hfeeds hvec2)
    exact hyields.feeds hfeeds

end ShaderGraph
