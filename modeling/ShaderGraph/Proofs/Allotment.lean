import ShaderGraph.Proofs.Operands

/-
What the expressions of a resolution are for.

Beside the table of a resolution stands a list that tells for each entry what it was made
for (`Use`): to be the answer of an output pin, to fill an input pin that no node supplies,
to be the value of a channel, or to be part of another expression. The list is no part of the
resolution. Since an entry has one use, what is made for different pins is different.

A resolution is `Allotted` by such a list if what it keeps for an output pin was made for that
pin, and has, at each input pin of the node, what the node that supplies the pin keeps, or a
literal that was made to fill the pin (`Network.KeptAs`). `Allots net state uses x Q` says that
the step `x`, run in `state`, keeps this under a longer list, also if it fails, and that `Q`
holds of what it answers. Marking and remembering a pin is the only step that adds an answer
(`allots_kept`), so the walk to a pin allots (`allots_resolveOutputWithin`, by induction on its
depth), and so does a channel (`allots_resolveChannel`).
-/
namespace ShaderGraph

/-! ## Operands -/

namespace Expressions

variable {table larger : Expressions} {kind : NodeKind} {key : PinKey} {e operand operand' : ExprId}

theorem Operand.mono (h : ∀ (id : ExprId) e, table.exprs[id]? = some e → larger.exprs[id]? = some e)
    (hoperand : table.Operand kind key e operand) : larger.Operand kind key e operand := by
  cases hoperand with
  | math hentry hop hplace hget => exact .math (h _ _ hentry) hop hplace hget
  | primary hblend hcall => exact .primary (h _ _ hblend) (h _ _ hcall)
  | secondary hblend hcall => exact .secondary (h _ _ hblend) (h _ _ hcall)

theorem Operand.unique (h : table.Operand kind key e operand)
    (h' : table.Operand kind key e operand') : operand = operand' := by
  cases h with
  | math hentry _ hplace hget =>
    cases h' with
    | math hentry' _ hplace' hget' =>
      obtain rfl := Expr.apply.inj (Option.some.inj (hentry.symm.trans hentry'))
      obtain rfl := Option.some.inj (hplace.symm.trans hplace')
      exact Option.some.inj (hget.symm.trans hget')
  | primary hblend _ =>
    cases h' with
    | primary hblend' _ =>
      have happly := Expr.apply.inj (Option.some.inj (hblend.symm.trans hblend'))
      exact (Application.ternary.inj happly).2.1
  | secondary hblend _ =>
    cases h' with
    | secondary hblend' _ =>
      have happly := Expr.apply.inj (Option.some.inj (hblend.symm.trans hblend'))
      exact (Application.ternary.inj happly).2.2.1

end Expressions

/-! ## Uses -/

/-- What an expression is made for. A channel is told by the number of the query for it. -/
inductive Use where
  | answer (pin : Endpoint)
  | filling (pin : Endpoint)
  | channel (query : Nat)
  | part
  deriving DecidableEq, Repr

/-- The expression is kept for the `out` pin of a node. -/
def Resolution.Keeps (state : Resolution) (id : NodeId) (e : ExprId) : Prop :=
  state.cached? ⟨id, .out⟩ = some (some e)

namespace Network

open Resolution (Extends)

/-- The node whose expression an output pin yields: the pin is the `out` pin of a node that is
there and ends no channel. -/
def source? (net : Network) (pin : Endpoint) : Option NodeId :=
  match net.node? pin.node with
  | some node => if pin.pin = .out ∧ node.channel? = none then some pin.node else none
  | none => none

/-- The node whose expression comes in at an input pin. -/
def supplier? (net : Network) (pin : Endpoint) : Option NodeId :=
  (net.feeding? pin).bind fun edge => net.source? edge.source

/-- The answer is the expression that is kept for the node, or nothing if there is no node. -/
def Delivers (state : Resolution) (source : Option NodeId) (answer : Option ExprId) : Prop :=
  match source with
  | some id => ∃ e, answer = some e ∧ state.Keeps id e
  | none => answer = none

/-- The operand is the expression that is kept for the node, or, if there is no node, a literal
that was made for the use. -/
def Places (state : Resolution) (uses : List Use) (source : Option NodeId) (use : Use)
    (operand : ExprId) : Prop :=
  match source with
  | some id => state.Keeps id operand
  | none => uses[operand]? = some use ∧
      ∃ value, state.expressions.exprs[operand]? = some (.literal value)

/-- What is kept for an output pin: nothing if it yields nothing, else an expression that was
made for it, over operands each of which has its place. -/
inductive KeptAs (net : Network) (state : Resolution) (uses : List Use) (pin : Endpoint) :
    Option ExprId → Prop
  | nothing (hsource : net.source? pin = none) : KeptAs net state uses pin none
  | expression {node : Node} {e : ExprId} (hsource : net.source? pin = some pin.node)
      (hnode : net.node? pin.node = some node) (huse : uses[e]? = some (.answer pin))
      (hoperands : ∀ input ∈ node.kind.inputs, ∃ operand,
        Places state uses (net.supplier? ⟨pin.node, input.key⟩) (.filling ⟨pin.node, input.key⟩)
          operand ∧ state.expressions.Operand node.kind input.key e operand) :
      KeptAs net state uses pin (some e)

/-- Each entry has a use, each answer is kept as it should be, and pins under way have no
answer. -/
structure Allotted (net : Network) (state : Resolution) (uses : List Use) : Prop where
  length : uses.length = state.expressions.exprs.size
  kept : ∀ pin answer, state.cached? pin = some answer → net.KeptAs state uses pin answer
  clear : state.Clear state.inProgress

/-- The later resolution has what the earlier one has, with the same uses. -/
structure Grown (state : Resolution) (uses : List Use) (later : Resolution) (uses' : List Use) :
    Prop where
  keeps : state.Extends later
  uses : ∀ (id : ExprId) use, uses[id]? = some use → uses'[id]? = some use

variable {net : Network} {state later latest : Resolution} {uses uses' uses'' : List Use}

theorem allotted_start (net : Network) : net.Allotted .start [] :=
  ⟨rfl, fun _ _ h => (nomatch h), fun _ h => (nomatch h)⟩

theorem source?_eq {pin : Endpoint} {id : NodeId} (h : net.source? pin = some id) :
    pin = ⟨id, .out⟩ := by
  unfold source? at h
  split at h
  · split at h
    · next hout =>
      obtain rfl := Option.some.inj h
      exact congrArg (Endpoint.mk pin.node) hout.1
    · cases h
  · cases h

theorem source?_out {id : NodeId} {node : Node} (hnode : net.node? id = some node) :
    net.source? ⟨id, .out⟩ = if node.channel? = none then some id else none := by
  simp only [source?, hnode, true_and]

/-! ## What stays -/

namespace Grown

theorem refl (state : Resolution) (uses : List Use) : Grown state uses state uses :=
  ⟨.refl state, fun _ _ h => h⟩

theorem trans (h : Grown state uses later uses') (h' : Grown later uses' latest uses'') :
    Grown state uses latest uses'' :=
  ⟨h.keeps.trans h'.keeps, fun id use huse => h'.uses id use (h.uses id use huse)⟩

theorem of_extends (h : state.Extends later) (uses : List Use) : Grown state uses later uses :=
  ⟨h, fun _ _ huse => huse⟩

theorem of_unchanged (hexprs : later.expressions.exprs = state.expressions.exprs)
    (hresolved : later.resolved = state.resolved) (uses : List Use) :
    Grown state uses later uses := by
  refine of_extends ⟨fun id e he => ?_, fun pin answer ha => ?_⟩ uses
  · rw [hexprs, he]
  · rw [Resolution.cached?, hresolved]
    exact ha

end Grown

theorem Delivers.mono (h : state.Extends later) {source : Option NodeId} {answer : Option ExprId}
    (hdelivers : Delivers state source answer) : Delivers later source answer := by
  cases source with
  | none => exact hdelivers
  | some id =>
    obtain ⟨e, he, hkept⟩ := hdelivers
    exact ⟨e, he, h.resolved _ _ hkept⟩

theorem Places.mono (h : Grown state uses later uses') {source : Option NodeId} {use : Use}
    {operand : ExprId} (hplaces : Places state uses source use operand) :
    Places later uses' source use operand := by
  cases source with
  | none =>
    obtain ⟨huse, value, hentry⟩ := hplaces
    exact ⟨h.uses _ _ huse, value, h.keeps.exprs _ _ hentry⟩
  | some id => exact h.keeps.resolved _ _ hplaces

theorem KeptAs.mono (h : Grown state uses later uses') {pin : Endpoint} {answer : Option ExprId}
    (hkept : net.KeptAs state uses pin answer) : net.KeptAs later uses' pin answer := by
  cases hkept with
  | nothing hsource => exact .nothing hsource
  | expression hsource hnode huse hoperands =>
    refine .expression hsource hnode (h.uses _ _ huse) fun input hinput => ?_
    obtain ⟨operand, hplaces, hoperand⟩ := hoperands input hinput
    exact ⟨operand, hplaces.mono h, hoperand.mono h.keeps.exprs⟩

theorem Allotted.of_grown (hs : net.Allotted state uses) (h : Grown state uses later uses')
    (hlength : uses'.length = later.expressions.exprs.size)
    (hresolved : later.resolved = state.resolved) (hclear : later.Clear later.inProgress) :
    net.Allotted later uses' := by
  refine ⟨hlength, fun pin answer hanswer => ?_, hclear⟩
  rw [Resolution.cached?, hresolved] at hanswer
  exact (hs.kept pin answer hanswer).mono h

/-- What is kept for a pin is what the pin yields. -/
theorem KeptAs.delivers {pin : Endpoint} {answer : Option ExprId}
    (h : net.KeptAs state uses pin answer) (hcached : state.cached? pin = some answer) :
    Delivers state (net.source? pin) answer := by
  cases h with
  | nothing hsource =>
    rw [hsource]
    rfl
  | @expression node e hsource _ _ _ =>
    rw [hsource]
    refine ⟨e, rfl, ?_⟩
    rw [Resolution.Keeps, ← source?_eq hsource, hcached]

theorem Delivers.keeps {source : Option NodeId} {e : ExprId}
    (h : Delivers state source (some e)) : ∃ id, state.Keeps id e := by
  cases source with
  | none => cases h
  | some id =>
    obtain ⟨e', he, hkeeps⟩ := h
    obtain rfl := Option.some.inj he
    exact ⟨id, hkeeps⟩

/-- What has its place and is the expression of no node was made for the use. -/
theorem Places.use {source : Option NodeId} {use : Use} {operand : ExprId}
    (h : Places state uses source use operand) (hnot : ∀ id, ¬ state.Keeps id operand) :
    uses[operand]? = some use := by
  cases source with
  | none => exact h.1
  | some id => exact absurd h (hnot id)

/-! ## Steps -/

/-- Run in `state`, the step `x` adds entries with uses, it keeps the answers and the marks as
they should be, and `Q` holds of what it answers. -/
inductive Allots (net : Network) (state : Resolution) (uses : List Use) {α : Type}
    (x : Resolve α) (Q : Resolution → List Use → α → Prop) : Prop
  | of_run {result : Except Halt α} {later : Resolution} {uses' : List Use}
      (hrun : x state = (result, later)) (hgrown : Grown state uses later uses')
      (hmarks : later.inProgress = state.inProgress) (hallotted : net.Allotted later uses')
      (hanswers : ∀ a, result = .ok a → Q later uses' a) : Allots net state uses x Q

namespace Allots

variable {α β : Type} {Q : Resolution → List Use → α → Prop} {P : Resolution → List Use → β → Prop}

theorem congr {x x' : Resolve α} (h : x state = x' state) (hx : Allots net state uses x' Q) :
    Allots net state uses x Q := by
  obtain ⟨hrun, hgrown, hmarks, hallotted, hanswers⟩ := hx
  exact .of_run (h.trans hrun) hgrown hmarks hallotted hanswers

theorem pure {a : α} (hs : net.Allotted state uses) (h : Q state uses a) :
    Allots net state uses (Resolve.pure a) Q := by
  refine .of_run rfl (.refl state uses) rfl hs fun a' ha => ?_
  obtain rfl : a = a' := Except.ok.inj ha
  exact h

theorem halt (hs : net.Allotted state uses) (reason : Halt) :
    Allots net state uses (Resolve.halt reason : Resolve α) Q :=
  .of_run rfl (.refl state uses) rfl hs fun _ h => nomatch h

theorem bind {x : Resolve α} {f : α → Resolve β} (hx : Allots net state uses x Q)
    (hf : ∀ a later uses', Grown state uses later uses' → net.Allotted later uses' →
      Q later uses' a → Allots net later uses' (f a) P) :
    Allots net state uses (Resolve.bind x f) P := by
  obtain @⟨result, later, uses', hrun, hgrown, hmarks, hallotted, hanswers⟩ := hx
  cases result with
  | error reason =>
    have hbind : Resolve.bind x f state = (.error reason, later) := by
      simp only [Resolve.bind, hrun]
    refine .of_run hbind hgrown hmarks hallotted fun b hb => ?_
    cases hb
  | ok a =>
    have hbind : Resolve.bind x f state = f a later := by simp only [Resolve.bind, hrun]
    obtain ⟨hrun', hgrown', hmarks', hallotted', hanswers'⟩ :=
      hf a later uses' hgrown hallotted (hanswers a rfl)
    exact .of_run (hbind.trans hrun') (hgrown.trans hgrown') (hmarks'.trans hmarks) hallotted'
      hanswers'

theorem imp {P : Resolution → List Use → α → Prop} {x : Resolve α}
    (hx : Allots net state uses x Q) (h : ∀ later uses' a, Q later uses' a → P later uses' a) :
    Allots net state uses x P := by
  obtain ⟨hrun, hgrown, hmarks, hallotted, hanswers⟩ := hx
  exact .of_run hrun hgrown hmarks hallotted fun a ha => h _ _ a (hanswers a ha)

theorem make (hs : net.Allotted state uses) (e : Expr) (use : Use) :
    Allots net state uses (Resolve.make e) fun later uses' id =>
      later.expressions.exprs[id]? = some e ∧ uses'[id]? = some use := by
  have hgrown : Grown state uses (Resolve.make e state).2 (uses ++ [use]) := by
    refine ⟨⟨Expressions.exprs_add state.expressions e, fun _ _ h => h⟩, fun id use' h => ?_⟩
    rw [List.getElem?_append_left (List.getElem?_eq_some_iff.mp h).1, h]
  have hlength : (uses ++ [use]).length = (state.expressions.add e).2.exprs.size := by
    rw [List.length_append, hs.length]
    exact (Array.size_push e).symm
  refine .of_run rfl hgrown rfl (hs.of_grown hgrown hlength rfl hs.clear) fun id hid => ?_
  obtain rfl : (state.expressions.add e).1 = id := Except.ok.inj hid
  constructor
  · show (state.expressions.add e).2.exprs[(state.expressions.add e).1]? = some e
    simp [Expressions.add]
  · show (uses ++ [use])[state.expressions.exprs.size]? = some use
    rw [← hs.length, List.getElem?_concat_length]

theorem makeFunction (hs : net.Allotted state uses) (f : CodeFunction) :
    Allots net state uses (Resolve.makeFunction f) fun _ _ _ => True := by
  have hgrown : Grown state uses (Resolve.makeFunction f state).2 uses :=
    .of_unchanged (by rfl) (by rfl) uses
  exact .of_run rfl hgrown rfl (hs.of_grown hgrown hs.length rfl hs.clear) fun _ _ => trivial

theorem report (hs : net.Allotted state uses) (message : String) :
    Allots net state uses (Resolve.report message) fun _ _ _ => True := by
  have hgrown : Grown state uses (Resolve.report message state).2 uses :=
    .of_unchanged (by rfl) (by rfl) uses
  exact .of_run rfl hgrown rfl (hs.of_grown hgrown hs.length rfl hs.clear) fun _ _ => trivial

theorem literal (hs : net.Allotted state uses) (value : Literal) (use : Use) :
    Allots net state uses (Resolve.make (.literal value)) fun later uses' operand =>
      Places later uses' none use operand :=
  (make hs (.literal value) use).imp fun _ _ _ ⟨hentry, huse⟩ => ⟨huse, value, hentry⟩

/-- What is delivered is taken; for nothing a literal is made. -/
theorem orLiteral (hs : net.Allotted state uses) {source : Option NodeId}
    {answer : Option ExprId} (hdelivers : Delivers state source answer) (fallback : Literal)
    (use : Use) : Allots net state uses (orLiteral answer fallback) fun later uses' operand =>
      Places later uses' source use operand := by
  cases source with
  | none =>
    obtain rfl : answer = none := hdelivers
    exact literal hs fallback use
  | some id =>
    obtain ⟨e, rfl, hkept⟩ := hdelivers
    exact .pure hs hkept

theorem mapM {ι : Type} {f : ι → Resolve ExprId}
    {R : Resolution → List Use → ι → ExprId → Prop} {application : Application ι}
    (hs : net.Allotted state uses)
    (hmono : ∀ {earlier later : Resolution} {uses uses' : List Use} i operand,
      Grown earlier uses later uses' → R earlier uses i operand → R later uses' i operand)
    (h : ∀ i later uses', net.Allotted later uses' →
      Allots net later uses' (f i) fun latest uses'' => R latest uses'' i) :
    Allots net state uses (application.mapM f) fun later uses' ids =>
      ids.op = application.op ∧
        List.Forall₂ (R later uses') application.operands ids.operands := by
  -- What holds of an operand is kept while the others are made.
  cases application with
  | unary op x =>
    refine (h x state uses hs).bind fun a s₁ u₁ _ hs ha => .pure hs ⟨rfl, ?_⟩
    exact .cons ha .nil
  | binary op x y =>
    refine (h x state uses hs).bind fun a s₁ u₁ _ hs ha => ?_
    refine (h y s₁ u₁ hs).bind fun b s₂ u₂ h₂ hs hb => .pure hs ⟨rfl, ?_⟩
    exact .cons (hmono x a h₂ ha) (.cons hb .nil)
  | ternary op x y z =>
    refine (h x state uses hs).bind fun a s₁ u₁ _ hs ha => ?_
    refine (h y s₁ u₁ hs).bind fun b s₂ u₂ h₂ hs hb => ?_
    refine (h z s₂ u₂ hs).bind fun c s₃ u₃ h₃ hs hc => .pure hs ⟨rfl, ?_⟩
    exact .cons (hmono x a (h₂.trans h₃) ha) (.cons (hmono y b h₃ hb) (.cons hc .nil))

end Allots

/-! ## Nodes -/

theorem allots_input (hs : net.Allotted state uses) (type : InputType) (value : Option Literal)
    (color : Option String) (use : Use) :
    Allots net state uses (type.resolve value color) fun _ uses' e => uses'[e]? = some use := by
  cases type with
  | viewDirection =>
    simp only [InputType.resolve]
    refine (Allots.make hs _ .part).bind fun camera _ _ _ hs _ => ?_
    refine (Allots.make hs _ .part).bind fun position _ _ _ hs _ => ?_
    refine (Allots.make hs _ .part).bind fun towardsCamera _ _ _ hs _ => ?_
    exact (Allots.make hs _ use).imp fun _ _ _ h => h.2
  | _ => exact (Allots.make hs _ use).imp fun _ _ _ h => h.2

/-- The blend of a code node, over operands that have their places. -/
theorem allots_blend (hs : net.Allotted state uses) {id : NodeId} {node : Node} {source : String}
    {socket : Socket} (hnode : net.node? id = some node) (hkind : node.kind = .code source socket)
    {primary secondary : ExprId}
    (hprimary : Places state uses (net.supplier? ⟨id, .primary⟩) (.filling ⟨id, .primary⟩) primary)
    (hsecondary : Places state uses (net.supplier? ⟨id, .secondary⟩) (.filling ⟨id, .secondary⟩)
      secondary) (function : CodeFunction) :
    Allots net state uses (do
      let f ← Resolve.makeFunction function
      let uv ← Resolve.make (.builtin .uv)
      let factor ← Resolve.make (.call f primary secondary uv)
      some <$> Resolve.make (.apply (.ternary .mix primary secondary factor)))
      fun later uses' answer => net.KeptAs later uses' ⟨id, .out⟩ answer := by
  refine (Allots.makeFunction hs function).bind fun f s₁ u₁ h₁ hs _ => ?_
  refine (Allots.make hs _ .part).bind fun uv s₂ u₂ h₂ hs _ => ?_
  refine (Allots.make hs _ .part).bind fun factor s₃ u₃ h₃ hs hcall => ?_
  refine (Allots.make hs _ (.answer ⟨id, .out⟩)).bind fun e s₄ u₄ h₄ hs hblend => .pure hs ?_
  have hgrown := ((h₁.trans h₂).trans h₃).trans h₄
  have hcall' := h₄.keeps.exprs _ _ hcall.1
  have hsource : net.source? ⟨id, .out⟩ = some id := by
    rw [source?_out hnode, Node.channel?, hkind]
    rfl
  refine .expression hsource hnode hblend.2 fun input hinput => ?_
  rw [hkind] at hinput ⊢
  -- A code node has two inputs, and each of them stands both in the blend and in the call.
  simp only [NodeKind.inputs, codeInputs, List.mem_cons, List.not_mem_nil, or_false] at hinput
  rcases hinput with rfl | rfl
  · exact ⟨primary, hprimary.mono hgrown, .primary hblend.1 hcall'⟩
  · exact ⟨secondary, hsecondary.mono hgrown, .secondary hblend.1 hcall'⟩

theorem allots_node (hs : net.Allotted state uses) {id : NodeId} {node : Node}
    (hnode : net.node? id = some node) {feed : PinKey → Resolve (Option ExprId)}
    (hfeed : ∀ key later uses', net.Allotted later uses' →
      Allots net later uses' (feed key) fun latest _ answer =>
        Delivers latest (net.supplier? ⟨id, key⟩) answer) :
    Allots net state uses (node.resolve feed) fun later uses' answer =>
      net.KeptAs later uses' ⟨id, .out⟩ answer := by
  have hsource := source?_out hnode
  simp only [Node.resolve]
  cases hkind : node.kind with
  | input type value color =>
    rw [Node.channel?, hkind] at hsource
    have hinput : ∀ value, Allots net state uses (some <$> type.resolve value color)
        fun later uses' answer => net.KeptAs later uses' ⟨id, .out⟩ answer := by
      intro value
      refine (allots_input hs type value color (.answer ⟨id, .out⟩)).bind
        fun e _ _ _ hs huse => .pure hs ?_
      refine .expression hsource hnode huse fun input hmem => ?_
      rw [hkind] at hmem
      cases hmem
    cases value with
    | none => exact hinput none
    | some literal =>
      by_cases hf : literal.isFinite = true
      · simp only [hf, if_true]
        exact hinput (some literal)
      · simp only [hf, Bool.false_eq_true, if_false]
        exact .halt hs _
  | math type =>
    rw [Node.channel?, hkind] at hsource
    refine (Allots.mapM (R := fun later uses' pin operand => Places later uses'
      (net.supplier? ⟨id, pin.key⟩) (.filling ⟨id, pin.key⟩) operand) hs ?_ ?_).bind
      fun application s₁ u₁ _ hs hoperands => ?_
    · intro earlier later uses uses' pin operand h hplaces
      exact hplaces.mono h
    · intro pin later uses' hs
      refine (hfeed pin.key later uses' hs).bind fun answer _ _ _ hs hdelivers => ?_
      exact .orLiteral hs hdelivers _ _
    · refine (Allots.make hs _ (.answer ⟨id, .out⟩)).bind fun e s₂ u₂ h₂ hs hentry => .pure hs ?_
      refine .expression hsource hnode hentry.2 fun input hinput => ?_
      rw [hkind] at hinput ⊢
      obtain ⟨operand, hplaces, hoperand⟩ :=
        Expressions.exists_operand hentry.1 hoperands.1 hoperands.2 hinput
      exact ⟨operand, hplaces.mono h₂, hoperand⟩
  | output channel =>
    rw [Node.channel?, hkind] at hsource
    exact .pure hs (.nothing hsource)
  | code source socket =>
    refine (hfeed .primary state uses hs).bind fun answer s₁ u₁ _ hs hdelivers => ?_
    refine (Allots.orLiteral hs hdelivers _ (.filling ⟨id, .primary⟩)).bind
      fun primary s₂ u₂ _ hs hprimary => ?_
    refine (hfeed .secondary s₂ u₂ hs).bind fun answer s₃ u₃ h₃ hs hdelivers => ?_
    refine (Allots.orLiteral hs hdelivers _ (.filling ⟨id, .secondary⟩)).bind
      fun secondary s₄ u₄ h₄ hs hsecondary => ?_
    cases CodeFunction.make (CodeFunction.nameOfNode node.id) source with
    | error error => exact .halt hs _
    | ok function =>
      exact allots_blend hs hnode hkind (hprimary.mono (h₃.trans h₄)) hsecondary function

/-! ## Pins -/

/-- A pin of a node that is there, resolved while it is marked and remembered
afterwards. -/
theorem allots_kept (hs : net.Allotted state uses) {pin : Endpoint}
    (hnew : state.cached? pin = none) (hpin : pin ∉ state.inProgress)
    {x : Resolve (Option ExprId)}
    (hx : net.Allotted (state.marking pin) uses → Allots net (state.marking pin) uses x
      fun later uses' answer => net.KeptAs later uses' pin answer) :
    Allots net state uses (do
      let answer ← Resolve.marked pin x
      Resolve.remember pin answer
      pure answer) fun later _ answer => Delivers later (net.source? pin) answer := by
  have hmark : Grown state uses (state.marking pin) uses :=
    .of_unchanged (by rfl) (by rfl) uses
  obtain @⟨result, after, uses', hrun, hgrown, hunder, hallotted, hanswers⟩ :=
    hx (hs.of_grown hmark hs.length rfl (hs.clear.marking hnew))
  have hkept := run_kept pin x state
  rw [hrun] at hkept
  -- The pin is marked until the step is done, so that it has no answer up to there.
  obtain ⟨hmarks, hafter, hclear⟩ := hallotted.clear.of_marked hunder
  cases result with
  | error reason =>
    have hunmark : Grown after uses' (after.unmarking pin) uses' :=
      .of_unchanged (by rfl) (by rfl) uses'
    refine .of_run hkept ((hmark.trans hgrown).trans hunmark) hmarks
      (hallotted.of_grown hunmark hallotted.length rfl ?_) fun _ h => nomatch h
    show after.Clear (after.inProgress.erase pin)
    rw [hmarks]
    exact hclear
  | ok answer =>
    have hextends : after.Extends (after.remembering pin answer) :=
      ⟨fun _ _ h => h, Resolution.remembers_remembering hafter answer⟩
    have hremember : Grown after uses' (after.remembering pin answer) uses' :=
      .of_extends hextends uses'
    have hcached : (after.remembering pin answer).cached? pin = some answer := by
      rw [Resolution.cached?_remembering, if_pos rfl]
    have hnewly : net.KeptAs (after.remembering pin answer) uses' pin answer :=
      (hanswers answer rfl).mono hremember
    refine .of_run hkept ((hmark.trans hgrown).trans hremember) hmarks
      ⟨hallotted.length, fun pin' answer' h => ?_, ?_⟩ fun answer' h => ?_
    · rw [Resolution.cached?_remembering] at h
      split at h
      · next hsame =>
        obtain rfl : answer = answer' := Option.some.inj h
        subst hsame
        exact hnewly
      · exact (hallotted.kept pin' answer' h).mono hremember
    · show (after.remembering pin answer).Clear (after.inProgress.erase pin)
      rw [hmarks]
      exact hclear.remembering hpin answer
    · obtain rfl := Except.ok.inj h
      exact hnewly.delivers hcached

/-- **The walk to a pin allots**, and the pin yields what is kept for its node. -/
theorem allots_resolveOutputWithin (net : Network) (depth : Nat) (pin : Endpoint)
    (state : Resolution) (uses : List Use) (hs : net.Allotted state uses) :
    Allots net state uses (net.resolveOutputWithin depth pin) fun later _ answer =>
      Delivers later (net.source? pin) answer := by
  induction depth generalizing pin state uses with
  | zero => exact .halt hs _
  | succ depth ih =>
    cases hcached : state.cached? pin with
    | some answer =>
      refine .congr ?_ (.pure hs ((hs.kept pin answer hcached).delivers hcached))
      simp only [resolveOutputWithin, hcached, Resolve.pure]
    | none =>
      cases hnode : net.node? pin.node with
      | none =>
        refine .congr ?_ (.pure (a := none) hs ?_)
        · simp only [resolveOutputWithin, hcached, hnode, Resolve.pure]
        · rw [source?, hnode]
          rfl
      | some node =>
        by_cases hpin : pin ∈ state.inProgress
        · refine .congr ?_ (.halt hs (.failed (.cycle pin)))
          simp only [resolveOutputWithin, hcached, hnode, hpin, if_true, Resolve.halt]
        · refine .congr (by simp only [resolveOutputWithin, hcached, hnode, hpin, if_false]; rfl)
            (allots_kept hs hcached hpin fun hmarked => ?_)
          obtain ⟨id, key⟩ := pin
          by_cases hout : key = .out
          · subst hout
            simp only [if_true]
            refine allots_node hmarked hnode fun key later uses' hs => ?_
            unfold supplier?
            cases net.feeding? ⟨id, key⟩ with
            | none => exact .pure hs rfl
            | some edge => exact ih edge.source later uses' hs
          · simp only [hout, if_false]
            refine .pure hmarked (.nothing ?_)
            simp only [source?, hnode, hout, false_and, if_false]

theorem allots_resolveInput (hs : net.Allotted state uses) (pin : Endpoint) :
    Allots net state uses (net.resolveInput pin) fun later _ answer =>
      Delivers later (net.supplier? pin) answer := by
  unfold resolveInput supplier?
  cases net.feeding? pin with
  | none => exact .pure hs rfl
  | some edge =>
    exact allots_resolveOutputWithin net net.depthBound edge.source state uses hs

/-! ## Channels -/

def channelSupplier? (net : Network) (channel : Channel) : Option NodeId :=
  (net.output? channel).bind fun node => net.supplier? ⟨node.id, .input⟩

/-- **A channel allots**: it takes what comes in at its output node, or a literal of its own. -/
theorem allots_resolveChannel (hs : net.Allotted state uses) (channel : Channel) (socket : Socket)
    (fallback : Literal) (query : Nat) :
    Allots net state uses (net.resolveChannel channel socket fallback) fun later uses' e =>
      Places later uses' (net.channelSupplier? channel) (.channel query) e := by
  unfold resolveChannel channelSupplier?
  cases net.output? channel with
  | none => exact .literal hs _ _
  | some node =>
    refine (allots_resolveInput hs ⟨node.id, .input⟩).bind fun answer s₁ u₁ _ hs hdelivers => ?_
    rw [Option.bind_some]
    generalize net.supplier? ⟨node.id, .input⟩ = source at hdelivers ⊢
    cases source with
    | some id =>
      obtain ⟨e, rfl, hkept⟩ := hdelivers
      exact .pure hs hkept
    | none =>
      obtain rfl : answer = none := hdelivers
      exact (Allots.report hs _).bind fun _ _ _ _ hs _ => .literal hs _ _

end Network

end ShaderGraph
