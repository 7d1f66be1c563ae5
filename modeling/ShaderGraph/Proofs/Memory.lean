import ShaderGraph.Proofs.Walk

/-
A resolution that remembers answers like the walk that does not.

`Mirrors net state x y R`: run in `state`, the step `x` does what the walk `y`
does from the pins that are under way. If it answers, then `R` relates the answer
to what `y` finds, and `y` finds that from every path that is clear of remembered
pins; if it fails, `y` fails for the same reason; and it never runs into its depth
bound. What is remembered stays, and no pin stays marked.

The invariant (`Sound`) is that every remembered answer is settled, so that the
walk finds it from every clear path, and that no pin under way is remembered. A
pin becomes remembered when the walk from it is done, and all that it walked to is
then remembered or not there (`mirrors_resolveOutputWithin`). A failure keeps what
was answered before it, which is settled already; so neither queries nor failures
change what a later query answers (`queries_agree`).
-/
namespace ShaderGraph

namespace Resolution

def Clear (state : Resolution) (path : List Endpoint) : Prop :=
  ∀ pin ∈ path, state.cached? pin = none

def Remembers (state later : Resolution) : Prop :=
  ∀ pin answer, state.cached? pin = some answer → later.cached? pin = some answer

theorem Remembers.clear {state later : Resolution} (h : state.Remembers later)
    {path : List Endpoint} (hc : later.Clear path) : state.Clear path := by
  intro pin hp
  cases ha : state.cached? pin with
  | none => rfl
  | some answer =>
    have hl := h pin answer ha
    rw [hc pin hp] at hl
    cases hl

/-- What a step may do to a resolution: add expressions and answers. -/
structure Later (state later : Resolution) : Prop where
  expressions : state.expressions.Grows later.expressions
  resolved : state.Remembers later
  inProgress : later.inProgress = state.inProgress

namespace Later

variable {state later latest : Resolution}

theorem refl (state : Resolution) : Later state state :=
  ⟨.refl _, fun _ _ h => h, rfl⟩

theorem trans (h : Later state later) (h' : Later later latest) : Later state latest :=
  ⟨h.expressions.trans h'.expressions, fun pin a ha => h'.resolved pin a (h.resolved pin a ha),
    h'.inProgress.trans h.inProgress⟩

end Later

end Resolution

namespace Network

open Resolution (Clear Later)

/-- From every clear path, the walk finds what the answer reads as. -/
def Settled (net : Network) (state : Resolution) (pin : Endpoint) (answer : Option ExprId) :
    Prop :=
  ∃ tree, state.expressions.Reads answer tree ∧
    ∀ path, state.Clear path → net.walk path pin = .ok tree

/-- Remembered answers are settled, and pins under way have no answer. -/
structure Sound (net : Network) (state : Resolution) : Prop where
  settled : ∀ pin answer, state.cached? pin = some answer → net.Settled state pin answer
  clear : state.Clear state.inProgress

theorem sound_start (net : Network) : net.Sound .start :=
  ⟨fun _ _ h => (nomatch h), fun _ h => (nomatch h)⟩

theorem Settled.mono {net : Network} {state later : Resolution}
    (he : state.expressions.Grows later.expressions) (hr : state.Remembers later)
    {pin : Endpoint} {answer : Option ExprId} (hs : net.Settled state pin answer) :
    net.Settled later pin answer := by
  obtain ⟨tree, ht, hw⟩ := hs
  exact ⟨tree, he.reads ht, fun path hc => hw path (hr.clear hc)⟩

/-- A larger table, or other messages, leave a sound resolution sound. -/
theorem Sound.of_later {net : Network} {state later : Resolution} (hs : net.Sound state)
    (h : state.Later later) (hr : later.resolved = state.resolved) : net.Sound later := by
  refine ⟨fun pin answer ha => ?_, fun pin hp => ?_⟩
  · rw [Resolution.cached?, hr] at ha
    exact (hs.settled pin answer ha).mono h.expressions h.resolved
  · rw [h.inProgress] at hp
    rw [Resolution.cached?, hr]
    exact hs.clear pin hp

/-- Run in `state`, the step `x` does what the walk `y` does. -/
structure Mirrors (net : Network) (state : Resolution) {α β : Type} (x : Resolve α)
    (y : List Endpoint → Except ResolveError β) (R : Expressions → α → β → Prop) : Prop where
  later : state.Later (x state).2
  sound : net.Sound (x state).2
  answers : ∀ a, (x state).1 = .ok a → ∃ b, R (x state).2.expressions a b ∧
    ∀ path, (x state).2.Clear path → y path = .ok b
  fails : ∀ e, (x state).1 = .error (.failed e) → y state.inProgress = .error e
  bounded : (x state).1 ≠ .error .depthExceeded

def ReadsAs (table : Expressions) (id : ExprId) (tree : Tree) : Prop := table.tree? id = some tree

namespace Mirrors

variable {net : Network} {state : Resolution} {α β γ δ : Type}

theorem congr {R : Expressions → α → β → Prop} {x x' : Resolve α}
    {y : List Endpoint → Except ResolveError β} (h : x state = x' state)
    (hx : Mirrors net state x' y R) : Mirrors net state x y R := by
  obtain ⟨hl, hs, ha, he, hb⟩ := hx
  exact ⟨h ▸ hl, h ▸ hs, h ▸ ha, h ▸ he, h ▸ hb⟩

theorem answer {R : Expressions → α → β → Prop} {a : α} {b : β}
    {y : List Endpoint → Except ResolveError β} (hs : net.Sound state)
    (h : R state.expressions a b) (hy : ∀ path, state.Clear path → y path = .ok b) :
    Mirrors net state (Resolve.pure a) y R where
  later := .refl state
  sound := hs
  answers a' ha := by
    obtain rfl : a = a' := Except.ok.inj ha
    exact ⟨b, h, hy⟩
  fails e he := by cases he
  bounded := by simp [Resolve.pure]

theorem pure {R : Expressions → α → β → Prop} {a : α} {b : β} (hs : net.Sound state)
    (h : R state.expressions a b) : Mirrors net state (Resolve.pure a) (fun _ => .ok b) R :=
  answer hs h fun _ _ => rfl

theorem fail {R : Expressions → α → β → Prop} {e : ResolveError}
    {y : List Endpoint → Except ResolveError β} (hs : net.Sound state)
    (hy : y state.inProgress = .error e) :
    Mirrors net state (Resolve.fail e : Resolve α) y R where
  later := .refl state
  sound := hs
  answers a ha := by cases ha
  fails e' he := by
    obtain rfl : e = e' := by simpa [Resolve.fail, Resolve.halt] using he
    exact hy
  bounded := by simp [Resolve.fail, Resolve.halt]

theorem bind {R : Expressions → α → β → Prop} {S : Expressions → γ → δ → Prop}
    {x : Resolve α} {f : α → Resolve γ} {y : List Endpoint → Except ResolveError β}
    {g : β → List Endpoint → Except ResolveError δ} (hx : Mirrors net state x y R)
    (hf : ∀ a b later, state.Later later → net.Sound later → R later.expressions a b →
      Mirrors net later (f a) (g b) S) :
    Mirrors net state (Resolve.bind x f) (fun path => y path >>= fun b => g b path) S := by
  obtain ⟨hl, hs, ha, he, hb⟩ := hx
  cases hr : x state with
  | mk result later =>
    rw [hr] at hl hs ha he hb
    have hrun : Resolve.bind x f state = match result with
        | .ok a => f a later
        | .error halt => (.error halt, later) := by
      simp only [Resolve.bind, hr]
      cases result <;> rfl
    cases result with
    | error halt =>
      cases halt with
      | depthExceeded => exact absurd rfl hb
      | failed e =>
        refine ⟨by rw [hrun]; exact hl, by rw [hrun]; exact hs, fun a h => ?_, fun e' h => ?_, ?_⟩
        · rw [hrun] at h; cases h
        · rw [hrun] at h
          obtain rfl : e = e' := by simpa using h
          rw [he e rfl]; rfl
        · rw [hrun]; simp
    | ok a =>
      -- A path that is clear at the end was clear after the first step, and so is the
      -- path of the pins under way; from both the walk finds what the first step found.
      obtain ⟨b, hR, hy⟩ := ha a rfl
      obtain ⟨hl', hs', ha', he', hb'⟩ := hf a b later hl hs hR
      refine ⟨by rw [hrun]; exact hl.trans hl', by rw [hrun]; exact hs', fun c h => ?_,
        fun e h => ?_, by rw [hrun]; exact hb'⟩
      · rw [hrun] at h ⊢
        obtain ⟨d, hS, hg⟩ := ha' c h
        refine ⟨d, hS, fun path hc => ?_⟩
        rw [hy path (hl'.resolved.clear hc)]
        exact hg path hc
      · rw [hrun] at h
        have hclear : later.Clear state.inProgress := by rw [← hl.inProgress]; exact hs.clear
        rw [hy _ hclear, ← hl.inProgress]
        exact he' e h

theorem next {R : Expressions → α → β → Prop} {S : Expressions → γ → δ → Prop}
    {x : Resolve α} {f : α → Resolve γ} {b : β} {z : List Endpoint → Except ResolveError δ}
    (hx : Mirrors net state x (fun _ => .ok b) R)
    (hf : ∀ a later, state.Later later → net.Sound later → R later.expressions a b →
      Mirrors net later (f a) z S) : Mirrors net state (Resolve.bind x f) z S := by
  -- What the walk finds does not depend on the path, so any path tells it.
  have hx' : Mirrors net state x (fun _ => .ok b) (fun table a b' => R table a b ∧ b' = b) := by
    refine ⟨hx.later, hx.sound, fun a ha => ?_, hx.fails, hx.bounded⟩
    obtain ⟨b', hR, hy⟩ := hx.answers a ha
    obtain rfl : b = b' := Except.ok.inj (hy [] fun _ h => nomatch h)
    exact ⟨b, ⟨hR, rfl⟩, hy⟩
  exact hx'.bind (g := fun _ => z) fun a _ later hl hs h => hf a later hl hs h.1

theorem map {R : Expressions → α → β → Prop} {S : Expressions → γ → δ → Prop} {x : Resolve α}
    {y : List Endpoint → Except ResolveError β} {f : α → γ} {g : β → δ}
    (hx : Mirrors net state x y R) (hf : ∀ table a b, R table a b → S table (f a) (g b)) :
    Mirrors net state (f <$> x) (fun path => y path >>= fun b => .ok (g b)) S :=
  hx.bind fun _ _ _ _ hs h => .pure hs (hf _ _ _ h)

theorem make {e : Expr} {t : Tree} (hs : net.Sound state)
    (h : e.tree? state.expressions.functions state.expressions.tree? = some t) :
    Mirrors net state (Resolve.make e) (fun _ => .ok t) ReadsAs := by
  have hl : state.Later (Resolve.make e state).2 :=
    ⟨Expressions.grows_add h, fun _ _ h => h, rfl⟩
  refine ⟨hl, hs.of_later hl rfl, fun id hid => ?_, fun _ he => (nomatch he), by simp [Resolve.make]⟩
  obtain rfl : (state.expressions.add e).1 = id := Except.ok.inj hid
  exact ⟨t, Expressions.tree?_add h, fun _ _ => rfl⟩

theorem makeFunction {f : CodeFunction} (hs : net.Sound state) :
    Mirrors net state (Resolve.makeFunction f) (fun _ => .ok f)
      (fun table id f => table.functions[id]? = some f) := by
  have hl : state.Later (Resolve.makeFunction f state).2 :=
    ⟨Expressions.grows_addFunction _ f, fun _ _ h => h, rfl⟩
  refine ⟨hl, hs.of_later hl rfl, fun id hid => ?_, fun _ he => (nomatch he),
    by simp [Resolve.makeFunction]⟩
  obtain rfl : (state.expressions.addFunction f).1 = id := Except.ok.inj hid
  exact ⟨f, Expressions.addFunction_get _ f, fun _ _ => rfl⟩

theorem mapM {ι : Type} {f : ι → Resolve ExprId} {g : ι → List Endpoint → Except ResolveError Tree}
    {application : Application ι} (hs : net.Sound state)
    (h : ∀ i later, state.Later later → net.Sound later →
      Mirrors net later (f i) (g i) ReadsAs) :
    Mirrors net state (application.mapM f) (fun path => application.mapM fun i => g i path)
      (fun table ids trees => ids.mapM table.tree? = some trees) := by
  -- What an operand reads as is kept while the others are made.
  cases application with
  | unary op x =>
    refine (h x state (.refl _) hs).bind fun a b later _ hs ha => .pure hs ?_
    simp only [Application.mapM, ReadsAs] at ha ⊢
    simp [ha]
  | binary op x y =>
    show Mirrors net state _ (fun path => g x path >>= fun b => g y path >>= fun b' =>
      .ok (Application.binary op b b')) _
    refine (h x state (.refl _) hs).bind fun a b later hl hs ha => ?_
    refine (h y later hl hs).bind fun a' b' latest hl' hs ha' => .pure hs ?_
    have ha := hl'.expressions.tree?_eq_some ha
    simp only [Application.mapM, ReadsAs] at ha' ⊢
    simp [ha, ha']
  | ternary op x y z =>
    show Mirrors net state _ (fun path => g x path >>= fun b => g y path >>= fun b' =>
      g z path >>= fun b'' => .ok (Application.ternary op b b' b'')) _
    refine (h x state (.refl _) hs).bind fun a b later hl hs ha => ?_
    refine (h y later hl hs).bind fun a' b' latest hl' hs ha' => ?_
    refine (h z latest (hl.trans hl') hs).bind fun a'' b'' last hl'' hs ha'' => .pure hs ?_
    have ha := (hl'.trans hl'').expressions.tree?_eq_some ha
    have ha' := hl''.expressions.tree?_eq_some ha'
    simp only [Application.mapM, ReadsAs] at ha'' ⊢
    simp [ha, ha', ha'']

end Mirrors

/-! ## Nodes -/

section Nodes

variable {net : Network} {state : Resolution}

theorem mirrors_literal (hs : net.Sound state) (value : Literal) :
    Mirrors net state (Resolve.make (.literal value)) (fun _ => .ok (.literal value)) ReadsAs :=
  .make hs rfl

theorem mirrors_builtin (hs : net.Sound state) (value : Builtin) :
    Mirrors net state (Resolve.make (.builtin value)) (fun _ => .ok (.builtin value)) ReadsAs :=
  .make hs rfl

theorem mirrors_orLiteral (hs : net.Sound state) {value : Option ExprId} {tree : Option Tree}
    (h : state.expressions.Reads value tree) (fallback : Literal) :
    Mirrors net state (orLiteral value fallback) (fun _ => .ok (tree.getD (.literal fallback)))
      ReadsAs := by
  cases value with
  | none =>
    cases tree with
    | none => exact mirrors_literal hs fallback
    | some t => cases h
  | some id =>
    cases tree with
    | none => cases h
    | some t => exact .pure hs (Expressions.reads_some.mp h)

theorem mirrors_input (hs : net.Sound state) (type : InputType) (value : Option Literal)
    (color : Option String) :
    Mirrors net state (type.resolve value color) (fun _ => .ok (type.tree value color))
      ReadsAs := by
  cases type with
  | float => exact mirrors_literal hs _
  | vec2 => exact mirrors_literal hs _
  | vec3 => exact mirrors_literal hs _
  | color => exact mirrors_literal hs _
  | time => exact mirrors_builtin hs _
  | uv => exact mirrors_builtin hs _
  | normalWorld => exact mirrors_builtin hs _
  | positionWorld => exact mirrors_builtin hs _
  | viewDirection =>
    simp only [InputType.resolve]
    refine (mirrors_builtin hs .cameraPosition).next fun camera _ _ hs hc => ?_
    refine (mirrors_builtin hs .positionWorld).next fun position _ hl hs hp => ?_
    have hc := hl.expressions.tree?_eq_some hc
    refine (Mirrors.make hs (t := .binary .sub (.builtin .cameraPosition)
      (.builtin .positionWorld)) ?_).next fun towards _ _ hs ht => .make hs ?_
    · simp only [ReadsAs] at hp
      simp [Expr.tree?, Application.mapM, hc, hp, Tree.apply]
    · simp only [ReadsAs] at ht
      simp [Expr.tree?, Application.mapM, ht, Tree.apply, InputType.tree]

theorem mirrors_blend (hs : net.Sound state) {p q : ExprId} {t t' : Tree}
    (hp : ReadsAs state.expressions p t) (hq : ReadsAs state.expressions q t')
    (function : CodeFunction) :
    Mirrors net state (do
      let f ← Resolve.makeFunction function
      let uv ← Resolve.make (.builtin .uv)
      let factor ← Resolve.make (.call f p q uv)
      some <$> Resolve.make (.apply (.ternary .mix p q factor)))
      (fun _ => .ok (some (.ternary .mix t t' (.call function t t' (.builtin .uv)))))
      Expressions.Reads := by
  refine (Mirrors.makeFunction hs).next fun f s₁ h₁ hs hf => ?_
  refine (mirrors_builtin hs .uv).next fun uv s₂ h₂ hs hu => ?_
  have hcall : (Expr.call f p q uv).tree? s₂.expressions.functions s₂.expressions.tree? =
      some (.call function t t' (.builtin .uv)) := by
    have hf := h₂.expressions.functions f function hf
    have hp := (h₁.trans h₂).expressions.tree?_eq_some hp
    have hq := (h₁.trans h₂).expressions.tree?_eq_some hq
    simp only [ReadsAs] at hu
    simp [Expr.tree?, hf, hp, hq, hu]
  refine (Mirrors.make hs hcall).next fun factor s₃ h₃ hs ht => ?_
  have hmix : (Expr.apply (.ternary .mix p q factor)).tree? s₃.expressions.functions
      s₃.expressions.tree? = some (.ternary .mix t t' (.call function t t' (.builtin .uv))) := by
    have hp := ((h₁.trans h₂).trans h₃).expressions.tree?_eq_some hp
    have hq := ((h₁.trans h₂).trans h₃).expressions.tree?_eq_some hq
    simp only [ReadsAs] at ht
    simp [Expr.tree?, Application.mapM, hp, hq, ht, Tree.apply]
  exact (Mirrors.make hs hmix).map fun _ _ _ h => Expressions.reads_some.mpr h

theorem mirrors_node (hs : net.Sound state) (node : Node)
    {feed : PinKey → Resolve (Option ExprId)}
    {walk : PinKey → List Endpoint → Except ResolveError (Option Tree)}
    (hfeed : ∀ key later, state.Later later → net.Sound later →
      Mirrors net later (feed key) (walk key) Expressions.Reads) :
    Mirrors net state (node.resolve feed) (fun path => node.tree fun key => walk key path)
      Expressions.Reads := by
  have hsome : ∀ table id tree, ReadsAs table id tree →
      Expressions.Reads table (some id) (some tree) :=
    fun _ _ _ h => Expressions.reads_some.mpr h
  simp only [Node.resolve, Node.tree]
  cases node.kind with
  | input type value color =>
    cases value with
    | none => exact (mirrors_input hs type none color).map hsome
    | some literal =>
      by_cases hf : literal.isFinite = true
      · simp only [hf, if_true]
        exact (mirrors_input hs type (some literal) color).map hsome
      · simp only [hf, Bool.false_eq_true, if_false]
        exact .fail hs rfl
  | math type =>
    show Mirrors net state _ (fun path => (type.application.mapM fun pin =>
        walk pin.key path >>= fun tree => .ok (tree.getD
          (.literal (pin.socket.unconnected.shapedFor pin.socket)))) >>= fun trees =>
      .ok (some (Tree.apply trees))) _
    refine (Mirrors.mapM hs fun pin later hl hs => ?_).bind fun ids trees later _ hs h => ?_
    · exact (hfeed pin.key later hl hs).bind fun answer tree _ _ hs h =>
        mirrors_orLiteral hs h _
    · refine Mirrors.map (.make hs (t := Tree.apply trees) ?_) hsome
      simp [Expr.tree?, h]
  | output channel => exact .pure hs rfl
  | code source socket =>
    refine (hfeed .primary state (.refl _) hs).bind fun answer tree s₁ h₁ hs h => ?_
    refine (mirrors_orLiteral hs h (.vec3 codePrimary)).next fun p s₂ h₂ hs hp => ?_
    refine (hfeed .secondary s₂ (h₁.trans h₂) hs).bind fun answer' tree' s₃ h₃ hs h => ?_
    refine (mirrors_orLiteral hs h (.vec3 codeSecondary)).next fun q s₄ h₄ hs hq => ?_
    have hp := (h₃.trans h₄).expressions.tree?_eq_some hp
    -- The body is looked at only when both inputs are there.
    cases CodeFunction.make (CodeFunction.nameOfNode node.id) source with
    | error error => exact .fail hs rfl
    | ok function => exact mirrors_blend hs hp hq function

end Nodes

/-! ## Pins -/

end Network

namespace Resolution

def marking (state : Resolution) (pin : Endpoint) : Resolution :=
  { state with inProgress := pin :: state.inProgress }

def unmarking (state : Resolution) (pin : Endpoint) : Resolution :=
  { state with inProgress := state.inProgress.erase pin }

/-- The resolution with the pin no longer under way, and its answer kept. -/
def remembering (state : Resolution) (pin : Endpoint) (answer : Option ExprId) : Resolution :=
  { state.unmarking pin with resolved := (pin, answer) :: state.resolved }

variable {state : Resolution} {pin : Endpoint}

theorem cached?_remembering (state : Resolution) (pin q : Endpoint) (answer : Option ExprId) :
    (state.remembering pin answer).cached? q =
      if q = pin then some answer else state.cached? q := by
  simp only [remembering, unmarking, cached?, List.lookup_cons]
  by_cases h : q = pin
  · rw [if_pos h, beq_iff_eq.mpr h]
  · rw [if_neg h, beq_eq_false_iff_ne.mpr h]

theorem remembers_remembering (hnew : state.cached? pin = none) (answer : Option ExprId) :
    state.Remembers (state.remembering pin answer) := by
  intro q answer' hq
  have hne : q ≠ pin := by
    rintro rfl
    rw [hnew] at hq
    cases hq
  rw [cached?_remembering, if_neg hne, hq]

theorem Clear.marking {path : List Endpoint} (hc : state.Clear path)
    (hnew : state.cached? pin = none) : (state.marking pin).Clear (pin :: path) :=
  List.forall_mem_cons.mpr ⟨hnew, hc⟩

/-- The pin that was marked last has no answer, and once it is done the others are left. -/
theorem Clear.of_marked {rest : List Endpoint} (hc : state.Clear state.inProgress)
    (hmarks : state.inProgress = pin :: rest) :
    state.inProgress.erase pin = rest ∧ state.cached? pin = none ∧ state.Clear rest := by
  rw [hmarks] at hc ⊢
  obtain ⟨hpin, hrest⟩ := List.forall_mem_cons.mp hc
  exact ⟨List.erase_cons_head .., hpin, hrest⟩

theorem Clear.remembering {path : List Endpoint} (hc : state.Clear path) (hout : pin ∉ path)
    (answer : Option ExprId) : (state.remembering pin answer).Clear path := by
  intro q hq
  have hne : q ≠ pin := by
    rintro rfl
    exact hout hq
  rw [cached?_remembering, if_neg hne]
  exact hc q hq

/-- A path that is clear once the pin has its answer leaves the pin out, and was
clear before with the pin on it. -/
theorem Clear.of_remembering (hnew : state.cached? pin = none) {answer : Option ExprId}
    {path : List Endpoint} (hc : (state.remembering pin answer).Clear path) :
    pin ∉ path ∧ state.Clear (pin :: path) := by
  constructor
  · intro hp
    have hkept := hc pin hp
    rw [cached?_remembering, if_pos rfl] at hkept
    cases hkept
  · intro q hq
    rcases List.mem_cons.mp hq with rfl | hq
    · exact hnew
    · exact (remembers_remembering hnew answer).clear hc q hq

end Resolution

namespace Network

variable {net : Network} {state : Resolution} {pin : Endpoint}

theorem Sound.mark (hs : net.Sound state) (hnew : state.cached? pin = none) :
    net.Sound (state.marking pin) :=
  ⟨hs.settled, hs.clear.marking hnew⟩

theorem Sound.unmark (hs : net.Sound state) (pin : Endpoint) : net.Sound (state.unmarking pin) :=
  ⟨hs.settled, fun q hq => hs.clear q (List.mem_of_mem_erase hq)⟩

theorem Sound.remember (hs : net.Sound state) (hnew : state.cached? pin = none)
    (hunder : pin ∉ state.inProgress.erase pin) {answer : Option ExprId}
    (hsettled : net.Settled (state.remembering pin answer) pin answer) :
    net.Sound (state.remembering pin answer) := by
  have hclear : state.Clear (state.inProgress.erase pin) :=
    fun q hq => hs.clear q (List.mem_of_mem_erase hq)
  refine ⟨fun q answer' hq => ?_, hclear.remembering hunder answer⟩
  rw [Resolution.cached?_remembering] at hq
  by_cases h : q = pin
  · rw [if_pos h] at hq
    subst h
    obtain rfl : answer = answer' := Option.some.inj hq
    exact hsettled
  · rw [if_neg h] at hq
    have hgrows : state.expressions.Grows (state.remembering pin answer).expressions := .refl _
    exact (hs.settled q answer' hq).mono hgrows
      (Resolution.remembers_remembering hnew answer)

/-- The run of a step with its pin marked, whose answer is remembered. -/
theorem run_kept (pin : Endpoint) (x : Resolve (Option ExprId)) (state : Resolution) :
    (do
      let answer ← Resolve.marked pin x
      Resolve.remember pin answer
      pure answer : Resolve (Option ExprId)) state =
      match x (state.marking pin) with
      | (.ok answer, after) => (.ok answer, after.remembering pin answer)
      | (.error halt, after) => (.error halt, after.unmarking pin) := by
  show Resolve.bind (Resolve.marked pin x) _ state = _
  simp only [Resolve.bind, Resolve.marked, Resolution.marking]
  rcases x { state with inProgress := pin :: state.inProgress } with ⟨_ | _, after⟩ <;> rfl

theorem mirrors_kept {x : Resolve (Option ExprId)}
    {y : List Endpoint → Except ResolveError (Option Tree)}
    (hpin : pin ∉ state.inProgress) (hx : Mirrors net (state.marking pin) x y Expressions.Reads)
    (hwalk : ∀ path, pin ∉ path → net.walk path pin = y (pin :: path)) :
    Mirrors net state (do
      let answer ← Resolve.marked pin x
      Resolve.remember pin answer
      pure answer) (fun path => net.walk path pin) Expressions.Reads := by
  obtain ⟨hl, hs, ha, he, hb⟩ := hx
  have hrun := run_kept pin x state
  rcases hr : x (state.marking pin) with ⟨result, after⟩
  rw [hr] at hl hs ha he hb hrun
  obtain ⟨hmarks, hafter, -⟩ := hs.clear.of_marked hl.inProgress
  cases result with
  | error halt =>
    refine ⟨?_, ?_, fun a h => ?_, fun e h => ?_, ?_⟩
    · rw [hrun]
      exact ⟨hl.expressions, hl.resolved, hmarks⟩
    · rw [hrun]
      exact hs.unmark pin
    · rw [hrun] at h
      cases h
    · rw [hrun] at h
      rw [hwalk _ hpin]
      exact he e h
    · rw [hrun]
      exact hb
  | ok answer =>
    -- Every path that is clear now leaves the pin out, and was clear before with the
    -- pin on it; from there the walk found the answer.
    obtain ⟨tree, hR, hy⟩ := ha answer rfl
    have hfinds : ∀ path, (after.remembering pin answer).Clear path →
        net.walk path pin = .ok tree := by
      intro path hc
      obtain ⟨hout, hbefore⟩ := hc.of_remembering hafter
      rw [hwalk path hout]
      exact hy _ hbefore
    refine ⟨?_, ?_, fun a h => ?_, fun e h => ?_, ?_⟩
    · rw [hrun]
      refine ⟨hl.expressions, fun q answer' hq => ?_, hmarks⟩
      exact Resolution.remembers_remembering hafter answer q answer' (hl.resolved q answer' hq)
    · rw [hrun]
      refine hs.remember hafter ?_ ⟨tree, hR, hfinds⟩
      rw [hmarks]
      exact hpin
    · rw [hrun] at h ⊢
      obtain rfl : answer = a := Except.ok.inj h
      exact ⟨tree, hR, hfinds⟩
    · rw [hrun] at h
      cases h
    · rw [hrun]
      simp

/-- **The walk of a resolution mirrors the walk that keeps nothing**, as soon as
the depth exceeds the number of nodes that are not under way. -/
theorem mirrors_resolveOutputWithin (net : Network) (depth : Nat) (pin : Endpoint)
    (state : Resolution) (hs : net.Sound state)
    (hdepth : (net.unvisited state.inProgress).length < depth) :
    Mirrors net state (net.resolveOutputWithin depth pin) (fun path => net.walk path pin)
      Expressions.Reads := by
  -- Every pin that is marked takes a node off the unvisited ones, and the depth
  -- goes down with it.
  induction depth generalizing pin state with
  | zero => omega
  | succ depth ih =>
    cases hcached : state.cached? pin with
    | some answer =>
      obtain ⟨tree, hR, hw⟩ := hs.settled pin answer hcached
      refine .congr ?_ (.answer hs hR hw)
      simp only [resolveOutputWithin, hcached, Resolve.pure]
    | none =>
      cases hnode : net.node? pin.node with
      | none =>
        refine .congr ?_ (.answer hs (Expressions.reads_none _) fun path _ => walk_of_missing hnode)
        simp only [resolveOutputWithin, hcached, hnode, Resolve.pure]
      | some node =>
        by_cases hpin : pin ∈ state.inProgress
        · refine .congr ?_ (.fail hs (walk_of_mem hnode hpin))
          simp only [resolveOutputWithin, hcached, hnode, hpin, if_true, Resolve.fail, Resolve.halt]
        · refine .congr (by simp only [resolveOutputWithin, hcached, hnode, hpin, if_false]; rfl) ?_
          by_cases hout : pin.pin = .out
          · simp only [hout, if_true]
            refine mirrors_kept (y := fun path => node.tree fun key =>
                net.walkInput path ⟨pin.node, key⟩) hpin
              (mirrors_node (hs.mark hcached) node fun key later hl hs => ?_)
              fun path hp => walk_of_out hnode hp hout
            unfold walkInput
            cases net.feeding? ⟨pin.node, key⟩ with
            | none => exact .pure hs (Expressions.reads_none _)
            | some edge =>
              refine ih edge.source later hs ?_
              have hless := unvisited_cons_lt hnode hpin hout
              rw [hl.inProgress]
              show (net.unvisited (pin :: state.inProgress)).length < depth
              omega
          · simp only [hout, if_false]
            exact mirrors_kept hpin (.pure (hs.mark hcached) (Expressions.reads_none _))
              fun path hp => walk_of_not_out hp hout

theorem mirrors_resolveOutput {net : Network} {state : Resolution} (hs : net.Sound state)
    (pin : Endpoint) :
    Mirrors net state (net.resolveOutput pin) (fun path => net.walk path pin)
      Expressions.Reads := by
  refine mirrors_resolveOutputWithin net net.depthBound pin state hs ?_
  have := net.unvisited_length_le state.inProgress
  unfold depthBound
  omega

theorem mirrors_resolveInput {net : Network} {state : Resolution} (hs : net.Sound state)
    (pin : Endpoint) :
    Mirrors net state (net.resolveInput pin) (fun path => net.walkInput path pin)
      Expressions.Reads := by
  unfold resolveInput walkInput
  cases net.feeding? pin with
  | none => exact .pure hs (Expressions.reads_none _)
  | some edge => exact mirrors_resolveOutput hs edge.source

end Network

end ShaderGraph
