import ShaderGraph.Proofs.Building
import ShaderGraph.Proofs.Widths
import ShaderGraph.Proofs.Wgsl.Typing

/-
What coercions lose.

A splat loses nothing; the other coercions drop components or make some up. Code
`OnlyWidens` if no coercion in it does so, except where a blend takes the first
component of a factor. The code of an expression whose tree fits only widens
(`Emits.widened`), and so does that of a channel unless the channel takes the first
component of its value. What may be narrowed in a tree shows in the code too, through
the names of bindings (`Takes`). So a graph that is built loses something only by its
code nodes, which blend their operands as they are by the three components of a call
(`Graph.Built.onlyWidens`).
-/
namespace ShaderGraph.Wgsl

namespace Code

/-- No coercion in the code is other than a splat, except that blends take the first
components of some factors. -/
inductive OnlyWidens (narrowed : Code → Prop) : Code → Prop
  | literal (value : Literal) : OnlyWidens narrowed (.literal value)
  | builtin (value : Builtin) : OnlyWidens narrowed (.builtin value)
  | bound (k : Nat) : OnlyWidens narrowed (.bound k)
  | arithmetic (op : Arithmetic) {x y : Code} (hx : OnlyWidens narrowed x)
      (hy : OnlyWidens narrowed y) : OnlyWidens narrowed (.arithmetic op x y)
  | pow {x y : Code} (hx : OnlyWidens narrowed x) (hy : OnlyWidens narrowed y) :
      OnlyWidens narrowed (.pow x y)
  | apply1 (f : Function1) {x : Code} (hx : OnlyWidens narrowed x) :
      OnlyWidens narrowed (.apply1 f x)
  | apply3 (f : Function3) {x y z : Code} (hx : OnlyWidens narrowed x)
      (hy : OnlyWidens narrowed y) (hz : OnlyWidens narrowed z) :
      OnlyWidens narrowed (.apply3 f x y z)
  | mixByFirst {x y z : Code} (hx : OnlyWidens narrowed x) (hy : OnlyWidens narrowed y)
      (hz : OnlyWidens narrowed z) (hnarrowed : narrowed z) :
      OnlyWidens narrowed (.apply3 .mix x y (.firstOf z))
  | call (function : String) {primary secondary uv : Code} (hprimary : OnlyWidens narrowed primary)
      (hsecondary : OnlyWidens narrowed secondary) (huv : OnlyWidens narrowed uv) :
      OnlyWidens narrowed (.call function primary secondary uv)
  | splat (type : ValueType) {x : Code} (hx : OnlyWidens narrowed x) :
      OnlyWidens narrowed (.splat type x)

/-- The pieces that the code joins. -/
def operands : Code → List Code
  | literal _ | builtin _ | bound _ => []
  | arithmetic _ x y | pow x y => [x, y]
  | apply1 _ x | splat _ x | pad x | firstOf x | firstTwoOf x => [x]
  | apply3 _ x y z => [x, y, z]
  | call _ primary secondary uv => [primary, secondary, uv]

/-- The code is a call of a code function, or names one. -/
inductive IsCall (bindings : List Code) : Code → Prop
  | call (function : String) (primary secondary uv : Code) :
      IsCall bindings (.call function primary secondary uv)
  | bound {k : Nat} {code : Code} (hk : bindings[k]? = some code) (h : IsCall bindings code) :
      IsCall bindings (.bound k)

/-- A code function is called in the code, or in what it names. -/
inductive HasCall (bindings : List Code) : Code → Prop
  | call (function : String) (primary secondary uv : Code) :
      HasCall bindings (.call function primary secondary uv)
  | bound {k : Nat} {code : Code} (hk : bindings[k]? = some code) (h : HasCall bindings code) :
      HasCall bindings (.bound k)
  | operand {c x : Code} (hx : x ∈ c.operands) (h : HasCall bindings x) : HasCall bindings c

variable {narrowed narrowed' : Code → Prop} {bindings bindings' : List Code} {c : Code}

theorem OnlyWidens.mono (h : ∀ z, narrowed z → narrowed' z) (hc : c.OnlyWidens narrowed) :
    c.OnlyWidens narrowed' := by
  induction hc with
  | mixByFirst hx hy hz hnarrowed ihx ihy ihz => exact .mixByFirst ihx ihy ihz (h _ hnarrowed)
  | _ => constructor <;> assumption

theorem getElem?_later (hb : bindings <+: bindings') {k : Nat} (hk : bindings[k]? = some c) :
    bindings'[k]? = some c := by
  obtain ⟨more, rfl⟩ := hb
  rw [List.getElem?_append_left (List.getElem?_eq_some_iff.mp hk).1, hk]

theorem IsCall.later (hb : bindings <+: bindings') (h : c.IsCall bindings) :
    c.IsCall bindings' := by
  induction h with
  | call => exact .call _ _ _ _
  | bound hk h ih => exact .bound (getElem?_later hb hk) ih

theorem HasCall.later (hb : bindings <+: bindings') (h : c.HasCall bindings) :
    c.HasCall bindings' := by
  induction h with
  | call => exact .call _ _ _ _
  | bound hk h ih => exact .bound (getElem?_later hb hk) ih
  | operand hx h ih => exact .operand hx ih

theorem HasCall.coerce (h : c.HasCall bindings) (type target : ValueType) :
    (c.coerce type target).HasCall bindings := by
  cases type <;> cases target <;>
    first
    | exact h
    | exact .operand (List.mem_singleton_self c) h

theorem hasCall_applicationCode (result : ValueType) {application : Application Operand}
    {x : Operand} (hx : x ∈ application.operands) (h : x.code.HasCall bindings) :
    (applicationCode result application).HasCall bindings := by
  have has := fun target => h.coerce x.type target
  cases application with
  | unary op y =>
    obtain rfl : x = y := by simpa [Application.operands] using hx
    cases op with
    | sin => exact .operand (List.mem_singleton_self _) (has result)
    | abs => exact .operand (List.mem_singleton_self _) (has result)
    | normalize =>
      cases result with
      | float => exact .operand (List.mem_singleton_self _) h
      | vec2 => exact .operand (List.mem_singleton_self _) (has _)
      | vec3 => exact .operand (List.mem_singleton_self _) (has _)
  | binary op y z =>
    have hmem : x.as result ∈ (applicationCode result (.binary op y z)).operands := by
      have hx' : x = y ∨ x = z := by simpa [Application.operands] using hx
      cases op <;> rcases hx' with rfl | rfl <;> simp [applicationCode, operands]
    exact .operand hmem (has result)
  | ternary op y z w =>
    have hmem : ∃ target, x.as target ∈ (applicationCode result (.ternary op y z w)).operands := by
      have hx' : x = y ∨ x = z ∨ x = w := by simpa [Application.operands] using hx
      cases op <;> rcases hx' with rfl | rfl | rfl <;>
        exact ⟨_, by simp only [applicationCode, operands, List.mem_cons]; tauto⟩
    obtain ⟨target, hmem⟩ := hmem
    exact .operand hmem (has target)

end Code

/-! ## Code of one expression -/

section Code

variable {narrowed : Code → Prop}

/-- A coercion of a scalar, or to the shape that is there, loses nothing. -/
theorem Code.OnlyWidens.coerce {c : Code} (h : c.OnlyWidens narrowed) {type target : ValueType}
    (htype : type = .float ∨ type = target) : (c.coerce type target).OnlyWidens narrowed := by
  rcases htype with rfl | rfl
  · cases target with
    | float => exact h
    | vec2 => exact .splat _ h
    | vec3 => exact .splat _ h
  · cases type <;> exact h

/-- A channel takes code as it is or fills a vector with it, unless it takes the first
component of a vector as a scalar. -/
theorem onlyWidens_channel {c : Code} (h : c.OnlyWidens narrowed) {type : ValueType}
    (hvec2 : type ≠ .vec2) (channel : Channel) :
    (c.coerce type (channelType channel)).OnlyWidens narrowed ∨
      (type ≠ .float ∧ channel.socket = .float ∧
        c.coerce type (channelType channel) = .firstOf c) := by
  by_cases hlossless : type = .float ∨ type = channelType channel
  · exact .inl (h.coerce hlossless)
  · rw [not_or] at hlossless
    have hvec3 : type = .vec3 := by
      cases type <;> simp_all
    have hsocket : channel.socket = .float ∨ channelType channel = .vec3 := by
      cases channel <;> decide
    rcases hsocket with hfloat | hchannel
    · refine .inr ⟨hlossless.1, hfloat, ?_⟩
      rw [hvec3, channelType, hfloat]
      rfl
    · exact absurd (hvec3.trans hchannel.symm) hlossless.2

/-- The code of a blend only widens, but for a factor that is narrowed between scalars. -/
theorem onlyWidens_mix {x y z : Operand} (hx : x.code.OnlyWidens narrowed ∧ x.type ≠ .vec2)
    (hy : y.code.OnlyWidens narrowed ∧ y.type ≠ .vec2)
    (hz : z.code.OnlyWidens narrowed ∧ z.type ≠ .vec2)
    (hfactor : x.type = .float → y.type = .float → z.type = .float ∨ narrowed z.code) :
    (applicationCode (x.type.widest y.type) (.ternary .mix x y z)).OnlyWidens narrowed := by
  obtain ⟨hxtype, hytype, hvec2⟩ := ValueType.widest_of_ne_vec2 hx.2 hy.2
  have hx' := hx.1.coerce hxtype
  have hy' := hy.1.coerce hytype
  rw [applicationCode]
  by_cases hscalar : z.type = .float
  · rw [if_pos hscalar]
    exact .apply3 .mix hx' hy' (hz.1.coerce (.inl hscalar))
  · rw [if_neg hscalar]
    -- A factor that is a vector keeps its shape between vectors, but not between scalars.
    have hz3 : z.type = .vec3 := by
      cases htype : z.type <;> simp_all
    by_cases hresult : x.type.widest y.type = .float
    · have hfirst : z.as (x.type.widest y.type) = .firstOf z.code := by
        rw [Operand.as, hresult, hz3]
        rfl
      rw [hresult] at hxtype hytype
      have hnarrowed : narrowed z.code :=
        (hfactor (or_self_iff.mp hxtype) (or_self_iff.mp hytype)).resolve_left hscalar
      rw [hfirst]
      exact .mixByFirst hx' hy' hz.1 hnarrowed
    · have hresult3 : x.type.widest y.type = .vec3 := by
        cases htype : x.type.widest y.type <;> simp_all
      exact .apply3 .mix hx' hy' (hz.1.coerce (.inr (hz3.trans hresult3.symm)))

/-- The code of an operator only widens, if no operand has two components and the factor
of a blend of scalars is a scalar or may be narrowed. -/
theorem onlyWidens_applicationCode {application : Application Operand}
    (h : ∀ x ∈ application.operands, x.code.OnlyWidens narrowed ∧ x.type ≠ .vec2)
    (hfactor : ∀ x y z, application = .ternary .mix x y z → x.type = .float → y.type = .float →
      z.type = .float ∨ narrowed z.code) :
    (applicationCode (application.map Operand.type).valueType application).OnlyWidens narrowed := by
  generalize hresult : (application.map Operand.type).valueType = result
  cases application with
  | unary op x =>
    obtain ⟨hx, -⟩ := h x (by simp [Application.operands])
    obtain rfl : x.type = result := hresult
    have hx' : (x.as x.type).OnlyWidens narrowed := hx.coerce (.inr rfl)
    cases op with
    | sin => exact .apply1 .sin hx'
    | abs => exact .apply1 .abs hx'
    | normalize =>
      cases htype : x.type with
      | float => exact .apply1 .sign hx
      | vec2 => exact .apply1 .normalize (htype ▸ hx')
      | vec3 => exact .apply1 .normalize (htype ▸ hx')
  | binary op x y =>
    obtain ⟨hx, hxvec2⟩ := h x (by simp [Application.operands])
    obtain ⟨hy, hyvec2⟩ := h y (by simp [Application.operands])
    obtain rfl : x.type.widest y.type = result := hresult
    obtain ⟨hxtype, hytype, -⟩ := ValueType.widest_of_ne_vec2 hxvec2 hyvec2
    have hx' := hx.coerce hxtype
    have hy' := hy.coerce hytype
    cases op with
    | add => exact .arithmetic .add hx' hy'
    | sub => exact .arithmetic .sub hx' hy'
    | mul => exact .arithmetic .mul hx' hy'
    | pow => exact .pow hx' hy'
  | ternary op x y z =>
    have hx := h x (by simp [Application.operands])
    have hy := h y (by simp [Application.operands])
    have hz := h z (by simp [Application.operands])
    by_cases hop : op = .mix
    · subst hop
      obtain rfl : x.type.widest y.type = result := hresult
      exact onlyWidens_mix hx hy hz (hfactor x y z rfl)
    · obtain ⟨hxtype, hytype, hxy⟩ := ValueType.widest_of_ne_vec2 hx.2 hy.2
      obtain ⟨hxytype, hztype, -⟩ := ValueType.widest_of_ne_vec2 hxy hz.2
      obtain rfl : (x.type.widest y.type).widest z.type = result := by
        cases op <;> first | exact hresult | exact absurd rfl hop
      have hx' := hx.1.coerce (hxtype.elim .inl fun h => hxytype.imp h.trans h.trans)
      have hy' := hy.1.coerce (hytype.elim .inl fun h => hxytype.imp h.trans h.trans)
      have hz' := hz.1.coerce hztype
      cases op with
      | mix => exact absurd rfl hop
      | clamp => exact .apply3 .clamp hx' hy' hz'
      | smoothstep => exact .apply3 .smoothstep hx' hy' hz'

end Code

/-! ## Code of an emission -/

/-- What may be narrowed is `taken` when it is written out or named. -/
structure Takes (source : Source) (narrowed : Tree → Prop)
    (taken : List Code → Code → Prop) : Prop where
  later : ∀ bindings bindings' c, bindings <+: bindings' → taken bindings c → taken bindings' c
  bound : ∀ bindings code, taken bindings code →
    taken (bindings ++ [code]) (.bound bindings.length)
  written : ∀ bindings name id codes t, source.table.tree? id = some t → narrowed t →
    List.Forall₂ (fun c x => ∀ t, source.table.tree? x = some t → narrowed t → taken bindings c)
      codes (source.table.operands id) →
    taken bindings (source.inlineCode name id codes)

/-- The code of an expression only widens, and is taken where the expression may be
narrowed. -/
structure Widened (source : Source) (narrowed : Tree → Prop) (taken : Code → Prop) (c : Code)
    (id : ExprId) : Prop where
  onlyWidens : c.OnlyWidens taken
  taken : ∀ t, source.table.tree? id = some t → narrowed t → taken c

/-- Bindings only widen, and names are taken where their expressions may be narrowed. -/
structure Emission.Widened (source : Source) (narrowed : Tree → Prop)
    (taken : List Code → Code → Prop) (state : Emission) : Prop where
  binding : ∀ c ∈ state.bindings, c.OnlyWidens (taken state.bindings)
  named : ∀ id k, state.names.lookup id = some k → ∀ t, source.table.tree? id = some t →
    narrowed t → taken state.bindings (.bound k)

section Emission

variable {source : Source} {narrowed : Tree → Prop} {taken : List Code → Code → Prop}

theorem Widened.later (htakes : Takes source narrowed taken) {bindings bindings' : List Code}
    (hb : bindings <+: bindings') {c : Code} {id : ExprId}
    (h : Widened source narrowed (taken bindings) c id) :
    Widened source narrowed (taken bindings') c id :=
  ⟨h.onlyWidens.mono fun z hz => htakes.later _ _ z hb hz,
    fun t ht hn => htakes.later _ _ c hb (h.taken t ht hn)⟩

theorem onlyWidens_inlineCode (hsource : source.types = source.table.valueTypes)
    (ho : source.table.Ordered) (name : String) {id : ExprId} {t : Tree}
    (ht : source.table.tree? id = some t) (hfits : t.Fits narrowed) {codes : List Code}
    {p : Code → Prop}
    (h : List.Forall₂ (Widened source narrowed p) codes (source.table.operands id)) :
    (source.inlineCode name id codes).OnlyWidens p := by
  obtain ⟨e, he, hread⟩ := Expressions.exists_of_tree? ht
  simp only [Expressions.operands, he] at h
  cases e with
  | literal value =>
    simp only [Source.inlineCode, he]
    exact .literal value
  | builtin value =>
    simp only [Source.inlineCode, he]
    exact .builtin value
  | apply application =>
    obtain ⟨operands, rfl, hoperands, hcode⟩ := exists_operands hsource ho name he ht h
    obtain ⟨hwide, hfactor⟩ := Tree.fits_apply.mp hfits
    have htypes := Application.map_map (fun operand : Code × Tree =>
      (⟨operand.1, operand.2.valueType⟩ : Operand)) Operand.type operands
    rw [hcode, Application.map_map, ← htypes]
    refine onlyWidens_applicationCode (Application.forall_operands_map.mpr fun operand hoperand => ?_)
      fun x y z hmix hx hy => ?_
    · obtain ⟨x, hwidened, -⟩ := hoperands operand hoperand
      exact ⟨hwidened.onlyWidens, (hwide _ (Application.mem_operands_map Prod.snd hoperand)).2⟩
    · cases operands with
      | unary op a => cases hmix
      | binary op a b => cases hmix
      | ternary op a b c =>
        obtain ⟨rfl, rfl, rfl, rfl⟩ := Application.ternary.inj hmix
        obtain ⟨x, hwidened, hc⟩ := hoperands c (by simp [Application.operands])
        exact (hfactor a.2 b.2 c.2 rfl hx hy).imp_right (hwidened.taken c.2 hc)
  | call f primary secondary uv =>
    simp only [Expr.tree?, bind, Option.bind_eq_some_iff] at hread
    obtain ⟨_, -, p', hp, s', hs, u', hu, htree⟩ := hread
    obtain rfl := Option.some.inj htree
    obtain ⟨⟨-, hpvec2⟩, ⟨-, hsvec2⟩, -, huvec2⟩ := hfits
    obtain _ | ⟨hp', _ | ⟨hs', _ | ⟨hu', _ | _⟩⟩⟩ := h
    have hvec3 : ∀ {type : ValueType}, type ≠ .vec2 → type = .float ∨ type = .vec3 := by
      intro type
      cases type <;> decide
    have htype : ∀ {x t'}, source.table.tree? x = some t' → source.typeOf x = t'.valueType := by
      intro x t' hx
      rw [Source.typeOf_eq hsource, Expressions.typeOf_of_tree? ho hx]
    simp only [Source.inlineCode, Expressions.operands, he]
    exact .call name (hp'.onlyWidens.coerce (hvec3 (htype hp ▸ hpvec2)))
      (hs'.onlyWidens.coerce (hvec3 (htype hs ▸ hsvec2)))
      (hu'.onlyWidens.coerce (.inr ((htype hu).trans huvec2)))

theorem Emission.Widened.bind (htakes : Takes source narrowed taken) {state : Emission}
    (h : state.Widened source narrowed taken) {id : ExprId} {code : Code}
    (hcode : Wgsl.Widened source narrowed (taken state.bindings) code id) :
    (state.binding id code).Widened source narrowed taken ∧
      Wgsl.Widened source narrowed (taken (state.binding id code).bindings)
        (.bound state.bindings.length) id := by
  have hprefix : state.bindings <+: (state.binding id code).bindings := List.prefix_append _ _
  have hname : ∀ t, source.table.tree? id = some t → narrowed t →
      taken (state.binding id code).bindings (.bound state.bindings.length) :=
    fun t ht hn => htakes.bound _ code (hcode.taken t ht hn)
  refine ⟨⟨fun c hc => ?_, fun x k hx t ht hn => ?_⟩, .bound _, hname⟩
  · have hc' : c.OnlyWidens (taken state.bindings) := by
      rcases List.mem_append.mp hc with hc | hc
      · exact h.binding c hc
      · rw [List.mem_singleton.mp hc]
        exact hcode.onlyWidens
    exact hc'.mono fun z hz => htakes.later _ _ z hprefix hz
  · obtain ⟨rfl, rfl⟩ | hx := lookup_binding hx
    · exact hname t ht hn
    · exact htakes.later _ _ _ hprefix (h.named x k hx t ht hn)

/-- **Emission only widens.** From a state whose bindings only widen, the codes of
expressions whose trees fit only widen, and so do the bindings of the later state. -/
theorem Emits.widened (hsource : source.types = source.table.valueTypes)
    (ho : source.table.Ordered) (htakes : Takes source narrowed taken) {state later : Emission}
    {ids log : List ExprId} {codes : List Code} (h : Emits source state ids codes later log)
    (hfits : ∀ id ∈ ids, ∃ t, source.table.tree? id = some t ∧ t.Fits narrowed)
    (hs : state.Widened source narrowed taken) :
    later.Widened source narrowed taken ∧ state.bindings <+: later.bindings ∧
      List.Forall₂ (Widened source narrowed (taken later.bindings)) codes ids := by
  -- Written out, an expression whose operands only widen does so too.
  have hwritten : ∀ {bindings id t operands} name, source.table.tree? id = some t →
      t.Fits narrowed → List.Forall₂ (Widened source narrowed (taken bindings)) operands
        (source.table.operands id) →
      Widened source narrowed (taken bindings) (source.inlineCode name id operands) id :=
    fun name ht hfit hoperands => ⟨onlyWidens_inlineCode hsource ho name ht hfit hoperands,
      fun t ht hn => htakes.written _ name _ _ t ht hn
        (List.Forall₂.imp (fun _ _ hc => hc.taken) hoperands)⟩
  induction h with
  | done state => exact ⟨hs, List.prefix_refl _, .nil⟩
  | @named state later id k ids log codes hname hrest ih =>
    obtain ⟨hlater, hprefix, hcodes⟩ := ih (List.forall_mem_cons.mp hfits).2 hs
    have hhead : Widened source narrowed (taken state.bindings) (.bound k) id :=
      ⟨.bound k, hs.named id k hname⟩
    exact ⟨hlater, hprefix, .cons (hhead.later htakes hprefix) hcodes⟩
  | @written state inner later id ids below log operands codes hname hshared hoperands hrest
      ih ih' =>
    obtain ⟨⟨t, ht, hfit⟩, hfits⟩ := List.forall_mem_cons.mp hfits
    obtain ⟨hinner, hprefix, hwidened⟩ :=
      ih (Expressions.fits_operands ht hfit) ⟨hs.binding, hs.named⟩
    have hhead := hwritten (source.declare state.functions id).1 ht hfit hwidened
    obtain ⟨hlater, hprefix', hcodes⟩ := ih' hfits hinner
    exact ⟨hlater, hprefix.trans hprefix', .cons (hhead.later htakes hprefix') hcodes⟩
  | @bound state inner later id ids below log operands codes hname hshared hoperands hrest ih ih' =>
    obtain ⟨⟨t, ht, hfit⟩, hfits⟩ := List.forall_mem_cons.mp hfits
    obtain ⟨hinner, hprefix, hwidened⟩ :=
      ih (Expressions.fits_operands ht hfit) ⟨hs.binding, hs.named⟩
    obtain ⟨hbound, hhead⟩ :=
      hinner.bind htakes (hwritten (source.declare state.functions id).1 ht hfit hwidened)
    obtain ⟨hlater, hprefix', hcodes⟩ := ih' hfits hbound
    exact ⟨hlater, hprefix.trans ((List.prefix_append _ _).trans hprefix'),
      .cons (hhead.later htakes hprefix') hcodes⟩

end Emission

/-! ## Modules -/

/-- Bindings and channels of the module only widen. -/
structure Module.OnlyWidens (m : Module) (narrowed : Code → Prop) : Prop where
  binding : ∀ c ∈ m.bindings, c.OnlyWidens narrowed
  channel : ∀ channel, (m.channels.get channel).OnlyWidens narrowed

theorem isCall_inlineCode {source : Source} {id : ExprId} {t : Tree}
    (ht : source.table.tree? id = some t) (hcall : t.IsCall) {codes : List Code}
    (hlength : codes.length = (source.table.operands id).length) (name : String) :
    ∃ primary secondary uv, source.inlineCode name id codes = .call name primary secondary uv := by
  obtain ⟨f, p, s, u, rfl⟩ := hcall
  obtain ⟨e, he, hread⟩ := Expressions.exists_of_tree? ht
  cases e with
  | literal value => cases hread
  | builtin value => cases hread
  | apply application =>
    obtain ⟨trees, -, htree⟩ := Option.map_eq_some_iff.mp hread
    cases trees <;> cases htree
  | call function primary secondary uv =>
    simp only [Expressions.operands, he, Expr.operands] at hlength
    obtain ⟨c, c', c'', rfl⟩ := List.length_eq_three.mp hlength
    simp only [Source.inlineCode, Expressions.operands, he]
    exact ⟨_, _, _, rfl⟩

theorem takes_isCall (source : Source) :
    Takes source Tree.IsCall fun bindings => Code.IsCall bindings where
  later := fun _ _ _ hb h => h.later hb
  bound := fun bindings code h =>
    .bound List.getElem?_concat_length (h.later (List.prefix_append _ _))
  written := fun bindings name id codes t ht hcall hcodes => by
    obtain ⟨primary, secondary, uv, hcode⟩ := isCall_inlineCode ht hcall hcodes.length_eq name
    rw [hcode]
    exact .call _ _ _ _

theorem takes_hasCall {source : Source} (hsource : source.types = source.table.valueTypes)
    (ho : source.table.Ordered) :
    Takes source Tree.HasCall fun bindings => Code.HasCall bindings where
  later := fun _ _ _ hb h => h.later hb
  bound := fun bindings code h =>
    .bound List.getElem?_concat_length (h.later (List.prefix_append _ _))
  written := fun bindings name id codes t ht hcall hcodes => by
    obtain ⟨e, he, hread⟩ := Expressions.exists_of_tree? ht
    cases e with
    | literal value =>
      obtain rfl := Option.some.inj hread
      cases hcall
    | builtin value =>
      obtain rfl := Option.some.inj hread
      cases hcall
    | apply application =>
      simp only [Expressions.operands, he] at hcodes
      obtain ⟨operands, rfl, hoperands, hcode⟩ := exists_operands hsource ho name he ht hcodes
      obtain ⟨t, hmem, hcall⟩ := Tree.hasCall_apply.mp hcall
      rw [Application.operands_map] at hmem
      obtain ⟨operand, hoperand, rfl⟩ := List.mem_map.mp hmem
      obtain ⟨x, htaken, hx⟩ := hoperands operand hoperand
      rw [hcode]
      exact Code.hasCall_applicationCode _ (Application.mem_operands_map _ hoperand)
        (htaken operand.2 hx hcall)
    | call function primary secondary uv =>
      have hiscall : t.IsCall := by
        simp only [Expr.tree?, bind, Option.bind_eq_some_iff] at hread
        obtain ⟨f, -, p, -, s, -, u, -, htree⟩ := hread
        exact ⟨f, p, s, u, (Option.some.inj htree).symm⟩
      obtain ⟨primary, secondary, uv, hcode⟩ := isCall_inlineCode ht hiscall hcodes.length_eq name
      rw [hcode]
      exact .call _ _ _ _

theorem takes_nothing (source : Source) : Takes source (fun _ => False) fun _ _ => False where
  later := fun _ _ _ _ => False.elim
  bound := fun _ _ => False.elim
  written := fun _ _ _ _ _ _ hn _ => hn

end ShaderGraph.Wgsl

namespace ShaderGraph

open Wgsl

/-- The bindings of a compilation only widen, and so do its channels, unless a scalar
channel takes the first component of what is loose. -/
theorem Snapshot.onlyWidens_of_compile {snapshot : Snapshot}
    (hwell : snapshot.network.WellConnected) {loose narrowed : Tree → Prop}
    (hnarrows : snapshot.network.Narrows loose narrowed) {defaults : MaterialDefaults}
    {material : NodeMaterial} (h : (snapshot.compile defaults).material = .node material)
    {taken : List Code → Code → Prop} (htakes : Takes (materialSource material) narrowed taken) :
    let m := Module.ofMaterial material
    (∀ c ∈ m.bindings, c.OnlyWidens (taken m.bindings)) ∧
      ∀ channel, (m.channels.get channel).OnlyWidens (taken m.bindings) ∨
        ((∃ t, loose t) ∧ channelType channel = .float ∧ ∃ c, m.channels.get channel = .firstOf c ∧
          taken m.bindings c ∧ c.OnlyWidens (taken m.bindings)) := by
  have hwellFormed := wellFormed_of_compile h
  have ho : (materialSource material).table.Ordered := hwellFormed.ordered
  have hyields : ∀ channel, ∃ t, material.expressions.tree? (material.channels.get channel) = some t ∧
      Network.Yields loose narrowed channel.socket t := by
    intro channel
    obtain ⟨result, hresult, htree⟩ := (read_of_compile h).2 channel
    exact ⟨result.tree, htree, yields_channelValue hwell hnarrows hresult⟩
  obtain ⟨codes, log, htrace, hget⟩ := exists_trace hwellFormed
  have hfits : ∀ id ∈ material.channels.toList,
      ∃ t, (materialSource material).table.tree? id = some t ∧ t.Fits narrowed := by
    intro id hid
    obtain ⟨channel, -, rfl⟩ := List.mem_map.mp hid
    obtain ⟨t, ht, hyields⟩ := hyields channel
    exact ⟨t, ht, hyields.fits⟩
  obtain ⟨hfinal, -, hcodes⟩ := htrace.widened rfl ho htakes hfits
    ⟨List.forall_mem_nil _, fun _ _ hname => nomatch hname⟩
  refine ⟨hfinal.binding, fun channel => ?_⟩
  obtain ⟨t, ht, hyields⟩ := hyields channel
  have hcode := PerChannel.get_of_forall₂ hcodes channel
  have htype : (materialSource material).typeOf (material.channels.get channel) = t.valueType :=
    Expressions.typeOf_of_tree? ho ht
  rw [hget, htype]
  refine (onlyWidens_channel hcode.onlyWidens hyields.wide channel).imp_right
    fun ⟨hvector, hfloat, hfirst⟩ => ?_
  have hloose : loose t := (hyields.scalar hfloat).resolve_left hvector
  refine ⟨⟨t, hloose⟩, ?_, codes.get channel, hfirst, hcode.taken t ht (hnarrows.of_loose t hloose),
    hcode.onlyWidens⟩
  rw [channelType, hfloat]
  rfl

/-- **A graph that is built loses values by code nodes only.** The module of its
compilation makes no component up and takes no two components, and takes the first
component only of code in which a code function is called, as the factor of a blend or
the value of a scalar channel. If what feeds the code nodes that are declared scalars is
declared scalars, it does so only of the call of a code function, as the factor of a
blend; without code nodes it does so nowhere. -/
theorem Graph.Built.onlyWidens {g : Graph} (h : g.Built) {defaults : MaterialDefaults}
    {material : NodeMaterial} (hmaterial : (g.snapshot.compile defaults).material = .node material) :
    let m := Module.ofMaterial material
    ((∀ c ∈ m.bindings, c.OnlyWidens (Code.HasCall m.bindings)) ∧
      ∀ channel, (m.channels.get channel).OnlyWidens (Code.HasCall m.bindings) ∨
        (channelType channel = .float ∧ ∃ c, m.channels.get channel = .firstOf c ∧
          c.HasCall m.bindings ∧ c.OnlyWidens (Code.HasCall m.bindings))) ∧
    (g.snapshot.network.ScalarCode → m.OnlyWidens (Code.IsCall m.bindings)) ∧
    ((∀ node ∈ g.snapshot.nodes, node.category ≠ .code) → m.OnlyWidens fun _ => False) := by
  have hwell : g.snapshot.network.WellConnected := h.valid.wellConnected
  refine ⟨?_, fun hscalar => ?_, fun hcode => ?_⟩
  · have ho := (Snapshot.wellFormed_of_compile hmaterial).ordered
    obtain ⟨hbindings, hchannels⟩ := Snapshot.onlyWidens_of_compile hwell
      (Network.narrows_hasCall _) hmaterial (takes_hasCall rfl ho)
    exact ⟨hbindings, fun channel => (hchannels channel).imp_right And.right⟩
  · obtain ⟨hbindings, hchannels⟩ := Snapshot.onlyWidens_of_compile hwell
      (Network.narrows_isCall hscalar) hmaterial (takes_isCall _)
    exact ⟨hbindings, fun channel => (hchannels channel).resolve_right fun hc =>
      hc.1.elim fun _ hloose => hloose⟩
  · have hnone : ∀ id node, g.snapshot.network.node? id = some node → node.category ≠ .code :=
      fun _ node hnode => hcode node (Snapshot.mem_nodes_of_node? hnode)
    obtain ⟨hbindings, hchannels⟩ := Snapshot.onlyWidens_of_compile hwell
      (Network.narrows_nothing hnone) hmaterial (takes_nothing _)
    exact ⟨hbindings, fun channel => (hchannels channel).resolve_right fun hc =>
      hc.1.elim fun _ hloose => hloose⟩

/-- Two scalars that a code node blends into the base color. -/
def steered : Graph :=
  let nodes := [.input "a" "a" .float, .input "b" "b" .time, .code "c" "c" "return primary;" .vec3,
    .output "o" "o" .baseColor]
  let edges := [⟨"edge-1", ⟨"a", .out⟩, ⟨"c", .primary⟩⟩, ⟨"edge-2", ⟨"b", .out⟩, ⟨"c", .secondary⟩⟩,
    ⟨"edge-3", ⟨"c", .out⟩, ⟨"o", .input⟩⟩]
  edges.foldl Graph.addEdge (nodes.foldl Graph.addNode (.empty "Steered"))

theorem steered_built : steered.Built := by
  unfold steered
  simp only [List.foldl]
  refine .addEdge (.addEdge (.addEdge (.addNode (.addNode (.addNode (.addNode (.empty _) ?_) ?_) ?_)
    ?_) _ ?_) _ ?_) _ ?_ <;> decide

theorem steered_onlyWidens_calls :
    steered.Built ∧ steered.snapshot.network.ScalarCode ∧
    ∃ material, (steered.snapshot.compile .standard).material = .node material ∧
      (Module.ofMaterial material).OnlyWidens
        (Code.IsCall (Module.ofMaterial material).bindings) := by
  have hscalar : steered.snapshot.network.ScalarCode := by
    intro id node source hnode hkind
    have hall : ∀ node ∈ steered.snapshot.nodes, node.kind.outputs ≠ [outPin .float] ∨
        node.category ≠ .code := by decide
    have := hall node (Snapshot.mem_nodes_of_node? hnode)
    simp [hkind, NodeKind.outputs, Node.category] at this
  obtain ⟨material, hmaterial⟩ :
      ∃ material, (steered.snapshot.compile .standard).material = .node material := ⟨_, rfl⟩
  exact ⟨steered_built, hscalar, material, hmaterial,
    (Graph.Built.onlyWidens steered_built hmaterial).2.1 hscalar⟩

/-- The blend of two scalars takes the first component of what the code function yields. -/
theorem steered_narrows :
    steered.Built ∧ ∃ material, (steered.snapshot.compile .standard).material = .node material ∧
      ¬ (Module.ofMaterial material).OnlyWidens fun _ => False := by
  obtain ⟨material, hmaterial⟩ :
      ∃ material, (steered.snapshot.compile .standard).material = .node material := ⟨_, rfl⟩
  refine ⟨steered_built, material, hmaterial, fun h => ?_⟩
  have hcode : ((steered.snapshot.compile .standard).material.node?.map fun material =>
      (Module.ofMaterial material).channels.get .baseColor) =
        some (.splat .vec3 (.apply3 .mix (.literal (.float (.ofDecimal false 1 0))) (.builtin .time)
          (.firstOf (.call "shade_node_c"
            (.splat .vec3 (.literal (.float (.ofDecimal false 1 0))))
            (.splat .vec3 (.builtin .time)) (.builtin .uv))))) := by
    decide +kernel
  rw [hmaterial, Material.node?, Option.map_some, Option.some.injEq] at hcode
  have hchannel := h.channel .baseColor
  rw [hcode] at hchannel
  cases hchannel with
  | splat _ hmix =>
    cases hmix with
    | apply3 _ _ _ hfirst => cases hfirst
    | mixByFirst _ _ _ hfalse => exact hfalse

end ShaderGraph
