import ShaderGraph.Proofs.Compilation
import ShaderGraph.Proofs.Shapes
import ShaderGraph.Proofs.Wgsl.Sharing

/-
Types of emitted code.

`HasType` holds the typing rules of the shading language, as far as emitted code
needs them; the bound names have the types that a list gives them, in the order of
their numbers. Code has at most one type (`HasType.unique`). A coercion leads from
the type it starts at to the type it ends at, so an operator over operands of any
shapes has the widest of these as its type (`hasType_applicationCode`), and an
expression that is written out has the shape of the expression
(`hasType_inlineCode`). An emission keeps what its names say (`Emission.Typed`), from
one expression to the next (`Emits.typed`). All this is put together in
`emitted_code_typed`.
-/
namespace ShaderGraph.Wgsl

/-! ## Typing rules -/

/-- `HasType names code type`: the code has the type, where the `k`-th bound name has
the `k`-th of the types `names`. -/
inductive HasType (names : List ValueType) : Code → ValueType → Prop
  | literal (value : Literal) : HasType names (.literal value) value.valueType
  | builtin (value : Builtin) : HasType names (.builtin value) value.valueType
  | bound {k : Nat} {type : ValueType} (hk : names[k]? = some type) :
      HasType names (.bound k) type
  | arithmetic (op : Arithmetic) {x y : Code} {type : ValueType} (hx : HasType names x type)
      (hy : HasType names y type) : HasType names (.arithmetic op x y) type
  | pow {x y : Code} {type : ValueType} (hx : HasType names x type) (hy : HasType names y type) :
      HasType names (.pow x y) type
  | sin {x : Code} {type : ValueType} (hx : HasType names x type) :
      HasType names (.apply1 .sin x) type
  | abs {x : Code} {type : ValueType} (hx : HasType names x type) :
      HasType names (.apply1 .abs x) type
  | sign {x : Code} (hx : HasType names x .float) : HasType names (.apply1 .sign x) .float
  | normalize {x : Code} {type : ValueType} (hvector : type ≠ .float)
      (hx : HasType names x type) : HasType names (.apply1 .normalize x) type
  | mix {x y z : Code} {type : ValueType} (hx : HasType names x type) (hy : HasType names y type)
      (hz : HasType names z type) : HasType names (.apply3 .mix x y z) type
  | mixByScalar {x y z : Code} {type : ValueType} (hvector : type ≠ .float)
      (hx : HasType names x type) (hy : HasType names y type) (hz : HasType names z .float) :
      HasType names (.apply3 .mix x y z) type
  | clamp {x y z : Code} {type : ValueType} (hx : HasType names x type)
      (hy : HasType names y type) (hz : HasType names z type) :
      HasType names (.apply3 .clamp x y z) type
  | smoothstep {x y z : Code} {type : ValueType} (hx : HasType names x type)
      (hy : HasType names y type) (hz : HasType names z type) :
      HasType names (.apply3 .smoothstep x y z) type
  | call (function : String) {primary secondary uv : Code} (hprimary : HasType names primary .vec3)
      (hsecondary : HasType names secondary .vec3) (huv : HasType names uv .vec2) :
      HasType names (.call function primary secondary uv) .vec3
  | splat {x : Code} {type : ValueType} (hvector : type ≠ .float) (hx : HasType names x .float) :
      HasType names (.splat type x) type
  | pad {x : Code} (hx : HasType names x .vec2) : HasType names (.pad x) .vec3
  | firstOf {x : Code} {type : ValueType} (hvector : type ≠ .float) (hx : HasType names x type) :
      HasType names (.firstOf x) .float
  | firstTwoOf {x : Code} {type : ValueType} (hvector : type ≠ .float) (hx : HasType names x type) :
      HasType names (.firstTwoOf x) .vec2

namespace HasType

variable {names : List ValueType} {c : Code} {type type' : ValueType}

theorem unique (h : HasType names c type) (h' : HasType names c type') : type = type' := by
  induction h generalizing type' with
  | literal value => cases h'; rfl
  | builtin value => cases h'; rfl
  | bound hk =>
    cases h' with
    | bound hk' => exact Option.some.inj (hk.symm.trans hk')
  | arithmetic op hx hy ih => cases h' with | arithmetic _ hx' => exact ih hx'
  | pow hx hy ih => cases h' with | pow hx' => exact ih hx'
  | sin hx ih => cases h' with | sin hx' => exact ih hx'
  | abs hx ih => cases h' with | abs hx' => exact ih hx'
  | sign hx ih => cases h'; rfl
  | normalize hvector hx ih => cases h' with | normalize _ hx' => exact ih hx'
  | mix hx hy hz ih => cases h' with | mix hx' | mixByScalar _ hx' => exact ih hx'
  | mixByScalar hvector hx hy hz ih => cases h' with | mix hx' | mixByScalar _ hx' => exact ih hx'
  | clamp hx hy hz ih => cases h' with | clamp hx' => exact ih hx'
  | smoothstep hx hy hz ih => cases h' with | smoothstep hx' => exact ih hx'
  | call function hprimary hsecondary huv => cases h'; rfl
  | splat hvector hx => cases h'; rfl
  | pad hx => cases h'; rfl
  | firstOf hvector hx => cases h'; rfl
  | firstTwoOf hvector hx => cases h'; rfl

theorem iff_eq (h : HasType names c type) : HasType names c type' ↔ type' = type :=
  ⟨fun h' => h'.unique h, fun heq => heq ▸ h⟩

theorem append (h : HasType names c type) (more : List ValueType) :
    HasType (names ++ more) c type := by
  induction h with
  | bound hk =>
    refine .bound ?_
    rw [List.getElem?_append_left (List.getElem?_eq_some_iff.mp hk).1, hk]
  | mixByScalar hvector hx hy hz ihx ihy ihz => exact .mixByScalar hvector ihx ihy ihz
  | _ => constructor <;> assumption

theorem coerce (h : HasType names c type) (target : ValueType) :
    HasType names (c.coerce type target) target := by
  have hvec2 : ValueType.vec2 ≠ .float := by decide
  have hvec3 : ValueType.vec3 ≠ .float := by decide
  cases type with
  | float =>
    cases target with
    | float => exact h
    | vec2 => exact .splat hvec2 h
    | vec3 => exact .splat hvec3 h
  | vec2 =>
    cases target with
    | float => exact .firstOf hvec2 h
    | vec2 => exact h
    | vec3 => exact .pad h
  | vec3 =>
    cases target with
    | float => exact .firstOf hvec3 h
    | vec2 => exact .firstTwoOf hvec3 h
    | vec3 => exact h

end HasType

/-! ## Code of one expression -/

/-- The code of an operand has the shape that it is said to have. -/
def Operand.Typed (names : List ValueType) (operand : Operand) : Prop :=
  HasType names operand.code operand.type

section Code

variable {names : List ValueType}

theorem Operand.Typed.as {operand : Operand} (h : operand.Typed names) (target : ValueType) :
    HasType names (operand.as target) target := HasType.coerce h target

/-- The code of an operator has the shape that its operands say. -/
theorem hasType_applicationCode {application : Application Operand}
    (h : ∀ x ∈ application.operands, x.Typed names) :
    HasType names (applicationCode (application.map Operand.type).valueType application)
      (application.map Operand.type).valueType := by
  generalize hresult : (application.map Operand.type).valueType = result
  cases application with
  | unary op x =>
    have hx : x.Typed names := h x (by simp [Application.operands])
    obtain rfl : x.type = result := hresult
    cases op with
    | sin => exact .sin (hx.as _)
    | abs => exact .abs (hx.as _)
    | normalize =>
      -- A scalar has no direction but a sign.
      cases htype : x.type with
      | float => exact .sign (htype ▸ hx)
      | vec2 => exact .normalize (by decide) (hx.as _)
      | vec3 => exact .normalize (by decide) (hx.as _)
  | binary op x y =>
    have hx := (h x (by simp [Application.operands])).as result
    have hy := (h y (by simp [Application.operands])).as result
    cases op with
    | add => exact .arithmetic .add hx hy
    | sub => exact .arithmetic .sub hx hy
    | mul => exact .arithmetic .mul hx hy
    | pow => exact .pow hx hy
  | ternary op x y z =>
    have hx := (h x (by simp [Application.operands])).as result
    have hy := (h y (by simp [Application.operands])).as result
    have hz := h z (by simp [Application.operands])
    cases op with
    | mix =>
      -- A scalar factor stays a scalar, also between vectors.
      by_cases hfactor : z.type = .float
      · have hscalar := hz.as .float
        rw [applicationCode, if_pos hfactor]
        by_cases hvector : result = .float
        · exact .mix hx hy (hvector ▸ hscalar)
        · exact .mixByScalar hvector hx hy hscalar
      · rw [applicationCode, if_neg hfactor]
        exact .mix hx hy (hz.as result)
    | clamp => exact .clamp hx hy (hz.as result)
    | smoothstep => exact .smoothstep hx hy (hz.as result)

def HaveTypes (source : Source) (names : List ValueType) (codes : List Code)
    (ids : List ExprId) : Prop :=
  List.Forall₂ (fun c id => HasType names c (source.typeOf id)) codes ids

theorem exists_pairs {α β γ : Type} {R : α → β → Prop} (f : α → β → γ) {xs : List α}
    {application : Application β} (h : List.Forall₂ R xs application.operands) :
    ∃ pairs : Application (α × β), pairs.map Prod.snd = application ∧
      (∀ pair ∈ pairs.operands, R pair.1 pair.2) ∧
      Application.ofList? application.op (List.zipWith f xs application.operands) =
        some (pairs.map fun pair => f pair.1 pair.2) := by
  cases application with
  | unary op y =>
    obtain _ | ⟨hx, _ | _⟩ := h
    exact ⟨.unary op (_, y), rfl, by simpa [Application.operands] using hx, rfl⟩
  | binary op y y' =>
    obtain _ | ⟨hx, _ | ⟨hx', _ | _⟩⟩ := h
    exact ⟨.binary op (_, y) (_, y'), rfl, by simpa [Application.operands] using ⟨hx, hx'⟩, rfl⟩
  | ternary op y y' y'' =>
    obtain _ | ⟨hx, _ | ⟨hx', _ | ⟨hx'', _ | _⟩⟩⟩ := h
    exact ⟨.ternary op (_, y) (_, y') (_, y''), rfl,
      by simpa [Application.operands] using ⟨hx, hx', hx''⟩, rfl⟩

theorem Source.typeOf_eq {source : Source} (hsource : source.types = source.table.valueTypes) :
    source.typeOf = source.table.typeOf := by
  funext id
  rw [Source.typeOf, hsource]
  rfl

/-- An operator that is written out has operands of the given codes, in the shapes of the
trees that they stand for. -/
theorem exists_operands {source : Source} (hsource : source.types = source.table.valueTypes)
    (ho : source.table.Ordered) (name : String) {id : ExprId} {application : Application ExprId}
    (he : source.table.exprs[id]? = some (.apply application)) {t : Tree}
    (ht : source.table.tree? id = some t) {R : Code → ExprId → Prop} {codes : List Code}
    (h : List.Forall₂ R codes application.operands) :
    ∃ operands : Application (Code × Tree), t = .apply (operands.map Prod.snd) ∧
      (∀ operand ∈ operands.operands, ∃ x, R operand.1 x ∧
        source.table.tree? x = some operand.2) ∧
      source.inlineCode name id codes =
        applicationCode ((operands.map Prod.snd).map Tree.valueType).valueType
          (operands.map fun operand => ⟨operand.1, operand.2.valueType⟩) := by
  obtain ⟨e, he', hread⟩ := Expressions.exists_of_tree? ht
  obtain rfl : .apply application = e := Option.some.inj (he.symm.trans he')
  obtain ⟨trees, htrees, rfl⟩ := Option.map_eq_some_iff.mp hread
  have hoperands : ∀ x ∈ application.operands, ∃ tree, source.table.tree? x = some tree :=
    fun x hx => (Application.exists_of_mapM htrees hx).imp fun _ htree => htree.2
  have : Nonempty Tree := ⟨.builtin .time⟩
  choose! tree htree using hoperands
  obtain rfl : application.map tree = trees := by
    rw [Application.mapM_eq_pure htree] at htrees
    exact Option.some.inj htrees
  -- Each code stands beside its expression, and has the shape of its tree.
  obtain ⟨pairs, rfl, hpairs, hcode⟩ :=
    exists_pairs (fun c x => (⟨c, source.typeOf x⟩ : Operand)) h
  have hread : ∀ pair ∈ pairs.operands, source.table.tree? pair.2 = some (tree pair.2) :=
    fun pair hpair => htree pair.2 (Application.mem_operands_map Prod.snd hpair)
  have htypes : ∀ pair ∈ pairs.operands, source.typeOf pair.2 = (tree pair.2).valueType := by
    intro pair hpair
    rw [Source.typeOf_eq hsource, Expressions.typeOf_of_tree? ho (hread pair hpair)]
  have hresult : source.typeOf id =
      ((pairs.map fun pair => tree pair.2).map Tree.valueType).valueType := by
    simp only [Source.typeOf_eq hsource, Expressions.typeOf_of_tree? ho ht, Tree.valueType_apply,
      Application.map_map]
  refine ⟨pairs.map fun pair => (pair.1, tree pair.2), ?_,
    Application.forall_operands_map.mpr fun pair hpair => ?_, ?_⟩
  · rw [Application.map_map, Application.map_map]
  · exact ⟨pair.2, hpairs pair hpair, hread pair hpair⟩
  · simp only [Source.inlineCode, Expressions.operands, he, Expr.operands, List.zipWith_map_right,
      hcode, hresult, Application.map_map]
    rw [Application.map_congr fun pair hpair => congrArg (Operand.mk pair.1) (htypes pair hpair)]

theorem hasType_inlineCode {source : Source} (hsource : source.types = source.table.valueTypes)
    (ho : source.table.Ordered) (name : String) {id : ExprId} {codes : List Code}
    (h : HaveTypes source names codes (source.table.operands id)) :
    HasType names (source.inlineCode name id codes) (source.typeOf id) := by
  unfold Source.inlineCode
  unfold Expressions.operands at h ⊢
  cases he : source.table.exprs[id]? with
  | none =>
    rw [Source.typeOf_eq hsource, Expressions.typeOf_of_none ho he]
    exact .literal default
  | some e =>
    have htype : source.typeOf id = e.valueType source.typeOf := by
      rw [Source.typeOf_eq hsource]
      exact Expressions.typeOf_of_get ho he
    simp only [he] at h
    cases e with
    | literal value => rw [htype]; exact .literal value
    | builtin value => rw [htype]; exact .builtin value
    | apply application =>
      obtain ⟨pairs, hpairs, htyped, hoperands⟩ :=
        exists_pairs (fun c x => (⟨c, source.typeOf x⟩ : Operand)) h
      subst hpairs
      have hresult : source.typeOf id =
          ((pairs.map fun pair => (⟨pair.1, source.typeOf pair.2⟩ : Operand)).map
            Operand.type).valueType := by
        rw [htype, Expr.valueType, Application.map_map, Application.map_map]
      simp only [Expr.operands, List.zipWith_map_right, hoperands, hresult]
      exact hasType_applicationCode (Application.forall_operands_map.mpr htyped)
    | call function primary secondary uv =>
      obtain _ | ⟨hp, _ | ⟨hs, _ | ⟨hu, _ | _⟩⟩⟩ := h
      rw [htype]
      exact .call name (HasType.coerce hp .vec3) (HasType.coerce hs .vec3) (HasType.coerce hu .vec2)

end Code

/-! ## Code of an emission -/

/-- Each binding has its type under those of the bindings before it, and each named
expression has the type of its name. -/
structure Emission.Typed (source : Source) (state : Emission) (names : List ValueType) :
    Prop where
  length : names.length = state.bindings.length
  binding : ∀ k code, state.bindings[k]? = some code →
    ∃ type, names[k]? = some type ∧ HasType (names.take k) code type
  named : ∀ id k, state.names.lookup id = some k → names[k]? = some (source.typeOf id)

namespace Emission.Typed

variable {source : Source} {state : Emission} {names : List ValueType}

theorem start (source : Source) : Emission.Typed source ⟨[], [], []⟩ [] :=
  ⟨rfl, fun _ _ h => (nomatch h), fun _ _ h => (nomatch h)⟩

theorem declaring (h : state.Typed source names) (id : ExprId) :
    (state.declaring source id).Typed source names :=
  ⟨h.length, h.binding, h.named⟩

theorem bind (h : state.Typed source names) {id : ExprId} {code : Code}
    (hcode : HasType names code (source.typeOf id)) :
    (state.binding id code).Typed source (names ++ [source.typeOf id]) := by
  refine ⟨by simp [Emission.binding, h.length], fun k c hk => ?_, fun x k hx => ?_⟩
  · simp only [Emission.binding] at hk
    rcases of_getElem?_concat hk with hk | ⟨rfl, rfl⟩
    · obtain ⟨type, htype, hc⟩ := h.binding k c hk
      have hlt := (List.getElem?_eq_some_iff.mp htype).1
      rw [List.getElem?_append_left hlt, List.take_append_of_le_length (Nat.le_of_lt hlt)]
      exact ⟨type, htype, hc⟩
    · rw [← h.length, List.getElem?_concat_length, List.take_left]
      exact ⟨_, rfl, hcode⟩
  · obtain ⟨rfl, rfl⟩ | hx := lookup_binding hx
    · rw [← h.length, List.getElem?_concat_length]
    · have hk := h.named x k hx
      rw [List.getElem?_append_left (List.getElem?_eq_some_iff.mp hk).1, hk]

end Emission.Typed

/-- **Emission yields typed code.** From a state whose names say what they should, the
codes of the expressions have the shapes of the expressions, and the names of the
later state say what they should. -/
theorem Emits.typed {source : Source} (hsource : source.types = source.table.valueTypes)
    (ho : source.table.Ordered) {state later : Emission} {ids log : List ExprId}
    {codes : List Code} (h : Emits source state ids codes later log) {names : List ValueType}
    (hs : state.Typed source names) :
    ∃ more, later.Typed source (names ++ more) ∧ HaveTypes source (names ++ more) codes ids := by
  induction h generalizing names with
  | done state => exact ⟨[], by rwa [List.append_nil], .nil⟩
  | @named state later id k ids log codes hname hrest ih =>
    obtain ⟨more, hlater, hcodes⟩ := ih hs
    have hhead : HasType names (.bound k) (source.typeOf id) := .bound (hs.named id k hname)
    exact ⟨more, hlater, .cons (hhead.append more) hcodes⟩
  | @written state inner later id ids below log operands codes hname hshared hoperands hrest
      ih ih' =>
    obtain ⟨more, hinner, htyped⟩ := ih (hs.declaring id)
    have hhead := hasType_inlineCode hsource ho (source.declare state.functions id).1 htyped
    obtain ⟨more', hlater, hcodes⟩ := ih' hinner
    rw [List.append_assoc] at hlater hcodes
    refine ⟨more ++ more', hlater, .cons ?_ hcodes⟩
    rw [← List.append_assoc]
    exact hhead.append more'
  | @bound state inner later id ids below log operands codes hname hshared hoperands hrest ih ih' =>
    obtain ⟨more, hinner, htyped⟩ := ih (hs.declaring id)
    have hbound := hinner.bind
      (hasType_inlineCode hsource ho (source.declare state.functions id).1 htyped)
    -- The new name is the last one, and has the type of the code bound to it.
    have hhead : HasType (names ++ more ++ [source.typeOf id]) (.bound inner.bindings.length)
        (source.typeOf id) := by
      refine .bound ?_
      rw [← hinner.length, List.getElem?_concat_length]
    obtain ⟨more', hlater, hcodes⟩ := ih' hbound
    simp only [List.append_assoc] at hlater hcodes hhead
    refine ⟨more ++ ([source.typeOf id] ++ more'), hlater, .cons ?_ hcodes⟩
    have := hhead.append more'
    simpa only [List.append_assoc] using this

theorem mem_channelFields {channel : Channel} {type : ValueType} :
    (channelField channel, type) ∈ channelFields ↔ type = channelType channel := by
  cases channel <;> simp [channelFields, Channel.all, Enumerated.all, channelField, channelType,
    Channel.socket, ValueType.ofSocket]

end ShaderGraph.Wgsl

namespace ShaderGraph

open Wgsl

theorem PerChannel.get_of_forall₂ {α β : Type} {R : α → β → Prop} {xs : PerChannel α}
    {ys : PerChannel β} (h : List.Forall₂ R xs.toList ys.toList) (channel : Channel) :
    R (xs.get channel) (ys.get channel) := by
  rw [toList, toList, List.forall₂_map_left_iff, List.forall₂_map_right_iff,
    List.forall₂_same] at h
  exact h channel channel.mem_all

/-- A compilation yields expressions in order with the channels among them. -/
theorem Snapshot.wellFormed_of_compile {snapshot : Snapshot} {defaults : MaterialDefaults}
    {material : NodeMaterial} (h : (snapshot.compile defaults).material = .node material) :
    material.WellFormed := by
  obtain ⟨hreadable, hholds⟩ := read_of_compile h
  refine ⟨hreadable.ordered, fun channel => ?_⟩
  obtain ⟨value, -, htree⟩ := hholds channel
  exact Expressions.lt_size_of_tree? htree

/-- **Emitted code is typed.** In the material of a compilation every expression has the
operands that it takes, earlier ones, and every function that is called is there. In
the code of any material whose operands stand in order, every expression that is
emitted has exactly the shape of the expression, so have the bindings of the
expressions that are named, and every channel has exactly the type of its field. -/
theorem NodeMaterial.emitted_code_typed :
    (∀ (snapshot : Snapshot) (defaults : MaterialDefaults) (material : NodeMaterial),
      (snapshot.compile defaults).material = .node material →
        material.WellFormed ∧ ∀ (id : ExprId) e, material.expressions.exprs[id]? = some e →
          material.expressions.Admits id e) ∧
    ∀ material : NodeMaterial, material.WellFormed →
      let source := materialSource material
      let shared := Module.ofMaterial material
      (∀ (id : ExprId) e, material.expressions.exprs[id]? = some e →
        source.typeOf id = e.valueType source.typeOf) ∧
      (Emission.Typed source ⟨[], [], []⟩ [] ∧
        ∀ depth id state names, id < depth → state.Typed source names →
          ∃ more, (emit source depth id state).2.Typed source (names ++ more) ∧
            ∀ type, HasType (names ++ more) (emit source depth id state).1 type ↔
              type = source.typeOf id) ∧
      ∃ names : List ValueType, names.length = shared.bindings.length ∧
        (∀ k code, shared.bindings[k]? = some code →
          ∃ id, (finalEmission material).names.lookup id = some k ∧
            names[k]? = some (source.typeOf id) ∧
            ∀ type, HasType (names.take k) code type ↔ type = source.typeOf id) ∧
        ∀ channel type, HasType names (shared.channels.get channel) type ↔
          (channelField channel, type) ∈ channelFields := by
  refine ⟨fun snapshot defaults material h => ?_, fun material h => ⟨fun id e he => ?_,
    ⟨.start _, fun depth id state names hd hs => ?_⟩, ?_⟩⟩
  · exact ⟨Snapshot.wellFormed_of_compile h, fun id e he => (Snapshot.read_of_compile h).1.admits he⟩
  · exact Expressions.typeOf_of_get h.ordered he
  · have ho : (materialSource material).table.Ordered := h.ordered
    obtain ⟨log, htrace⟩ := emits_emit ho depth id hd state
    obtain ⟨more, hlater, hcodes⟩ := htrace.typed rfl h.ordered hs
    obtain _ | ⟨hcode, -⟩ := hcodes
    exact ⟨more, hlater, fun type => hcode.iff_eq⟩
  · obtain ⟨codes, log, htrace, hget⟩ := exists_trace h
    obtain ⟨names, hfinal, hcodes⟩ := htrace.typed rfl h.ordered (.start _)
    have hnumbered := htrace.numbered h.ordered numbered_start
    refine ⟨names, hfinal.length, fun k code hk => ?_, fun channel type => ?_⟩
    · obtain ⟨id, hid⟩ := hnumbered.exists_lookup (List.getElem?_eq_some_iff.mp hk).1
      obtain ⟨type, htype, hcode⟩ := hfinal.binding k code hk
      obtain rfl : type = _ := Option.some.inj (htype.symm.trans (hfinal.named id k hid))
      exact ⟨id, hid, htype, fun type => hcode.iff_eq⟩
    · have hchannel : HasType names (codes.get channel)
          ((materialSource material).typeOf (material.channels.get channel)) :=
        PerChannel.get_of_forall₂ hcodes channel
      rw [mem_channelFields, hget]
      exact (hchannel.coerce (channelType channel)).iff_eq

/-- The sine of the time as the emissive color. -/
def pulse : Snapshot where
  nodes := [.input "time" "Time" .time, .math "wave" "Wave" .sine,
    .output "glow" "Emissive" .emissive]
  edges := [⟨"edge-1", ⟨"time", .out⟩, ⟨"wave", .input⟩⟩, ⟨"edge-2", ⟨"wave", .out⟩, ⟨"glow", .input⟩⟩]

theorem pulse_and_diamond_typed :
    (∃ material : NodeMaterial, (pulse.compile .standard).material = .node material ∧
      ∀ (id : ExprId) e, material.expressions.exprs[id]? = some e →
        material.expressions.Admits id e) ∧
    diamond.WellFormed ∧ ∃ names : List ValueType, names.length = 4 ∧
      ∀ type, HasType names ((Module.ofMaterial diamond).channels.get .baseColor) type ↔
        (channelField .baseColor, type) ∈ channelFields := by
  have hwell : diamond.WellFormed := ⟨by decide, fun channel => by cases channel <;> decide⟩
  obtain ⟨hcompiled, hmaterials⟩ := NodeMaterial.emitted_code_typed
  refine ⟨⟨_, rfl, (hcompiled pulse .standard _ rfl).2⟩, hwell, ?_⟩
  obtain ⟨-, -, names, hlength, -, hchannels⟩ := hmaterials diamond hwell
  exact ⟨names, hlength.trans (by decide), hchannels .baseColor⟩

end ShaderGraph
