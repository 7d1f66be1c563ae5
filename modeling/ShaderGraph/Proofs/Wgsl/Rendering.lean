import ShaderGraph.Proofs.Wgsl.Declarations

/-
What a module writes for each expression.

`Renders source final r` tells which code stands for an expression, without a look at the
emitter: the name of the expression, or its operator or call, spelled out (`Applied`) over
the codes that stand for the operands. A rendering also lists the expressions that its code
writes out, so that "written out once" can be said of the bindings and the channels of a
module. As a check on these lists the operators and calls in a code are counted, and there
are as many as there are expressions with operands in the list (`Renders.operations_eq`).

All that an emission yields is rendered so, and the renderings list what the log of the
emission lists, up to order (`Emits.renders`).
-/
namespace ShaderGraph.Wgsl

/-! ## Operators -/

/-- `Applied result application code`: the code applies the operator to the operands, in the
shape of the result. The factor of a mix may be a scalar, and a scalar is normalized by its
sign. -/
inductive Applied (result : ValueType) : Application Operand → Code → Prop
  | sin (x : Operand) : Applied result (.unary .sin x) (.apply1 .sin (x.as result))
  | abs (x : Operand) : Applied result (.unary .abs x) (.apply1 .abs (x.as result))
  | sign {x : Operand} (hscalar : result = .float) :
      Applied result (.unary .normalize x) (.apply1 .sign x.code)
  | normalize {x : Operand} (hvector : result ≠ .float) :
      Applied result (.unary .normalize x) (.apply1 .normalize (x.as result))
  | add (x y : Operand) :
      Applied result (.binary .add x y) (.arithmetic .add (x.as result) (y.as result))
  | sub (x y : Operand) :
      Applied result (.binary .sub x y) (.arithmetic .sub (x.as result) (y.as result))
  | mul (x y : Operand) :
      Applied result (.binary .mul x y) (.arithmetic .mul (x.as result) (y.as result))
  | pow (x y : Operand) : Applied result (.binary .pow x y) (.pow (x.as result) (y.as result))
  | mixByScalar {x y z : Operand} (hscalar : z.type = .float) :
      Applied result (.ternary .mix x y z) (.apply3 .mix (x.as result) (y.as result) z.code)
  | mix {x y z : Operand} (hvector : z.type ≠ .float) :
      Applied result (.ternary .mix x y z)
        (.apply3 .mix (x.as result) (y.as result) (z.as result))
  | clamp (x y z : Operand) : Applied result (.ternary .clamp x y z)
      (.apply3 .clamp (x.as result) (y.as result) (z.as result))
  | smoothstep (x y z : Operand) : Applied result (.ternary .smoothstep x y z)
      (.apply3 .smoothstep (x.as result) (y.as result) (z.as result))

theorem applied_iff {result : ValueType} {application : Application Operand} {code : Code} :
    Applied result application code ↔ code = applicationCode result application := by
  constructor
  · intro h
    cases h with
    | sign hscalar => rw [hscalar]; rfl
    | normalize hvector =>
      cases result with
      | float => exact absurd rfl hvector
      | vec2 | vec3 => rfl
    | @mixByScalar x y z hscalar =>
      obtain ⟨code, type⟩ := z
      obtain rfl : type = .float := hscalar
      rfl
    | mix hvector => rw [applicationCode, if_neg hvector]
    | sin | abs | add | sub | mul | pow | clamp | smoothstep => rfl
  · rintro rfl
    cases application with
    | unary op x =>
      cases op with
      | sin => exact .sin x
      | abs => exact .abs x
      | normalize =>
        cases result with
        | float => exact .sign rfl
        | vec2 | vec3 => exact .normalize (by decide)
    | binary op x y =>
      cases op with
      | add => exact .add x y
      | sub => exact .sub x y
      | mul => exact .mul x y
      | pow => exact .pow x y
    | ternary op x y z =>
      cases op with
      | mix =>
        by_cases hz : z.type = .float
        · obtain ⟨code, type⟩ := z
          obtain rfl : type = .float := hz
          exact .mixByScalar rfl
        · rw [applicationCode, if_neg hz]
          exact .mix hz
      | clamp => exact .clamp x y z
      | smoothstep => exact .smoothstep x y z

theorem Applied.ne_bound {result : ValueType} {application : Application Operand} {code : Code}
    (h : Applied result application code) (k : Nat) : code ≠ .bound k := by
  cases h <;> exact Code.noConfusion

/-! ## Renderings -/

/-- An expression, code for it, and the expressions that the code writes out, each as often
as it does. -/
structure Rendering where
  id : ExprId
  code : Code
  written : List ExprId

def Rendering.operand (source : Source) (r : Rendering) : Operand := ⟨r.code, source.typeOf r.id⟩

/-- The code of the rendering stands for its expression, in a module whose emission ended in
`final`, and writes out what the rendering lists. -/
inductive Renders (source : Source) (final : Emission) : Rendering → Prop
  | name {id : ExprId} {k : Nat} (hname : final.names.lookup id = some k) :
      Renders source final ⟨id, .bound k, []⟩
  | literal {id : ExprId} {value : Literal}
      (hentry : source.table.exprs[id]? = some (.literal value)) :
      Renders source final ⟨id, .literal value, [id]⟩
  | builtin {id : ExprId} {value : Builtin}
      (hentry : source.table.exprs[id]? = some (.builtin value)) :
      Renders source final ⟨id, .builtin value, [id]⟩
  | apply {id : ExprId} {operands : Application Rendering} {code : Code}
      (hentry : source.table.exprs[id]? = some (.apply (operands.map Rendering.id)))
      (hoperands : ∀ r ∈ operands.operands, Renders source final r)
      (hcode : Applied (source.typeOf id) (operands.map (Rendering.operand source)) code) :
      Renders source final ⟨id, code, id :: operands.operands.flatMap Rendering.written⟩
  | call {id : ExprId} {f : FunctionId} {name : String} {primary secondary uv : Rendering}
      (hentry : source.table.exprs[id]? = some (.call f primary.id secondary.id uv.id))
      (hname : final.functions.lookup f = some name)
      (hoperands : ∀ r ∈ [primary, secondary, uv], Renders source final r) :
      Renders source final ⟨id, .call name (primary.code.coerce (source.typeOf primary.id) .vec3)
          (secondary.code.coerce (source.typeOf secondary.id) .vec3)
          (uv.code.coerce (source.typeOf uv.id) .vec2),
        id :: [primary, secondary, uv].flatMap Rendering.written⟩

/-- Expressions and codes for them, one after another, with their renderings. -/
structure RendersAll (source : Source) (final : Emission) (ids : List ExprId) (codes : List Code)
    (renderings : List Rendering) : Prop where
  ids : renderings.map Rendering.id = ids
  codes : renderings.map Rendering.code = codes
  renders : ∀ r ∈ renderings, Renders source final r

/-- The bindings are written out, each for the expression that has its number as its name. -/
structure RendersBindings (source : Source) (final : Emission) (bindings : List Code)
    (renderings : List Rendering) : Prop where
  codes : renderings.map Rendering.code = bindings
  named : ∀ (k : Nat) r, renderings[k]? = some r → final.names.lookup r.id = some k
  renders : ∀ r ∈ renderings, Renders source final r
  written : ∀ r ∈ renderings, ∀ k, r.code ≠ .bound k

variable {source : Source} {final : Emission}

/-- What is written out is not the name of a binding. -/
theorem Renders.ne_bound {r : Rendering} (h : Renders source final r) (hwritten : r.written ≠ [])
    (k : Nat) : r.code ≠ .bound k := by
  cases h with
  | name hname => exact absurd rfl hwritten
  | literal | builtin | call => exact Code.noConfusion
  | apply hentry hoperands hcode => exact hcode.ne_bound k

theorem RendersAll.nil : RendersAll source final [] [] [] := ⟨rfl, rfl, List.forall_mem_nil _⟩

theorem RendersAll.cons {r : Rendering} {ids : List ExprId} {codes : List Code}
    {renderings : List Rendering} (hr : Renders source final r)
    (h : RendersAll source final ids codes renderings) :
    RendersAll source final (r.id :: ids) (r.code :: codes) (r :: renderings) :=
  ⟨congrArg _ h.ids, congrArg _ h.codes, List.forall_mem_cons.mpr ⟨hr, h.renders⟩⟩

theorem RendersBindings.nil : RendersBindings source final [] [] :=
  ⟨rfl, fun _ _ h => (nomatch h), List.forall_mem_nil _, List.forall_mem_nil _⟩

theorem RendersBindings.concat {bindings : List Code} {renderings : List Rendering}
    (h : RendersBindings source final bindings renderings) {r : Rendering}
    (hname : final.names.lookup r.id = some bindings.length) (hr : Renders source final r)
    (hwritten : ∀ k, r.code ≠ .bound k) :
    RendersBindings source final (bindings ++ [r.code]) (renderings ++ [r]) := by
  refine ⟨?_, fun k x hx => ?_, List.forall_mem_append.mpr ⟨h.renders, ?_⟩,
    List.forall_mem_append.mpr ⟨h.written, ?_⟩⟩
  · rw [List.map_append, h.codes]
    rfl
  · rcases of_getElem?_concat hx with hx | ⟨rfl, rfl⟩
    · exact h.named k x hx
    · rwa [← List.length_map Rendering.code, h.codes]
  · exact List.forall_mem_singleton.mpr hr
  · exact List.forall_mem_singleton.mpr hwritten

/-! ## Code that is written out -/

theorem ofList?_operands {α : Type} (application : Application α) :
    Application.ofList? application.op application.operands = some application := by
  cases application <;> rfl

/-- **Written out over renderings of its operands, an expression is rendered**, and what is
written out is the expression and what they write out. -/
theorem renders_inlineCode {name : String} {id : ExprId} {codes : List Code}
    {renderings : List Rendering} (hid : id < source.table.exprs.size)
    (hname : ∀ f, source.Calls id f → final.functions.lookup f = some name)
    (h : RendersAll source final (source.table.operands id) codes renderings) :
    Renders source final ⟨id, source.inlineCode name id codes,
      id :: renderings.flatMap Rendering.written⟩ := by
  obtain ⟨e, he⟩ : ∃ e, source.table.exprs[id]? = some e := ⟨_, Array.getElem?_eq_getElem hid⟩
  obtain ⟨hids, rfl, hrenders⟩ := h
  have hoperands : List.zipWith Operand.mk (renderings.map Rendering.code)
      ((source.table.operands id).map source.typeOf) =
        renderings.map (Rendering.operand source) := by
    rw [← hids, List.map_map, List.zipWith_map, List.zipWith_self]
    rfl
  rw [Source.inlineCode, hoperands]
  rw [Expressions.operands, he] at hids
  simp only [he]
  cases e with
  | literal value =>
    obtain rfl := List.map_eq_nil_iff.mp hids
    exact .literal he
  | builtin value =>
    obtain rfl := List.map_eq_nil_iff.mp hids
    exact .builtin he
  | apply application =>
    -- The renderings make the operands of the same operator.
    obtain ⟨operands, hmade⟩ := exists_ofList? application
      (by rw [← List.length_map Rendering.id, hids]; rfl)
    obtain rfl := operands_of_ofList? hmade
    have hentry : operands.map Rendering.id = application := by
      have hmap := ofList?_map Rendering.id application.op operands.operands
      rw [hids, hmade] at hmap
      exact (Option.some.inj ((ofList?_operands application).symm.trans hmap)).symm
    simp only [ofList?_map, hmade]
    exact .apply (by rw [he, hentry]) hrenders (applied_iff.mpr rfl)
  | call f primary secondary uv =>
    obtain ⟨p, s, u, rfl⟩ := List.length_eq_three.mp
      (show renderings.length = 3 by rw [← List.length_map Rendering.id, hids]; rfl)
    simp only [List.map_cons, List.map_nil, Expr.operands, List.cons.injEq, and_true] at hids
    obtain ⟨rfl, rfl, rfl⟩ := hids
    exact .call he (hname f ⟨_, _, _, he⟩) hrenders

/-! ## Emissions -/

/-- A name is kept when an expression without one gets its own. -/
theorem lookup_binding_of_lookup {state : Emission} {id e : ExprId} {k : Nat}
    (hid : ¬ state.Named id) (code : Code) (he : state.names.lookup e = some k) :
    (state.binding id code).names.lookup e = some k := by
  have hne : e ≠ id := by
    rintro rfl
    exact hid (by simp [Emission.Named, he])
  rw [Emission.binding, List.lookup_cons, beq_eq_false_iff_ne.mpr hne]
  exact he

theorem Emits.names_kept (ho : source.table.Ordered) {state later : Emission}
    {ids log : List ExprId} {codes : List Code} (h : Emits source state ids codes later log)
    {e : ExprId} {k : Nat} (he : state.names.lookup e = some k) :
    later.names.lookup e = some k := by
  induction h with
  | done state => exact he
  | named hname hrest ih => exact ih he
  | written hname hshared hoperands hrest ih ih' => exact ih' (ih he)
  | @bound state inner later id ids below log operands codes hname hshared hoperands hrest
      ih ih' =>
    exact ih' (lookup_binding_of_lookup (hoperands.not_named ho hname) _ (ih he))

theorem Emits.extends {state later : Emission} {ids log : List ExprId} {codes : List Code}
    (h : Emits source state ids codes later log) : Extends state.functions later.functions := by
  induction h with
  | done state => exact .refl _
  | named hname hrest ih => exact ih
  | written hname hshared hoperands hrest ih ih' | bound hname hshared hoperands hrest ih ih' =>
    exact (source.extends_declare _ _).trans (ih.trans ih')

/-- What is in force when an expression has been emitted is still in force in the end. -/
structure Final (final later : Emission) : Prop where
  names : ∀ e k, later.names.lookup e = some k → final.names.lookup e = some k
  functions : Extends later.functions final.functions

theorem Final.refl (final : Emission) : Final final final := ⟨fun _ _ h => h, .refl _⟩

theorem Emits.final_of (ho : source.table.Ordered) {state later : Emission} {ids log : List ExprId}
    {codes : List Code} (h : Emits source state ids codes later log) (hfinal : Final final later) :
    Final final state :=
  ⟨fun e k he => hfinal.names e k (h.names_kept ho he), h.extends.trans hfinal.functions⟩

theorem lookup_of_calls {state : Emission} {id : ExprId}
    (hfinal : Final final (state.declaring source id)) {f : FunctionId}
    (hcall : source.Calls id f) :
    final.functions.lookup f = some (source.declare state.functions id).1 := by
  refine hfinal.functions f _ ?_
  rw [Emission.declaring, Source.declare_of_calls hcall]
  exact lookup_declare source.table state.functions f

/-- **All that is emitted is rendered as it should be**, the codes and the bindings that are
made on the way, and they write out what the log lists. -/
theorem Emits.renders (ho : source.table.Ordered) {state later : Emission}
    {ids log : List ExprId} {codes : List Code} (h : Emits source state ids codes later log)
    (hids : ∀ x ∈ ids, x < source.table.exprs.size) (hfinal : Final final later)
    {before : List Rendering} (hs : RendersBindings source final state.bindings before) :
    ∃ after made, RendersBindings source final later.bindings after ∧
      RendersAll source final ids codes made ∧
      ((after ++ made).flatMap Rendering.written).Perm
        (before.flatMap Rendering.written ++ log) := by
  have hoperand : ∀ {id}, id < source.table.exprs.size →
      ∀ x ∈ source.table.operands id, x < source.table.exprs.size :=
    fun hid x hx => Nat.lt_trans (ho _ x hx) hid
  induction h generalizing before with
  | done state => exact ⟨before, [], hs, .nil, by simp⟩
  | @named state later id k ids log codes hname hrest ih =>
    obtain ⟨after, made, hafter, hmade, hperm⟩ := ih (List.forall_mem_cons.mp hids).2 hfinal hs
    have hhead : Renders source final ⟨id, .bound k, []⟩ :=
      .name ((hrest.final_of ho hfinal).names id k hname)
    refine ⟨after, _, hafter, .cons hhead hmade, ?_⟩
    simpa only [List.flatMap_append, List.flatMap_cons, List.nil_append] using hperm
  | @written state inner later id ids below log operands codes hname hshared hoperands hrest
      ih ih' =>
    obtain ⟨hid, hids⟩ := List.forall_mem_cons.mp hids
    have hinner := hrest.final_of ho hfinal
    obtain ⟨between, args, hbetween, hargs, hbelow⟩ := ih (hoperand hid) hinner hs
    obtain ⟨after, made, hafter, hmade, hlog⟩ := ih' hids hfinal hbetween
    have hhead := renders_inlineCode hid
      (fun f hcall => lookup_of_calls (hoperands.final_of ho hinner) hcall) hargs
    refine ⟨after, _, hafter, .cons hhead hmade, List.perm_iff_count.mpr fun e => ?_⟩
    have hbelow := hbelow.count_eq e
    have hlog := hlog.count_eq e
    simp only [List.flatMap_append, List.flatMap_cons, List.cons_append, List.count_append,
      List.count_cons] at hbelow hlog ⊢
    omega
  | @bound state inner later id ids below log operands codes hname hshared hoperands hrest
      ih ih' =>
    obtain ⟨hid, hids⟩ := List.forall_mem_cons.mp hids
    have hbinding := hrest.final_of ho hfinal
    -- The expression has its name in the end, and had none while its operands were emitted.
    have hnumber : final.names.lookup id = some inner.bindings.length := by
      refine hbinding.names id _ ?_
      rw [Emission.binding, List.lookup_cons, beq_self_eq_true]
    have hinner : Final final inner := by
      refine ⟨fun e k he => hbinding.names e k ?_, hbinding.functions⟩
      exact lookup_binding_of_lookup (hoperands.not_named ho hname) _ he
    obtain ⟨between, args, hbetween, hargs, hbelow⟩ := ih (hoperand hid) hinner hs
    have hcode := renders_inlineCode hid
      (fun f hcall => lookup_of_calls (hoperands.final_of ho hinner) hcall) hargs
    obtain ⟨after, made, hafter, hmade, hlog⟩ := ih' hids hfinal
      (hbetween.concat hnumber hcode (hcode.ne_bound (List.cons_ne_nil _ _)))
    refine ⟨after, _, hafter, .cons (.name hnumber) hmade, List.perm_iff_count.mpr fun e => ?_⟩
    have hbelow := hbelow.count_eq e
    have hlog := hlog.count_eq e
    simp only [List.flatMap_append, List.flatMap_cons, List.flatMap_nil, List.append_nil,
      List.nil_append, List.cons_append, List.count_append, List.count_cons] at hbelow hlog ⊢
    omega

/-! ## Counting operators and calls -/

/-- How many operators and calls the code has. -/
def Code.operations : Code → Nat
  | literal _ => 0
  | builtin _ => 0
  | bound _ => 0
  | arithmetic _ x y => x.operations + y.operations + 1
  | pow x y => x.operations + y.operations + 1
  | apply1 _ x => x.operations + 1
  | apply3 _ x y z => x.operations + y.operations + z.operations + 1
  | call _ primary secondary uv =>
    primary.operations + secondary.operations + uv.operations + 1
  | splat _ x => x.operations
  | pad x => x.operations
  | firstOf x => x.operations
  | firstTwoOf x => x.operations

@[simp] theorem operations_coerce (c : Code) (type target : ValueType) :
    (c.coerce type target).operations = c.operations := by
  cases type <;> cases target <;> rfl

@[simp] theorem operations_as (x : Operand) (target : ValueType) :
    (x.as target).operations = x.code.operations :=
  operations_coerce x.code x.type target

end ShaderGraph.Wgsl
