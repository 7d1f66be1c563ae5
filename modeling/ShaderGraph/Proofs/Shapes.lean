import ShaderGraph.Proofs.Tree

/-
Shapes of expressions.

`Expressions.valueTypes` computes the shapes of all entries in one pass over the
table. Where operands stand before the entries that use them, each entry gets the
shape that its operands say (`typeOf_of_get`), which is the shape of the tree that
the entry stands for (`valueType_of_tree?`). A table whose entries all stand for
trees has its operands in order and the functions that it calls (`Readable.ordered`,
`Readable.function`).
-/
namespace ShaderGraph

def Tree.valueType : Tree → ValueType
  | literal value => value.valueType
  | builtin value => value.valueType
  | unary op x => Application.valueType (.unary op x.valueType)
  | binary op x y => Application.valueType (.binary op x.valueType y.valueType)
  | ternary op x y z => Application.valueType (.ternary op x.valueType y.valueType z.valueType)
  | call .. => CodeFunction.returnType

theorem Tree.valueType_apply (application : Application Tree) :
    (Tree.apply application).valueType = (application.map Tree.valueType).valueType := by
  cases application <;> rfl

theorem Application.mapM_eq_some {α β : Type} {f : α → Option β} {a : Application α}
    {b : Application β} (h : a.mapM f = some b) : a.map f = b.map some := by
  cases a with
  | unary op x =>
    simp only [mapM, bind, Option.bind_eq_some_iff] at h
    obtain ⟨x', hx, hb⟩ := h
    obtain rfl := Option.some.inj hb
    simp only [map, hx]
  | binary op x y =>
    simp only [mapM, bind, Option.bind_eq_some_iff] at h
    obtain ⟨x', hx, y', hy, hb⟩ := h
    obtain rfl := Option.some.inj hb
    simp only [map, hx, hy]
  | ternary op x y z =>
    simp only [mapM, bind, Option.bind_eq_some_iff] at h
    obtain ⟨x', hx, y', hy, z', hz, hb⟩ := h
    obtain rfl := Option.some.inj hb
    simp only [map, hx, hy, hz]

theorem Application.forall_operands_map {α β : Type} {f : α → β} {a : Application α} {p : β → Prop} :
    (∀ y ∈ (a.map f).operands, p y) ↔ ∀ x ∈ a.operands, p (f x) := by
  rw [operands_map]
  exact List.forall_mem_map

theorem Application.mem_operands_map {α β : Type} (f : α → β) {a : Application α} {x : α}
    (hx : x ∈ a.operands) : f x ∈ (a.map f).operands :=
  forall_operands_map.mp (fun _ hy => hy) x hx

theorem Application.exists_of_mapM {α β : Type} {f : α → Option β} {a : Application α}
    {b : Application β} (h : a.mapM f = some b) {x : α} (hx : x ∈ a.operands) :
    ∃ y ∈ b.operands, f x = some y := by
  have hmem := mem_operands_map f hx
  rw [mapM_eq_some h, operands_map] at hmem
  obtain ⟨y, hy, hfx⟩ := List.mem_map.mp hmem
  exact ⟨y, hy, hfx.symm⟩

theorem Application.map_map {α β γ : Type} (f : α → β) (g : β → γ) (a : Application α) :
    (a.map f).map g = a.map fun x => g (f x) := by
  cases a <;> rfl

theorem Application.map_congr {α β : Type} {f g : α → β} {a : Application α}
    (h : ∀ x ∈ a.operands, f x = g x) : a.map f = a.map g := by
  cases a <;> simp_all [map, operands]

namespace Expr

def arity : Expr → Nat
  | literal _ => 0
  | builtin _ => 0
  | apply application => application.op.arity
  | call .. => CodeFunction.parameters.length

theorem length_operands (e : Expr) : e.operands.length = e.arity := by
  cases e with
  | apply application => exact application.length_operands
  | _ => rfl

theorem valueType_congr {f g : ExprId → ValueType} {e : Expr} (h : ∀ x ∈ e.operands, f x = g x) :
    e.valueType f = e.valueType g := by
  cases e with
  | literal value => rfl
  | builtin value => rfl
  | apply application =>
    cases application <;>
      simp_all [Expr.valueType, Expr.operands, Application.operands, Application.map]
  | call function primary secondary uv => rfl

theorem operand_of_tree? {functions : Array CodeFunction} {operand : ExprId → Option Tree}
    {e : Expr} {t : Tree} (h : e.tree? functions operand = some t) :
    ∀ x ∈ e.operands, ∃ t', operand x = some t' := by
  cases e with
  | literal value => exact List.forall_mem_nil _
  | builtin value => exact List.forall_mem_nil _
  | apply application =>
    simp only [tree?, Option.map_eq_some_iff] at h
    obtain ⟨trees, htrees, -⟩ := h
    intro x hx
    obtain ⟨t', -, ht'⟩ := Application.exists_of_mapM htrees hx
    exact ⟨t', ht'⟩
  | call f primary secondary uv =>
    simp only [tree?, bind, Option.bind_eq_some_iff] at h
    obtain ⟨_, -, p, hp, s, hs, u, hu, -⟩ := h
    simp only [operands, List.forall_mem_cons, List.not_mem_nil, false_imp_iff, implies_true,
      and_true]
    exact ⟨⟨p, hp⟩, ⟨s, hs⟩, ⟨u, hu⟩⟩

theorem valueType_of_tree? {functions : Array CodeFunction} {operand : ExprId → Option Tree}
    {shape : ExprId → ValueType} (hshape : ∀ x t, operand x = some t → shape x = t.valueType)
    {e : Expr} {t : Tree} (h : e.tree? functions operand = some t) :
    e.valueType shape = t.valueType := by
  cases e with
  | literal value => obtain rfl := Option.some.inj h; rfl
  | builtin value => obtain rfl := Option.some.inj h; rfl
  | apply application =>
    simp only [tree?, Option.map_eq_some_iff] at h
    obtain ⟨trees, htrees, rfl⟩ := h
    have hmap := Application.mapM_eq_some htrees
    rw [Tree.valueType_apply, valueType]
    cases application <;> cases trees <;> simp_all [Application.map]
  | call f primary secondary uv =>
    simp only [tree?, bind, Option.bind_eq_some_iff] at h
    obtain ⟨_, -, _, -, _, -, _, -, ht⟩ := h
    obtain rfl := Option.some.inj ht
    rfl

end Expr

namespace Expressions

/-! ## Shapes in one pass -/

/-- The given shapes are those of the first entries of a table, each from the shapes
before it. -/
def Shaped (table : Expressions) (types : Array ValueType) : Prop :=
  ∀ (id : ExprId) e, id < types.size → table.exprs[id]? = some e →
    types[id]? = some (e.valueType fun x => types.getD x .float)

/-- The shape of the next entry joins those before it and changes none of them. -/
theorem Shaped.push {table : Expressions} (ho : table.Ordered) {types : Array ValueType}
    (h : table.Shaped types) {e : Expr} (he : table.exprs[types.size]? = some e) :
    table.Shaped (types.push (e.valueType fun x => types.getD x .float)) := by
  intro id e' hid he'
  rw [Array.size_push] at hid
  have hkeep : ∀ x ∈ e'.operands, ∀ type : ValueType,
      (types.push type).getD x .float = types.getD x .float := by
    intro x hx type
    have hlt : x < types.size :=
      Nat.lt_of_lt_of_le (ho id x (by rw [operands, he']; exact hx)) (Nat.le_of_lt_succ hid)
    simp only [Array.getD_eq_getD_getElem?, Array.getElem?_push_lt hlt, Array.getElem?_eq_getElem hlt]
  rw [Expr.valueType_congr fun x hx => hkeep x hx _]
  rcases Nat.lt_or_eq_of_le (Nat.le_of_lt_succ hid) with hlt | rfl
  · rw [Array.getElem?_push_lt hlt, ← Array.getElem?_eq_getElem hlt]
    exact h id e' hlt he'
  · obtain rfl : e = e' := Option.some.inj (he.symm.trans he')
    rw [Array.getElem?_push_size]

theorem shaped_valueTypes {table : Expressions} (ho : table.Ordered) :
    table.valueTypes.size = table.exprs.size ∧ table.Shaped table.valueTypes := by
  have hstep : ∀ (i : Fin table.exprs.size) (types : Array ValueType),
      types.size = i.val ∧ table.Shaped types →
        (types.push (table.exprs[i].valueType fun x => types.getD x .float)).size = i.val + 1 ∧
          table.Shaped (types.push (table.exprs[i].valueType fun x => types.getD x .float)) := by
    rintro i types ⟨hsize, hshaped⟩
    refine ⟨by rw [Array.size_push, hsize], hshaped.push ho ?_⟩
    rw [hsize]
    exact Array.getElem?_eq_getElem i.isLt
  have hstart : (#[] : Array ValueType).size = 0 ∧ table.Shaped #[] :=
    ⟨rfl, fun id _ hid => absurd hid (Nat.not_lt_zero id)⟩
  exact Array.foldl_induction (motive := fun i types => types.size = i ∧ table.Shaped types)
    (f := fun types (e : Expr) => types.push (e.valueType fun x => types.getD x .float)) hstart hstep

/-- The shape of an entry; a scalar's for a place past the end. -/
def typeOf (table : Expressions) (id : ExprId) : ValueType := table.valueTypes.getD id .float

variable {table : Expressions}

theorem typeOf_of_get (ho : table.Ordered) {id : ExprId} {e : Expr}
    (he : table.exprs[id]? = some e) : table.typeOf id = e.valueType table.typeOf := by
  obtain ⟨hsize, hshaped⟩ := shaped_valueTypes ho
  have hid : id < table.valueTypes.size := hsize ▸ (Array.getElem?_eq_some_iff.mp he).1
  show table.valueTypes.getD id .float = _
  rw [Array.getD_eq_getD_getElem?, hshaped id e hid he]
  rfl

theorem typeOf_of_none (ho : table.Ordered) {id : ExprId} (he : table.exprs[id]? = none) :
    table.typeOf id = .float := by
  have hid : table.valueTypes.size ≤ id := by
    rw [(shaped_valueTypes ho).1]
    exact Array.getElem?_eq_none_iff.mp he
  rw [typeOf, Array.getD_eq_getD_getElem?, Array.getElem?_eq_none hid]
  rfl

/-- An entry has the shape of the tree that it stands for. -/
theorem typeOf_of_tree? (ho : table.Ordered) {id : ExprId} {t : Tree}
    (h : table.tree? id = some t) : table.typeOf id = t.valueType := by
  induction id using Nat.strongRecOn generalizing t with
  | ind id ih =>
    have hid := lt_size_of_tree? h
    have he : table.exprs[id]? = some table.exprs[id] := Array.getElem?_eq_getElem hid
    rw [typeOf_of_get ho he]
    refine Expr.valueType_of_tree? (fun x t' hx => ?_) (tree?_of_get he h)
    split at hx
    · next hlt => exact ih x hlt hx
    · cases hx

/-! ## Tables that can be read -/

namespace Readable

theorem ordered (h : table.Readable) : table.Ordered := by
  intro id operand hmem
  unfold operands at hmem
  cases he : table.exprs[id]? with
  | none => rw [he] at hmem; cases hmem
  | some e =>
    rw [he] at hmem
    obtain ⟨t, ht⟩ := h id (Array.getElem?_eq_some_iff.mp he).1
    obtain ⟨t', ht'⟩ := Expr.operand_of_tree? (tree?_of_get he ht) operand hmem
    split at ht'
    · next hlt => exact hlt
    · cases ht'

theorem function (h : table.Readable) {id : ExprId} {f : FunctionId}
    {primary secondary uv : ExprId} (he : table.exprs[id]? = some (.call f primary secondary uv)) :
    f < table.functions.size := by
  obtain ⟨t, ht⟩ := h id (Array.getElem?_eq_some_iff.mp he).1
  have hread := tree?_of_get he ht
  simp only [Expr.tree?, bind, Option.bind_eq_some_iff] at hread
  obtain ⟨function, hf, -⟩ := hread
  exact (Array.getElem?_eq_some_iff.mp hf).1

end Readable

/-- The operands of an entry are as many as its operator or call takes and stand before
it, and a function that it calls is there. -/
structure Admits (table : Expressions) (id : ExprId) (e : Expr) : Prop where
  count : e.operands.length = e.arity
  before : ∀ x ∈ e.operands, x < id
  function : ∀ f primary secondary uv, e = .call f primary secondary uv →
    f < table.functions.size

theorem Readable.admits (h : table.Readable) {id : ExprId} {e : Expr}
    (he : table.exprs[id]? = some e) : table.Admits id e := by
  refine ⟨e.length_operands, fun x hx => h.ordered id x ?_, fun f primary secondary uv hcall => ?_⟩
  · rw [operands, he]
    exact hx
  · exact h.function (hcall ▸ he)

end Expressions

end ShaderGraph
