import ShaderGraph.Resolution
import Mathlib.Data.Option.Basic

/-
Expressions without sharing.

A `Tree` is what an expression of a table says when its operands are written out
in its place. `tree?` reads a place of a table as a tree; it reads nothing at a
place past the end, at a call of a function that is not there, or where an operand
does not stand before the expression that uses it. A table that grows keeps what
its places read as (`Grows.tree?_eq_some`), and a new entry reads as its operands
say (`tree?_add`).
-/
namespace ShaderGraph

/-- A shader expression without sharing. -/
inductive Tree where
  | literal (value : Literal)
  | builtin (value : Builtin)
  | unary (op : UnaryOp) (x : Tree)
  | binary (op : BinaryOp) (x y : Tree)
  | ternary (op : TernaryOp) (x y z : Tree)
  | call (function : CodeFunction) (primary secondary uv : Tree)
  deriving DecidableEq, Repr

namespace Tree

def apply : Application Tree → Tree
  | .unary op x => unary op x
  | .binary op x y => binary op x y
  | .ternary op x y z => ternary op x y z

end Tree

def Expr.tree? (functions : Array CodeFunction) (operand : ExprId → Option Tree) :
    Expr → Option Tree
  | literal value => some (.literal value)
  | builtin value => some (.builtin value)
  | apply application => (application.mapM operand).map Tree.apply
  | call f primary secondary uv => do
    return .call (← functions[f]?) (← operand primary) (← operand secondary) (← operand uv)

namespace Expressions

/-- The tree that an expression stands for. -/
def tree? (table : Expressions) (id : ExprId) : Option Tree :=
  match table.exprs[id]? with
  | none => none
  | some e => e.tree? table.functions fun operand =>
    if operand < id then table.tree? operand else none
termination_by id

def Readable (table : Expressions) : Prop :=
  ∀ id < table.exprs.size, ∃ t, table.tree? id = some t

/-- An answer says what a tree says, or both say nothing. -/
def Reads (table : Expressions) (answer : Option ExprId) (tree : Option Tree) : Prop :=
  answer.map table.tree? = tree.map some

/-- The second table holds every entry of the first at its place, and entries after
them that can be read. -/
structure Grows (table larger : Expressions) : Prop where
  exprs : ∀ (id : ExprId) e, table.exprs[id]? = some e → larger.exprs[id]? = some e
  functions : ∀ (id : FunctionId) f, table.functions[id]? = some f →
    larger.functions[id]? = some f
  readable : ∀ (id : ExprId), table.exprs.size ≤ id → id < larger.exprs.size →
    ∃ t, larger.tree? id = some t

end Expressions

theorem Application.mapM_mono {α β : Type} {f g : α → Option β}
    (h : ∀ x y, f x = some y → g x = some y) {a : Application α} {b : Application β}
    (hb : a.mapM f = some b) : a.mapM g = some b := by
  cases a with
  | unary op x =>
    simp only [mapM, bind, Option.bind_eq_some_iff] at hb ⊢
    obtain ⟨x', hx, hb⟩ := hb
    exact ⟨x', h _ _ hx, hb⟩
  | binary op x y =>
    simp only [mapM, bind, Option.bind_eq_some_iff] at hb ⊢
    obtain ⟨x', hx, y', hy, hb⟩ := hb
    exact ⟨x', h _ _ hx, y', h _ _ hy, hb⟩
  | ternary op x y z =>
    simp only [mapM, bind, Option.bind_eq_some_iff] at hb ⊢
    obtain ⟨x', hx, y', hy, z', hz, hb⟩ := hb
    exact ⟨x', h _ _ hx, y', h _ _ hy, z', h _ _ hz, hb⟩

theorem Expr.tree?_mono {functions functions' : Array CodeFunction}
    {operand operand' : ExprId → Option Tree}
    (hf : ∀ (id : FunctionId) f, functions[id]? = some f → functions'[id]? = some f)
    (ho : ∀ id t, operand id = some t → operand' id = some t) {e : Expr} {t : Tree}
    (h : e.tree? functions operand = some t) : e.tree? functions' operand' = some t := by
  cases e with
  | literal value => exact h
  | builtin value => exact h
  | apply application =>
    simp only [Expr.tree?, Option.map_eq_some_iff] at h ⊢
    obtain ⟨a, ha, rfl⟩ := h
    exact ⟨a, Application.mapM_mono ho ha, rfl⟩
  | call f p s u =>
    simp only [Expr.tree?, bind, Option.bind_eq_some_iff] at h ⊢
    obtain ⟨f', hf', p', hp, s', hs, u', hu, h⟩ := h
    exact ⟨f', hf _ _ hf', p', ho _ _ hp, s', ho _ _ hs, u', ho _ _ hu, h⟩

namespace Expressions

theorem lt_size_of_tree? {table : Expressions} {id : ExprId} {t : Tree}
    (h : table.tree? id = some t) : id < table.exprs.size := by
  rw [tree?] at h
  cases he : table.exprs[id]? with
  | none => rw [he] at h; cases h
  | some e => exact (Array.getElem?_eq_some_iff.mp he).1

/-- An entry that can be read reads as its operands say, which stand before it. -/
theorem tree?_of_get {table : Expressions} {id : ExprId} {e : Expr} {t : Tree}
    (he : table.exprs[id]? = some e) (h : table.tree? id = some t) :
    e.tree? table.functions (fun operand => if operand < id then table.tree? operand else none) =
      some t := by
  rw [tree?, he] at h
  exact h

/-- Where a tree can be read there is an entry, which reads as its operands do. -/
theorem exists_of_tree? {table : Expressions} {id : ExprId} {t : Tree}
    (h : table.tree? id = some t) :
    ∃ e, table.exprs[id]? = some e ∧ e.tree? table.functions table.tree? = some t := by
  have hid := lt_size_of_tree? h
  have he : table.exprs[id]? = some table.exprs[id] := Array.getElem?_eq_getElem hid
  refine ⟨_, he, Expr.tree?_mono (fun _ _ hf => hf) (fun operand t' ho => ?_) (tree?_of_get he h)⟩
  exact (Option.ite_none_right_eq_some.mp ho).2

theorem tree?_mono {table larger : Expressions}
    (hexprs : ∀ (id : ExprId) e, table.exprs[id]? = some e → larger.exprs[id]? = some e)
    (hfunctions : ∀ (id : FunctionId) f, table.functions[id]? = some f →
      larger.functions[id]? = some f) {id : ExprId} {t : Tree}
    (ht : table.tree? id = some t) : larger.tree? id = some t := by
  -- The operands stand before the expression, so the induction is on the place.
  induction id using Nat.strongRecOn generalizing t with
  | ind id ih =>
    rw [tree?] at ht ⊢
    cases he : table.exprs[id]? with
    | none => rw [he] at ht; cases ht
    | some e =>
      rw [he] at ht
      rw [hexprs id e he]
      refine Expr.tree?_mono hfunctions (fun operand t' ho => ?_) ht
      split at ho
      · next hlt => rw [if_pos hlt]; exact ih operand hlt ho
      · cases ho

namespace Grows

variable {table larger largest : Expressions}

/-- What a place reads as stays when the table grows. -/
theorem tree?_eq_some (h : Grows table larger) {id : ExprId} {t : Tree}
    (ht : table.tree? id = some t) : larger.tree? id = some t :=
  tree?_mono h.exprs h.functions ht

theorem refl (table : Expressions) : Grows table table :=
  ⟨fun _ _ h => h, fun _ _ h => h, fun _ hle hlt => absurd hlt (Nat.not_lt.mpr hle)⟩

theorem trans (h : Grows table larger) (h' : Grows larger largest) : Grows table largest := by
  refine ⟨fun id e he => h'.exprs id e (h.exprs id e he),
    fun id f hf => h'.functions id f (h.functions id f hf), fun id hle hlt => ?_⟩
  by_cases hmiddle : id < larger.exprs.size
  · obtain ⟨t, ht⟩ := h.readable id hle hmiddle
    exact ⟨t, h'.tree?_eq_some ht⟩
  · exact h'.readable id (Nat.le_of_not_lt hmiddle) hlt

theorem reads (h : Grows table larger) {answer : Option ExprId} {tree : Option Tree}
    (hr : table.Reads answer tree) : larger.Reads answer tree := by
  cases answer with
  | none => exact hr
  | some id =>
    cases tree with
    | none => cases hr
    | some t =>
      have ht : table.tree? id = some t := by simpa [Reads] using hr
      simp [Reads, h.tree?_eq_some ht]

end Grows

theorem exprs_add (table : Expressions) (e : Expr) (id : ExprId) (e' : Expr)
    (h : table.exprs[id]? = some e') : (table.add e).2.exprs[id]? = some e' := by
  have hlt := (Array.getElem?_eq_some_iff.mp h).1
  simp only [add]
  rw [Array.getElem?_push_lt hlt, ← h, Array.getElem?_eq_getElem hlt]

theorem tree?_add {table : Expressions} {e : Expr} {t : Tree}
    (h : e.tree? table.functions table.tree? = some t) :
    (table.add e).2.tree? (table.add e).1 = some t := by
  have hget : (table.add e).2.exprs[(table.add e).1]? = some e := by simp [add]
  rw [tree?, hget]
  refine Expr.tree?_mono (fun _ _ hf => hf) (fun operand t' ho => ?_) h
  -- What the old table reads stands in it, that is, before the new entry.
  have hlt : operand < (table.add e).1 := lt_size_of_tree? ho
  rw [if_pos hlt]
  exact tree?_mono (exprs_add table e) (fun _ _ hf => hf) ho

theorem grows_add {table : Expressions} {e : Expr} {t : Tree}
    (h : e.tree? table.functions table.tree? = some t) : Grows table (table.add e).2 := by
  refine ⟨exprs_add table e, fun _ _ h => h, fun id hle hlt => ?_⟩
  have hid : id = (table.add e).1 := by
    simp only [add, Array.size_push] at hlt ⊢
    exact Nat.le_antisymm (Nat.le_of_lt_succ hlt) hle
  exact ⟨t, hid ▸ tree?_add h⟩

theorem grows_addFunction (table : Expressions) (f : CodeFunction) :
    Grows table (table.addFunction f).2 := by
  refine ⟨fun _ _ h => h, fun id f' h => ?_, fun _ hle hlt => absurd hlt (Nat.not_lt.mpr hle)⟩
  have hlt := (Array.getElem?_eq_some_iff.mp h).1
  simp only [addFunction]
  rw [Array.getElem?_push_lt hlt, ← h, Array.getElem?_eq_getElem hlt]

theorem addFunction_get (table : Expressions) (f : CodeFunction) :
    (table.addFunction f).2.functions[(table.addFunction f).1]? = some f := by
  simp [addFunction]

theorem reads_none (table : Expressions) : table.Reads none none := rfl

theorem reads_some {table : Expressions} {id : ExprId} {t : Tree} :
    table.Reads (some id) (some t) ↔ table.tree? id = some t := by
  simp [Reads]

end Expressions

end ShaderGraph
