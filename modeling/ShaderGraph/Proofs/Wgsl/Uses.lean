import ShaderGraph.Wgsl.Emission
import Mathlib.Algebra.BigOperators.Intervals
import Mathlib.Algebra.Order.BigOperators.Group.Finset
import Mathlib.Logic.Relation

/-
What the counts of uses count.

The count of an expression is the number of places that hold it: among the roots,
and among the operands of the expressions that can be reached from the roots, each
of these counted once however many paths lead to it (`Expressions.references`). The
counting pass goes from the last entry to the first, so that the count of an entry
is final when its turn comes; this is what the pass from any entry on has counted
(`getD_countsFrom`), and from it both the counts and reachability follow
(`useCounts_eq_references`).
-/
namespace ShaderGraph

namespace Expressions

/-- A root, an operand of a root, an operand of that, and so on. -/
def Reachable (table : Expressions) (roots : List ExprId) (e : ExprId) : Prop :=
  ∃ root ∈ roots, Relation.ReflTransGen (fun p x => x ∈ table.operands p) root e

open scoped Classical in
/-- The number of places that hold an expression: roots, and operands of reachable
expressions. -/
noncomputable def references (table : Expressions) (roots : List ExprId) (e : ExprId) : Nat :=
  roots.count e +
    ∑ p ∈ (Finset.range table.exprs.size).filter (table.Reachable roots), (table.operands p).count e

theorem lt_size_of_operands {table : Expressions} {p : ExprId}
    (h : table.operands p ≠ []) : p < table.exprs.size := by
  unfold operands at h
  cases he : table.exprs[p]? with
  | none => rw [he] at h; exact absurd rfl h
  | some e => exact (Array.getElem?_eq_some_iff.mp he).1

theorem lt_size_of_mem_operands {table : Expressions} {p x : ExprId}
    (h : x ∈ table.operands p) : p < table.exprs.size :=
  lt_size_of_operands (List.ne_nil_of_mem h)

end Expressions

namespace Wgsl

/-! ## Counting -/

theorem size_countEach (counts : Array Nat) (ids : List ExprId) :
    (countEach counts ids).size = counts.size := by
  induction ids generalizing counts with
  | nil => rfl
  | cons id ids ih =>
    show (countEach (counts.modify id (· + 1)) ids).size = _
    rw [ih, Array.size_modify]

theorem getD_countEach {counts : Array Nat} {e : Nat} (he : e < counts.size)
    (ids : List ExprId) :
    (countEach counts ids).getD e 0 = counts.getD e 0 + ids.count e := by
  induction ids generalizing counts with
  | nil => rfl
  | cons id ids ih =>
    have hsize : e < (counts.modify id (· + 1)).size := by rw [Array.size_modify]; exact he
    have hmodify : (counts.modify id (· + 1)).getD e 0 =
        counts.getD e 0 + if id = e then 1 else 0 := by
      simp only [Array.getD_eq_getD_getElem?, Array.getElem?_eq_getElem hsize,
        Array.getElem?_eq_getElem he, Option.getD_some, Array.getElem_modify]
      split <;> rfl
    show (countEach (counts.modify id (· + 1)) ids).getD e 0 = _
    rw [ih hsize, hmodify, List.count_cons]
    simp only [beq_iff_eq]
    omega

section Pass

variable (table : Expressions) (roots : List ExprId)

/-- The counts after the pass has come from the last entry down to the entry `m`. -/
def countsFrom (m : Nat) : Array Nat :=
  ((List.range table.exprs.size).drop m).foldr
    (fun id counts =>
      if counts.getD id 0 = 0 then counts else countEach counts (table.operands id))
    (countEach (Array.replicate table.exprs.size 0) roots)

theorem countsFrom_zero : countsFrom table roots 0 = useCounts table roots := rfl

theorem countsFrom_size : countsFrom table roots table.exprs.size =
    countEach (Array.replicate table.exprs.size 0) roots := by
  have hdrop : (List.range table.exprs.size).drop table.exprs.size = [] :=
    List.drop_eq_nil_of_le (by simp)
  rw [countsFrom, hdrop, List.foldr_nil]

variable {table roots}

theorem countsFrom_step {m : Nat} (hm : m < table.exprs.size) :
    countsFrom table roots m =
      if (countsFrom table roots (m + 1)).getD m 0 = 0 then countsFrom table roots (m + 1)
      else countEach (countsFrom table roots (m + 1)) (table.operands m) := by
  have hdrop : (List.range table.exprs.size).drop m =
      m :: (List.range table.exprs.size).drop (m + 1) := by
    rw [List.drop_eq_getElem_cons (by simpa using hm), List.getElem_range]
  conv_lhs => rw [countsFrom, hdrop, List.foldr_cons]
  rfl

theorem size_countsFrom {m : Nat} (hm : m ≤ table.exprs.size) :
    (countsFrom table roots m).size = table.exprs.size := by
  induction hm using Nat.decreasingInduction with
  | self => rw [countsFrom_size, size_countEach, Array.size_replicate]
  | of_succ m hm ih =>
    rw [countsFrom_step hm]
    split
    · exact ih
    · rw [size_countEach, ih]

theorem countsFrom_final (ho : table.Ordered) {m e : Nat} (hm : m ≤ e)
    (he : e < table.exprs.size) :
    (countsFrom table roots m).getD e 0 = (countsFrom table roots (m + 1)).getD e 0 := by
  have hsize : e < (countsFrom table roots (m + 1)).size := by rw [size_countsFrom (by omega)]; exact he
  have hnot : (table.operands m).count e = 0 := by
    rw [List.count_eq_zero]
    intro hmem
    exact absurd (ho m e hmem) (Nat.not_lt_of_le hm)
  rw [countsFrom_step (Nat.lt_of_le_of_lt hm he)]
  by_cases hzero : (countsFrom table roots (m + 1)).getD m 0 = 0
  · rw [if_pos hzero]
  · rw [if_neg hzero, getD_countEach hsize, hnot, Nat.add_zero]

/-- When the turn of an entry comes, its count is final. -/
theorem getD_useCounts (roots : List ExprId) (ho : table.Ordered) {m e : Nat} (hm : m ≤ e + 1)
    (he : e < table.exprs.size) :
    (countsFrom table roots m).getD e 0 = (useCounts table roots).getD e 0 := by
  induction m with
  | zero => rfl
  | succ m ih => rw [← countsFrom_final ho (by omega) he, ih (by omega)]

/-- What the pass has counted when it has come down to the entry `m`. -/
theorem getD_countsFrom (ho : table.Ordered) {m e : Nat} (hm : m ≤ table.exprs.size)
    (he : e < table.exprs.size) :
    (countsFrom table roots m).getD e 0 = roots.count e +
      ∑ p ∈ Finset.Ico m table.exprs.size,
        if (useCounts table roots).getD p 0 = 0 then 0 else (table.operands p).count e := by
  induction hm using Nat.decreasingInduction with
  | self =>
    have hsize : e < (Array.replicate table.exprs.size 0).size := by simpa using he
    rw [countsFrom_size, getD_countEach hsize, Finset.Ico_self, Finset.sum_empty]
    simp [he]
  | of_succ m hm ih =>
    have hsize : e < (countsFrom table roots (m + 1)).size := by
      rw [size_countsFrom (by omega)]; exact he
    have hcount := getD_useCounts roots ho (Nat.le_refl (m + 1)) hm
    rw [Finset.sum_eq_sum_Ico_succ_bot hm, countsFrom_step hm, hcount]
    by_cases hzero : (useCounts table roots).getD m 0 = 0
    · rw [if_pos hzero, if_pos hzero, ih, Nat.zero_add]
    · rw [if_neg hzero, if_neg hzero, getD_countEach hsize, ih]
      omega

theorem useCounts_eq (ho : table.Ordered) {e : Nat} (he : e < table.exprs.size) :
    (useCounts table roots).getD e 0 = roots.count e +
      ∑ p ∈ Finset.range table.exprs.size,
        if (useCounts table roots).getD p 0 = 0 then 0 else (table.operands p).count e := by
  rw [Finset.range_eq_Ico, ← getD_countsFrom ho (Nat.zero_le _) he, countsFrom_zero]

/-- What is used can be reached: what uses it is used itself, and stands later. -/
theorem reachable_of_used (ho : table.Ordered) {e : Nat} (he : e < table.exprs.size)
    (h : (useCounts table roots).getD e 0 ≠ 0) : table.Reachable roots e := by
  -- By induction from the last entry down: what holds the expression stands after it.
  induction hn : table.exprs.size - e using Nat.strongRecOn generalizing e with
  | ind n ih =>
    rw [useCounts_eq ho he] at h
    by_cases hroot : e ∈ roots
    · exact ⟨e, hroot, .refl⟩
    · rw [List.count_eq_zero_of_not_mem hroot, Nat.zero_add] at h
      obtain ⟨p, hp, hcount⟩ := Finset.exists_ne_zero_of_sum_ne_zero h
      have hpn : p < table.exprs.size := Finset.mem_range.mp hp
      by_cases hused : (useCounts table roots).getD p 0 = 0
      · rw [if_pos hused] at hcount
        exact absurd rfl hcount
      · rw [if_neg hused] at hcount
        have hmem : e ∈ table.operands p := List.count_pos_iff.mp (Nat.pos_of_ne_zero hcount)
        have hlt : e < p := ho p e hmem
        obtain ⟨root, hroot, hpath⟩ := ih (table.exprs.size - p) (by omega) hpn hused rfl
        exact ⟨root, hroot, hpath.tail hmem⟩

theorem used_of_reachable (ho : table.Ordered) {e : Nat} (he : e < table.exprs.size)
    (h : table.Reachable roots e) : (useCounts table roots).getD e 0 ≠ 0 := by
  obtain ⟨root, hroot, hpath⟩ := h
  induction hpath with
  | refl =>
    have hcount := List.count_pos_iff.mpr hroot
    rw [useCounts_eq ho he]
    omega
  | @tail p x _ hx ih =>
    have hp := Expressions.lt_size_of_mem_operands hx
    have hterm : (if (useCounts table roots).getD p 0 = 0 then 0
          else (table.operands p).count x) ≤ ∑ p ∈ Finset.range table.exprs.size,
        if (useCounts table roots).getD p 0 = 0 then 0 else (table.operands p).count x :=
      Finset.single_le_sum (f := fun p =>
          if (useCounts table roots).getD p 0 = 0 then 0 else (table.operands p).count x)
        (fun _ _ => Nat.zero_le _) (Finset.mem_range.mpr hp)
    rw [if_neg (ih hp)] at hterm
    have hcount := List.count_pos_iff.mpr hx
    rw [useCounts_eq ho he]
    omega

/-- **The counts are exact**: an expression is counted once for each place among the
roots and among the operands of reachable expressions that holds it. -/
theorem useCounts_eq_references (ho : table.Ordered) {e : Nat} (he : e < table.exprs.size) :
    (useCounts table roots).getD e 0 = table.references roots e := by
  classical
  have hterm : ∀ p ∈ Finset.range table.exprs.size,
      (if (useCounts table roots).getD p 0 = 0 then 0 else (table.operands p).count e) =
        if table.Reachable roots p then (table.operands p).count e else 0 := by
    intro p hp
    have hpn := Finset.mem_range.mp hp
    by_cases hreach : table.Reachable roots p
    · rw [if_neg (used_of_reachable ho hpn hreach), if_pos hreach]
    · rw [if_neg hreach, if_pos]
      by_contra hused
      exact hreach (reachable_of_used ho hpn hused)
  calc (useCounts table roots).getD e 0
      = roots.count e + ∑ p ∈ Finset.range table.exprs.size,
          if (useCounts table roots).getD p 0 = 0 then 0 else (table.operands p).count e :=
        useCounts_eq ho he
    _ = roots.count e + ∑ p ∈ Finset.range table.exprs.size,
          if table.Reachable roots p then (table.operands p).count e else 0 := by
        rw [Finset.sum_congr rfl hterm]
    _ = table.references roots e := by rw [Expressions.references, Finset.sum_filter]

theorem references_eq_zero (ho : table.Ordered) {e : Nat} (he : e < table.exprs.size) :
    table.references roots e = 0 ↔ ¬ table.Reachable roots e := by
  rw [← useCounts_eq_references ho he]
  constructor
  · intro hzero hreach
    exact used_of_reachable ho he hreach hzero
  · intro hreach
    by_contra hused
    exact hreach (reachable_of_used ho he hused)

end Pass

end Wgsl

end ShaderGraph
