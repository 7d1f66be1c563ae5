import ShaderGraph.Proofs.Entries
import ShaderGraph.Proofs.Wgsl.Log

/-
Uses counted on a walk.

The emission counts uses in one pass over the table. They can be counted on a walk just as
well: it counts each expression it comes to, root after root, and goes on to the operands of
an expression only when it comes to it for the first time (`Expressions.countUses`). In what
order it comes to the places that hold an expression depends on the roots and the operands;
how many it comes to does not. `Counted` tells what a part of the walk does: it counts the
places it was asked for and the operands of the expressions in its log, which are those that
it came to first. So the counts of the whole walk satisfy the one equation that fixes the
number of uses (`Tallies.unique`); they are those of the pass (`of_countUses`), and both are
the references (`get?_countUses`).
-/
namespace ShaderGraph

/-- How often the expressions are used that were come to so far; the others have no count. -/
abbrev Uses := OrderedMap ExprId Nat

def Uses.of (counts : Uses) (e : ExprId) : Nat := (OrderedMap.get? counts e).getD 0

namespace Expressions

/-- One more use of an expression, and of its operands if it is the first one. The depth
bounds the length of a chain of operands. -/
def countUse (table : Expressions) : Nat → Uses → ExprId → Uses
  | 0, counts, _ => counts
  | depth + 1, counts, id =>
    let count := counts.of id + 1
    let counts := counts.insert id count
    if count = 1 then (table.operands id).foldl (table.countUse depth) counts else counts

def countUses (table : Expressions) (roots : List ExprId) : Uses :=
  roots.foldl (table.countUse table.exprs.size) .empty

end Expressions

theorem Uses.of_insert (counts : Uses) (id e : ExprId) (count : Nat) :
    Uses.of (counts.insert id count) e = if e = id then count else counts.of e := by
  simp only [Uses.of, OrderedMap.get?_insert]
  split <;> rfl

theorem Uses.of_insert_succ (counts : Uses) (id e : ExprId) :
    Uses.of (counts.insert id (counts.of id + 1)) e = counts.of e + [id].count e := by
  rw [of_insert, List.count_singleton]
  by_cases he : e = id
  · subst he
    rw [if_pos rfl, if_pos (beq_self_eq_true e)]
  · rw [if_neg he, if_neg (by simpa using Ne.symm he), Nat.add_zero]

theorem Uses.positive_insert (counts : Uses) {id : ExprId} {count : Nat}
    (h : ∀ e, counts.get? e ≠ some 0) :
    ∀ e, (counts.insert id (count + 1)).get? e ≠ some 0 := by
  intro e
  rw [OrderedMap.get?_insert]
  split
  · simp
  · exact h e

namespace Expressions

/-! ## Parts of the walk -/

/-- A part of the walk: asked for `ids`, it goes from one list of counts to the other, and
goes on to the operands of the expressions in `log`, all before `bound`. -/
structure Counted (table : Expressions) (bound : Nat) (ids log : List ExprId)
    (counts later : Uses) : Prop where
  total : ∀ e, later.of e = counts.of e + (ids ++ log.flatMap table.operands).count e
  mem_log : ∀ e, e ∈ log ↔ counts.of e = 0 ∧ later.of e ≠ 0
  distinct : log.Nodup
  before : ∀ e ∈ log, e < bound
  positive : (∀ e, counts.get? e ≠ some 0) → ∀ e, later.get? e ≠ some 0

namespace Counted

variable {table : Expressions} {bound : Nat} {ids ids' log log' : List ExprId}
  {counts between later : Uses}

theorem nil (counts : Uses) : table.Counted bound [] [] counts counts := by
  refine ⟨fun e => rfl, fun e => ?_, .nil, fun e he => (nomatch he), fun hpos => hpos⟩
  exact iff_of_false List.not_mem_nil fun h => h.2 h.1

theorem append (h : table.Counted bound ids log counts between)
    (h' : table.Counted bound ids' log' between later) :
    table.Counted bound (ids ++ ids') (log ++ log') counts later := by
  have hmono : ∀ e, counts.of e ≤ between.of e ∧ between.of e ≤ later.of e :=
    fun e => ⟨by rw [h.total]; omega, by rw [h'.total]; omega⟩
  refine ⟨fun e => ?_, fun e => ?_, ?_, fun e he => ?_, fun hpos => h'.positive (h.positive hpos)⟩
  · rw [h'.total, h.total]
    simp only [List.flatMap_append, List.count_append]
    omega
  · have := hmono e
    rw [List.mem_append, h.mem_log, h'.mem_log]
    omega
  · -- What has a count after the first part is not come to first in the second.
    refine List.nodup_append.mpr ⟨h.distinct, h'.distinct, fun e he e' he' hsame => ?_⟩
    subst hsame
    exact ((h.mem_log e).mp he).2 ((h'.mem_log e).mp he').1
  · exact (List.mem_append.mp he).elim (h.before e) (h'.before e)

theorem again {id : ExprId} (h : counts.of id ≠ 0) :
    table.Counted bound [id] [] counts (counts.insert id (counts.of id + 1)) := by
  refine ⟨fun e => ?_, fun e => ?_, .nil, fun e he => (nomatch he), counts.positive_insert⟩
  · exact counts.of_insert_succ id e
  · refine iff_of_false List.not_mem_nil fun ⟨hbefore, hlater⟩ => ?_
    rw [Uses.of_insert] at hlater
    split at hlater
    · next he => exact h (he ▸ hbefore)
    · exact hlater hbefore

theorem first {id : ExprId} (hid : id ≤ bound) (h : counts.of id = 0)
    (hoperands : table.Counted bound (table.operands id) log
      (counts.insert id (counts.of id + 1)) later) :
    table.Counted (bound + 1) [id] (id :: log) counts later := by
  have hcounted := fun e => counts.of_insert_succ id e
  refine ⟨fun e => ?_, fun e => ?_, ?_, ?_,
    fun hpos => hoperands.positive (counts.positive_insert hpos)⟩
  · rw [hoperands.total, hcounted, List.flatMap_cons]
    simp only [List.count_append]
    omega
  · rw [List.mem_cons, hoperands.mem_log, Uses.of_insert]
    have htotal := hoperands.total e
    rw [Uses.of_insert] at htotal
    by_cases he : e = id
    · subst he
      rw [if_pos rfl] at htotal
      simp only [true_or, true_iff]
      exact ⟨h, by omega⟩
    · simp only [he, false_or, if_false]
  · refine List.nodup_cons.mpr ⟨fun hmem => ?_, hoperands.distinct⟩
    have hzero := ((hoperands.mem_log id).mp hmem).1
    rw [Uses.of_insert, if_pos rfl] at hzero
    omega
  · refine List.forall_mem_cons.mpr ⟨Nat.lt_succ_of_le hid, fun e he => ?_⟩
    exact Nat.lt_succ_of_lt (hoperands.before e he)

theorem foldl {use : Uses → ExprId → Uses}
    (h : ∀ id ∈ ids, ∀ counts, ∃ log, table.Counted bound [id] log counts (use counts id))
    (counts : Uses) : ∃ log, table.Counted bound ids log counts (ids.foldl use counts) := by
  induction ids generalizing counts with
  | nil => exact ⟨[], .nil counts⟩
  | cons id ids ih =>
    obtain ⟨log, hfirst⟩ := h id List.mem_cons_self counts
    obtain ⟨more, hrest⟩ := ih (fun x hx => h x (List.mem_cons_of_mem _ hx)) (use counts id)
    exact ⟨log ++ more, hfirst.append hrest⟩

end Counted

variable {table : Expressions} {roots : List ExprId}

/-- **One step of the walk**, with all that it leads to. -/
theorem counted_countUse (ho : table.Ordered) (depth : Nat) (id : ExprId) (hd : id < depth)
    (counts : Uses) :
    ∃ log, table.Counted depth [id] log counts (table.countUse depth counts id) := by
  -- The depth suffices for the operands, since they stand before the expression.
  induction depth generalizing id counts with
  | zero => exact absurd hd (Nat.not_lt_zero id)
  | succ depth ih =>
    simp only [countUse]
    by_cases h : counts.of id = 0
    · rw [if_pos (by rw [h])]
      have hoperands : ∀ x ∈ table.operands id, ∀ counts, ∃ log,
          table.Counted depth [x] log counts (table.countUse depth counts x) :=
        fun x hx => ih x (Nat.lt_of_lt_of_le (ho id x hx) (Nat.le_of_lt_succ hd))
      obtain ⟨log, hlog⟩ := Counted.foldl hoperands (counts.insert id (counts.of id + 1))
      exact ⟨id :: log, .first (Nat.le_of_lt_succ hd) h hlog⟩
    · rw [if_neg (by omega)]
      exact ⟨[], .again h⟩

/-! ## The whole walk -/

/-- The numbers of uses that the roots and the operands of what is used add up to. -/
def Tallies (table : Expressions) (roots : List ExprId) (uses : Nat → Nat) : Prop :=
  ∀ e < table.exprs.size, uses e = roots.count e +
    ∑ p ∈ Finset.range table.exprs.size, if uses p = 0 then 0 else (table.operands p).count e

/-- There is one way to add up: what uses an expression stands after it. -/
theorem Tallies.unique (ho : table.Ordered) {uses uses' : Nat → Nat}
    (h : table.Tallies roots uses) (h' : table.Tallies roots uses') {e : Nat}
    (he : e < table.exprs.size) : uses e = uses' e := by
  induction hn : table.exprs.size - e using Nat.strongRecOn generalizing e with
  | ind n ih =>
    rw [h e he, h' e he]
    congr 1
    refine Finset.sum_congr rfl fun p hp => ?_
    have hpn := Finset.mem_range.mp hp
    by_cases hmem : e ∈ table.operands p
    · have hlt : e < p := ho p e hmem
      rw [ih (table.exprs.size - p) (by omega) hpn rfl]
    · rw [List.count_eq_zero.mpr hmem, ite_self, ite_self]

section Roots

variable (ho : table.Ordered) (hroots : ∀ r ∈ roots, r < table.exprs.size)
include ho hroots

theorem counted_countUses :
    ∃ log, table.Counted table.exprs.size roots log .empty (table.countUses roots) :=
  Counted.foldl (fun id hid => counted_countUse ho table.exprs.size id (hroots id hid)) .empty

theorem tallies_countUses : table.Tallies roots (table.countUses roots).of := by
  obtain ⟨log, h⟩ := counted_countUses ho hroots
  intro e _
  rw [h.total, List.count_append, Wgsl.count_flatMap table.operands e h.before]
  show 0 + (roots.count e + _) = _
  rw [Nat.zero_add]
  congr 1
  refine Finset.sum_congr rfl fun p _ => ?_
  by_cases hp : p ∈ log
  · rw [List.nodup_iff_count_eq_one.mp h.distinct p hp, if_neg ((h.mem_log p).mp hp).2, Nat.one_mul]
  · have hunused : (table.countUses roots).of p = 0 := by
      by_contra hused
      exact hp ((h.mem_log p).mpr ⟨rfl, hused⟩)
    rw [List.count_eq_zero.mpr hp, if_pos hunused, Nat.zero_mul]

theorem lt_size_of_used {e : ExprId} (h : (table.countUses roots).of e ≠ 0) :
    e < table.exprs.size := by
  obtain ⟨log, hlog⟩ := counted_countUses ho hroots
  have hmem : e ∈ roots ++ log.flatMap table.operands := by
    rw [← List.count_pos_iff]
    have htotal := hlog.total e
    have hstart : Uses.of .empty e = 0 := rfl
    omega
  rcases List.mem_append.mp hmem with hroot | hoperand
  · exact hroots e hroot
  · obtain ⟨p, hp, he⟩ := List.mem_flatMap.mp hoperand
    exact Nat.lt_trans (ho p e he) (hlog.before p hp)

theorem Reachable.lt_size {e : ExprId} (h : table.Reachable roots e) : e < table.exprs.size := by
  obtain ⟨root, hroot, hpath⟩ := h
  induction hpath with
  | refl => exact hroots root hroot
  | tail _ hoperand ih => exact Nat.lt_trans (ho _ _ hoperand) ih

theorem of_countUses (e : ExprId) :
    (table.countUses roots).of e = (Wgsl.useCounts table roots).getD e 0 := by
  by_cases he : e < table.exprs.size
  · exact (tallies_countUses ho hroots).unique ho (fun e he => Wgsl.useCounts_eq ho he) he
  · have hsize : (Wgsl.useCounts table roots).size = table.exprs.size :=
      Wgsl.size_countsFrom (Nat.zero_le _)
    have hpast : (Wgsl.useCounts table roots).size ≤ e := by rw [hsize]; exact Nat.le_of_not_lt he
    have hunused : (table.countUses roots).of e = 0 := by
      by_contra hused
      exact he (lt_size_of_used ho hroots hused)
    rw [hunused, Array.getD_eq_getD_getElem?, Array.getElem?_eq_none hpast]
    rfl

/-- **The walk counts the references** of what can be reached, and nothing else has a count. -/
theorem get?_countUses (e : ExprId) :
    (table.Reachable roots e →
      (table.countUses roots).get? e = some (table.references roots e)) ∧
    (¬ table.Reachable roots e → (table.countUses roots).get? e = none) := by
  obtain ⟨log, hlog⟩ := counted_countUses ho hroots
  have hpositive : (table.countUses roots).get? e ≠ some 0 :=
    hlog.positive (fun _ h => nomatch h) e
  have hcount : e < table.exprs.size →
      ((table.countUses roots).get? e).getD 0 = table.references roots e := fun he =>
    (of_countUses ho hroots e).trans (Wgsl.useCounts_eq_references ho he)
  constructor
  · intro hreach
    have he := hreach.lt_size ho hroots
    have hused : table.references roots e ≠ 0 := fun hzero =>
      (Wgsl.references_eq_zero ho he).mp hzero hreach
    rw [← hcount he] at hused ⊢
    cases hget : (table.countUses roots).get? e with
    | none => exact absurd (by rw [hget]; rfl) hused
    | some count => rfl
  · intro hreach
    cases hget : (table.countUses roots).get? e with
    | none => rfl
    | some count =>
      have hof : (table.countUses roots).of e = count := by rw [Uses.of, hget]; rfl
      have hne : count ≠ 0 := by
        rintro rfl
        exact hpositive hget
      have he := lt_size_of_used ho hroots (hof ▸ hne)
      have hzero := (hcount he).trans ((Wgsl.references_eq_zero ho he).mpr hreach)
      exact absurd (hof.symm.trans hzero) hne

end Roots

end Expressions

end ShaderGraph
