import ShaderGraph.Proofs.Wgsl.Trace
import ShaderGraph.Proofs.Wgsl.Uses

/-
How often an expression is written out.

The log of a trace tells it. An expression that is not shared is written out at
each visit, that is, for each place that holds it among the emitted expressions and
the operands of those in the log (`Emits.count_of_not_shared`). A shared expression
is written out at the first visit only, and has a name from then on
(`Emits.count_of_shared`). In an emission from the roots the visits are the
references, so that each reachable expression with operands is written out exactly
once (`Emits.count_eq_one`); from the last entry of the table down, what is known
of the entries that use an expression settles how often it is visited.
-/
namespace ShaderGraph.Wgsl

def Emission.Named (state : Emission) (e : ExprId) : Prop := (state.names.lookup e).isSome = true

theorem named_binding {state : Emission} {id e : ExprId} {code : Code} :
    (state.binding id code).Named e ↔ e = id ∨ state.Named e := by
  unfold Emission.Named Emission.binding
  rw [List.lookup_cons]
  by_cases h : e = id
  · simp [h]
  · simp [beq_eq_false_iff_ne.mpr h, h]

theorem not_named_of_lookup {state : Emission} {e : ExprId} (h : state.names.lookup e = none) :
    ¬ state.Named e := by
  simp [Emission.Named, h]

theorem count_append_le_one {e : ExprId} {xs ys : List ExprId} {before between : Prop}
    (hx : xs.count e ≤ 1 ∧ (before → xs.count e = 0))
    (hy : ys.count e ≤ 1 ∧ (between → ys.count e = 0)) (h : before ∨ e ∈ xs → between) :
    (xs ++ ys).count e ≤ 1 ∧ (before → (xs ++ ys).count e = 0) := by
  rw [List.count_append]
  refine ⟨?_, fun hbefore => ?_⟩
  · by_cases hmem : e ∈ xs
    · rw [hy.2 (h (.inr hmem))]
      exact hx.1
    · rw [List.count_eq_zero.mpr hmem, Nat.zero_add]
      exact hy.1
  · rw [hx.2 hbefore, hy.2 (h (.inl hbefore))]

/-- What is visited when an expression is written out before others: the expression,
its operands and what is visited below them, and what is visited for the others. -/
theorem visited_cons {operands : ExprId → List ExprId} {id x : ExprId}
    {ids below log : List ExprId} {inner later : Prop} (hkept : inner → later)
    (hbelow : x ∈ operands id ++ below.flatMap operands → inner ∨ x ∈ below)
    (hlog : x ∈ ids ++ log.flatMap operands → later ∨ x ∈ log)
    (hx : x ∈ id :: ids ++ (id :: below ++ log).flatMap operands) :
    later ∨ x ∈ id :: below ++ log := by
  simp only [List.cons_append, List.flatMap_cons, List.flatMap_append, List.mem_append,
    List.mem_cons] at hbelow hlog hx ⊢
  have hin : (x ∈ operands id ∨ x ∈ below.flatMap operands) →
      later ∨ x = id ∨ x ∈ below ∨ x ∈ log := fun hx =>
    (hbelow hx).imp hkept fun hmem => .inr (.inl hmem)
  have hafter : (x ∈ ids ∨ x ∈ log.flatMap operands) →
      later ∨ x = id ∨ x ∈ below ∨ x ∈ log := fun hx =>
    (hlog hx).imp_right fun hmem => .inr (.inr hmem)
  rcases hx with rfl | hx | hx | hx | hx
  · exact .inr (.inl rfl)
  · exact hafter (.inl hx)
  · exact hin (.inl hx)
  · exact hin (.inr hx)
  · exact hafter (.inr hx)

namespace Emits

variable {source : Source} {state later : Emission} {ids log : List ExprId} {codes : List Code}

theorem named_later (h : Emits source state ids codes later log) (e : ExprId) :
    later.Named e ↔ state.Named e ∨ e ∈ log ∧ source.isShared e = true := by
  induction h with
  | done state => simp
  | named hname hrest ih => exact ih
  | @written state inner later id ids below log operands codes hname hshared hoperands hrest
      ih ih' =>
    -- The expression itself is not shared, so it gets no name.
    have hself : (e = id ∧ source.isShared e = true) ↔ False := by
      refine iff_false_intro ?_
      rintro ⟨rfl, he⟩
      rw [hshared] at he
      cases he
    rw [ih', ih, List.mem_append, List.mem_cons, or_and_right, or_and_right, hself, false_or,
      or_assoc]
    rfl
  | @bound state inner later id ids below log operands codes hname hshared hoperands hrest
      ih ih' =>
    have hself : (e = id ∧ source.isShared e = true) ↔ e = id := by
      refine and_iff_left_of_imp ?_
      rintro rfl
      exact hshared
    rw [ih', named_binding, ih, List.mem_append, List.mem_cons, or_and_right, or_and_right, hself,
      or_assoc, or_assoc, or_assoc, or_left_comm]
    rfl

theorem lt_of_mem (ho : source.table.Ordered) (h : Emits source state ids codes later log)
    {m : ExprId} (hids : ∀ x ∈ ids, x < m) : ∀ x ∈ log, x < m := by
  -- Operands stand before the expression, which stands before `m`.
  induction h generalizing m with
  | done state => exact hids
  | named hname hrest ih => exact ih fun x hx => hids x (List.mem_cons_of_mem _ hx)
  | @written _ _ _ id _ below log _ _ _ _ _ _ ih ih'
  | @bound _ _ _ id _ below log _ _ _ _ _ _ ih ih' =>
    have hid : id < m := hids id List.mem_cons_self
    intro x hx
    simp only [List.mem_append, List.mem_cons] at hx
    rcases hx with (rfl | hx) | hx
    · exact hid
    · exact ih (fun y hy => Nat.lt_trans (ho id y hy) hid) x hx
    · exact ih' (fun y hy => hids y (List.mem_cons_of_mem _ hy)) x hx

/-- What is asked for, or is an operand of what is written out, is written out or
has a name. -/
theorem visited (h : Emits source state ids codes later log) {x : ExprId}
    (hx : x ∈ ids ++ log.flatMap source.table.operands) : later.Named x ∨ x ∈ log := by
  induction h with
  | done state => cases hx
  | @named state later id k ids log codes hname hrest ih =>
    rcases List.mem_cons.mp hx with rfl | hx
    · exact .inl ((hrest.named_later _).mpr (.inl (by simp [Emission.Named, hname])))
    · exact ih hx
  | @written state inner later id ids below log operands codes hname hshared hoperands hrest
      ih ih' =>
    have hkept : inner.Named x → later.Named x := fun hn => (hrest.named_later x).mpr (.inl hn)
    exact visited_cons hkept ih ih' hx
  | @bound state inner later id ids below log operands codes hname hshared hoperands hrest
      ih ih' =>
    have hkept : inner.Named x → later.Named x :=
      fun hn => (hrest.named_later x).mpr (.inl (named_binding.mpr (.inr hn)))
    exact visited_cons hkept ih ih' hx

/-- An expression that is not shared is written out at each visit. -/
theorem count_of_not_shared (h : Emits source state ids codes later log)
    (hs : ∀ x, state.Named x → source.isShared x = true) {e : ExprId}
    (he : source.isShared e = false) :
    log.count e = (ids ++ log.flatMap source.table.operands).count e := by
  -- Only shared expressions ever get a name, so this one never has any.
  have hnext : ∀ {state later : Emission} {ids log : List ExprId} {codes : List Code},
      (∀ x, state.Named x → source.isShared x = true) → Emits source state ids codes later log →
      ∀ x, later.Named x → source.isShared x = true := by
    intro state later ids log codes hs h x hx
    rcases (h.named_later x).mp hx with hx | hx
    · exact hs x hx
    · exact hx.2
  induction h with
  | done state => rfl
  | @named state later id k ids log codes hname hrest ih =>
    have hne : id ≠ e := by
      rintro rfl
      rw [hs id (by simp [Emission.Named, hname])] at he
      cases he
    rw [List.cons_append, List.count_cons_of_ne hne, ih hs]
  | @written state inner later id ids below log operands codes hname hshared hoperands hrest
      ih ih' =>
    have hdeclaring : ∀ x, (state.declaring source id).Named x → source.isShared x = true := hs
    have hbelow := ih hdeclaring
    have hlog := ih' (hnext hdeclaring hoperands)
    simp only [List.cons_append, List.flatMap_cons, List.flatMap_append, List.count_append,
      List.count_cons] at hbelow hlog ⊢
    omega
  | @bound state inner later id ids below log operands codes hname hshared hoperands hrest
      ih ih' =>
    have hdeclaring : ∀ x, (state.declaring source id).Named x → source.isShared x = true := hs
    have hbelow := ih hdeclaring
    have hlog := ih' fun x hx => by
      rcases named_binding.mp hx with rfl | hx
      · exact hshared
      · exact hnext hdeclaring hoperands x hx
    simp only [List.cons_append, List.flatMap_cons, List.flatMap_append, List.count_append,
      List.count_cons] at hbelow hlog ⊢
    omega

/-- A shared expression is written out once at most, and not at all once it has a name. -/
theorem count_of_shared (ho : source.table.Ordered)
    (h : Emits source state ids codes later log) {e : ExprId} (he : source.isShared e = true) :
    log.count e ≤ 1 ∧ (state.Named e → log.count e = 0) := by
  induction h with
  | done state => exact ⟨Nat.zero_le _, fun _ => rfl⟩
  | named hname hrest ih => exact ih
  | @written state inner later id ids below log operands codes hname hshared hoperands hrest
      ih ih' =>
    have hne : id ≠ e := by
      rintro rfl
      rw [hshared] at he
      cases he
    rw [List.cons_append, List.count_cons_of_ne hne]
    refine count_append_le_one ih ih' fun hx => (hoperands.named_later e).mpr ?_
    exact hx.imp_right fun hx => ⟨hx, he⟩
  | @bound state inner later id ids below log operands codes hname hshared hoperands hrest
      ih ih' =>
    rw [named_binding] at ih'
    by_cases hid : e = id
    · subst hid
      -- Operands stand before the expression, so it is not written out for them.
      have hbelow : below.count e = 0 := by
        rw [List.count_eq_zero]
        intro hmem
        exact Nat.lt_irrefl e (hoperands.lt_of_mem ho (ho e) e hmem)
      rw [List.cons_append, List.count_cons_self, List.count_append, hbelow, ih'.2 (.inl rfl)]
      exact ⟨Nat.le_refl _, fun hnamed => absurd hnamed (not_named_of_lookup hname)⟩
    · rw [List.cons_append, List.count_cons_of_ne (Ne.symm hid)]
      refine count_append_le_one ih ih' fun hx => .inr ((hoperands.named_later e).mpr ?_)
      exact hx.imp_right fun hx => ⟨hx, he⟩

end Emits

/-! ## From the roots -/

theorem isShared_ofRoots {table : Expressions} {roots : List ExprId} (ho : table.Ordered)
    (e : ExprId) : (Source.ofRoots table roots).isShared e = true ↔
      table.operands e ≠ [] ∧ 2 ≤ table.references roots e := by
  have hshared : (Source.ofRoots table roots).isShared e = true ↔
      table.operands e ≠ [] ∧ 1 < (useCounts table roots).getD e 0 := by
    simp [Source.isShared, Source.ofRoots]
  rw [hshared]
  refine and_congr_right fun hne => ?_
  rw [useCounts_eq_references ho (Expressions.lt_size_of_operands hne)]
  rfl

theorem count_flatMap (operands : ExprId → List ExprId) (e : ExprId) {log : List ExprId} {n : Nat}
    (h : ∀ p ∈ log, p < n) :
    (log.flatMap operands).count e = ∑ p ∈ Finset.range n, log.count p * (operands p).count e := by
  induction log with
  | nil => simp
  | cons id log ih =>
    have hid : id ∈ Finset.range n := Finset.mem_range.mpr (h id List.mem_cons_self)
    have hsplit : ∀ p, (id :: log).count p * (operands p).count e =
        (if id = p then (operands p).count e else 0) + log.count p * (operands p).count e := by
      intro p
      rw [List.count_cons, Nat.add_mul, Nat.add_comm]
      simp only [beq_iff_eq, ite_mul, Nat.one_mul, Nat.zero_mul]
    rw [List.flatMap_cons, List.count_append, ih fun p hp => h p (List.mem_cons_of_mem _ hp),
      Finset.sum_congr rfl fun p _ => hsplit p, Finset.sum_add_distrib, Finset.sum_ite_eq,
      if_pos hid]

namespace Emits

variable {table : Expressions} {roots log : List ExprId} {codes : List Code} {later : Emission}

/-- How often an expression with operands is written out follows from how often it is
visited. -/
theorem count_of_visits (ho : table.Ordered)
    (h : Emits (.ofRoots table roots) ⟨[], [], []⟩ roots codes later log) {e : ExprId}
    (he : table.operands e ≠ [])
    (hvisits : (roots ++ log.flatMap table.operands).count e = table.references roots e) :
    log.count e = if table.references roots e = 0 then 0 else 1 := by
  have hstart : ∀ x, ¬ Emission.Named ⟨[], [], []⟩ x := fun x => not_named_of_lookup rfl
  -- A shared expression is written out at its first visit, any other at its only one.
  by_cases hshared : (Source.ofRoots table roots).isShared e = true
  · have htwo := ((isShared_ofRoots ho e).mp hshared).2
    have hmem : e ∈ roots ++ log.flatMap table.operands := by
      rw [← List.count_pos_iff, hvisits]
      omega
    have hlog : e ∈ log := by
      rcases h.visited hmem with hnamed | hlog
      · rcases (h.named_later e).mp hnamed with hnamed | hlog
        · exact absurd hnamed (hstart e)
        · exact hlog.1
      · exact hlog
    have hone := (h.count_of_shared ho hshared).1
    have hpos := List.count_pos_iff.mpr hlog
    rw [if_neg (by omega)]
    omega
  · have hcount := h.count_of_not_shared (fun x hx => absurd hx (hstart x)) (by simpa using hshared)
    have hlt : ¬ 2 ≤ table.references roots e := fun htwo =>
      hshared ((isShared_ofRoots ho e).mpr ⟨he, htwo⟩)
    have hsame : log.count e = table.references roots e := hcount.trans hvisits
    rw [hsame]
    split <;> omega

/-- **An emission visits an expression as often as it is referred to.** -/
theorem count_visits (ho : table.Ordered) (hroots : ∀ r ∈ roots, r < table.exprs.size)
    (h : Emits (.ofRoots table roots) ⟨[], [], []⟩ roots codes later log) {e : Nat}
    (he : e < table.exprs.size) :
    (roots ++ log.flatMap table.operands).count e = table.references roots e := by
  classical
  have hlog : ∀ p ∈ log, p < table.exprs.size := h.lt_of_mem ho hroots
  -- From the last entry down: what uses an entry stands after it.
  induction hn : table.exprs.size - e using Nat.strongRecOn generalizing e with
  | ind n ih =>
    rw [List.count_append, count_flatMap table.operands e hlog, Expressions.references,
      Finset.sum_filter]
    congr 1
    refine Finset.sum_congr rfl fun p hp => ?_
    have hpn := Finset.mem_range.mp hp
    by_cases hmem : e ∈ table.operands p
    · have hlt : e < p := ho p e hmem
      have hvisits := ih (table.exprs.size - p) (by omega) hpn rfl
      rw [h.count_of_visits ho (List.ne_nil_of_mem hmem) hvisits]
      by_cases hreach : table.Reachable roots p
      · rw [if_neg, if_pos hreach, Nat.one_mul]
        rw [references_eq_zero ho hpn]
        exact fun hnot => hnot hreach
      · rw [if_pos ((references_eq_zero ho hpn).mpr hreach), if_neg hreach, Nat.zero_mul]
    · rw [List.count_eq_zero.mpr hmem, Nat.mul_zero, ite_self]

/-- **Each reachable expression with operands is written out exactly once.** -/
theorem count_eq_one (ho : table.Ordered) (hroots : ∀ r ∈ roots, r < table.exprs.size)
    (h : Emits (.ofRoots table roots) ⟨[], [], []⟩ roots codes later log) {e : ExprId}
    (he : table.operands e ≠ []) (hreach : table.Reachable roots e) : log.count e = 1 := by
  have hsize := Expressions.lt_size_of_operands he
  rw [h.count_of_visits ho he (h.count_visits ho hroots hsize), if_neg]
  rw [references_eq_zero ho hsize]
  exact fun hnot => hnot hreach

/-- **Just the expressions with operands that two or more places hold get a name.** -/
theorem named_iff (ho : table.Ordered) (hroots : ∀ r ∈ roots, r < table.exprs.size)
    (h : Emits (.ofRoots table roots) ⟨[], [], []⟩ roots codes later log) (e : ExprId) :
    later.Named e ↔ table.operands e ≠ [] ∧ 2 ≤ table.references roots e := by
  have hstart : ¬ Emission.Named ⟨[], [], []⟩ e := not_named_of_lookup rfl
  rw [h.named_later, isShared_ofRoots ho, or_iff_right hstart, and_iff_right_iff_imp]
  rintro ⟨he, htwo⟩
  have hsize := Expressions.lt_size_of_operands he
  have hone := h.count_of_visits ho he (h.count_visits ho hroots hsize)
  rw [if_neg (by omega)] at hone
  exact List.count_pos_iff.mp (by omega)

end Emits

end ShaderGraph.Wgsl
