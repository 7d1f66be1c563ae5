import ShaderGraph.Proofs.Finiteness
import Mathlib.Algebra.Order.Field.Basic
import Mathlib.Data.Nat.Dist
import Mathlib.Tactic.Linarith

/-
Ratios are rounded to the nearest number.

The numbers of a format from some block on are multiples of the spacing of the block, and
those below it lie below all of the block (`units_cases`). A ratio that falls into the block
is rounded to a multiple of its spacing, which is nearer than any other multiple
(`roundDiv_nearest`), hence nearer than the block's first number and than all below it.

A tie would need a ratio halfway between two multiples. A ratio of at most one with an odd
denominator never is (`no_tie`), so there is just one nearest number to it
(`Binary32.nearest_ofRatio`).
-/
namespace ShaderGraph

/-- If there is no tie, the quotient is nearer than every other whole number. -/
theorem roundDiv_nearest {n d k : Nat} (hd : 0 < d) (htie : 2 * (n % d) ≠ d)
    (hk : k ≠ roundDiv n d) : Nat.dist (roundDiv n d * d) n < Nat.dist (k * d) n := by
  have hn : n / d * d + n % d = n := Nat.div_add_mod' n d
  have hrem : n % d < d := Nat.mod_lt n hd
  have hbelow {a b : Nat} (h : a < b) : a * d + d ≤ b * d := by
    rw [← Nat.succ_mul]
    exact Nat.mul_le_mul_right d h
  unfold roundDiv at hk ⊢
  simp only [Nat.dist]
  split at hk
  · next hdown =>
    rw [if_pos hdown]
    rcases Nat.lt_or_gt_of_ne hk with hlt | hgt
    · have := hbelow hlt
      omega
    · have := hbelow hgt
      omega
  · next hdown =>
    have hup : d < 2 * (n % d) := by omega
    rw [if_pos hup] at hk
    rw [if_neg hdown, if_pos hup, Nat.succ_mul]
    rcases Nat.lt_or_gt_of_ne hk with hlt | hgt
    · have := Nat.mul_le_mul_right d (Nat.le_of_lt_succ hlt)
      omega
    · have := hbelow hgt
      rw [Nat.succ_mul] at this
      omega

theorem le_roundDiv {n d k : Nat} (hd : 0 < d) (h : k * d ≤ n) : k ≤ roundDiv n d := by
  have hdiv : k ≤ n / d := (Nat.le_div_iff_mul_le hd).mpr h
  unfold roundDiv
  split
  · exact hdiv
  · split <;> omega

namespace BinaryFormat

variable (f : BinaryFormat)

/-- Numbers are multiples of the spacing of a block, or less than the block's first one. -/
theorem units_cases (r shift : Nat) :
    (∃ k, f.units r = k * 2 ^ shift) ∨ f.units r < 2 ^ (f.precision - 1) * 2 ^ shift := by
  have hunits : f.units r = (r - (r / 2 ^ (f.precision - 1) - 1) * 2 ^ (f.precision - 1)) *
      2 ^ (r / 2 ^ (f.precision - 1) - 1) := rfl
  have hblock : 0 < 2 ^ (f.precision - 1) := Nat.two_pow_pos _
  have hrank := Nat.div_add_mod' r (2 ^ (f.precision - 1))
  have hrem := Nat.mod_lt r hblock
  generalize 2 ^ (f.precision - 1) = block at *
  generalize hown : r / block - 1 = own at *
  rcases Nat.lt_or_ge own shift with hlt | hle
  rotate_left
  · left
    refine ⟨(r - own * block) * 2 ^ (own - shift), ?_⟩
    rw [hunits, Nat.mul_assoc, ← Nat.pow_add, Nat.sub_add_cancel hle]
  · right
    have hsignificand : r - own * block < 2 * block := by
      have hdiv : r / block * block ≤ (own + 1) * block := Nat.mul_le_mul_right block (by omega)
      rw [Nat.succ_mul] at hdiv
      omega
    calc f.units r < 2 * block * 2 ^ own := by
          rw [hunits]
          exact Nat.mul_lt_mul_of_pos_right hsignificand (Nat.two_pow_pos own)
      _ = block * 2 ^ (own + 1) := by
          rw [Nat.pow_succ, Nat.mul_comm 2, Nat.mul_assoc, Nat.mul_comm 2]
      _ ≤ block * 2 ^ shift := Nat.mul_le_mul_left block (Nat.pow_le_pow_right (by decide) hlt)

theorem units_block {shift significand : Nat} (hle : significand ≤ 2 * 2 ^ (f.precision - 1))
    (hblock : shift = 0 ∨ 2 ^ (f.precision - 1) ≤ significand) :
    f.units (shift * 2 ^ (f.precision - 1) + significand) = significand * 2 ^ shift := by
  have hpos : 0 < 2 ^ (f.precision - 1) := Nat.two_pow_pos _
  simp only [units, Nat.pow_eq]
  generalize 2 ^ (f.precision - 1) = block at *
  rw [Nat.add_comm, Nat.add_mul_div_right _ _ hpos]
  rcases Nat.lt_or_eq_of_le hle with hlt | rfl
  · -- The significand may lack its highest bit only in the first block.
    have hshift : significand / block + shift - 1 = shift := by
      have hdiv : significand / block < 2 := (Nat.div_lt_iff_lt_mul hpos).mpr hlt
      rcases hblock with rfl | hfull
      · omega
      · have := (Nat.le_div_iff_mul_le hpos).mpr (Nat.one_mul block |>.symm ▸ hfull)
        omega
    rw [hshift, Nat.add_sub_cancel]
  · -- A full significand is the first one of the next block.
    rw [Nat.mul_div_cancel _ hpos]
    have hshift : 2 + shift - 1 = shift + 1 := by omega
    have hsignificand : 2 * block + shift * block - (shift + 1) * block = block := by
      rw [Nat.add_mul, Nat.one_mul]
      omega
    rw [hshift, hsignificand, Nat.pow_succ, Nat.mul_comm 2 block, Nat.mul_right_comm,
      Nat.mul_assoc block]

/-- A ratio of at most one with an odd denominator is not halfway between multiples of a
power of two. -/
theorem no_tie {n d shift : Nat} (hodd : d % 2 = 1) (hshift : shift ≤ f.scale) :
    2 * (n * 2 ^ f.scale % (d * 2 ^ shift)) ≠ d * 2 ^ shift := by
  have hsplit : n * 2 ^ f.scale = n * 2 ^ (f.scale - shift) * 2 ^ shift := by
    rw [Nat.mul_assoc, ← Nat.pow_add, Nat.sub_add_cancel hshift]
  rw [hsplit, Nat.mul_mod_mul_right, ← Nat.mul_assoc]
  intro h
  have := Nat.eq_of_mul_eq_mul_right (Nat.two_pow_pos shift) h
  omega

/-- The rank of a ratio is given by a block and a significand, and the ratio is not less than
the first number of the block. -/
theorem rank_block (hprecision : 0 < f.precision) {n d : Nat} (hd : 0 < d) :
    ∃ shift, f.units (f.rank n d) = roundDiv (n * 2 ^ f.scale) (d * 2 ^ shift) * 2 ^ shift ∧
      (shift = 0 ∨ 2 ^ (f.precision - 1) * (d * 2 ^ shift) ≤ n * 2 ^ f.scale) ∧
      (n ≤ d → shift ≤ f.scale) := by
  have hrank : f.rank n d = ((n * 2 ^ f.scale / d).log2 + 1 - f.precision) * 2 ^ (f.precision - 1) +
      roundDiv (n * 2 ^ f.scale) (d * 2 ^ ((n * 2 ^ f.scale / d).log2 + 1 - f.precision)) := rfl
  have hlow : n * 2 ^ f.scale / d ≠ 0 → 2 ^ (n * 2 ^ f.scale / d).log2 ≤ n * 2 ^ f.scale / d :=
    Nat.log2_self_le
  have hhigh : n * 2 ^ f.scale / d < 2 ^ ((n * 2 ^ f.scale / d).log2 + 1) := Nat.lt_log2_self
  have hlog : n ≤ d → (n * 2 ^ f.scale / d).log2 ≤ f.scale := log2_quotient_le f
  have hzero : n * 2 ^ f.scale / d = 0 → (n * 2 ^ f.scale / d).log2 = 0 := by
    intro h
    rw [h]
    exact Nat.log2_zero
  generalize (n * 2 ^ f.scale / d).log2 = log at *
  generalize hshift : log + 1 - f.precision = shift at *
  obtain ⟨p, hp⟩ : ∃ p, f.precision = p + 1 := ⟨f.precision - 1, by omega⟩
  have hspacing : 0 < d * 2 ^ shift := Nat.mul_pos hd (Nat.two_pow_pos shift)
  have hfirst : shift = 0 ∨ 2 ^ (f.precision - 1) * (d * 2 ^ shift) ≤ n * 2 ^ f.scale := by
    rcases Nat.eq_zero_or_pos shift with hnone | hpos
    · exact .inl hnone
    · right
      have hbits : log = p + shift := by omega
      have hle := (Nat.le_div_iff_mul_le hd).mp (hlow (fun h => by have := hzero h; omega))
      rw [hp, Nat.add_sub_cancel, Nat.mul_comm d, ← Nat.mul_assoc, ← Nat.pow_add, ← hbits]
      exact hle
  have hsignificand : roundDiv (n * 2 ^ f.scale) (d * 2 ^ shift) ≤ 2 * 2 ^ (f.precision - 1) := by
    refine roundDiv_le hspacing ?_
    have hpow : 2 ^ (log + 1) ≤ 2 * 2 ^ (f.precision - 1) * 2 ^ shift := by
      rw [hp, Nat.add_sub_cancel, Nat.mul_comm 2, ← Nat.pow_succ, ← Nat.pow_add]
      exact Nat.pow_le_pow_right (by decide) (by omega)
    calc n * 2 ^ f.scale ≤ 2 ^ (log + 1) * d := Nat.le_of_lt ((Nat.div_lt_iff_lt_mul hd).mp hhigh)
      _ ≤ 2 * 2 ^ (f.precision - 1) * 2 ^ shift * d := Nat.mul_le_mul_right d hpow
      _ = 2 * 2 ^ (f.precision - 1) * (d * 2 ^ shift) := by rw [Nat.mul_assoc, Nat.mul_comm d]
  refine ⟨shift, ?_, hfirst, fun h => by have := hlog h; omega⟩
  rw [hrank]
  exact f.units_block hsignificand (hfirst.imp_right (le_roundDiv hspacing))

/-- A ratio of at most one with an odd denominator is nearer to its rounding than to any
other number. -/
theorem rank_nearest (hprecision : 0 < f.precision) {n d r : Nat} (hodd : d % 2 = 1)
    (hle : n ≤ d) (hr : f.units r ≠ f.units (f.rank n d)) :
    Nat.dist (f.units (f.rank n d) * d) (n * 2 ^ f.scale) <
      Nat.dist (f.units r * d) (n * 2 ^ f.scale) := by
  have hd : 0 < d := by omega
  obtain ⟨shift, hunits, hblock, hshift⟩ := f.rank_block hprecision (n := n) hd
  have hspacing : 0 < d * 2 ^ shift := Nat.mul_pos hd (Nat.two_pow_pos shift)
  have hnearest {k : Nat} (hk : k ≠ roundDiv (n * 2 ^ f.scale) (d * 2 ^ shift)) :=
    roundDiv_nearest hspacing (f.no_tie hodd (hshift hle)) hk
  have hspaced (k : Nat) : k * 2 ^ shift * d = k * (d * 2 ^ shift) := by
    rw [Nat.mul_assoc, Nat.mul_comm (2 ^ shift)]
  rw [hunits] at hr ⊢
  rw [hspaced]
  have hmultiple {k : Nat} (hk : f.units r = k * 2 ^ shift) :
      Nat.dist (roundDiv (n * 2 ^ f.scale) (d * 2 ^ shift) * (d * 2 ^ shift)) (n * 2 ^ f.scale) <
        Nat.dist (f.units r * d) (n * 2 ^ f.scale) := by
    rw [hk] at hr ⊢
    rw [hspaced]
    exact hnearest fun heq => hr (by rw [heq])
  rcases hblock with rfl | hfirst
  · exact hmultiple (k := f.units r) (by rw [Nat.pow_zero, Nat.mul_one])
  rcases f.units_cases r shift with ⟨k, hk⟩ | hbelow
  · exact hmultiple hk
  · -- The first number of the block is nearer than a number below it.
    have hbelow : f.units r * d < 2 ^ (f.precision - 1) * (d * 2 ^ shift) := by
      rw [← hspaced]
      exact Nat.mul_lt_mul_of_pos_right hbelow hd
    by_cases hk : 2 ^ (f.precision - 1) = roundDiv (n * 2 ^ f.scale) (d * 2 ^ shift)
    · rw [← hk, Nat.dist, Nat.dist]
      omega
    · have := hnearest hk
      simp only [Nat.dist] at this ⊢
      omega

theorem units_injective (hprecision : 0 < f.precision) {r r' : Nat} (h : f.units r = f.units r') :
    r = r' := by
  rw [← f.rank_units hprecision r, h, f.rank_units hprecision]

end BinaryFormat

/-! ## Fractions -/

namespace Binary32

open BinaryFormat (single)

/-- The fraction that a rank stands for. -/
def magnitude (rank : Nat) : ℚ := single.units rank / 2 ^ 149

/-- The fraction that a finite number is. -/
def value? : Binary32 → Option ℚ
  | finite negative rank => some (if negative then -magnitude rank else magnitude rank)
  | _ => none

/-- The number nearest to a fraction that is not negative: any other finite number is farther
away. Of the two zeros, the positive one. -/
def Nearest (v : Binary32) (x : ℚ) : Prop :=
  ∃ rank, v = finite false rank ∧
    ∀ other a, value? other = some a → a = magnitude rank ∨ |magnitude rank - x| < |a - x|

theorem magnitude_nonneg (rank : Nat) : 0 ≤ magnitude rank :=
  div_nonneg (Nat.cast_nonneg _) (by positivity)

theorem magnitude_zero : magnitude 0 = 0 := by
  rw [magnitude, show single.units 0 = 0 from rfl, Nat.cast_zero, zero_div]

theorem magnitude_injective {r r' : Nat} (h : magnitude r = magnitude r') : r = r' := by
  have hunits : (single.units r : ℚ) = single.units r' := by
    rwa [magnitude, magnitude, div_left_inj' (by positivity)] at h
  exact single.units_injective (by decide) (Nat.cast_injective hunits)

theorem Nearest.unique {v w : Binary32} {x : ℚ} (hv : v.Nearest x) (hw : w.Nearest x) : v = w := by
  obtain ⟨r, rfl, hr⟩ := hv
  obtain ⟨r', rfl, hr'⟩ := hw
  have heq : magnitude r = magnitude r' := by
    rcases hr (finite false r') _ rfl with h | h
    · exact h.symm
    · rcases hr' (finite false r) _ rfl with h' | h'
      · exact h'
      · exact absurd h (not_lt_of_gt h')
  rw [Fin.ext (magnitude_injective heq)]

theorem magnitude_one : magnitude 0x3F800000 = 1 := by
  have hunits : single.units 0x3F800000 = 2 ^ 149 := by decide +kernel
  rw [magnitude, hunits, Nat.cast_pow, Nat.cast_ofNat, div_self (by positivity)]

/-- The number nearest to a fraction of at most one is at most one itself. -/
theorem Nearest.le_one {v : Binary32} {x : ℚ} (h : v.Nearest x) (hx : x ≤ 1) :
    ∃ a, v.value? = some a ∧ 0 ≤ a ∧ a ≤ 1 := by
  obtain ⟨rank, rfl, hnear⟩ := h
  refine ⟨magnitude rank, rfl, magnitude_nonneg rank, ?_⟩
  rcases hnear (finite false ⟨0x3F800000, by decide⟩) 1 (congrArg some magnitude_one) with h | h
  · exact h.ge
  · rw [abs_of_nonneg (sub_nonneg.mpr hx)] at h
    exact (sub_lt_sub_iff_right x).mp ((le_abs_self _).trans_lt h) |>.le

theorem cast_dist (a b : Nat) : ((Nat.dist a b : Nat) : ℚ) = |(a : ℚ) - b| := by
  rcases Nat.le_total a b with h | h
  · rw [Nat.dist_eq_sub_of_le h, Nat.cast_sub h, abs_sub_comm, abs_of_nonneg]
    exact sub_nonneg.mpr (Nat.cast_le.mpr h)
  · rw [Nat.dist_eq_sub_of_le_right h, Nat.cast_sub h, abs_of_nonneg]
    exact sub_nonneg.mpr (Nat.cast_le.mpr h)

theorem abs_magnitude_sub {n d : Nat} (hd : 0 < d) (r : Nat) :
    |magnitude r - n / d| =
      (Nat.dist (single.units r * d) (n * 2 ^ 149) : Nat) / (2 ^ 149 * d) := by
  have hd' : (0 : ℚ) < d := Nat.cast_pos.mpr hd
  have hsub : magnitude r - n / d =
      ((single.units r * d : Nat) - (n * 2 ^ 149 : Nat)) / (2 ^ 149 * d) := by
    rw [magnitude, div_sub_div _ _ (by positivity) hd'.ne', Nat.cast_mul, Nat.cast_mul,
      Nat.cast_pow, Nat.cast_ofNat, mul_comm (n : ℚ)]
  rw [hsub, abs_div, cast_dist, abs_of_pos (by positivity : (0 : ℚ) < 2 ^ 149 * d)]

/-- A ratio of at most one with an odd denominator is rounded to the nearest number. -/
theorem nearest_ofRatio {n d : Nat} (hodd : d % 2 = 1) (hle : n ≤ d) :
    (ofRatio false n d).Nearest (n / d) := by
  have hd : 0 < d := by omega
  have hbound : single.rank n d < 0x7F800000 :=
    Nat.lt_of_le_of_lt (rank_le_of_le single hd hle) (by decide)
  have hcloser {r : Nat} (hr : magnitude r ≠ magnitude (single.rank n d)) :
      |magnitude (single.rank n d) - n / d| < |magnitude r - n / d| := by
    have hunits : single.units r ≠ single.units (single.rank n d) := by
      intro heq
      rw [magnitude, magnitude, heq] at hr
      exact hr rfl
    rw [abs_magnitude_sub hd, abs_magnitude_sub hd]
    exact div_lt_div_of_pos_right
      (Nat.cast_lt.mpr (single.rank_nearest (by decide) hodd hle hunits)) (by positivity)
  have hratio : (0 : ℚ) ≤ n / d := by positivity
  refine ⟨⟨single.rank n d, hbound⟩, by rw [ofRatio, ofRank, dif_pos hbound], ?_⟩
  rintro (⟨negative, r⟩ | _ | _) a ⟨⟩
  have hr := magnitude_nonneg r
  have hneg : |-magnitude r - (n / d : ℚ)| = n / d + magnitude r := by
    rw [← abs_neg, neg_sub, sub_neg_eq_add, abs_of_nonneg (add_nonneg hratio hr)]
  by_cases hsame : magnitude r = magnitude (single.rank n d)
  · cases negative with
    | false => exact .inl hsame
    | true =>
      -- The same magnitude on the other side of zero is farther, unless it is zero.
      rw [if_pos rfl, hneg]
      rw [← hsame] at hcloser ⊢
      rcases hr.eq_or_lt with hzero | hpos
      · left
        rw [← hzero, neg_zero]
      · right
        have hx : (0 : ℚ) < n / d := by
          refine hratio.lt_of_ne fun hx => ?_
          have hnear := hcloser (r := 0) (by rw [magnitude_zero]; exact hpos.ne)
          rw [← hx, magnitude_zero, sub_zero, sub_zero, abs_zero] at hnear
          exact absurd hnear (not_lt_of_ge (abs_nonneg _))
        exact abs_lt.mpr ⟨by linarith, by linarith⟩
  · right
    refine (hcloser hsame).trans_le ?_
    cases negative with
    | false => exact le_refl _
    | true =>
      rw [if_pos rfl, hneg]
      exact abs_le.mpr ⟨by linarith, by linarith⟩

end Binary32

end ShaderGraph
