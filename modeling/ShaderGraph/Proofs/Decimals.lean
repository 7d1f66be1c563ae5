import ShaderGraph.Binary32.Text
import Mathlib.Algebra.Group.Nat.Defs
import Mathlib.Data.List.TakeWhile
import Mathlib.Data.Nat.Basic

/-
What is written of a number reads back as that number.

A ratio is rounded by its value alone (`rank_mul_right`), and a number of the format is
its own rounding (`rank_units`). So the last grid of the search for the fewest digits
holds an answer, and whatever grid the search ends on, its decimal is rounded to the
number that was asked for (`rankOfDecimal_shortest`). The positional layout keeps the
decimal (`positional_eq_pointed`), a further `.0` apart, which changes its digits and its
exponent but not its value.
-/
namespace ShaderGraph

/-! ## Rounding -/

theorem roundDiv_mul_right (n d : Nat) {k : Nat} (hk : 0 < k) :
    roundDiv (n * k) (d * k) = roundDiv n d := by
  have hquot : n * k / (d * k) = n / d := Nat.mul_div_mul_right n d hk
  have hrem : 2 * (n * k % (d * k)) = 2 * (n % d) * k := by
    rw [Nat.mul_mod_mul_right, Nat.mul_assoc]
  simp only [roundDiv, hquot, hrem, Nat.mul_lt_mul_right hk]

theorem roundDiv_mul_self (m : Nat) {d : Nat} (hd : 0 < d) : roundDiv (m * d) d = m := by
  simp [roundDiv, hd]

namespace BinaryFormat

variable (f : BinaryFormat)

theorem rank_mul_right (n d : Nat) {k : Nat} (hk : 0 < k) :
    f.rank (n * k) (d * k) = f.rank n d := by
  have hunits : n * k * 2 ^ f.scale = n * 2 ^ f.scale * k := Nat.mul_right_comm ..
  have hdiv (shift : Nat) : d * k * 2 ^ shift = d * 2 ^ shift * k := Nat.mul_right_comm ..
  simp only [rank, Nat.pow_eq, hunits, hdiv, roundDiv_mul_right _ _ hk,
    Nat.mul_div_mul_right _ _ hk]

/-- The number of a rank is rounded to that rank. -/
theorem rank_units (hprecision : 0 < f.precision) (r : Nat) :
    f.rank (f.units r) (2 ^ f.scale) = r := by
  obtain ⟨p, hp⟩ : ∃ p, f.precision = p + 1 := ⟨f.precision - 1, by omega⟩
  have hscale : 0 < 2 ^ f.scale := Nat.two_pow_pos _
  have hblock : 0 < 2 ^ p := Nat.two_pow_pos _
  have hexact (m shift : Nat) :
      roundDiv (m * 2 ^ shift * 2 ^ f.scale) (2 ^ f.scale * 2 ^ shift) = m := by
    rw [Nat.mul_assoc, Nat.mul_comm (2 ^ shift)]
    exact roundDiv_mul_self m (Nat.mul_pos hscale (Nat.two_pow_pos _))
  simp only [rank, units, Nat.pow_eq, hp, Nat.add_sub_cancel, Nat.mul_div_cancel _ hscale]
  rcases Nat.lt_or_ge r (2 ^ p) with hsmall | hlarge
  · -- In the first block a rank counts units.
    have hshift : r / 2 ^ p - 1 = 0 := by rw [Nat.div_eq_of_lt hsmall]
    have hlog : r.log2 + 1 - (p + 1) = 0 := by
      by_cases hr : r = 0
      · subst hr
        simp
      · have := (Nat.log2_lt hr).mpr hsmall
        omega
    have := hexact r 0
    simp only [Nat.pow_zero, Nat.mul_one] at this
    simp only [hshift, hlog, Nat.zero_mul, Nat.sub_zero, Nat.pow_zero, Nat.mul_one, this,
      Nat.zero_add]
  · -- In a later one the significand has all its bits, so its length tells the block.
    obtain ⟨shift, hshift⟩ : ∃ shift, r / 2 ^ p = shift + 1 :=
      ⟨r / 2 ^ p - 1, by have := Nat.div_pos hlarge hblock; omega⟩
    have hr : (shift + 1) * 2 ^ p + r % 2 ^ p = r := by
      rw [← hshift, Nat.mul_comm]
      exact Nat.div_add_mod r (2 ^ p)
    rw [Nat.add_mul] at hr
    have hrest := Nat.mod_lt r hblock
    have hsignificand : r - shift * 2 ^ p = 2 ^ p + r % 2 ^ p := by omega
    have hlog : ((2 ^ p + r % 2 ^ p) * 2 ^ shift).log2 = p + shift := by
      have hpos : 0 < (2 ^ p + r % 2 ^ p) * 2 ^ shift :=
        Nat.mul_pos (by omega) (Nat.two_pow_pos _)
      rw [Nat.log2_eq_iff (Nat.ne_of_gt hpos)]
      constructor
      · rw [Nat.pow_add]
        exact Nat.mul_le_mul_right _ (by omega)
      · rw [Nat.add_right_comm, Nat.pow_add, Nat.pow_succ]
        exact Nat.mul_lt_mul_of_pos_right (by omega) (Nat.two_pow_pos _)
    have hsub : p + shift + 1 - (p + 1) = shift := by omega
    simp only [hshift, Nat.add_sub_cancel, hsignificand, hlog, hsub, hexact]
    omega

end BinaryFormat

namespace Binary32

open BinaryFormat (single)

/-! ## Fewest digits -/

theorem rankOfDecimal_of_nearestOnGrid? {rank m : Nat} {i : Int}
    (h : nearestOnGrid? rank i = some m) : single.rankOfDecimal m i = rank := by
  simp only [nearestOnGrid?, beq_iff_eq, Bool.and_eq_true, decide_eq_true_eq] at h
  split at h
  · next hbelow =>
    split at h
    · next habove => rw [← Option.some.inj h]; exact habove.1
    · rw [← Option.some.inj h]; exact hbelow
  · split at h
    · next habove => rw [← Option.some.inj h]; exact habove
    · cases h

/-- On the grid `10 ^ -149` every number lies itself. -/
theorem rankOfDecimal_lastGrid (rank : Nat) :
    single.rankOfDecimal (single.units rank * 5 ^ 149) (-149) = rank := by
  have hcut (m : Nat) : min (-(-149 : Int)).toNat (m.log2 + 1 + single.scale) = 149 := by
    show min 149 (m.log2 + 1 + 149) = 149
    omega
  have hten : (10 : Nat) ^ 149 = 2 ^ 149 * 5 ^ 149 := by rw [← Nat.mul_pow]
  rw [BinaryFormat.rankOfDecimal, if_neg (by decide), Nat.pow_eq, hcut, hten,
    BinaryFormat.rank_mul_right _ _ _ (Nat.pow_pos (by decide))]
  exact single.rank_units (by decide) rank

theorem rankOfDecimal_shortestFrom (rank steps : Nat) :
    single.rankOfDecimal (shortestFrom rank steps).coefficient (shortestFrom rank steps).exponent
      = rank := by
  induction steps with
  | zero => exact rankOfDecimal_lastGrid rank
  | succ steps ih =>
    rw [shortestFrom]
    split
    · next m hm => exact rankOfDecimal_of_nearestOnGrid? hm
    · exact ih

/-- The fewest digits are rounded to the number they were found for. -/
theorem rankOfDecimal_shortest (rank : Nat) :
    single.rankOfDecimal (shortest rank).coefficient (shortest rank).exponent = rank := by
  unfold shortest
  split
  · next hzero => subst hzero; decide
  · exact rankOfDecimal_shortestFrom rank 190

theorem exponent_shortestFrom_le (rank steps : Nat) :
    (shortestFrom rank steps).exponent ≤ steps - 149 := by
  induction steps with
  | zero => exact Int.le_refl _
  | succ steps ih =>
    rw [shortestFrom]
    split
    · exact Int.le_refl _
    · omega

/-- No power of ten is written past those that reading takes as they are. -/
theorem exponent_shortest_le (rank : Nat) : (shortest rank).exponent ≤ 41 := by
  unfold shortest
  split
  · decide
  · have := exponent_shortestFrom_le rank 190
    omega

/-! ## Digits around a point -/

theorem digitsValue_append (left right : List Char) :
    digitsValue (left ++ right) = Nat.ofDigitChars 10 right (digitsValue left) :=
  Nat.ofDigitChars_append 0

theorem digitsValue_repr (n : Nat) : digitsValue n.repr.toList = n := by
  rw [Nat.repr_eq_ofList_toDigits, String.toList_ofList]
  exact Nat.ofDigitChars_toDigits (by decide) (by decide)

theorem isDigit_of_mem_repr {n : Nat} {c : Char} (h : c ∈ n.repr.toList) : c.isDigit = true := by
  rw [Nat.repr_eq_ofList_toDigits, String.toList_ofList] at h
  exact Nat.isDigit_of_mem_toDigits (by decide) (by decide) h

theorem repr_ne_nil (n : Nat) : n.repr.toList ≠ [] := by
  rw [Nat.repr_eq_ofList_toDigits, String.toList_ofList]
  exact Nat.toDigits_ne_nil

/-- Two rows of digits with a point between them, after a minus sign if asked for. -/
def pointed (negative : Bool) (whole fraction : List Char) : List Char :=
  (if negative then ['-'] else []) ++ whole ++ '.' :: fraction

theorem takeWhile_isDigit {digits : List Char} (h : ∀ c ∈ digits, c.isDigit = true)
    (rest : List Char) :
    (digits ++ '.' :: rest).takeWhile Char.isDigit = digits ∧
      (digits ++ '.' :: rest).dropWhile Char.isDigit = '.' :: rest := by
  rw [List.takeWhile_append_of_pos h, List.dropWhile_append_of_pos h]
  simp

theorem splitSign_pointed {whole : List Char} (hwhole : ∀ c ∈ whole, c.isDigit = true)
    (negative : Bool) (fraction : List Char) :
    splitSign (pointed negative whole fraction) = (negative, whole ++ '.' :: fraction) := by
  cases negative with
  | true => rfl
  | false =>
    -- A digit or the point comes first, which is no sign.
    cases whole with
    | nil => rfl
    | cons c whole =>
      have hc := hwhole c List.mem_cons_self
      show splitSign (c :: (whole ++ '.' :: fraction)) = (false, c :: (whole ++ '.' :: fraction))
      unfold splitSign
      split
      · next heq => cases heq; cases hc
      · next heq => cases heq; cases hc
      · rfl

theorem read?_pointed {whole fraction : List Char} (hwhole : ∀ c ∈ whole, c.isDigit = true)
    (hfraction : ∀ c ∈ fraction, c.isDigit = true) (hne : whole ≠ []) (negative : Bool) :
    read? (pointed negative whole fraction) =
      some (ofDecimal negative (digitsValue (whole ++ fraction)) (-fraction.length)) := by
  obtain ⟨htake, hdrop⟩ := takeWhile_isDigit hwhole fraction
  have htake' : fraction.takeWhile Char.isDigit = fraction :=
    List.takeWhile_eq_self_iff.mpr hfraction
  have hdrop' : fraction.dropWhile Char.isDigit = [] := List.dropWhile_eq_nil_iff.mpr hfraction
  simp [read?, splitSign_pointed hwhole, htake, hdrop, htake', hdrop', hne, readExponent?]

theorem digitsValue_append_zeros (digits : List Char) (n : Nat) :
    digitsValue (digits ++ List.replicate n '0') = digitsValue digits * 10 ^ n := by
  rw [digitsValue_append, Nat.ofDigitChars_replicate_zero, Nat.mul_comm]

theorem digitsValue_zeros_append (n : Nat) (digits : List Char) :
    digitsValue (List.replicate n '0' ++ digits) = digitsValue digits := by
  rw [digitsValue_append]
  show Nat.ofDigitChars 10 digits (Nat.ofDigitChars 10 (List.replicate n '0') 0) = _
  rw [Nat.ofDigitChars_replicate_zero, Nat.mul_zero]
  rfl

/-- A power of ten may stand in the digits or in the exponent. -/
theorem rankOfDecimal_tenfold (m : Nat) {e : Nat} (he : e ≤ 149) :
    single.rankOfDecimal (m * 10 ^ (e + 1)) (-1) = single.rankOfDecimal m e := by
  have hone : min (-(-1 : Int)).toNat ((m * 10 ^ (e + 1)).log2 + 1 + single.scale) = 1 := by
    show min 1 ((m * 10 ^ (e + 1)).log2 + 1 + 149) = 1
    omega
  have hcut : min (e : Int).toNat single.scale = e := by
    show min e 149 = e
    omega
  rw [BinaryFormat.rankOfDecimal, if_neg (by decide), hone, BinaryFormat.rankOfDecimal,
    if_pos (by omega), hcut, Nat.pow_eq, Nat.pow_eq, Nat.pow_succ, ← Nat.mul_assoc]
  exact single.rank_mul_right (m * 10 ^ e) 1 (by decide)

/-- The positional layout has digits on both sides of its point, and they hold the
decimal. -/
theorem positional_eq_pointed (d : Decimal) (he : d.exponent ≤ 149) (negative : Bool) :
    ∃ whole fraction, (signed negative d.positional).toList = pointed negative whole fraction ∧
      whole ≠ [] ∧ (∀ c ∈ whole ++ fraction, c.isDigit = true) ∧
      single.rankOfDecimal (digitsValue (whole ++ fraction)) (-fraction.length) =
        single.rankOfDecimal d.coefficient d.exponent := by
  obtain ⟨m, e⟩ := d
  replace he : e ≤ 149 := he
  have hsigned (whole fraction : List Char) :
      (signed negative (String.ofList (whole ++ '.' :: fraction))).toList =
        pointed negative whole fraction := by
    cases negative <;> simp [signed, pointed]
  have hdigits : ∀ c ∈ m.repr.toList, c.isDigit = true := fun c => isDigit_of_mem_repr
  have hzeros (n : Nat) : ∀ c ∈ List.replicate n '0', c.isDigit = true := by
    intro c hc
    rw [List.eq_of_mem_replicate hc]
    rfl
  have hvalue := digitsValue_repr m
  have hne := repr_ne_nil m
  simp only [Decimal.positional]
  generalize m.repr.toList = digits at hdigits hvalue hne ⊢
  by_cases hwhole : 0 ≤ e
  · -- A whole number: zeros fill up to the point, and one more stands after it.
    obtain ⟨n, rfl⟩ : ∃ n : Nat, e = n := ⟨e.toNat, by omega⟩
    rw [if_pos hwhole]
    refine ⟨digits ++ List.replicate n '0', ['0'], hsigned _ _, by simp [hne], ?_, ?_⟩
    · intro c hc
      rw [List.append_assoc, ← List.replicate_succ', List.mem_append] at hc
      exact hc.elim (hdigits c) (hzeros (n + 1) c)
    · rw [List.append_assoc, ← List.replicate_succ', digitsValue_append_zeros, hvalue]
      exact rankOfDecimal_tenfold m (by omega)
  rw [if_neg hwhole]
  by_cases hamong : 0 < e + digits.length
  · -- The point stands among the digits.
    obtain ⟨n, hn⟩ : ∃ n : Nat, e + digits.length = n := ⟨(e + digits.length).toNat, by omega⟩
    rw [if_pos hamong, hn]
    refine ⟨digits.take n, digits.drop n, hsigned _ _, ?_, ?_, ?_⟩
    · rw [ne_eq, List.take_eq_nil_iff, not_or]
      exact ⟨by omega, hne⟩
    · rw [List.take_append_drop]
      exact hdigits
    · have hlength : ((digits.drop n).length : Int) = -e := by
        rw [List.length_drop]
        omega
      rw [List.take_append_drop, hvalue, hlength, Int.neg_neg]
  · -- Zeros stand between the point and the digits.
    obtain ⟨n, hn⟩ : ∃ n : Nat, -(e + digits.length) = n := ⟨(-(e + digits.length)).toNat, by omega⟩
    rw [if_neg hamong, hn, Int.toNat_natCast]
    refine ⟨['0'], List.replicate n '0' ++ digits, hsigned ['0'] _, List.cons_ne_nil _ _, ?_, ?_⟩
    · intro c hc
      rw [← List.append_assoc, ← List.replicate_one, List.replicate_append_replicate,
        List.mem_append] at hc
      exact hc.elim (hzeros (1 + n) c) (hdigits c)
    · have hlength : ((List.replicate n '0' ++ digits).length : Int) = -e := by
        rw [List.length_append, List.length_replicate]
        omega
      rw [← List.append_assoc, ← List.replicate_one, List.replicate_append_replicate,
        digitsValue_zeros_append, hvalue, hlength, Int.neg_neg]

/-- What is written of a finite number: digits around a point that are rounded to it. -/
theorem positional_finite (negative : Bool) (rank : Fin 0x7F800000) :
    ∃ whole fraction, (finite negative rank).positional.toList = pointed negative whole fraction ∧
      whole ≠ [] ∧ (∀ c ∈ whole ++ fraction, c.isDigit = true) ∧
      read? (pointed negative whole fraction) = some (finite negative rank) := by
  have hexponent := exponent_shortest_le rank
  obtain ⟨whole, fraction, htext, hne, hdigits, hrank⟩ :=
    positional_eq_pointed (shortest rank) (by omega) negative
  refine ⟨whole, fraction, htext, hne, hdigits, ?_⟩
  rw [read?_pointed (fun c hc => hdigits c (List.mem_append_left _ hc))
    (fun c hc => hdigits c (List.mem_append_right _ hc)) hne, ofDecimal, hrank,
    rankOfDecimal_shortest, ofRank, dif_pos rank.isLt]

end Binary32

end ShaderGraph
