import ShaderGraph.Resolution
import ShaderGraph.Proofs.Decimals

/-
Finite literals.

A ratio of at most one is far from the end of the range (`rank_le_of_le`), so the share of
a byte is finite and so is every color that is read. The values of pins without a
connection are finite constants, and a literal stays finite when it is shaped for a
socket.
-/
namespace ShaderGraph

/-! ## Ratios -/

theorem roundDiv_le {n d k : Nat} (hd : 0 < d) (h : n ≤ k * d) : roundDiv n d ≤ k := by
  -- A quotient that is less than `k` may be rounded up to it, and `k` itself is exact.
  have hdiv : n / d ≤ k := (Nat.div_le_iff_le_mul_add_pred hd).mpr (by rw [Nat.mul_comm]; omega)
  rcases Nat.lt_or_eq_of_le hdiv with hlt | heq
  · unfold roundDiv
    split
    · omega
    · split <;> omega
  · have hmod : n % d = 0 := by
      have := Nat.div_add_mod' n d
      rw [heq] at this
      omega
    rw [roundDiv, hmod, if_pos (by omega)]
    exact hdiv

/-- A ratio of at most one has no more bits than one itself. -/
theorem log2_quotient_le (f : BinaryFormat) {n d : Nat} (h : n ≤ d) :
    (n * 2 ^ f.scale / d).log2 ≤ f.scale := by
  have hquotient : n * 2 ^ f.scale / d ≤ 2 ^ f.scale :=
    Nat.div_le_of_le_mul (Nat.mul_le_mul_right _ h)
  by_cases hzero : n * 2 ^ f.scale / d = 0
  · rw [hzero]
    exact Nat.zero_le _
  · rw [← Nat.lt_succ_iff, Nat.log2_lt hzero]
    exact Nat.lt_of_le_of_lt hquotient (Nat.pow_lt_pow_right (by decide) (Nat.lt_succ_self _))

theorem rank_le_of_le (f : BinaryFormat) {n d : Nat} (hd : 0 < d) (h : n ≤ d) :
    f.rank n d ≤ (f.scale + 1 - f.precision) * 2 ^ (f.precision - 1) + 2 ^ f.precision := by
  have hrank : f.rank n d = ((n * 2 ^ f.scale / d).log2 + 1 - f.precision) * 2 ^ (f.precision - 1) +
      roundDiv (n * 2 ^ f.scale) (d * 2 ^ ((n * 2 ^ f.scale / d).log2 + 1 - f.precision)) := rfl
  have hlt : n * 2 ^ f.scale / d < 2 ^ ((n * 2 ^ f.scale / d).log2 + 1) := Nat.lt_log2_self
  have hunits := (Nat.div_lt_iff_lt_mul hd).mp hlt
  have hlog := log2_quotient_le f h
  generalize (n * 2 ^ f.scale / d).log2 = log at hrank hunits hlog
  have hround : roundDiv (n * 2 ^ f.scale) (d * 2 ^ (log + 1 - f.precision)) ≤
      2 ^ f.precision := by
    apply roundDiv_le (Nat.mul_pos hd (Nat.two_pow_pos _))
    have hpow : 2 ^ (log + 1) ≤ 2 ^ f.precision * 2 ^ (log + 1 - f.precision) := by
      rw [← Nat.pow_add]
      exact Nat.pow_le_pow_right (by decide) (by omega)
    calc n * 2 ^ f.scale ≤ 2 ^ (log + 1) * d := Nat.le_of_lt hunits
      _ ≤ 2 ^ f.precision * 2 ^ (log + 1 - f.precision) * d := Nat.mul_le_mul_right d hpow
      _ = 2 ^ f.precision * (d * 2 ^ (log + 1 - f.precision)) := by
        rw [Nat.mul_assoc, Nat.mul_comm d]
  rw [hrank]
  exact Nat.add_le_add (Nat.mul_le_mul_right _ (by omega)) hround

/-! ## Colors -/

namespace HexColor

theorem isFinite_component {byte : Nat} (h : byte ≤ 255) : (component byte).isFinite = true := by
  have hrank := rank_le_of_le .single (by decide : 0 < 255) h
  have hbound : (BinaryFormat.single.scale + 1 - BinaryFormat.single.precision) *
      2 ^ (BinaryFormat.single.precision - 1) + 2 ^ BinaryFormat.single.precision < 0x7F800000 := by
    decide
  rw [component, Binary32.ofRatio, Binary32.ofRank, dif_pos (Nat.lt_of_le_of_lt hrank hbound)]
  rfl

theorem hexValue?_lt {c : Char} {digit : Nat} (h : Text.hexValue? c = some digit) : digit < 16 := by
  unfold Text.hexValue? at h
  have hbounds : ∀ {low high : Char}, low ≤ c ∧ c ≤ high → c.toNat - low.toNat ≤
      high.toNat - low.toNat := fun hc => Nat.sub_le_sub_right hc.2 _
  split at h
  · next hc =>
    have : c.toNat - '0'.toNat ≤ 9 := hbounds hc
    obtain rfl := Option.some.inj h
    omega
  · split at h
    · next hc =>
      have : c.toNat - 'a'.toNat ≤ 5 := hbounds hc
      obtain rfl := Option.some.inj h
      omega
    · split at h
      · next hc =>
        have : c.toNat - 'A'.toNat ≤ 5 := hbounds hc
        obtain rfl := Option.some.inj h
        omega
      · cases h

theorem lt_of_mapM {chars : List Char} {digits : List Nat}
    (h : chars.mapM Text.hexValue? = some digits) : ∀ digit ∈ digits, digit < 16 := by
  induction chars generalizing digits with
  | nil =>
    obtain rfl : [] = digits := by simpa using h
    exact List.forall_mem_nil _
  | cons c chars ih =>
    simp only [List.mapM_cons, Option.bind_eq_bind, Option.pure_def, Option.bind_eq_some_iff,
      Option.some.injEq] at h
    obtain ⟨first, hfirst, rest, hrest, rfl⟩ := h
    exact List.forall_mem_cons.mpr ⟨hexValue?_lt hfirst, ih hrest⟩

/-- A color of digits has bytes as its components. -/
theorem isFinite_ofDigits? {digits : List Nat} (hdigits : ∀ digit ∈ digits, digit < 16)
    {color : Vec3} (h : ofDigits? digits = some color) : color.isFinite = true := by
  unfold ofDigits? at h
  split at h
  all_goals simp only [List.mem_cons, List.not_mem_nil, or_false, forall_eq_or_imp, forall_eq,
    Option.some.injEq, reduceCtorEq] at hdigits h
  all_goals
    subst h
    simp only [Vec3.isFinite, Bool.and_eq_true]
    refine ⟨⟨?_, ?_⟩, ?_⟩ <;> exact isFinite_component (by omega)

theorem isFinite_read? {text : String} {color : Vec3} (h : read? text = some color) :
    color.isFinite = true := by
  unfold read? at h
  split at h
  · obtain ⟨digits, hdigits, hcolor⟩ := Option.bind_eq_some_iff.mp h
    exact isFinite_ofDigits? (lt_of_mapM hdigits) hcolor
  · cases h

end HexColor

/-! ## Constants -/

namespace Literal

theorem isFinite_shapedFor {value : Literal} (h : value.isFinite = true) (socket : Socket) :
    (value.shapedFor socket).isFinite = true := by
  have hfill : ∀ v : Binary32, v.isFinite = true → (⟨v, v, v⟩ : Vec3).isFinite = true := by
    intro v hv
    simp only [Vec3.isFinite, hv, Bool.and_self]
  cases value with
  | float v =>
    cases socket with
    | vec3 | color => exact hfill v h
    | _ => exact h
  | _ => cases socket <;> exact h

theorem isFinite_unconnected (socket : Socket) : socket.unconnected.isFinite = true := by
  cases socket <;> decide

theorem isFinite_codePrimary : (vec3 codePrimary).isFinite = true := by decide

theorem isFinite_codeSecondary : (vec3 codeSecondary).isFinite = true := by decide

end Literal

end ShaderGraph
