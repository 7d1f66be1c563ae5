import ShaderGraph.Wgsl
import ShaderGraph.Proofs.Words
import ShaderGraph.Proofs.Wgsl.Unfolding

/-
Bound code in place of names, in the text.

`expandText` puts the text of the bindings in place of the words that are their
names. On the text of code this is what `substitute` does on the code
(`expandText_channelLine`), since in that text every operand stands between characters
that are in no word, and no word but the name of a binding is one: it takes that
the names of the called functions hold no such word (`Apart`).
-/
namespace ShaderGraph.Wgsl

/-- A word that may be the name of a binding: `v` and digits. -/
def isBoundName : List Char → Bool
  | 'v' :: digits => !digits.isEmpty && digits.all Char.isDigit
  | _ => false

/-- No word of the text may be the name of a binding. -/
def Apart (text : String) : Prop := ∀ word ∈ Text.words text.toList, isBoundName word = false

instance (text : String) : Decidable (Apart text) :=
  inferInstanceAs (Decidable (∀ word ∈ Text.words text.toList, isBoundName word = false))

theorem toList_boundName (k : Nat) : (boundName k).toList = 'v' :: Nat.toDigits 10 k := by
  simp [boundName]

theorem isDigit_of_mem_boundName {k : Nat} {c : Char} (h : c ∈ Nat.toDigits 10 k) :
    c.isDigit = true :=
  Nat.isDigit_of_mem_toDigits (by decide) (by decide) h

theorem isIdentifierContinue_of_mem_boundName {k : Nat} {c : Char}
    (h : c ∈ (boundName k).toList) : Text.isIdentifierContinue c = true := by
  rw [toList_boundName] at h
  rcases List.mem_cons.mp h with rfl | h
  · decide
  · exact Text.isIdentifierContinue_of_isDigit (isDigit_of_mem_boundName h)

section Words

variable (bindings : List Code)

end Words

/-! ## Texts apart from names -/

/-- A character of the text of a finite number. -/
def isNumeral (c : Char) : Bool := c.isDigit || c == '.' || c == 'e' || c == '-'

theorem isNumeral_of_isDigit {c : Char} (h : c.isDigit = true) : isNumeral c = true := by
  simp [isNumeral, h]

theorem isNumeral_of_mem_toDigits {n : Nat} {c : Char} (h : c ∈ Nat.toDigits 10 n) :
    isNumeral c = true :=
  isNumeral_of_isDigit (isDigit_of_mem_boundName h)

theorem isNumeral_of_mem_intRepr {n : Int} {c : Char} (h : c ∈ n.repr.toList) :
    isNumeral c = true := by
  cases n with
  | ofNat n => exact isNumeral_of_mem_toDigits (n := n) (by simpa [Int.repr] using h)
  | negSucc n =>
    rcases List.mem_cons.mp (by simpa [Int.repr] using h) with rfl | hdigits
    · decide
    · exact isNumeral_of_mem_toDigits hdigits

theorem isNumeral_of_mem_positional {d : Binary32.Decimal} {c : Char}
    (h : c ∈ d.positional.toList) : isNumeral c = true := by
  have hzeros : ∀ {n}, c ∈ List.replicate n '0' → isNumeral c = true := by
    intro n hc
    rw [List.eq_of_mem_replicate hc]
    decide
  simp only [Binary32.Decimal.positional, String.toList_ofList, Nat.toList_repr] at h
  split at h
  · simp only [List.mem_append, List.mem_cons, List.not_mem_nil, or_false] at h
    rcases h with (hc | hc) | rfl | rfl
    · exact isNumeral_of_mem_toDigits hc
    · exact hzeros hc
    · decide
    · decide
  · split at h
    · rcases List.mem_append.mp h with hc | hc
      · exact isNumeral_of_mem_toDigits (List.mem_of_mem_take hc)
      · rcases List.mem_cons.mp hc with rfl | hc
        · decide
        · exact isNumeral_of_mem_toDigits (List.mem_of_mem_drop hc)
    · simp only [List.cons_append, List.mem_cons, List.mem_append] at h
      rcases h with rfl | rfl | hc | hc
      · decide
      · decide
      · exact hzeros hc
      · exact isNumeral_of_mem_toDigits hc

theorem isNumeral_of_mem_scientific {d : Binary32.Decimal} {c : Char}
    (h : c ∈ d.scientific.toList) : isNumeral c = true := by
  have hdigits : ∀ c ∈ Nat.toDigits 10 d.coefficient, isNumeral c = true :=
    fun c hc => isNumeral_of_mem_toDigits hc
  have hexponent : ∀ c ∈ ("e" ++ toString d.magnitude).toList, isNumeral c = true := by
    intro c hc
    rw [String.toList_append] at hc
    rcases List.mem_append.mp hc with hc | hc
    · obtain rfl : c = 'e' := by simpa using hc
      decide
    · exact isNumeral_of_mem_intRepr hc
  simp only [Binary32.Decimal.scientific, Nat.toList_repr] at h
  split at h
  · next first second rest heq =>
    rw [heq] at hdigits
    rw [String.toList_append, String.toList_ofList] at h
    rcases List.mem_append.mp h with hc | hc
    · rcases List.mem_cons.mp hc with rfl | hc
      · exact hdigits _ List.mem_cons_self
      · rcases List.mem_cons.mp hc with rfl | hc
        · decide
        · exact hdigits c (List.mem_cons_of_mem _ hc)
    · exact hexponent c hc
  · rw [String.toList_append, String.toList_ofList] at h
    exact (List.mem_append.mp h).elim (hdigits c) (hexponent c)

/-- The text of a finite number holds digits, a point, an exponent and minus signs only. -/
theorem isNumeral_of_mem_compact {v : Binary32} (hv : v.isFinite = true) {c : Char}
    (h : c ∈ v.compact.toList) : isNumeral c = true := by
  have hdecimal : ∀ {d : Binary32.Decimal}, c ∈ d.compact.toList → isNumeral c = true := by
    intro d hc
    unfold Binary32.Decimal.compact at hc
    split at hc
    · exact isNumeral_of_mem_positional hc
    · exact isNumeral_of_mem_scientific hc
  cases v with
  | finite negative rank =>
    cases negative with
    | false => exact hdecimal h
    | true =>
      rw [Binary32.compact, Binary32.signed, if_pos rfl, String.toList_append] at h
      rcases List.mem_append.mp h with hc | hc
      · obtain rfl : c = '-' := by simpa using hc
        decide
      · exact hdecimal hc
  | infinite negative | undefined negative => cases hv

theorem toList_applied (name : String) (operands : List String) :
    (applied name operands).toList =
      name.toList ++ '(' :: (", ".toList.intercalate (operands.map String.toList) ++ [')']) := by
  simp [applied]

theorem toList_arithmetic (op : Arithmetic) (x y : Code) :
    (Code.arithmetic op x y).text.toList = '(' ::
      (x.text.toList ++ ' ' :: (op.text.toList ++ ' ' :: (y.text.toList ++ [')']))) := by
  simp [Code.text]

theorem toList_firstOf (x : Code) :
    x.firstOf.text.toList = '(' :: (x.text.toList ++ ')' :: ".x".toList) := by
  simp [Code.text]

theorem toList_firstTwoOf (x : Code) :
    x.firstTwoOf.text.toList = '(' :: (x.text.toList ++ ')' :: ".xy".toList) := by
  simp [Code.text]

theorem toList_channelLine (channel : Channel) (c : Code) :
    (channelLine channel c).toList = ("    channels." ++ channelField channel ++ " =").toList ++
      ' ' :: (c.text.toList ++ ';' :: ['\n']) := by
  simp [channelLine, line]

/-! ## Code -/

section Code

variable (bindings : List Code)

end Code

end ShaderGraph.Wgsl
