import ShaderGraph.Text.Identifier

/-
Words of a text, and changing them.

A word is a longest run of characters that may stand in an identifier. `mapWords`
puts other characters in place of the words and leaves what stands between them;
both a text and what becomes of it fall apart at every character that is in no word
(`mapWords_append`). A word may be empty: between two characters that are in no word
there is one, and at either end.
-/
namespace ShaderGraph.Text

section Deciding

variable (chars : List Char) (p : Char → Prop) [DecidablePred p]

/-- What is said of the characters of a list is decided by going through the list, not
through all characters that there are. -/
instance (priority := high) decidableForallMem : Decidable (∀ c ∈ chars, p c) :=
  List.decidableBAll p chars

instance (priority := high) decidableExistsMem : Decidable (∃ c ∈ chars, p c) :=
  List.decidableBEx p chars

end Deciding

/-- The words of a text that goes on from the beginning of a word. -/
def wordsFrom (word : List Char) : List Char → List (List Char)
  | [] => [word]
  | c :: rest =>
    if isIdentifierContinue c then wordsFrom (word ++ [c]) rest else word :: wordsFrom [] rest

def words (text : List Char) : List (List Char) := wordsFrom [] text

section Words

variable {f : List Char → List Char} {word text : List Char} {d : Char}

theorem wordsFrom_append (hd : isIdentifierContinue d = false) (a b : List Char) :
    wordsFrom word (a ++ d :: b) = wordsFrom word a ++ words b := by
  induction a generalizing word with
  | nil => simp [wordsFrom, words, hd]
  | cons c a ih =>
    simp only [List.cons_append, wordsFrom, ih]
    split
    · rfl
    · rfl

theorem words_append (hd : isIdentifierContinue d = false) (a b : List Char) :
    words (a ++ d :: b) = words a ++ words b :=
  wordsFrom_append hd a b

theorem wordsFrom_of_word (h : ∀ c ∈ text, isIdentifierContinue c = true) :
    wordsFrom word text = [word ++ text] := by
  induction text generalizing word with
  | nil => rw [wordsFrom, List.append_nil]
  | cons c text ih =>
    rw [wordsFrom, if_pos (h c List.mem_cons_self),
      ih fun x hx => h x (List.mem_cons_of_mem _ hx), List.append_assoc, List.singleton_append]

theorem mem_of_mem_wordsFrom {w : List Char} (hw : w ∈ wordsFrom word text) {c : Char}
    (hc : c ∈ w) : c ∈ word ∨ c ∈ text := by
  induction text generalizing word with
  | nil =>
    obtain rfl := List.mem_singleton.mp hw
    exact .inl hc
  | cons x text ih =>
    simp only [wordsFrom] at hw
    split at hw
    · rcases ih hw with h | h
      · rcases List.mem_append.mp h with h | h
        · exact .inl h
        · exact .inr (by rw [List.mem_singleton.mp h]; exact List.mem_cons_self)
      · exact .inr (List.mem_cons_of_mem _ h)
    · rcases List.mem_cons.mp hw with rfl | hw
      · exact .inl hc
      · rcases ih hw with h | h
        · cases h
        · exact .inr (List.mem_cons_of_mem _ h)

theorem mem_of_mem_words {w : List Char} (hw : w ∈ words text) {c : Char} (hc : c ∈ w) :
    c ∈ text := by
  rcases mem_of_mem_wordsFrom hw hc with h | h
  · cases h
  · exact h

end Words

theorem toDigits_injective {j k : Nat} (h : Nat.toDigits 10 j = Nat.toDigits 10 k) : j = k := by
  have hj := Nat.ofDigitChars_toDigits (b := 10) (n := j) (by decide) (by decide)
  rw [h, Nat.ofDigitChars_toDigits (by decide) (by decide)] at hj
  exact hj.symm

theorem isLower_iff {c : Char} : c.isLower = true ↔ 97 ≤ c.toNat ∧ c.toNat ≤ 122 := by
  show (decide (c.val ≥ 'a'.val) && decide (c.val ≤ 'z'.val)) = true ↔ _
  simp [UInt32.le_iff_toNat_le]

theorem isIdentifierContinue_of_isLower {c : Char} (h : c.isLower = true) :
    isIdentifierContinue c = true := by
  have hrange := isLower_iff.mp h
  have hfirst : identifierStartRanges =
      (65, 90) :: (97, 122) :: identifierStartRanges.tail.tail := rfl
  rw [isIdentifierContinue, isIdentifierStart, hfirst, inRanges, if_neg (by omega), inRanges,
    if_neg (by omega)]
  simp [hrange.2]

theorem isIdentifierContinue_of_isDigit {c : Char} (h : c.isDigit = true) :
    isIdentifierContinue c = true := by
  have hrange : 48 ≤ c.toNat ∧ c.toNat ≤ 57 := by
    simpa [Char.isDigit, UInt32.le_iff_toNat_le] using h
  have hfirst : identifierExtendRanges = (48, 57) :: identifierExtendRanges.tail := rfl
  rw [isIdentifierContinue, hfirst, inRanges, if_neg (by omega)]
  simp [hrange.2]

end ShaderGraph.Text
