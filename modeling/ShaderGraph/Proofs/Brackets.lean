import ShaderGraph.Proofs.Splicing
import Mathlib.Data.List.Induction

/-
Brackets that pair up and nest.

A text of brackets is `Nested` if it is made of pairs, each around a nested text. What
the stack of `CodeBody.matchBrackets` means is said in these terms: the text that is read
leaves the openers on the stack open, with nested texts between them (`LeavesOpen`), and
where it stops, the closer pairs with none of them (`FirstUnpaired`). The stack is all
that there is to say (`matchBrackets_eq_ok_iff`, `matchBrackets_eq_error_iff`), so a text
leaves nothing open just if it is nested.
-/
namespace ShaderGraph.CodeBody

/-- The brackets that pair, the opening one first. -/
def bracketPairs : List (Char × Char) := [('(', ')'), ('[', ']'), ('\x7b', '\x7d')]

def brackets (text : List Char) : List Char :=
  text.filter fun c => c ∈ ['(', ')', '[', ']', '\x7b', '\x7d']

/-- Brackets that all pair up, each pair around a nested text. -/
inductive Nested : List Char → Prop
  | nil : Nested []
  | pair {opener closer : Char} {inside rest : List Char}
      (hpair : (opener, closer) ∈ bracketPairs) (hinside : Nested inside) (hrest : Nested rest) :
      Nested (opener :: (inside ++ closer :: rest))

/-- Brackets that pair up but for the openers of a stack, which stay open, the innermost
first. -/
inductive LeavesOpen : List Char → List Char → Prop
  | nested {word : List Char} (h : Nested word) : LeavesOpen word []
  | opened {before word stack : List Char} {opener closer : Char}
      (hbefore : LeavesOpen before stack) (hpair : (opener, closer) ∈ bracketPairs)
      (h : Nested word) : LeavesOpen (before ++ opener :: word) (opener :: stack)

/-- The closer is the first one that does not pair with the innermost bracket that is open
where it stands. -/
def FirstUnpaired (word : List Char) (closer : Char) : Prop :=
  ∃ before after stack opener, word = before ++ closer :: after ∧ LeavesOpen before stack ∧
    (opener, closer) ∈ bracketPairs ∧ stack.head? ≠ some opener

/-! ## Kinds of brackets -/

theorem openerOf?_eq_some_iff {opener closer : Char} :
    openerOf? closer = some opener ↔ (opener, closer) ∈ bracketPairs := by
  constructor
  · intro h
    unfold openerOf? at h
    split at h
    · obtain rfl := Option.some.inj h
      decide
    · obtain rfl := Option.some.inj h
      decide
    · obtain rfl := Option.some.inj h
      decide
    · cases h
  · intro h
    simp only [bracketPairs, List.mem_cons, Prod.mk.injEq, List.not_mem_nil, or_false] at h
    rcases h with ⟨rfl, rfl⟩ | ⟨rfl, rfl⟩ | ⟨rfl, rfl⟩ <;> rfl

theorem isOpener_iff {opener : Char} :
    isOpener opener = true ↔ ∃ closer, (opener, closer) ∈ bracketPairs := by
  simp [isOpener, bracketPairs, or_assoc, exists_or]

theorem not_isOpener_of_pair {opener closer : Char} (h : (opener, closer) ∈ bracketPairs) :
    ¬ isOpener closer = true := by
  simp only [bracketPairs, List.mem_cons, Prod.mk.injEq, List.not_mem_nil, or_false] at h
  rcases h with ⟨-, rfl⟩ | ⟨-, rfl⟩ | ⟨-, rfl⟩ <;> decide

theorem isBracket_iff {c : Char} :
    isBracket c = true ↔ c ∈ ['(', ')', '[', ']', '\x7b', '\x7d'] := by
  rw [isBracket, Bool.or_eq_true, isOpener_iff, Option.isSome_iff_exists]
  simp only [openerOf?_eq_some_iff, bracketPairs, List.mem_cons, Prod.mk.injEq, List.not_mem_nil,
    or_false, exists_or, exists_eq_left, exists_eq_right]
  tauto

theorem brackets_eq_filter (text : List Char) : brackets text = text.filter isBracket := by
  refine List.filter_congr fun c _ => ?_
  rw [Bool.eq_iff_iff, decide_eq_true_iff, isBracket_iff]

theorem bracket_cases {word : List Char} {c : Char} (h : c ∈ brackets word) :
    isOpener c = true ∨ ∃ opener, (opener, c) ∈ bracketPairs := by
  rw [brackets_eq_filter, List.mem_filter, isBracket, Bool.or_eq_true] at h
  refine h.2.imp_right fun hcloser => ?_
  obtain ⟨opener, hopener⟩ := Option.isSome_iff_exists.mp hcloser
  exact ⟨opener, openerOf?_eq_some_iff.mp hopener⟩

/-! ## Texts one after another -/

theorem Nested.append {word more : List Char} (h : Nested word) (hmore : Nested more) :
    Nested (word ++ more) := by
  induction h with
  | nil => exact hmore
  | pair hpair hinside _ _ ih =>
    rw [List.cons_append, List.append_assoc, List.cons_append]
    exact .pair hpair hinside ih

theorem LeavesOpen.append {word stack more : List Char} (h : LeavesOpen word stack)
    (hmore : Nested more) : LeavesOpen (word ++ more) stack := by
  cases h with
  | nested h => exact .nested (h.append hmore)
  | opened hbefore hpair h =>
    rw [List.append_assoc, List.cons_append]
    exact .opened hbefore hpair (h.append hmore)

theorem LeavesOpen.close {word below : List Char} {opener closer : Char}
    (h : LeavesOpen word (opener :: below)) (hpair : (opener, closer) ∈ bracketPairs) :
    LeavesOpen (word ++ [closer]) below := by
  cases h with
  | @opened before inside _ _ _ hbefore _ hinside =>
    rw [List.append_assoc, List.cons_append]
    exact hbefore.append (.pair hpair hinside .nil)

/-! ## The stack -/

/-- What the stack becomes at one bracket: an opener goes on it, and a closer takes its own
opener off it or is refused. -/
theorem matchBrackets_opener {c : Char} (h : isOpener c = true) (stack rest : List Char) :
    matchBrackets stack (c :: rest) = matchBrackets (c :: stack) rest := by
  rw [matchBrackets, if_pos h]

theorem matchBrackets_closer {opener closer : Char} (h : (opener, closer) ∈ bracketPairs)
    (below rest : List Char) :
    matchBrackets (opener :: below) (closer :: rest) = matchBrackets below rest := by
  rw [matchBrackets, if_neg (not_isOpener_of_pair h), openerOf?_eq_some_iff.mpr h]
  simp only [if_true]

theorem matchBrackets_unpaired {opener closer : Char} (h : (opener, closer) ∈ bracketPairs)
    {stack : List Char} (hstack : stack.head? ≠ some opener) (rest : List Char) :
    matchBrackets stack (closer :: rest) = .error closer := by
  rw [matchBrackets, if_neg (not_isOpener_of_pair h), openerOf?_eq_some_iff.mpr h]
  cases stack with
  | nil => rfl
  | cons top below =>
    have htop : top ≠ opener := fun heq => hstack (by rw [heq, List.head?_cons])
    simp only [htop, if_false]

theorem Nested.matchBrackets {word : List Char} (h : Nested word) (stack : List Char) :
    matchBrackets stack word = .ok stack := by
  induction h generalizing stack with
  | nil => rfl
  | pair hpair _ _ ihinside ihrest =>
    rw [matchBrackets_opener (isOpener_iff.mpr ⟨_, hpair⟩), matchBrackets_append, ihinside]
    exact (matchBrackets_closer hpair stack _).trans (ihrest stack)

theorem LeavesOpen.matchBrackets {word stack : List Char} (h : LeavesOpen word stack) :
    CodeBody.matchBrackets [] word = .ok stack := by
  induction h with
  | nested h => exact h.matchBrackets []
  | opened _ hpair h ih =>
    rw [matchBrackets_append, ih]
    exact (matchBrackets_opener (isOpener_iff.mpr ⟨_, hpair⟩) _ _).trans (h.matchBrackets _)

theorem FirstUnpaired.matchBrackets {word : List Char} {closer : Char}
    (h : FirstUnpaired word closer) : CodeBody.matchBrackets [] word = .error closer := by
  obtain ⟨before, after, stack, opener, rfl, hopen, hpair, hstack⟩ := h
  rw [matchBrackets_append, hopen.matchBrackets]
  exact matchBrackets_unpaired hpair hstack after

/-- Brackets leave some open, or there is a first closer that pairs with none. -/
theorem leavesOpen_or_firstUnpaired {word : List Char}
    (h : ∀ c ∈ word, isOpener c = true ∨ ∃ opener, (opener, c) ∈ bracketPairs) :
    (∃ stack, LeavesOpen word stack) ∨ ∃ closer, FirstUnpaired word closer := by
  -- On the last bracket, with what the ones before it leave open.
  induction word using List.reverseRecOn with
  | nil => exact .inl ⟨[], .nested .nil⟩
  | append_singleton word c ih =>
    rcases ih fun x hx => h x (List.mem_append_left _ hx) with ⟨stack, hopen⟩ | ⟨closer, hfirst⟩
    · rcases h c (List.mem_append_right _ (List.mem_singleton_self c)) with hopener | ⟨opener, hpair⟩
      · obtain ⟨closer, hpair⟩ := isOpener_iff.mp hopener
        exact .inl ⟨c :: stack, .opened hopen hpair .nil⟩
      · by_cases hstack : stack.head? = some opener
        · obtain ⟨below, rfl⟩ := List.head?_eq_some_iff.mp hstack
          exact .inl ⟨below, hopen.close hpair⟩
        · exact .inr ⟨c, word, [], stack, opener, rfl, hopen, hpair, hstack⟩
    · obtain ⟨before, after, stack, opener, rfl, hrest⟩ := hfirst
      exact .inr ⟨closer, before, after ++ [c], stack, opener, by simp, hrest⟩

/-- **The stack holds what stays open.** -/
theorem matchBrackets_eq_ok_iff {word stack : List Char}
    (h : ∀ c ∈ word, isOpener c = true ∨ ∃ opener, (opener, c) ∈ bracketPairs) :
    matchBrackets [] word = .ok stack ↔ LeavesOpen word stack := by
  refine ⟨fun hok => ?_, LeavesOpen.matchBrackets⟩
  rcases leavesOpen_or_firstUnpaired h with ⟨other, hopen⟩ | ⟨closer, hfirst⟩
  · obtain rfl := Except.ok.inj (hopen.matchBrackets.symm.trans hok)
    exact hopen
  · cases hfirst.matchBrackets.symm.trans hok

/-- **The closer that is refused is the first that pairs with none.** -/
theorem matchBrackets_eq_error_iff {word : List Char} {closer : Char}
    (h : ∀ c ∈ word, isOpener c = true ∨ ∃ opener, (opener, c) ∈ bracketPairs) :
    matchBrackets [] word = .error closer ↔ FirstUnpaired word closer := by
  refine ⟨fun herror => ?_, FirstUnpaired.matchBrackets⟩
  rcases leavesOpen_or_firstUnpaired h with ⟨stack, hopen⟩ | ⟨other, hfirst⟩
  · cases hopen.matchBrackets.symm.trans herror
  · obtain rfl := Except.error.inj (hfirst.matchBrackets.symm.trans herror)
    exact hfirst

theorem leavesOpen_nil_iff {word : List Char} : LeavesOpen word [] ↔ Nested word := by
  refine ⟨fun h => ?_, .nested⟩
  cases h with
  | nested h => exact h

end ShaderGraph.CodeBody
