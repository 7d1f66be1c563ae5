import ShaderGraph.Proofs.Brackets

/-
Which function bodies are accepted.

The rules for bodies are stated apart from the scan that applies them. `Reads` passes
over comments from left to right: a block comment ends where it and all the comments in
it are closed (`Skips`), a line comment runs up to the next line feed, and neither
begins within the other. Every body has just one reading (`exists_reads`,
`Reads.unique`). It is accepted if it is not blank, no block comment is left open, and the
brackets outside comments are `Nested`; else it is refused for the delimiter that `Offends`
(`make_of_reading`).
-/
namespace ShaderGraph.CodeBody

/-- A text that begins within a block comment leaves it, and `rest` follows. The comments
that begin in it are left first. -/
inductive Skips : List Char → List Char → Prop
  | close (rest : List Char) : Skips ('*' :: '/' :: rest) rest
  | inner {text middle rest : List Char} (hinner : Skips text middle) (h : Skips middle rest) :
      Skips ('/' :: '*' :: text) rest
  | char {c : Char} {text rest : List Char} (hopen : ¬ ['/', '*'] <+: c :: text)
      (hclose : ¬ ['*', '/'] <+: c :: text) (h : Skips text rest) : Skips (c :: text) rest

/-- The characters of a text that stand outside comments, and whether the text ends within
a block comment. -/
inductive Reads : List Char → List Char → Bool → Prop
  | done : Reads [] [] false
  | char {c : Char} {text visible : List Char} {unclosed : Bool}
      (hblock : ¬ ['/', '*'] <+: c :: text) (hline : ¬ ['/', '/'] <+: c :: text)
      (h : Reads text visible unclosed) : Reads (c :: text) (c :: visible) unclosed
  | line {text visible : List Char} {unclosed : Bool}
      (h : Reads (text.dropWhile (· ≠ '\n')) visible unclosed) :
      Reads ('/' :: '/' :: text) visible unclosed
  | block {text rest visible : List Char} {unclosed : Bool} (hcomment : Skips text rest)
      (h : Reads rest visible unclosed) : Reads ('/' :: '*' :: text) visible unclosed
  | unclosed {text : List Char} (h : ∀ rest, ¬ Skips text rest) :
      Reads ('/' :: '*' :: text) [] true

/-- The delimiter for which a body is refused: the first closer that pairs with none, else
`*` for a block comment left open, else the innermost opener left open. -/
inductive Offends (word : List Char) (unclosed : Bool) : Char → Prop
  | closer {closer : Char} (h : FirstUnpaired word closer) : Offends word unclosed closer
  | comment (h : ∀ closer, ¬ FirstUnpaired word closer) (hunclosed : unclosed = true) :
      Offends word unclosed '*'
  | opener {opener : Char} {stack : List Char} (h : ∀ closer, ¬ FirstUnpaired word closer)
      (hclosed : unclosed = false) (hopen : LeavesOpen word (opener :: stack)) :
      Offends word unclosed opener

/-! ## Beginnings -/

theorem begins_iff {a b c : Char} {text : List Char} :
    [a, b] <+: c :: text ↔ c = a ∧ ∃ rest, text = b :: rest := by
  rw [List.cons_prefix_cons, List.prefix_iff_eq_append]
  constructor
  · rintro ⟨rfl, h⟩
    exact ⟨rfl, _, h.symm⟩
  · rintro ⟨rfl, rest, rfl⟩
    exact ⟨rfl, rfl⟩

theorem begins_self (a b : Char) (rest : List Char) : [a, b] <+: a :: b :: rest :=
  begins_iff.mpr ⟨rfl, rest, rfl⟩

/-! ## Block comments -/

theorem Skips.length_lt {text rest : List Char} (h : Skips text rest) :
    rest.length < text.length := by
  induction h with
  | close rest => simp only [List.length_cons]; omega
  | inner _ _ ihinner ih => simp only [List.length_cons]; omega
  | char _ _ _ ih => simp only [List.length_cons]; omega

theorem Skips.unique {text rest rest' : List Char} (h : Skips text rest)
    (h' : Skips text rest') : rest = rest' := by
  induction h generalizing rest' with
  | close rest =>
    cases h' with
    | close => rfl
    | char _ hclose _ => exact absurd (begins_self _ _ _) hclose
  | inner _ _ ihinner ih =>
    cases h' with
    | inner hinner h =>
      obtain rfl := ihinner hinner
      exact ih h
    | char hopen _ _ => exact absurd (begins_self _ _ _) hopen
  | char hopen hclose _ ih =>
    cases h' with
    | close => exact absurd (begins_self _ _ _) hclose
    | inner => exact absurd (begins_self _ _ _) hopen
    | char _ _ h => exact ih h

/-- The region outside the innermost of the block comments around a place. -/
def Region.around : Nat → Region
  | 0 => .code
  | depth + 1 => .block depth

theorem outsideComments_block {c : Char} {text : List Char} (hopen : ¬ ['/', '*'] <+: c :: text)
    (hclose : ¬ ['*', '/'] <+: c :: text) (depth : Nat) :
    outsideComments (.block depth) (c :: text) = outsideComments (.block depth) text := by
  rw [outsideComments]
  · rintro rest rfl rfl
    exact hopen (begins_self _ _ _)
  · rintro rest - rfl rfl
    exact hclose (begins_self _ _ _)
  · rintro below rest - rfl rfl
    exact hclose (begins_self _ _ _)

theorem Skips.outsideComments {text rest : List Char} (h : Skips text rest) (depth : Nat) :
    outsideComments (.block depth) text = outsideComments (.around depth) rest := by
  induction h generalizing depth with
  | close rest => cases depth <;> rw [CodeBody.outsideComments, Region.around]
  | inner _ _ ihinner ih =>
    rw [CodeBody.outsideComments, ihinner, Region.around, ih]
  | char hopen hclose _ ih => rw [outsideComments_block hopen hclose, ih]

/-- A block comment ends, or the scan ends in it or in one that it holds. -/
theorem skips_or_unclosed (text : List Char) (depth : Nat) :
    (∃ rest, Skips text rest) ∨
      ∃ deeper, outsideComments (.block depth) text = ([], .block deeper) := by
  -- After an inner comment the scan goes on at its end, so the induction is on the length.
  induction hlength : text.length using Nat.strongRecOn generalizing text depth with
  | ind length ih =>
    subst hlength
    cases text with
    | nil => exact .inr ⟨depth, rfl⟩
    | cons c text =>
      by_cases hopen : ['/', '*'] <+: c :: text
      · obtain ⟨rfl, inside, rfl⟩ := begins_iff.mp hopen
        rw [outsideComments]
        rcases ih inside.length (by simp only [List.length_cons]; omega) inside (depth + 1) rfl with
          ⟨middle, hinner⟩ | hunclosed
        · rw [hinner.outsideComments]
          have hlt := hinner.length_lt
          rcases ih middle.length (by simp only [List.length_cons]; omega) middle depth rfl with
            ⟨rest, h⟩ | hunclosed
          · exact .inl ⟨rest, .inner hinner h⟩
          · exact .inr hunclosed
        · exact .inr hunclosed
      · by_cases hclose : ['*', '/'] <+: c :: text
        · obtain ⟨rfl, rest, rfl⟩ := begins_iff.mp hclose
          exact .inl ⟨rest, .close rest⟩
        · rw [outsideComments_block hopen hclose]
          rcases ih text.length (by simp) text depth rfl with ⟨rest, h⟩ | hunclosed
          · exact .inl ⟨rest, .char hopen hclose h⟩
          · exact .inr hunclosed

/-! ## Readings -/

theorem exists_reads (text : List Char) : ∃ visible unclosed, Reads text visible unclosed := by
  -- A comment is passed over as a whole, so the induction is on the length.
  induction hlength : text.length using Nat.strongRecOn generalizing text with
  | ind length ih =>
    subst hlength
    cases text with
    | nil => exact ⟨[], false, .done⟩
    | cons c text =>
      by_cases hblock : ['/', '*'] <+: c :: text
      · obtain ⟨rfl, inside, rfl⟩ := begins_iff.mp hblock
        by_cases hcomment : ∃ rest, Skips inside rest
        · obtain ⟨rest, hcomment⟩ := hcomment
          have hlt := hcomment.length_lt
          obtain ⟨visible, unclosed, h⟩ :=
            ih rest.length (by simp only [List.length_cons]; omega) rest rfl
          exact ⟨visible, unclosed, .block hcomment h⟩
        · exact ⟨[], true, .unclosed (not_exists.mp hcomment)⟩
      · by_cases hline : ['/', '/'] <+: c :: text
        · obtain ⟨rfl, comment, rfl⟩ := begins_iff.mp hline
          have hle := (List.dropWhile_sublist (l := comment) (· ≠ '\n')).length_le
          obtain ⟨visible, unclosed, h⟩ := ih _ (by simp only [List.length_cons]; omega)
            (comment.dropWhile (· ≠ '\n')) rfl
          exact ⟨visible, unclosed, .line h⟩
        · obtain ⟨visible, unclosed, h⟩ := ih text.length (by simp) text rfl
          exact ⟨c :: visible, unclosed, .char hblock hline h⟩

theorem Reads.unique {text visible visible' : List Char} {unclosed unclosed' : Bool}
    (h : Reads text visible unclosed) (h' : Reads text visible' unclosed') :
    visible' = visible ∧ unclosed' = unclosed := by
  induction h generalizing visible' unclosed' with
  | done =>
    cases h' with
    | done => exact ⟨rfl, rfl⟩
  | char hblock hline _ ih =>
    cases h' with
    | char _ _ h =>
      obtain ⟨rfl, rfl⟩ := ih h
      exact ⟨rfl, rfl⟩
    | line => exact absurd (begins_self _ _ _) hline
    | block => exact absurd (begins_self _ _ _) hblock
    | unclosed => exact absurd (begins_self _ _ _) hblock
  | line _ ih =>
    cases h' with
    | char _ hline _ => exact absurd (begins_self _ _ _) hline
    | line h => exact ih h
  | block hcomment _ ih =>
    cases h' with
    | char hblock _ _ => exact absurd (begins_self _ _ _) hblock
    | block hcomment' h =>
      obtain rfl := hcomment.unique hcomment'
      exact ih h
    | unclosed hnever => exact absurd hcomment (hnever _)
  | unclosed hnever =>
    cases h' with
    | char hblock _ _ => exact absurd (begins_self _ _ _) hblock
    | block hcomment _ => exact absurd hcomment (hnever _)
    | unclosed => exact ⟨rfl, rfl⟩

/-! ## The scan -/

theorem outsideComments_code {c : Char} {text : List Char} (hblock : ¬ ['/', '*'] <+: c :: text)
    (hline : ¬ ['/', '/'] <+: c :: text) :
    outsideComments .code (c :: text) =
      (c :: (outsideComments .code text).1, (outsideComments .code text).2) := by
  rw [outsideComments]
  · rintro rest rfl rfl
    exact hblock (begins_self _ _ _)
  · rintro rest rfl rfl
    exact hline (begins_self _ _ _)

theorem agrees_line (text : List Char) :
    Agrees (outsideComments .code (text.dropWhile (· ≠ '\n'))) (outsideComments .line text) := by
  induction text with
  | nil => exact ⟨rfl, rfl⟩
  | cons c text ih =>
    by_cases hfeed : c = '\n'
    · subst hfeed
      have hcode : outsideComments .code ('\n' :: text) =
          ('\n' :: (outsideComments .code text).1, (outsideComments .code text).2) :=
        outsideComments_code (by simp) (by simp)
      rw [List.dropWhile_cons_of_neg (by decide), hcode, outsideComments]
      exact Agrees.blank ⟨rfl, rfl⟩ (by decide)
    · rw [List.dropWhile_cons_of_pos (by simpa using hfeed), outsideComments]
      · exact ih
      · exact hfeed

/-- **The scan agrees with the reading** on the brackets outside comments, and on whether a
block comment is left open. -/
theorem Reads.agrees {text visible : List Char} {unclosed : Bool}
    (h : Reads text visible unclosed) :
    (outsideComments .code text).1.filter isBracket = brackets visible ∧
      (outsideComments .code text).2.inBlock = unclosed := by
  induction h with
  | done => exact ⟨rfl, rfl⟩
  | @char c text visible unclosed hblock hline _ ih =>
    rw [outsideComments_code hblock hline]
    rw [brackets_eq_filter] at ih ⊢
    exact ⟨by rw [List.filter_cons, List.filter_cons, ih.1], ih.2⟩
  | line _ ih =>
    rw [outsideComments]
    exact ⟨(agrees_line _).brackets.symm.trans ih.1, (agrees_line _).region.symm.trans ih.2⟩
  | block hcomment _ ih =>
    rw [outsideComments, hcomment.outsideComments]
    exact ih
  | @unclosed text hnever =>
    rw [outsideComments]
    rcases skips_or_unclosed text 0 with ⟨rest, h⟩ | ⟨depth, hscan⟩
    · exact absurd h (hnever rest)
    · rw [hscan]
      exact ⟨rfl, rfl⟩

/-- What the scan answers, from the reading: the closer that stops it, or what is left open. -/
theorem Reads.unbalanced? {text visible : List Char} {unclosed : Bool}
    (h : Reads text visible unclosed) :
    unbalanced? text = match matchBrackets [] (brackets visible) with
      | .error closer => some closer
      | .ok stack => if unclosed then some '*' else stack.head? := by
  obtain ⟨hbrackets, hregion⟩ := h.agrees
  rw [← hbrackets, ← hregion, matchBrackets_filter, CodeBody.unbalanced?]
  rcases outsideComments .code text with ⟨shown, region⟩
  dsimp only
  cases matchBrackets [] shown with
  | error closer => rfl
  | ok stack => cases region <;> rfl

theorem Reads.unbalanced?_eq_none_iff {text visible : List Char} {unclosed : Bool}
    (h : Reads text visible unclosed) :
    CodeBody.unbalanced? text = none ↔ unclosed = false ∧ Nested (brackets visible) := by
  rw [h.unbalanced?, ← leavesOpen_nil_iff, ← matchBrackets_eq_ok_iff fun c => bracket_cases]
  cases matchBrackets [] (brackets visible) with
  | error closer => simp
  | ok stack => cases unclosed <;> simp

theorem Reads.unbalanced?_eq_some_iff {text visible : List Char} {unclosed : Bool}
    (h : Reads text visible unclosed) {delimiter : Char} :
    CodeBody.unbalanced? text = some delimiter ↔ Offends (brackets visible) unclosed delimiter := by
  have herror : ∀ {closer}, matchBrackets [] (brackets visible) = .error closer ↔
      FirstUnpaired (brackets visible) closer := matchBrackets_eq_error_iff fun c => bracket_cases
  have hok : ∀ {stack}, matchBrackets [] (brackets visible) = .ok stack ↔
      LeavesOpen (brackets visible) stack := matchBrackets_eq_ok_iff fun c => bracket_cases
  rw [h.unbalanced?]
  cases hmatch : matchBrackets [] (brackets visible) with
  | error closer =>
    have hfirst := herror.mp hmatch
    constructor
    · intro heq
      obtain rfl := Option.some.inj heq
      exact .closer hfirst
    · rintro (hother | ⟨hnone, -⟩ | ⟨hnone, -, -⟩)
      · rw [← Except.error.inj (hmatch.symm.trans (herror.mpr hother))]
      · exact absurd hfirst (hnone closer)
      · exact absurd hfirst (hnone closer)
  | ok stack =>
    have hopen := hok.mp hmatch
    have hnone : ∀ closer, ¬ FirstUnpaired (brackets visible) closer := by
      intro closer hfirst
      cases hmatch.symm.trans (herror.mpr hfirst)
    constructor
    · intro heq
      cases unclosed with
      | true =>
        obtain rfl := Option.some.inj heq
        exact .comment hnone rfl
      | false =>
        obtain ⟨below, rfl⟩ := List.head?_eq_some_iff.mp heq
        exact .opener hnone rfl hopen
    · rintro (hfirst | ⟨-, rfl⟩ | ⟨-, rfl, hother⟩)
      · exact absurd hfirst (hnone delimiter)
      · rfl
      · obtain rfl := Except.ok.inj (hmatch.symm.trans (hok.mpr hother))
        rfl

end ShaderGraph.CodeBody

namespace ShaderGraph

namespace CodeFunction

open CodeBody (Reads Nested Offends brackets)

theorem isAllBlank_iff {body : String} :
    Text.isAllBlank body = true ↔ ∀ c ∈ body.toList, Text.isBlank c = true :=
  List.all_eq_true

/-- **A body is accepted as the rules say.** It has one reading. It is refused as empty just
if it is blank; else it is accepted, as it is and under its name, just if no block comment
is left open and the brackets outside comments nest; else it is refused for the delimiter
that offends. -/
theorem make_of_reading (name body : String) :
    ∃ visible unclosed,
      (∀ visible' unclosed', Reads body.toList visible' unclosed' ↔
        visible' = visible ∧ unclosed' = unclosed) ∧
      (make name body = .error (.emptyBody name) ↔ ∀ c ∈ body.toList, Text.isBlank c = true) ∧
      (make name body = .ok ⟨name, body⟩ ↔ (∃ c ∈ body.toList, Text.isBlank c = false) ∧
        unclosed = false ∧ Nested (brackets visible)) ∧
      (∀ delimiter, make name body = .error (.unbalancedBody name delimiter) ↔
        (∃ c ∈ body.toList, Text.isBlank c = false) ∧
          Offends (brackets visible) unclosed delimiter) ∧
      (make name body = .error (.emptyBody name) ∨ make name body = .ok ⟨name, body⟩ ∨
        ∃ delimiter, make name body = .error (.unbalancedBody name delimiter)) := by
  obtain ⟨visible, unclosed, hreads⟩ := CodeBody.exists_reads body.toList
  refine ⟨visible, unclosed, fun _ _ => ⟨hreads.unique, ?_⟩, ?_⟩
  · rintro ⟨rfl, rfl⟩
    exact hreads
  rw [← isAllBlank_iff, ← hreads.unbalanced?_eq_none_iff]
  simp only [← hreads.unbalanced?_eq_some_iff]
  have hshown : (∃ c ∈ body.toList, Text.isBlank c = false) ↔ Text.isAllBlank body = false := by
    simp [Text.isAllBlank]
  rw [hshown]
  unfold make
  cases Text.isAllBlank body with
  | true => simp
  | false => cases CodeBody.unbalanced? body.toList <;> simp

/-- The slash of an opening does not close it, and brackets within a comment do not count. -/
example : make "f" "/*/ return f(x); \x7d" = .error (.unbalancedBody "f" '*') := by decide

end CodeFunction

end ShaderGraph
