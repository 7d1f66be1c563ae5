import ShaderGraph.Ron.Value
import ShaderGraph.Proofs.Words

/-
What it means that a reader takes a text for a value.

A text stands for a value (`Reads`) if the reader takes just the text, whatever comes
after it, as long as that ends the value (`Ends`): a value stands before a comma, a colon,
a bracket, a blank or a comment, or at the end. The text must also show that a value
begins there (`Begins`), since readers pass over blanks and comments (`Gap`) and look for
the closing bracket first. The number of levels is how deep the reader nests; a text is
read in any scope that leaves so many. A text may as well be refused (`Refuses`), by
the same rules.
-/
namespace ShaderGraph.Ron.Reader

variable {α β : Type}

/-- The characters that may come after a value: a blank, the beginning of a comment, or what
separates and closes values. -/
def enders : List Char :=
  [',', ':', '(', ')', ']', '\x7d', '/', ' ', '\t', '\n', '\r', '\x0B', '\x0C', '\u0085',
    '\u200E', '\u200F', '\u2028', '\u2029']

def closers : List Char := [')', ']', '\x7d']

/-- What may come after a value. -/
def Ends (rest : List Char) : Prop := ∀ c ∈ rest.head?, c ∈ enders

/-- A value begins with the text: neither blank, comment nor closing bracket comes first. -/
def Begins : List Char → Prop
  | [] => False
  | c :: _ => isSpace c = false ∧ c ∉ ['/', ')', ']', '\x7d']

/-- The reader takes the text for the value, in scopes without extensions that leave
`levels` levels of nesting. -/
structure Reads (levels : Nat) (r : Reader α) (text : List Char) (a : α) : Prop where
  begins : Begins text
  read : ∀ (scope : Scope) (rest : List Char), scope.extensions = .none →
    levels ≤ scope.depth → Ends rest → r scope (text ++ rest) = .ok (a, rest)

/-- The reader refuses the text with the error, in scopes without extensions that leave
`levels` levels of nesting. -/
structure Refuses (levels : Nat) (r : Reader α) (text : List Char) (e : ReadError) : Prop where
  begins : Begins text
  refuse : ∀ (scope : Scope) (rest : List Char), scope.extensions = .none →
    levels ≤ scope.depth → Ends rest → r scope (text ++ rest) = .error e

/-! ## What ends a value -/

namespace Ends

theorem nil : Ends [] := by simp [Ends]

theorem cons {c : Char} (h : c ∈ enders) (rest : List Char) : Ends (c :: rest) := by
  rintro d hd
  rw [← Option.some.inj hd]
  exact h

theorem comma (rest : List Char) : Ends (',' :: rest) := cons (by decide) rest

theorem colon (rest : List Char) : Ends (':' :: rest) := cons (by decide) rest

theorem opening (rest : List Char) : Ends ('(' :: rest) := cons (by decide) rest

theorem closing {c : Char} (h : c ∈ closers) (rest : List Char) : Ends (c :: rest) := by
  have hclosing : ∀ c ∈ closers, c ∈ enders := by decide
  exact cons (hclosing c h) rest

/-- A test that fails at all characters that may come next ends with the value. -/
theorem takeWhile_append {p : Char → Bool} {rest : List Char} (hrest : Ends rest)
    (hp : ∀ c ∈ enders, p c = false) {text : List Char}
    (htext : ∀ c ∈ text, p c = true) :
    (text ++ rest).takeWhile p = text ∧ (text ++ rest).dropWhile p = rest := by
  rw [List.takeWhile_append_of_pos htext, List.dropWhile_append_of_pos htext]
  cases rest with
  | nil => simp
  | cons c rest => simp [hp c (hrest c rfl)]

theorem continuesIdentifier {rest : List Char} (hrest : Ends rest) :
    continuesIdentifier rest = false := by
  cases rest with
  | nil => rfl
  | cons c rest =>
    have hc : ∀ c ∈ enders, Text.isIdentifierContinue c = false := by decide +kernel
    exact hc c (hrest c rfl)

end Ends

/-! ## Blanks -/

theorem skipTrivia_cons {c : Char} (hc : c ≠ '/') (rest : List Char) :
    skipTrivia .between (c :: rest) =
      if isSpace c then skipTrivia .between rest else .ok (c :: rest) := by
  rw [skipTrivia]
  all_goals simp [hc]

theorem skipTrivia_space {space : List Char} (h : ∀ c ∈ space, isSpace c = true)
    (text : List Char) : skipTrivia .between (space ++ text) = skipTrivia .between text := by
  induction space with
  | nil => rfl
  | cons c space ih =>
    have hc := h c List.mem_cons_self
    have hne : c ≠ '/' := by
      rintro rfl
      cases hc
    rw [List.cons_append, skipTrivia_cons hne, if_pos hc]
    exact ih fun d hd => h d (List.mem_cons_of_mem c hd)

/-- Blanks and comments: readers pass over them to whatever comes next. -/
def Gap (gap : List Char) : Prop :=
  ∀ text, skipTrivia .between (gap ++ text) = skipTrivia .between text

namespace Gap

variable {gap : List Char}

theorem nil : Gap [] := fun _ => rfl

theorem of_spaces (h : ∀ c ∈ gap, isSpace c = true) : Gap gap := skipTrivia_space h

theorem append {more : List Char} (h : Gap gap) (hmore : Gap more) : Gap (gap ++ more) := by
  intro text
  rw [List.append_assoc, h, hmore]

theorem comment {words : List Char} (h : '\n' ∉ words) : Gap ('/' :: '/' :: words ++ ['\n']) := by
  intro text
  have hline : ∀ words : List Char, '\n' ∉ words →
      skipTrivia .line (words ++ '\n' :: text) = skipTrivia .between text := by
    intro words
    induction words with
    | nil => exact fun _ => by rw [List.nil_append, skipTrivia]
    | cons c words ih =>
      intro hnot
      rw [List.mem_cons, not_or] at hnot
      rw [List.cons_append, skipTrivia, ih hnot.2]
      exact fun hc => hnot.1 hc.symm
  rw [List.append_assoc, List.cons_append, List.cons_append, skipTrivia]
  exact hline words h

theorem blanks_append (h : Gap gap) (scope : Scope) (text : List Char) :
    blanks scope (gap ++ text) = blanks scope text := by
  rw [blanks, h, blanks]

theorem ends_of_skipTrivia (h : skipTrivia .between gap = .ok []) :
    Ends gap := by
  have hblank : ∀ c, isSpace c = true → c ∈ enders := by
    intro c hc
    have hspaces : ∀ c ∈ [' ', '\t', '\n', '\r', '\x0B', '\x0C', '\u0085', '\u200E', '\u200F',
      '\u2028', '\u2029'], c ∈ enders := by decide
    exact hspaces c (of_decide_eq_true hc)
  cases gap with
  | nil => exact .nil
  | cons c gap =>
    by_cases hc : c = '/'
    · subst hc
      exact .cons (by decide) gap
    · rw [skipTrivia_cons hc] at h
      split at h
      · next hspace => exact .cons (hblank c hspace) gap
      · cases h

theorem ends_append (h : Gap gap) {rest : List Char} (hrest : Ends rest) : Ends (gap ++ rest) := by
  have hall := h []
  rw [List.append_nil] at hall
  have hends := ends_of_skipTrivia hall
  cases gap with
  | nil => exact hrest
  | cons c gap => exact hends

end Gap

/-- Blanks before a character that is neither blank nor begins a comment. -/
theorem blanks_gap {gap : List Char} (hgap : Gap gap) {c : Char} (hc : isSpace c = false)
    (hne : c ≠ '/') (scope : Scope) (rest : List Char) :
    blanks scope (gap ++ c :: rest) = .ok ((), c :: rest) := by
  rw [blanks, hgap, skipTrivia_cons hne, hc]
  rfl

theorem blanks_cons {c : Char} (hc : isSpace c = false) (hne : c ≠ '/') (scope : Scope)
    (rest : List Char) : blanks scope (c :: rest) = .ok ((), c :: rest) :=
  blanks_gap .nil hc hne scope rest

namespace Begins

variable {text : List Char}

theorem cons {c : Char} (hspace : isSpace c = false) (hother : c ∉ ['/', ')', ']', '\x7d'])
    (text : List Char) : Begins (c :: text) :=
  ⟨hspace, hother⟩

theorem blanks_append (h : Begins text) {gap : List Char} (hgap : Gap gap) (scope : Scope)
    (rest : List Char) : blanks scope (gap ++ (text ++ rest)) = .ok ((), text ++ rest) := by
  cases text with
  | nil => cases h
  | cons c text => exact blanks_gap hgap h.1 (fun hc => h.2 (by simp [hc])) scope (text ++ rest)

theorem blanks (h : Begins text) (scope : Scope) (rest : List Char) :
    blanks scope (text ++ rest) = .ok ((), text ++ rest) :=
  h.blanks_append .nil scope rest

theorem head?_ne (h : Begins text) {close : Char} (hclose : close ∈ closers)
    (rest : List Char) : (text ++ rest).head? ≠ some close := by
  cases text with
  | nil => cases h
  | cons c text =>
    intro hc
    rw [← Option.some.inj hc] at hclose
    exact h.2 (List.mem_cons_of_mem _ hclose)

theorem append (h : Begins text) (more : List Char) : Begins (text ++ more) := by
  cases text with
  | nil => cases h
  | cons c text => exact h

theorem of_forall {p : Char → Bool}
    (hspaces : ∀ c ∈ [' ', '\t', '\n', '\r', '\x0B', '\x0C', '\u0085', '\u200E', '\u200F',
      '\u2028', '\u2029'], p c = false)
    (hothers : ∀ c ∈ ['/', ')', ']', '\x7d'], p c = false) (hne : text ≠ [])
    (htext : ∀ c ∈ text, p c = true) : Begins text := by
  cases text with
  | nil => exact absurd rfl hne
  | cons c text =>
    have hc := htext c List.mem_cons_self
    constructor
    · refine Bool.eq_false_iff.mpr fun hspace => ?_
      rw [hspaces c (of_decide_eq_true hspace)] at hc
      cases hc
    · intro hmem
      rw [hothers c hmem] at hc
      cases hc

end Begins

/-! ## Characters and nesting -/

theorem map_apply (f : α → β) (r : Reader α) (scope : Scope) (text : List Char) :
    (f <$> r) scope text =
      match r scope text with
      | .ok (a, rest) => .ok (f a, rest)
      | .error e => .error e := rfl

theorem discard_apply (r : Reader α) (scope : Scope) (text : List Char) :
    (discard r) scope text =
      match r scope text with
      | .ok (_, rest) => .ok ((), rest)
      | .error e => .error e := rfl

theorem accept_cons (c : Char) (scope : Scope) (rest : List Char) :
    accept c scope (c :: rest) = .ok (true, rest) := by
  simp [accept]

theorem expect_cons (c : Char) (e : ReadError) (scope : Scope) (rest : List Char) :
    expect c e scope (c :: rest) = .ok ((), rest) := by
  simp [expect, bind_apply, accept_cons, pure_apply]

namespace Reads

variable {r : Reader α} {text : List Char} {a : α} {levels : Nat}

theorem mono (h : Reads levels r text a) {more : Nat} (hle : levels ≤ more) :
    Reads more r text a :=
  ⟨h.begins, fun scope rest hscope hdepth => h.read scope rest hscope (Nat.le_trans hle hdepth)⟩

theorem nested (h : Reads levels r text a) : Reads (levels + 1) (nested r) text a := by
  refine ⟨h.begins, fun scope rest hscope hdepth hrest => ?_⟩
  obtain ⟨depth, hdepth'⟩ : ∃ depth, scope.depth = depth + 1 := ⟨scope.depth - 1, by omega⟩
  rw [Reader.nested, hdepth']
  exact h.read _ rest hscope (by show levels ≤ depth; omega) hrest

theorem map (h : Reads levels r text a) (f : α → β) : Reads levels (f <$> r) text (f a) := by
  refine ⟨h.begins, fun scope rest hscope hdepth hrest => ?_⟩
  rw [map_apply, h.read scope rest hscope hdepth hrest]

end Reads

namespace Refuses

variable {r : Reader α} {text : List Char} {e : ReadError} {levels : Nat}

theorem mono (h : Refuses levels r text e) {more : Nat} (hle : levels ≤ more) :
    Refuses more r text e :=
  ⟨h.begins, fun scope rest hscope hdepth => h.refuse scope rest hscope (Nat.le_trans hle hdepth)⟩

theorem nested (h : Refuses levels r text e) : Refuses (levels + 1) (nested r) text e := by
  refine ⟨h.begins, fun scope rest hscope hdepth hrest => ?_⟩
  obtain ⟨depth, hdepth'⟩ : ∃ depth, scope.depth = depth + 1 := ⟨scope.depth - 1, by omega⟩
  rw [Reader.nested, hdepth']
  exact h.refuse _ rest hscope (by show levels ≤ depth; omega) hrest

theorem map (h : Refuses levels r text e) (f : α → β) : Refuses levels (f <$> r) text e := by
  refine ⟨h.begins, fun scope rest hscope hdepth hrest => ?_⟩
  rw [map_apply, h.refuse scope rest hscope hdepth hrest]

end Refuses

end ShaderGraph.Ron.Reader
