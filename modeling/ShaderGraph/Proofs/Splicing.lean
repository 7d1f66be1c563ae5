import ShaderGraph.CodeFunction
import ShaderGraph.Proofs.Trimming
import ShaderGraph.Proofs.Words
import Mathlib.Data.List.Basic

/-
A function body within its template.

`Wgsl.uncommented` passes over comments as the shading language does, where any of
seven characters breaks a line. The scan that accepts a body knows one of them, the
line feed. The two see the same brackets (`uncommented_agrees`) where the line
comments of the body end in time (`linesEnd`): what follows another line
break within such a comment is blank up to the line feed. So the template around an
accepted body of this kind is closed by its last brace and by nothing before it
(`CodeFunction.closesAtEnd_render`); a body with a carriage return in a line comment
can close it early (`closed_early_by_carriage_return`).
-/
namespace ShaderGraph

open CodeBody (Region isOpener openerOf? matchBrackets outsideComments)

/-! ## Comments of the shading language -/

namespace Wgsl

/-- A character at which a line ends, and a line comment with it. -/
def isLineBreak (c : Char) : Bool :=
  c ∈ ['\n', '\x0b', '\x0c', '\x0d', '\u0085', '\u2028', '\u2029']

/-- The characters outside comments, and the region in which the text ends. Block
comments nest, and a line comment ends at the first line break. -/
def uncommented : Region → List Char → List Char × Region
  | region, [] => ([], region)
  | .code, '/' :: '*' :: rest => uncommented (.block 0) rest
  | .code, '/' :: '/' :: rest => uncommented .line rest
  | .code, c :: rest => (c :: (uncommented .code rest).1, (uncommented .code rest).2)
  | .line, c :: rest => if isLineBreak c then uncommented .code rest else uncommented .line rest
  | .block depth, '/' :: '*' :: rest => uncommented (.block (depth + 1)) rest
  | .block 0, '*' :: '/' :: rest => uncommented .code rest
  | .block (depth + 1), '*' :: '/' :: rest => uncommented (.block depth) rest
  | .block depth, _ :: rest => uncommented (.block depth) rest

/-- The braces of a text pair up: nowhere have more been closed than opened, and at the
end none is open. -/
structure BracesPair (text : List Char) : Prop where
  within : ∀ w, w <+: text → w.count '\x7d' ≤ w.count '\x7b'
  whole : text.count '\x7d' = text.count '\x7b'

/-- The block that the first brace of the text opens is closed by the brace before the
last line feed and by no earlier one, and the text ends outside comments. -/
def ClosesAtEnd (text : List Char) : Prop :=
  ∃ before inside, text = before ++ '\x7b' :: (inside ++ ['\x7d', '\n']) ∧ '\x7b' ∉ before ∧
    uncommented .code text =
      (before ++ '\x7b' :: ((uncommented .code inside).1 ++ ['\x7d', '\n']), .code) ∧
    BracesPair (uncommented .code inside).1

section Steps

variable {c d : Char} {depth : Nat} {rest : List Char}

theorem uncommented_code (hblock : ∀ tail, d = '/' → rest = '*' :: tail → False)
    (hline : ∀ tail, d = '/' → rest = '/' :: tail → False) :
    uncommented .code (d :: rest) = (d :: (uncommented .code rest).1, (uncommented .code rest).2) := by
  rw [uncommented]
  · exact hblock
  · exact hline

theorem uncommented_block (hopen : ∀ tail, d = '/' → rest = '*' :: tail → False)
    (hclose : ∀ tail, d = '*' → rest = '/' :: tail → False) :
    uncommented (.block depth) (d :: rest) = uncommented (.block depth) rest := by
  rw [uncommented]
  · exact hopen
  · exact fun tail _ => hclose tail
  · exact fun _ tail _ => hclose tail

theorem not_closes (hzero : ∀ tail, depth = 0 → d = '*' → rest = '/' :: tail → False)
    (hsucc : ∀ below tail, depth = Nat.succ below → d = '*' → rest = '/' :: tail → False) :
    ∀ tail, d = '*' → rest = '/' :: tail → False := by
  intro tail hd
  cases depth with
  | zero => exact hzero tail rfl hd
  | succ below => exact hsucc below tail rfl hd

/-- A text that does not begin with a character does not after more is put behind it. -/
theorem not_begins_append (hcd : c ≠ d) (h : ∀ tail, rest = d :: tail → False) (more : List Char) :
    ∀ tail, rest ++ c :: more = d :: tail → False := by
  intro tail heq
  cases rest with
  | nil => exact hcd (List.cons.inj heq).1
  | cons x rest => exact h rest (by rw [(List.cons.inj heq).1])

end Steps

/-- A text falls apart at a character that begins and ends no comment. -/
theorem uncommented_append {c : Char} (hslash : c ≠ '/') (hstar : c ≠ '*') (region : Region)
    (a b : List Char) :
    uncommented region (a ++ c :: b) =
      ((uncommented region a).1 ++ (uncommented (uncommented region a).2 (c :: b)).1,
        (uncommented (uncommented region a).2 (c :: b)).2) := by
  fun_induction uncommented region a with
  | case1 region => rfl
  | case2 rest ih => simp only [List.cons_append, uncommented, ih]
  | case3 rest ih => simp only [List.cons_append, uncommented, ih]
  | case4 d rest hblock hline ih =>
    -- What follows begins a comment neither here nor in the longer text.
    rw [List.cons_append, uncommented_code, ih, List.cons_append]
    · exact fun tail hd => not_begins_append hstar (fun tail => hblock tail hd) b tail
    · exact fun tail hd => not_begins_append hslash (fun tail => hline tail hd) b tail
  | case5 d rest hbreak ih => simp only [List.cons_append, uncommented, hbreak, if_true, ih]
  | case6 d rest hbreak ih =>
    simp only [List.cons_append, uncommented, hbreak, Bool.false_eq_true, if_false, ih]
  | case7 depth rest ih => simp only [List.cons_append, uncommented, ih]
  | case8 rest ih => simp only [List.cons_append, uncommented, ih]
  | case9 depth rest ih => simp only [List.cons_append, uncommented, ih]
  | case10 depth d rest hopen hzero hsucc ih =>
    rw [List.cons_append, uncommented_block, ih]
    · exact fun tail hd => not_begins_append hstar (fun tail => hopen tail hd) b tail
    · exact fun tail hd =>
        not_begins_append hslash (fun tail => not_closes hzero hsucc tail hd) b tail

theorem uncommented_of_forall {text : List Char} (h : ∀ c ∈ text, c ≠ '/') :
    uncommented .code text = (text, .code) := by
  induction text with
  | nil => rfl
  | cons c text ih =>
    have hc : c ≠ '/' := h c List.mem_cons_self
    rw [uncommented_code (fun _ hd => absurd hd hc) (fun _ hd => absurd hd hc),
      ih fun x hx => h x (List.mem_cons_of_mem c hx)]

end Wgsl

open Wgsl (isLineBreak uncommented BracesPair ClosesAtEnd)

namespace CodeBody

/-! ## Brackets -/

def isBracket (c : Char) : Bool := isOpener c || (openerOf? c).isSome

theorem openerOf?_eq_brace {c opener : Char} (h : openerOf? c = some opener) :
    opener = '\x7b' ↔ c = '\x7d' := by
  unfold openerOf? at h
  split at h <;> simp_all <;> subst h <;> decide

theorem matchBrackets_append (stack a b : List Char) :
    matchBrackets stack (a ++ b) = matchBrackets stack a >>= fun rest => matchBrackets rest b := by
  fun_induction matchBrackets stack a with
  | case1 stack => rfl
  | case2 stack c rest hopen ih => rw [List.cons_append, matchBrackets, if_pos hopen, ih]
  | case3 stack c rest hopen hclose ih =>
    rw [List.cons_append, matchBrackets, if_neg hopen, hclose]
    exact ih
  | case4 c rest hopen top below hclose ih =>
    rw [List.cons_append, matchBrackets, if_neg hopen, hclose]
    simp only [if_true, ih]
  | case5 c rest hopen opener hclose top below htop =>
    rw [List.cons_append, matchBrackets, if_neg hopen, hclose]
    simp only [htop, if_false]
    rfl
  | case6 c rest hopen opener hclose =>
    rw [List.cons_append, matchBrackets, if_neg hopen, hclose]
    rfl

theorem matchBrackets_filter (stack text : List Char) :
    matchBrackets stack (text.filter isBracket) = matchBrackets stack text := by
  fun_induction matchBrackets stack text <;> simp_all [matchBrackets, isBracket]

/-- The braces that were open or are opened are closed or stay open. -/
theorem count_of_matchBrackets {stack text rest : List Char}
    (h : matchBrackets stack text = .ok rest) :
    text.count '\x7d' + rest.count '\x7b' = text.count '\x7b' + stack.count '\x7b' := by
  fun_induction matchBrackets stack text generalizing rest with
  | case1 stack =>
    obtain rfl := Except.ok.inj h
    simp
  | case2 stack c text hopen ih =>
    have hc : c ≠ '\x7d' := by rintro rfl; exact absurd hopen (by decide)
    have := ih h
    simp only [List.count_cons, beq_iff_eq, hc, if_false] at this ⊢
    omega
  | case3 stack c text hopen hclose ih =>
    have hc : c ≠ '\x7d' := by rintro rfl; exact absurd hclose (by decide)
    have hc' : c ≠ '\x7b' := by rintro rfl; exact absurd rfl hopen
    have := ih h
    simp only [List.count_cons, beq_iff_eq, hc, hc', if_false] at this ⊢
    omega
  | case4 c text hopen top below hclose ih =>
    -- The brace on top is open if the closer is a brace, and only then.
    have hc' : c ≠ '\x7b' := by rintro rfl; exact absurd rfl hopen
    have htop := openerOf?_eq_brace hclose
    have := ih h
    simp only [List.count_cons, beq_iff_eq, hc', htop, if_false] at this ⊢
    omega
  | case5 => cases h
  | case6 => cases h

theorem bracesPair_of_matchBrackets {text : List Char} (h : matchBrackets [] text = .ok []) :
    BracesPair text := by
  refine ⟨fun w hw => ?_, by simpa using count_of_matchBrackets h⟩
  obtain ⟨more, rfl⟩ := hw
  rw [matchBrackets_append] at h
  cases hrest : matchBrackets [] w with
  | error c => rw [hrest] at h; cases h
  | ok rest =>
    have := count_of_matchBrackets hrest
    simp only [List.count_nil] at this
    omega

/-! ## Two ways to pass over comments -/

def Region.inBlock : Region → Bool
  | .block _ => true
  | _ => false

def blankLine (text : List Char) : Bool := (text.takeWhile (· ≠ '\n')).all Text.isBlank

/-- Every line comment of the body ends in time: what follows a line break other than
a line feed within it is blank up to the line feed. -/
def linesEnd : Region → List Char → Bool
  | _, [] => true
  | .code, '/' :: '*' :: rest => linesEnd (.block 0) rest
  | .code, '/' :: '/' :: rest => linesEnd .line rest
  | .code, _ :: rest => linesEnd .code rest
  | .line, '\n' :: rest => linesEnd .code rest
  | .line, c :: rest => (!isLineBreak c || blankLine rest) && linesEnd .line rest
  | .block depth, '/' :: '*' :: rest => linesEnd (.block (depth + 1)) rest
  | .block 0, '*' :: '/' :: rest => linesEnd .code rest
  | .block (depth + 1), '*' :: '/' :: rest => linesEnd (.block depth) rest
  | .block depth, _ :: rest => linesEnd (.block depth) rest

/-- Two readings of a text see the same brackets, and both or neither end in a block
comment. -/
structure Agrees (x y : List Char × Region) : Prop where
  brackets : x.1.filter isBracket = y.1.filter isBracket
  region : x.2.inBlock = y.2.inBlock

theorem Agrees.trans {x y z : List Char × Region} (h : Agrees x y) (h' : Agrees y z) :
    Agrees x z :=
  ⟨h.brackets.trans h'.brackets, h.region.trans h'.region⟩

theorem Agrees.cons {x y : List Char × Region} (h : Agrees x y) (c : Char) :
    Agrees (c :: x.1, x.2) (c :: y.1, y.2) := by
  refine ⟨?_, h.region⟩
  simp only [List.filter_cons, h.brackets]

theorem isBlank_of_isBracket {c : Char} (h : isBracket c = true) : Text.isBlank c = false := by
  simp only [isBracket, isOpener, Bool.or_eq_true, beq_iff_eq] at h
  rcases h with ((rfl | rfl) | rfl) | h
  · decide
  · decide
  · decide
  · unfold openerOf? at h
    split at h
    · decide
    · decide
    · decide
    · cases h

theorem ne_of_isBlank {c d : Char} (hc : Text.isBlank c = true) (hd : Text.isBlank d = false) :
    c ≠ d := by
  rintro rfl
  rw [hc] at hd
  cases hd

theorem Agrees.blank {x y : List Char × Region} (h : Agrees x y) {c : Char}
    (hc : Text.isBlank c = true) : Agrees (c :: x.1, x.2) y := by
  have hbracket : ¬ isBracket c = true := fun hb => by
    rw [isBlank_of_isBracket hb] at hc
    cases hc
  exact ⟨by rw [List.filter_cons_of_neg hbracket, h.brackets], h.region⟩

/-- **The scan of a body agrees with the language**, if line comments end in time. -/
theorem uncommented_agrees {region : Region} {text : List Char}
    (h : linesEnd region text = true) :
    Agrees (uncommented region text) (outsideComments region text) ∧
      (region = .line → blankLine text = true →
        Agrees (uncommented .code text) (outsideComments .line text)) := by
  -- The second part is about a line comment that the language has ended already.
  fun_induction outsideComments region text with
  | case1 region => exact ⟨⟨rfl, rfl⟩, fun _ _ => ⟨rfl, rfl⟩⟩
  | case2 rest ih =>
    simp only [linesEnd, uncommented] at h ⊢
    exact ⟨(ih h).1, nofun⟩
  | case3 rest ih =>
    simp only [linesEnd, uncommented] at h ⊢
    exact ⟨(ih h).1, nofun⟩
  | case4 c rest hblock hline visible final hrest ih =>
    rw [linesEnd.eq_4 _ _ hblock hline] at h
    rw [Wgsl.uncommented_code hblock hline]
    rw [hrest] at ih
    exact ⟨(ih h).1.cons c, nofun⟩
  | case5 rest ih =>
    simp only [linesEnd] at h
    have hfeed : uncommented .code ('\n' :: rest) =
        ('\n' :: (uncommented .code rest).1, (uncommented .code rest).2) :=
      Wgsl.uncommented_code (fun _ hd => absurd hd (by decide)) (fun _ hd => absurd hd (by decide))
    have hline : uncommented .line ('\n' :: rest) = uncommented .code rest := by
      rw [uncommented, if_pos (by decide)]
    rw [hline, hfeed]
    exact ⟨(ih h).1, fun _ _ => (ih h).1.blank (by decide)⟩
  | case6 c rest hfeed ih =>
    rw [linesEnd.eq_6 _ _ hfeed, Bool.and_eq_true, Bool.or_eq_true, Bool.not_eq_true'] at h
    obtain ⟨hrest, hline⟩ := ih h.2
    refine ⟨?_, fun _ hblank => ?_⟩
    · rw [uncommented]
      split
      · next hbreak =>
        have hblank : blankLine rest = true := h.1.resolve_left (by simp [hbreak])
        exact hline rfl hblank
      · exact hrest
    · -- The character is blank, so it neither begins a comment nor is a bracket.
      have hne : c ≠ '\n' := hfeed
      simp only [blankLine, List.takeWhile_cons, hne, ne_eq, not_false_eq_true, decide_true,
        if_true, List.all_cons, Bool.and_eq_true] at hblank
      have hc : c ≠ '/' := ne_of_isBlank hblank.1 (by decide)
      rw [Wgsl.uncommented_code (fun _ hd => absurd hd hc) (fun _ hd => absurd hd hc)]
      rw [outsideComments.eq_6 _ _ hfeed]
      exact (hline rfl hblank.2).blank hblank.1
  | case7 depth rest ih =>
    simp only [linesEnd, uncommented] at h ⊢
    exact ⟨(ih h).1, nofun⟩
  | case8 rest ih =>
    simp only [linesEnd, uncommented] at h ⊢
    exact ⟨(ih h).1, nofun⟩
  | case9 depth rest ih =>
    simp only [linesEnd, uncommented] at h ⊢
    exact ⟨(ih h).1, nofun⟩
  | case10 depth c rest hopen hzero hsucc ih =>
    rw [linesEnd.eq_10 _ _ _ hopen hzero hsucc] at h
    rw [Wgsl.uncommented_block hopen (Wgsl.not_closes hzero hsucc)]
    exact ⟨(ih h).1, nofun⟩

/-! ## Blank ends -/

theorem agrees_of_blank {blanks : List Char} (h : ∀ c ∈ blanks, Text.isBlank c = true)
    (region : Region) : Agrees (uncommented region blanks) ([], region) := by
  induction blanks generalizing region with
  | nil => exact ⟨by cases region <;> rfl, by cases region <;> rfl⟩
  | cons c blanks ih =>
    have hblank := h c List.mem_cons_self
    have hslash : c ≠ '/' := ne_of_isBlank hblank (by decide)
    have hstar : c ≠ '*' := ne_of_isBlank hblank (by decide)
    have ih := ih fun x hx => h x (List.mem_cons_of_mem c hx)
    cases region with
    | code =>
      rw [Wgsl.uncommented_code (fun _ hd => absurd hd hslash) (fun _ hd => absurd hd hslash)]
      exact (ih .code).blank hblank
    | line =>
      rw [uncommented]
      split
      · exact (ih .code).trans ⟨rfl, rfl⟩
      · exact ih .line
    | block depth =>
      rw [Wgsl.uncommented_block (fun _ hd => absurd hd hslash) (fun _ hd => absurd hd hstar)]
      exact ih (.block depth)

theorem uncommented_lineFeed {region : Region} (h : region.inBlock = false) :
    (uncommented region ['\n']).1.filter isBracket = [] ∧ (uncommented region ['\n']).2 = .code := by
  cases region with
  | code => decide
  | line => decide
  | block depth => cases h

theorem agrees_trimRight (text : List Char) :
    Agrees (uncommented .code text) (uncommented .code (Text.trimRight text)) := by
  obtain ⟨blanks, htext, hblanks⟩ := Text.exists_trimRight text
  cases blanks with
  | nil =>
    rw [List.append_nil] at htext
    rw [← htext]
    exact ⟨rfl, rfl⟩
  | cons c blanks =>
    have hblank := hblanks c List.mem_cons_self
    have hslash : c ≠ '/' := ne_of_isBlank hblank (by decide)
    have hstar : c ≠ '*' := ne_of_isBlank hblank (by decide)
    obtain ⟨hbrackets, hregion⟩ := agrees_of_blank hblanks (uncommented .code (Text.trimRight text)).2
    conv_lhs => rw [htext, Wgsl.uncommented_append hslash hstar]
    refine ⟨?_, hregion⟩
    rw [List.filter_append, hbrackets, List.filter_nil, List.append_nil]

/-- What the language sees of an accepted body without its blank end: brackets that
pair up, and no comment left open but for a line comment. -/
theorem uncommented_of_unbalanced? {body : List Char} (h : unbalanced? body = none)
    (hlines : linesEnd .code body = true) :
    matchBrackets [] (uncommented .code (Text.trimRight body)).1 = .ok [] ∧
      (uncommented .code (Text.trimRight body)).2.inBlock = false := by
  have hagrees : Agrees (outsideComments .code body) (uncommented .code (Text.trimRight body)) := by
    have hscan := (uncommented_agrees hlines).1
    have htrim := agrees_trimRight body
    exact ⟨hscan.brackets.symm.trans htrim.brackets, hscan.region.symm.trans htrim.region⟩
  rw [← matchBrackets_filter, ← hagrees.brackets, matchBrackets_filter, ← hagrees.region]
  simp only [unbalanced?] at h
  rcases hscan : outsideComments .code body with ⟨visible, region⟩
  rw [hscan] at h
  cases hmatch : matchBrackets [] visible with
  | error c => rw [hmatch] at h; cases h
  | ok stack =>
    rw [hmatch] at h
    cases region with
    | block depth => cases h
    | code => exact ⟨by rw [List.head?_eq_none_iff.mp h], rfl⟩
    | line => exact ⟨by rw [List.head?_eq_none_iff.mp h], rfl⟩

end CodeBody

/-! ## The template -/

namespace Wgsl

/-- A text of this form closes its block at the end, if what stands inside pairs its
brackets and ends outside comments. -/
theorem closesAtEnd {before inside : List Char} (hslash : '/' ∉ before) (hbrace : '\x7b' ∉ before)
    (hmatch : matchBrackets [] (uncommented .code inside).1 = .ok [])
    (hcode : (uncommented .code inside).2 = .code) :
    ClosesAtEnd (before ++ '\x7b' :: (inside ++ ['\x7d', '\n'])) := by
  have hbefore : uncommented .code before = (before, .code) :=
    uncommented_of_forall fun c hc => by rintro rfl; exact hslash hc
  have hopening : ∀ rest, uncommented .code ('\x7b' :: rest) =
      ('\x7b' :: (uncommented .code rest).1, (uncommented .code rest).2) := fun rest =>
    uncommented_code (fun _ hd => absurd hd (by decide)) (fun _ hd => absurd hd (by decide))
  have hclosing : uncommented .code ['\x7d', '\n'] = (['\x7d', '\n'], .code) :=
    uncommented_of_forall (by simp)
  refine ⟨before, inside, rfl, hbrace, ?_, CodeBody.bracesPair_of_matchBrackets hmatch⟩
  rw [uncommented_append (by decide) (by decide), hbefore, hopening,
    uncommented_append (by decide) (by decide), hcode, hclosing]

end Wgsl

namespace CodeFunction

theorem isUpper_iff {c : Char} : c.isUpper = true ↔ 65 ≤ c.toNat ∧ c.toNat ≤ 90 := by
  show decide (c.val ≥ 'A'.val ∧ c.val ≤ 'Z'.val) = true ↔ _
  simp [UInt32.le_iff_toNat_le]

theorem isLower_toLower {c : Char} (h : c.isUpper = true) : c.toLower.isLower = true := by
  have hc := isUpper_iff.mp h
  have hlower : c.toLower.val = c.val + 32 := by
    unfold Char.toLower
    rw [dif_pos ⟨UInt32.le_iff_toNat_le.mpr hc.1, UInt32.le_iff_toNat_le.mpr hc.2⟩]
    rfl
  have hvalue : c.toLower.toNat = (c.toNat + 32) % 2 ^ 32 := by
    show c.toLower.val.toNat = _
    rw [hlower, UInt32.toNat_add]
    rfl
  rw [Text.isLower_iff, hvalue]
  omega

theorem toLower_of_not_isUpper {c : Char} (h : c.isUpper = false) : c.toLower = c := by
  unfold Char.toLower
  rw [dif_neg]
  intro hrange
  have hupper : c.isUpper = true :=
    isUpper_iff.mpr ⟨UInt32.le_iff_toNat_le.mp hrange.1, UInt32.le_iff_toNat_le.mp hrange.2⟩
  rw [h] at hupper
  cases hupper

theorem nameChar_cases (c : Char) :
    (nameChar c).isLower = true ∨ (nameChar c).isDigit = true ∨ nameChar c = '_' := by
  unfold nameChar
  split
  · next hc =>
    have hkind : ((c.isUpper || c.isLower) || c.isDigit) = true := hc
    cases hupper : c.isUpper with
    | true => exact .inl (isLower_toLower hupper)
    | false =>
      rw [hupper, Bool.false_or, Bool.or_eq_true] at hkind
      rw [toLower_of_not_isUpper hupper]
      exact hkind.imp_right .inl
  · exact .inr (.inr rfl)

theorem of_mem_nameOfNode {id : String} {c : Char} (h : c ∈ (nameOfNode id).toList) :
    c.isAlphanum = true ∨ c = '_' := by
  rw [nameOfNode, String.toList_append, List.mem_append] at h
  rcases h with h | h
  · have hall : ("shade_node_".toList.all fun c => c.isAlphanum || c == '_') = true := by decide
    simpa using List.all_eq_true.mp hall c h
  · rw [String.toList_ofList] at h
    obtain ⟨d, -, rfl⟩ := List.mem_map.mp h
    have halphanum : (nameChar d).isAlphanum =
      (((nameChar d).isUpper || (nameChar d).isLower) || (nameChar d).isDigit) := rfl
    rw [halphanum]
    rcases nameChar_cases d with hd | hd | hd
    · exact .inl (by rw [hd, Bool.or_true, Bool.true_or])
    · exact .inl (by rw [hd, Bool.or_true])
    · exact .inr hd

def heading (name : String) : List Char :=
  "fn ".toList ++ name.toList ++
    "(primary: vec3<f32>, secondary: vec3<f32>, uv: vec2<f32>) -> vec3<f32> ".toList

theorem toList_render (function : CodeFunction) (name : String) :
    (function.render name).toList = heading name ++ '\x7b' ::
      (('\n' :: (Text.trimRight function.body.toList ++ ['\n'])) ++ ['\x7d', '\n']) := by
  have hshown : "(" ++ ", ".intercalate (parameters.map fun parameter =>
      parameter.1 ++ ": " ++ parameter.2.name) ++ ") -> " ++ returnType.name ++ " " =
      "(primary: vec3<f32>, secondary: vec3<f32>, uv: vec2<f32>) -> vec3<f32> " := by decide
  rw [heading, ← hshown]
  simp [render, String.toList_append]

theorem not_mem_heading {c : Char} (hc : c = '/' ∨ c = '\x7b') (id : String) :
    c ∉ heading (nameOfNode id) := by
  have hname : c ∉ (nameOfNode id).toList := by
    intro h
    rcases of_mem_nameOfNode h with h | h <;> rcases hc with rfl | rfl <;> revert h <;> decide
  rw [heading, List.mem_append, List.mem_append]
  rintro ((h | h) | h)
  · rcases hc with rfl | rfl <;> revert h <;> decide
  · exact hname h
  · rcases hc with rfl | rfl <;> revert h <;> decide

/-- **An accepted body stays in its template**: whatever the node, the block of the
function is closed by the last brace of its text and by nothing before it, and the text
ends outside comments, if the line comments of the body end in time. -/
theorem closesAtEnd_render {name body : String} {function : CodeFunction}
    (h : make name body = .ok function) (hlines : CodeBody.linesEnd .code body.toList = true)
    (id : String) : ClosesAtEnd (function.render (nameOfNode id)).toList := by
  have hbody : function.body = body ∧ CodeBody.unbalanced? body.toList = none := by
    unfold make at h
    split at h
    · cases h
    · split at h
      · cases h
      · next hnone => exact ⟨by rw [← Except.ok.inj h], hnone⟩
  obtain ⟨rfl, hbalanced⟩ := hbody
  obtain ⟨hmatch, hregion⟩ := CodeBody.uncommented_of_unbalanced? hbalanced hlines
  rw [toList_render]
  -- The line feeds of the template end a line comment and are no brackets.
  generalize Text.trimRight function.body.toList = shown at hmatch hregion
  have hinside : uncommented .code ('\n' :: (shown ++ ['\n'])) =
      ('\n' :: ((uncommented .code shown).1 ++ (uncommented (uncommented .code shown).2 ['\n']).1),
        (uncommented (uncommented .code shown).2 ['\n']).2) := by
    rw [Wgsl.uncommented_code (fun _ hd => absurd hd (by decide))
      (fun _ hd => absurd hd (by decide)), Wgsl.uncommented_append (by decide) (by decide)]
  refine Wgsl.closesAtEnd (not_mem_heading (.inl rfl) id) (not_mem_heading (.inr rfl) id) ?_ ?_
  · rw [hinside, ← CodeBody.matchBrackets_filter, List.filter_cons_of_neg (by decide),
      List.filter_append, (CodeBody.uncommented_lineFeed hregion).1, List.append_nil,
      CodeBody.matchBrackets_filter]
    exact hmatch
  · rw [hinside]
    exact (CodeBody.uncommented_lineFeed hregion).2

/-- A body with a comment whose line ends with a carriage return and a line feed. -/
def twoCharacterLines : String :=
  "// keep \x7d out\x0d\nreturn mix(primary, secondary, uv.x); /* \x7b /* ( */ */ //"

theorem closesAtEnd_of_twoCharacterLines :
    make "shade_node_a" twoCharacterLines = .ok ⟨"shade_node_a", twoCharacterLines⟩ ∧
      CodeBody.linesEnd .code twoCharacterLines.toList = true ∧
      ClosesAtEnd ((⟨"shade_node_a", twoCharacterLines⟩ : CodeFunction).render
        (nameOfNode "a")).toList := by
  have hmake : make "shade_node_a" twoCharacterLines =
      .ok ⟨"shade_node_a", twoCharacterLines⟩ := by decide
  have hlines : CodeBody.linesEnd .code twoCharacterLines.toList = true := by decide
  exact ⟨hmake, hlines, closesAtEnd_render hmake hlines "a"⟩

/-- A body with a comment that a carriage return ends, and more after that. -/
def escapingBody : String := "return primary; //\x0d\x7d fn evil() -> f32 \x7b return 1.0;"

theorem rest_of_first {c : Char} {before before' rest rest' : List Char} (h : c ∉ before)
    (h' : c ∉ before') (heq : before ++ c :: rest = before' ++ c :: rest') : rest = rest' := by
  have hdrop : ∀ {before : List Char} (rest : List Char), c ∉ before →
      (before ++ c :: rest).dropWhile (· ≠ c) = c :: rest := by
    intro before rest hbefore
    rw [List.dropWhile_append_of_pos fun x hx => by
      have hne : x ≠ c := by rintro rfl; exact hbefore hx
      simpa using hne]
    simp
  have hcons : c :: rest = c :: rest' := by rw [← hdrop rest h, heq, hdrop rest' h']
  exact (List.cons.inj hcons).2

/-- The escaping body is accepted, and the brace after its carriage return closes the
block of the function. -/
theorem closed_early_by_carriage_return :
    make "shade_node_a" escapingBody = .ok ⟨"shade_node_a", escapingBody⟩ ∧
      ¬ ClosesAtEnd ((⟨"shade_node_a", escapingBody⟩ : CodeFunction).render
        (nameOfNode "a")).toList := by
  refine ⟨by decide, ?_⟩
  rintro ⟨before, inside, htext, hbrace, -, hpair⟩
  rw [toList_render] at htext
  -- The first brace and the end of the text settle what stands inside.
  have hrest := rest_of_first (not_mem_heading (.inr rfl) "a") hbrace htext
  obtain rfl := List.append_cancel_right hrest
  exact absurd (hpair.within "\nreturn primary; \x7d".toList (by decide)) (by decide)

end CodeFunction

end ShaderGraph
