import ShaderGraph.Proofs.Entries
import ShaderGraph.Proofs.Ron.Tokens
import Mathlib.Data.List.Forall2

/-
Reading composite values.

The parts of a list, a map or a record are read one after another, each on top of what
those before it gave. `Steps` says so of the texts of the parts, in whatever order and
number they come; `Laid` puts commas between these texts, and blanks and comments around
the commas. A block that the writer writes is laid out like that (`block_laid`), and a
reader of elements takes what is laid out (`elementsWithin_laid`); the composite values
follow from their parts. A part that is refused after some that are taken has the whole
refused (`elementsWithin_refused`), whatever comes after it.
-/
namespace ShaderGraph.Ron.Reader

variable {α β δ : Type}

/-! ## Elements -/

/-- The texts are read one after another, each on top of what those before it gave. -/
inductive Steps (levels : Nat) (element : α → Reader α) : α → List (List Char) → α → Prop
  | nil (a : α) : Steps levels element a [] a
  | cons {a b c : α} {part : List Char} {parts : List (List Char)} :
      Reads levels (element a) part b → Steps levels element b parts c →
        Steps levels element a (part :: parts) c

namespace Steps

variable {levels : Nat} {element : α → Reader α} {a b c : α} {parts more : List (List Char)}

theorem append (h : Steps levels element a parts b) (h' : Steps levels element b more c) :
    Steps levels element a (parts ++ more) c := by
  induction h with
  | nil => exact h'
  | cons hpart _ ih => exact .cons hpart (ih h')

end Steps

/-- The parts stand one after another with commas between them, and blanks and comments
around the commas. A comma may follow the last part. -/
inductive Laid : List (List Char) → List Char → Prop
  | nil : Laid [] []
  | last {part gap : List Char} : Gap gap → Laid [part] (part ++ gap)
  | cons {part before after text : List Char} {parts : List (List Char)} :
      Gap before → Gap after → Laid parts text →
        Laid (part :: parts) (part ++ (before ++ ',' :: (after ++ text)))

theorem Laid.length_le {parts : List (List Char)} {text : List Char} (h : Laid parts text) :
    parts.length ≤ text.length + 1 := by
  induction h with
  | nil => exact Nat.zero_le _
  | last _ => exact Nat.le_add_left ..
  | cons _ _ _ ih =>
    simp only [List.length_cons, List.length_append]
    omega

theorem of_mem_closers {close : Char} (h : close ∈ closers) :
    isSpace close = false ∧ close ≠ '/' ∧ close ≠ ',' := by
  have hplain : ∀ c ∈ closers, isSpace c = false ∧ c ≠ '/' ∧ c ≠ ',' := by decide
  exact hplain close h

theorem anotherElement_begins {text : List Char} (h : Begins text) {close : Char}
    (hclose : close ∈ closers) (scope : Scope) (rest : List Char) :
    anotherElement close true scope (text ++ rest) = .ok (true, text ++ rest) := by
  simp only [anotherElement, bind_apply, h.blanks, peek?, if_neg (h.head?_ne hclose rest), if_true,
    pure_apply]

theorem anotherElement_close {close : Char} (hclose : close ∈ closers) (hadComma : Bool)
    (scope : Scope) (rest : List Char) :
    anotherElement close hadComma scope (close :: rest) = .ok (false, close :: rest) := by
  obtain ⟨hspace, hne, -⟩ := of_mem_closers hclose
  simp [anotherElement, bind_apply, blanks_cons hspace hne, peek?, pure_apply]

theorem comma_apply {before after text : List Char} {scope : Scope} (hbefore : Gap before)
    (h : blanks scope (after ++ text) = .ok ((), text)) :
    comma scope (before ++ ',' :: (after ++ text)) = .ok (true, text) := by
  simp [comma, bind_apply, blanks_gap hbefore (c := ',') (by decide) (by decide), accept_cons, h,
    pure_apply]

theorem comma_close {gap : List Char} (hgap : Gap gap) {close : Char} (hclose : close ∈ closers)
    (scope : Scope) (rest : List Char) :
    comma scope (gap ++ close :: rest) = .ok (false, close :: rest) := by
  obtain ⟨hspace, hne, hcomma⟩ := of_mem_closers hclose
  simp [comma, bind_apply, blanks_gap hgap hspace hne, accept, hcomma, pure_apply]

theorem blanks_laid {parts : List (List Char)} {text : List Char}
    (hbegins : ∀ part ∈ parts.head?, Begins part) (hlaid : Laid parts text) {close : Char}
    (hclose : close ∈ closers) {gap : List Char} (hgap : Gap gap) (scope : Scope)
    (rest : List Char) :
    blanks scope (gap ++ (text ++ close :: rest)) = .ok ((), text ++ close :: rest) := by
  cases hlaid with
  | nil =>
    obtain ⟨hspace, hne, -⟩ := of_mem_closers hclose
    exact blanks_gap hgap hspace hne scope rest
  | last _ =>
    rw [List.append_assoc]
    exact (hbegins _ rfl).blanks_append hgap scope _
  | cons _ _ _ =>
    rw [List.append_assoc]
    exact (hbegins _ rfl).blanks_append hgap scope _

section Elements

variable {levels : Nat} {element : α → Reader α} {a b : α} {parts : List (List Char)}
  {close : Char} {scope : Scope}

theorem Steps.begins (h : Steps levels element a parts b) : ∀ part ∈ parts.head?, Begins part := by
  cases h with
  | nil => rintro _ ⟨⟩
  | cons hpart _ =>
    rintro _ ⟨⟩
    exact hpart.begins

/-- Parts that are laid out are read up to the closing character. -/
theorem elementsWithin_laid (hsteps : Steps levels element a parts b) {text : List Char}
    (hlaid : Laid parts text) (hclose : close ∈ closers) (hscope : scope.extensions = .none)
    (hdepth : levels ≤ scope.depth) (rest : List Char) :
    ∀ {rounds : Nat}, parts.length < rounds →
      elementsWithin close element rounds true a scope (text ++ close :: rest) =
        .ok (b, close :: rest) := by
  induction hsteps generalizing text with
  | nil a =>
    rintro (_ | rounds) hrounds
    · cases hrounds
    · cases hlaid
      simp [elementsWithin, bind_apply, anotherElement_close hclose, pure_apply]
  | cons hpart hsteps ih =>
    rintro (_ | rounds) hrounds
    · cases hrounds
    · cases hlaid with
      | @last _ gap hgap =>
        cases hsteps
        obtain ⟨rounds, rfl⟩ : ∃ n, rounds = n + 1 := ⟨rounds - 1, by simp at hrounds; omega⟩
        rw [List.append_assoc, elementsWithin, bind_apply,
          anotherElement_begins hpart.begins hclose]
        simp only [if_true, bind_apply,
          hpart.read scope _ hscope hdepth (hgap.ends_append (.closing hclose rest)),
          comma_close hgap hclose, elementsWithin, anotherElement_close hclose, Bool.false_eq_true,
          if_false, pure_apply]
      | @cons _ before after text _ hbefore hafter hlaid =>
        have hblanks := blanks_laid hsteps.begins hlaid hclose hafter scope rest
        have hends : Ends (before ++ ',' :: (after ++ (text ++ close :: rest))) :=
          hbefore.ends_append (.comma _)
        rw [List.append_assoc, List.append_assoc, List.cons_append, List.append_assoc,
          elementsWithin, bind_apply, anotherElement_begins hpart.begins hclose]
        simp only [if_true, bind_apply, hpart.read scope _ hscope hdepth hends,
          comma_apply hbefore hblanks]
        exact ih hlaid (Nat.lt_of_succ_lt_succ hrounds)

theorem elementsWithin_refused {before after : List (List Char)} {part : List Char} {e : ReadError}
    (hsteps : Steps levels element a before b) (hpart : Refuses levels (element b) part e)
    {text : List Char} (hlaid : Laid (before ++ part :: after) text) (hclose : close ∈ closers)
    (hscope : scope.extensions = .none) (hdepth : levels ≤ scope.depth) (rest : List Char) :
    ∀ {rounds : Nat}, before.length < rounds →
      elementsWithin close element rounds true a scope (text ++ close :: rest) = .error e := by
  induction hsteps generalizing text with
  | nil a =>
    rintro (_ | rounds) hrounds
    · cases hrounds
    · -- The part is the first one, whatever comes after it.
      obtain ⟨more, htext, hends⟩ : ∃ more, text ++ close :: rest = part ++ more ∧ Ends more := by
        cases hlaid with
        | @last _ gap hgap =>
          exact ⟨_, List.append_assoc .., hgap.ends_append (.closing hclose rest)⟩
        | @cons _ gap _ _ _ hgap _ _ =>
          refine ⟨_, List.append_assoc .., ?_⟩
          rw [List.append_assoc]
          exact hgap.ends_append (.comma _)
      rw [htext, elementsWithin, bind_apply, anotherElement_begins hpart.begins hclose]
      simp only [if_true, bind_apply, hpart.refuse scope _ hscope hdepth hends]
  | @cons a b' c first parts hfirst hsteps ih =>
    rintro (_ | rounds) hrounds
    · cases hrounds
    · rw [List.cons_append] at hlaid
      generalize hothers : parts ++ part :: after = others at hlaid
      cases hlaid with
      | last _ =>
        have := congrArg List.length hothers
        simp at this
      | @cons _ before after' text _ hbefore hafter hlaid =>
        subst hothers
        have hbegins : ∀ next ∈ (parts ++ part :: after).head?, Begins next := by
          cases parts with
          | nil =>
            rintro _ ⟨⟩
            exact hpart.begins
          | cons next parts => exact hsteps.begins
        have hblanks := blanks_laid hbegins hlaid hclose hafter scope rest
        have hends : Ends (before ++ ',' :: (after' ++ (text ++ close :: rest))) :=
          hbefore.ends_append (.comma _)
        rw [List.append_assoc, List.append_assoc, List.cons_append, List.append_assoc,
          elementsWithin, bind_apply, anotherElement_begins hfirst.begins hclose]
        simp only [if_true, bind_apply, hfirst.read scope _ hscope hdepth hends,
          comma_apply hbefore hblanks]
        exact ih hpart hlaid (Nat.lt_of_succ_lt_succ hrounds)

/-- The first round looks for an element after blanks, and finds the same without them. -/
theorem elements_gap {gap text : List Char} (hgap : Gap gap) (rest : List Char) :
    elements close a element scope (gap ++ (text ++ close :: rest)) =
      elementsWithin close element ((gap ++ (text ++ close :: rest)).length + 1) true a scope
        (text ++ close :: rest) := by
  simp only [elements, elementsWithin, anotherElement, bind_apply, hgap.blanks_append]

theorem elements_laid (hsteps : Steps levels element a parts b) {text : List Char}
    (hlaid : Laid parts text) (hclose : close ∈ closers) (hscope : scope.extensions = .none)
    (hdepth : levels ≤ scope.depth) {gap : List Char} (hgap : Gap gap) (rest : List Char) :
    elements close a element scope (gap ++ (text ++ close :: rest)) = .ok (b, close :: rest) := by
  have hlength := hlaid.length_le
  rw [elements_gap hgap]
  refine elementsWithin_laid hsteps hlaid hclose hscope hdepth rest ?_
  rw [List.length_append, List.length_append, List.length_cons]
  omega

theorem elements_refused {before after : List (List Char)} {part : List Char} {e : ReadError}
    (hsteps : Steps levels element a before b) (hpart : Refuses levels (element b) part e)
    {text : List Char} (hlaid : Laid (before ++ part :: after) text) (hclose : close ∈ closers)
    (hscope : scope.extensions = .none) (hdepth : levels ≤ scope.depth) {gap : List Char}
    (hgap : Gap gap) (rest : List Char) :
    elements close a element scope (gap ++ (text ++ close :: rest)) = .error e := by
  have hlength := hlaid.length_le
  rw [List.length_append, List.length_cons] at hlength
  rw [elements_gap hgap]
  refine elementsWithin_refused hsteps hpart hlaid hclose hscope hdepth rest ?_
  rw [List.length_append, List.length_append, List.length_cons]
  omega

end Elements

/-! ## Blocks -/

theorem gap_indent (level : Nat) : Gap (Writer.indent level) := by
  refine .of_spaces fun c hc => ?_
  rw [List.eq_of_mem_replicate hc]
  decide

theorem gap_newline : Gap ['\n'] := .of_spaces (by decide)

theorem gap_blank : Gap [' '] := .of_spaces (by decide)

theorem lines_laid (parts : List Writer) (level : Nat) :
    ∃ gap text, '\n' :: (parts.flatMap fun part =>
        Writer.indent (level + 1) ++ part (level + 1) ++ [',', '\n']) ++ Writer.indent level =
          gap ++ text ∧
      Gap gap ∧ Laid (parts.map fun part => part (level + 1)) text := by
  induction parts with
  | nil =>
    exact ⟨'\n' :: Writer.indent level, [], by simp, gap_newline.append (gap_indent level), .nil⟩
  | cons part parts ih =>
    obtain ⟨gap, text, htext, hgap, hlaid⟩ := ih
    refine ⟨'\n' :: Writer.indent (level + 1), part (level + 1) ++ ([] ++ ',' :: (gap ++ text)), ?_,
      gap_newline.append (gap_indent (level + 1)), .cons .nil hgap hlaid⟩
    rw [← htext]
    simp

theorem block_laid (opening closing : Char) (parts : List Writer) (level : Nat) :
    ∃ gap text, Writer.block opening closing parts level =
        opening :: (gap ++ (text ++ [closing])) ∧
      Gap gap ∧ Laid (parts.map fun part => part (level + 1)) text := by
  cases parts with
  | nil => exact ⟨[], [], rfl, .nil, .nil⟩
  | cons part parts =>
    obtain ⟨gap, text, htext, hgap, hlaid⟩ := lines_laid (part :: parts) level
    refine ⟨gap, text, ?_, hgap, hlaid⟩
    rw [← List.append_assoc gap, ← htext]
    rfl

theorem head?_block (opening closing : Char) (parts : List Writer) (level : Nat) :
    (Writer.block opening closing parts level).head? = some opening := by
  cases parts <;> rfl

theorem elements_block {levels : Nat} {element : α → Reader α} {a b : α} {parts : List Writer}
    {level : Nat} (hsteps : Steps levels element a (parts.map fun part => part (level + 1)) b)
    (opening closing : Char) (hclosing : closing ∈ closers) :
    ∃ inner, Writer.block opening closing parts level = opening :: inner ∧
      ∀ scope rest, scope.extensions = .none → levels ≤ scope.depth →
        elements closing a element scope (inner ++ rest) = .ok (b, closing :: rest) := by
  obtain ⟨gap, text, htext, hgap, hlaid⟩ := block_laid opening closing parts level
  refine ⟨gap ++ (text ++ [closing]), htext, fun scope rest hscope hdepth => ?_⟩
  rw [List.append_assoc, List.append_assoc, List.singleton_append]
  exact elements_laid hsteps hlaid hclosing hscope hdepth hgap rest

/-! ## Lists, maps and options -/

theorem nested_apply {r : Reader α} {text : List Char} {answer : Except ReadError (α × List Char)}
    {levels : Nat} {scope : Scope}
    (h : ∀ scope, scope.extensions = .none → levels ≤ scope.depth → r scope text = answer)
    (hscope : scope.extensions = .none) (hdepth : levels + 1 ≤ scope.depth) :
    nested r scope text = answer := by
  obtain ⟨depth, hdepth'⟩ : ∃ depth, scope.depth = depth + 1 := ⟨scope.depth - 1, by omega⟩
  rw [nested, hdepth']
  exact h _ hscope (by show levels ≤ depth; omega)

theorem Reads.list {levels level : Nat} {element : Reader α} {write : α → Writer} {items : List α}
    (h : ∀ a ∈ items, Reads levels element (write a (level + 1)) a) :
    Reads (levels + 2) (Reader.list element) (Writer.list (items.map write) level) items := by
  have hsteps : ∀ read : List α,
      Steps (levels + 1) (fun items => do return items ++ [← Reader.nested element]) read
        ((items.map write).map fun part => part (level + 1)) (read ++ items) := by
    induction items with
    | nil => intro read; rw [List.append_nil]; exact .nil read
    | cons a items ih =>
      intro read
      have ha := (h a List.mem_cons_self).nested.map fun b => read ++ [b]
      have hrest := ih (fun b hb => h b (List.mem_cons_of_mem a hb)) (read ++ [a])
      rw [List.append_assoc, List.singleton_append] at hrest
      exact .cons ha hrest
  obtain ⟨inner, htext, hread⟩ := elements_block (hsteps []) '[' ']' (by decide)
  rw [Writer.list, htext]
  refine ⟨.cons (by decide) (by decide) _, fun scope rest hscope hdepth _ => ?_⟩
  have hinner := nested_apply (fun scope hscope hdepth => hread scope rest hscope hdepth) hscope
    hdepth
  simp [Reader.list, bind_apply, expect_cons, hinner,
    blanks_cons (c := ']') (by decide) (by decide), pure_apply]

theorem colonThen_apply {value : Reader α} {before after text rest : List Char} {a : α}
    {levels : Nat} {scope : Scope} (hbefore : Gap before) (hafter : Gap after)
    (h : Reads levels value text a) (hscope : scope.extensions = .none)
    (hdepth : levels + 1 ≤ scope.depth) (hrest : Ends rest) :
    colonThen value scope (before ++ ':' :: (after ++ (text ++ rest))) = .ok (a, rest) := by
  simp [colonThen, bind_apply, blanks_gap hbefore (c := ':') (by decide) (by decide), expect_cons,
    h.begins.blanks_append hafter, h.nested.read scope rest hscope hdepth hrest]

theorem colonThen_refused {value : Reader α} {before after text rest : List Char} {e : ReadError}
    {levels : Nat} {scope : Scope} (hbefore : Gap before) (hafter : Gap after)
    (h : Refuses levels value text e) (hscope : scope.extensions = .none)
    (hdepth : levels + 1 ≤ scope.depth) (hrest : Ends rest) :
    colonThen value scope (before ++ ':' :: (after ++ (text ++ rest))) = .error e := by
  simp [colonThen, bind_apply, blanks_gap hbefore (c := ':') (by decide) (by decide), expect_cons,
    h.begins.blanks_append hafter, h.nested.refuse scope rest hscope hdepth hrest]

def entryStep (value : Reader α) (entries : OrderedMap String α) : Reader (OrderedMap String α) :=
  do
    let key ← nested string
    let a ← colonThen value
    return entries.insert key a

theorem Reads.entry {levels : Nat} {value : Reader α} {write : Writer} {level : Nat} {a : α}
    (h : Reads levels value (write level) a) (key : String) (entries : OrderedMap String α) :
    Reads (levels + 1) (entryStep value entries)
      (Writer.string key level ++ ':' :: ' ' :: write level) (entries.insert key a) := by
  have hkey := (Reads.string key).nested
  refine ⟨hkey.begins.append _, fun scope rest hscope hdepth hrest => ?_⟩
  have hcolon := colonThen_apply .nil gap_blank h hscope hdepth hrest
  rw [List.nil_append, List.singleton_append] at hcolon
  rw [List.append_assoc, List.cons_append, List.cons_append]
  simp only [entryStep, bind_apply, Writer.string, hkey.read scope _ hscope (by omega) (.colon _),
    hcolon, pure_apply]

def writeEntry (write : α → Writer) (entry : String × α) : Writer := fun level =>
  Writer.string entry.1 level ++ ':' :: ' ' :: write entry.2 level

theorem Reads.orderedMap {levels level : Nat} {value : Reader α} {write : α → Writer}
    {m : OrderedMap String α}
    (h : ∀ entry ∈ m.entries, Reads levels value (write entry.2 (level + 1)) entry.2) :
    Reads (levels + 2) (Reader.map value) (Writer.map write m level) m := by
  have hsteps : ∀ (entries : List (String × α)) (read : OrderedMap String α),
      (∀ entry ∈ entries, Reads levels value (write entry.2 (level + 1)) entry.2) →
      Steps (levels + 1) (entryStep value) read
        ((entries.map (writeEntry write)).map fun part => part (level + 1))
        (entries.foldl (fun m pair => m.insert pair.1 pair.2) read) := by
    intro entries
    induction entries with
    | nil => intro read _; exact .nil read
    | cons entry entries ih =>
      intro read h
      exact .cons ((h entry List.mem_cons_self).entry entry.1 read)
        (ih _ fun other hother => h other (List.mem_cons_of_mem entry hother))
  have hall : Steps (levels + 1) (entryStep value) OrderedMap.empty
      ((m.entries.map (writeEntry write)).map fun part => part (level + 1))
      (OrderedMap.ofList m.entries) :=
    hsteps m.entries OrderedMap.empty h
  rw [OrderedMap.ofList_entries] at hall
  obtain ⟨inner, htext, hread⟩ := elements_block hall '{' '}' (by decide)
  have hwrite : Writer.map write m level = '{' :: inner := htext
  rw [hwrite]
  refine ⟨.cons (by decide) (by decide) _, fun scope rest hscope hdepth _ => ?_⟩
  have hinner := nested_apply (fun scope hscope hdepth => hread scope rest hscope hdepth) hscope
    hdepth
  show (do
    expect '{' .expectedMap
    let entries ← Reader.nested (elements '}' OrderedMap.empty (entryStep value))
    Reader.blanks
    expect '}' .expectedMapEnd
    pure entries : Reader (OrderedMap String α)) scope ('{' :: inner ++ rest) = .ok (m, rest)
  simp [bind_apply, expect_cons, hinner, blanks_cons (c := '}') (by decide) (by decide), pure_apply]

theorem Reads.ofSome {levels : Nat} {value : Reader α} {text : List Char} {a : α}
    (h : Reads levels value text a) :
    Reads (levels + 1) (Reader.option value) ("Some(".toList ++ text ++ [')']) (some a) := by
  refine ⟨.cons (by decide) (by decide) _, fun scope rest hscope hdepth _ => ?_⟩
  have hnone (text : List Char) : acceptWord "None" scope ("Some(".toList ++ text) =
      .ok (false, "Some(".toList ++ text) := rfl
  have hsome (text : List Char) : acceptWord "Some" scope ("Some(".toList ++ text) =
      .ok (true, '(' :: text) := rfl
  have hread := h.nested.read scope (')' :: rest) hscope hdepth (.closing (by decide) rest)
  have hcomma : comma scope (')' :: rest) = .ok (false, ')' :: rest) :=
    comma_close .nil (by decide) scope rest
  rw [List.append_assoc, List.append_assoc, List.singleton_append]
  simp only [Reader.option, bind_apply, hnone, Bool.false_eq_true, if_false, hsome, if_true,
    blanks_cons (c := '(') (by decide) (by decide), accept_cons, h.begins.blanks, hread,
    discard_apply, hcomma, expect_cons, pure_apply]

theorem Reads.payload {levels : Nat} {value : Reader α} {text : List Char} {a : α}
    (h : Reads levels value text a) :
    Reads (levels + 1) (Reader.payload value) ('(' :: text ++ [')']) a := by
  refine ⟨.cons (by decide) (by decide) _, fun scope rest hscope hdepth _ => ?_⟩
  have hread := h.nested.read scope (')' :: rest) hscope hdepth (.closing (by decide) rest)
  have hcomma : comma scope (')' :: rest) = .ok (false, ')' :: rest) :=
    comma_close .nil (by decide) scope rest
  rw [List.append_assoc, List.cons_append, List.singleton_append]
  simp only [Reader.payload, bind_apply, blanks_cons (c := '(') (by decide) (by decide),
    expect_cons, h.begins.blanks, hread, discard_apply, hcomma, pure_apply]

/-! ## Tuples -/

theorem components_laid {levels : Nat} {component : Reader α} (length : Nat)
    {parts : List (List Char)} {items : List α} (h : List.Forall₂ (Reads levels component) parts items)
    {text : List Char} (hlaid : Laid parts text) {scope : Scope}
    (hscope : scope.extensions = .none) (hdepth : levels + 1 ≤ scope.depth) (rest : List Char) :
    ∀ read : List α,
      components length component items.length true read scope (text ++ ')' :: rest) =
        .ok (read ++ items, ')' :: rest) := by
  have hclose : ')' ∈ closers := by decide
  induction h generalizing text with
  | nil =>
    intro read
    cases hlaid
    rw [List.append_nil]
    rfl
  | @cons part a parts items hpart hparts ih =>
    intro read
    have hnested := hpart.nested
    cases hlaid with
    | @last _ gap hgap =>
      cases hparts
      rw [List.append_assoc]
      simp only [List.length_cons, List.length_nil, components, bind_apply,
        anotherElement_begins hnested.begins hclose, if_true,
        hnested.read scope _ hscope hdepth (hgap.ends_append (.closing hclose rest)),
        comma_close hgap hclose, pure_apply]
    | @cons _ before after text _ hbefore hafter hlaid =>
      have hbegins : ∀ next ∈ parts.head?, Begins next := by
        cases hparts with
        | nil => rintro _ ⟨⟩
        | cons hnext _ =>
          rintro _ ⟨⟩
          exact hnext.begins
      have hblanks := blanks_laid hbegins hlaid hclose hafter scope rest
      have hends : Ends (before ++ ',' :: (after ++ (text ++ ')' :: rest))) :=
        hbefore.ends_append (.comma _)
      rw [List.append_assoc, List.append_assoc, List.cons_append, List.append_assoc,
        List.length_cons, components, bind_apply, anotherElement_begins hnested.begins hclose]
      simp only [if_true, bind_apply, hnested.read scope _ hscope hdepth hends,
        comma_apply hbefore hblanks, ih hlaid (read ++ [a])]
      rw [List.append_assoc, List.singleton_append]

/-- The parts stand between parentheses. -/
def Parenthesized (parts : List (List Char)) (text : List Char) : Prop :=
  ∃ gap inner, Gap gap ∧ Laid parts inner ∧ text = '(' :: (gap ++ (inner ++ [')']))

theorem Reads.tuple {levels : Nat} {component : Reader α} {parts : List (List Char)}
    {items : List α} (h : List.Forall₂ (Reads levels component) parts items) (hne : items ≠ [])
    {text : List Char} (htext : Parenthesized parts text) :
    Reads (levels + 2) (Reader.tuple items.length component false) text items := by
  obtain ⟨gap, inner, hgap, hlaid, rfl⟩ := htext
  refine ⟨.cons (by decide) (by decide) _, fun scope rest hscope hdepth _ => ?_⟩
  -- Blanks before the first component are passed over as those before the others are.
  have hgap' : ∀ scope text, components items.length component items.length true [] scope
      (gap ++ text) = components items.length component items.length true [] scope text := by
    intro scope text
    cases items with
    | nil => exact absurd rfl hne
    | cons a items =>
      simp only [List.length_cons, components, anotherElement, bind_apply, hgap.blanks_append]
  have hread := nested_apply (fun scope hscope hdepth =>
    (hgap' scope _).trans (components_laid items.length h hlaid hscope hdepth rest [])) hscope hdepth
  rw [List.cons_append, List.append_assoc, List.append_assoc, List.singleton_append]
  simp [Reader.tuple, bind_apply, expect_cons, hread,
    blanks_cons (c := ')') (by decide) (by decide), pure_apply]

theorem intercalate_laid (part : List Char) (parts : List (List Char)) :
    Laid (part :: parts) ([',', ' '].intercalate (part :: parts)) := by
  induction parts generalizing part with
  | nil =>
    have hlast : Laid [part] (part ++ []) := .last .nil
    rw [List.append_nil] at hlast
    rwa [List.intercalate_singleton]
  | cons next parts ih =>
    have hcons : Laid (part :: next :: parts)
        (part ++ ([] ++ ',' :: ([' '] ++ [',', ' '].intercalate (next :: parts)))) :=
      .cons .nil gap_blank (ih next)
    rwa [List.intercalate_cons_cons, List.append_assoc]

theorem reads_positional (items : List Binary32) :
    List.Forall₂ (Reads 0 Reader.float) (items.map fun v => v.positional.toList) items := by
  rw [List.forall₂_map_left_iff]
  exact List.forall₂_same.mpr fun v _ => .float v

theorem parenthesized_tuple (v : Binary32) (items : List Binary32) (level : Nat) :
    Parenthesized ((v :: items).map fun w => w.positional.toList)
      (Writer.tuple (v :: items) level) := by
  refine ⟨[], _, .nil, intercalate_laid _ _, ?_⟩
  rw [Writer.tuple, Writer.plain, String.toList_append, String.toList_append,
    String.toList_intercalate, List.map_map]
  rfl

/-! ## Enumerations -/

theorem Reads.enumeration {levels : Nat} (hlevels : 1 ≤ levels) {name found : String}
    {variants : List String} (hplain : isPlainIdentifier found.toList = true)
    (hfound : found ∈ variants) {content : String → Reader α} {text : List Char} {a : α}
    (hends : ∀ rest, Ends rest → Ends (text ++ rest))
    (hcontent : ∀ (scope : Scope) (rest : List Char), scope.extensions = .none →
      levels ≤ scope.depth → Ends rest → content found scope (text ++ rest) = .ok (a, rest)) :
    Reads (levels + 1) (Reader.enumeration name variants content) (found.toList ++ text) a := by
  have hidentifier := (Reads.identifier hplain).nested
  refine ⟨hidentifier.begins.append text, fun scope rest hscope hdepth hrest => ?_⟩
  refine nested_apply (fun scope hscope hdepth => ?_) hscope hdepth
  rw [List.append_assoc]
  simp only [variant, bind_apply, hidentifier.begins.blanks,
    hidentifier.read scope _ hscope (Nat.le_trans hlevels hdepth) (hends rest hrest), if_pos hfound,
    pure_apply]
  exact hcontent scope rest hscope hdepth hrest

theorem Reads.variant {levels : Nat} (hlevels : 1 ≤ levels) {name found : String}
    {variants : List String} (hplain : isPlainIdentifier found.toList = true)
    (hfound : found ∈ variants) {content : String → Reader α} {r : Reader α} {text : List Char}
    {a : α} (hcontent : ∀ scope text, scope.extensions = .none →
      content found scope text = r scope text)
    (h : Reads levels r text a) (hopening : text.head? = some '(') :
    Reads (levels + 1) (Reader.enumeration name variants content) (found.toList ++ text) a := by
  refine .enumeration hlevels hplain hfound (fun rest _ => ?_) ?_
  · rw [Ends, List.head?_append, hopening]
    exact Ends.opening []
  · intro scope rest hscope hdepth hrest
    rw [hcontent scope _ hscope]
    exact h.read scope rest hscope hdepth hrest

/-- Every value is written as a plain identifier that names it. -/
def Spelled (α : Type) [Enumerated α] : Prop :=
  ∀ a : α, isPlainIdentifier (Enumerated.word a).toList = true ∧
    Enumerated.ofWord? α (Enumerated.word a) = some a

theorem Reads.word [Enumerated α] (h : Spelled α) (name : String) (a : α) :
    Reads 2 (Reader.word name α) (Enumerated.word a).toList a := by
  obtain ⟨hplain, hword⟩ := h a
  have hmem : Enumerated.word a ∈ Enumerated.words α :=
    List.mem_map_of_mem (List.mem_of_find?_eq_some hword)
  rw [← List.append_nil (Enumerated.word a).toList]
  refine .enumeration (Nat.le_refl 1) hplain hmem (fun rest hrest => hrest) ?_
  intro scope rest _ _ _
  rw [hword]
  rfl

/-! ## Records -/

def fieldStep (owner : String) (fields : List (Field δ)) (draft : δ) : Reader δ := do
  let key ← nested identifier
  match fields.find? (·.name == key) with
  | none => do
    colonThen skipValue
    pure draft
  | some field =>
    if field.isSet draft then fail (.duplicateField key owner)
    else colonThen (field.read draft)

theorem fieldList_eq (owner : String) (fields : List (Field δ)) (draft : δ) :
    fieldList owner fields draft = elements ')' draft (fieldStep owner fields) := rfl

/-- The texts of the fields of a record that stands at a level. -/
def fieldTexts (level : Nat) (written : List (String × Writer)) : List (List Char) :=
  written.map fun field => Writer.field field.1 field.2 (level + 1)

theorem fieldTexts_append (level : Nat) (written more : List (String × Writer)) :
    fieldTexts level (written ++ more) = fieldTexts level written ++ fieldTexts level more :=
  List.map_append

/-- The text of a field: its name, a colon and its value. -/
def Named (name : String) (value text : List Char) : Prop :=
  ∃ before after, Gap before ∧ Gap after ∧
    text = name.toList ++ (before ++ ':' :: (after ++ value))

theorem named_field (name : String) (write : Writer) (level : Nat) :
    Named name (write level) (Writer.field name write level) :=
  ⟨[], [' '], .nil, gap_blank, rfl⟩

/-- The text of a record with the given fields. Its name may stand before the parenthesis. -/
def Recorded (name : String) (parts : List (List Char)) (text : List Char) : Prop :=
  ∃ header body, (header = [] ∨ ∃ gap, Gap gap ∧ header = name.toList ++ gap) ∧
    Parenthesized parts body ∧ text = header ++ body

theorem parenthesized_record (written : List (String × Writer)) (level : Nat) :
    Parenthesized (fieldTexts level written) (Writer.record written level) := by
  obtain ⟨gap, text, htext, hgap, hlaid⟩ :=
    block_laid '(' ')' (written.map fun entry => Writer.field entry.1 entry.2) level
  rw [List.map_map] at hlaid
  exact ⟨gap, text, hgap, hlaid, htext⟩

section Records

variable {owner name : String} {fields : List (Field δ)} {draft final : δ} {levels level : Nat}
  {written : List (String × Writer)}

theorem Reads.named {field : Field δ} {value text : List Char}
    (hplain : isPlainIdentifier name.toList = true)
    (hfield : fields.find? (·.name == name) = some field) (hunset : field.isSet draft = false)
    (h : Reads levels (field.read draft) value final) (htext : Named name value text) :
    Reads (levels + 1) (fieldStep owner fields draft) text final := by
  obtain ⟨before, after, hbefore, hafter, rfl⟩ := htext
  have hkey := (Reads.identifier hplain).nested
  refine ⟨hkey.begins.append _, fun scope rest hscope hdepth hrest => ?_⟩
  have hends : Ends (before ++ ':' :: (after ++ (value ++ rest))) :=
    hbefore.ends_append (.colon _)
  rw [List.append_assoc, List.append_assoc, List.cons_append, List.append_assoc]
  simp only [fieldStep, bind_apply, hkey.read scope _ hscope (by omega) hends, hfield, hunset,
    Bool.false_eq_true, if_false, colonThen_apply hbefore hafter h hscope hdepth hrest]

theorem Refuses.named {field : Field δ} {value text : List Char} {e : ReadError}
    (hplain : isPlainIdentifier name.toList = true)
    (hfield : fields.find? (·.name == name) = some field) (hunset : field.isSet draft = false)
    (h : Refuses levels (field.read draft) value e) (htext : Named name value text) :
    Refuses (levels + 1) (fieldStep owner fields draft) text e := by
  obtain ⟨before, after, hbefore, hafter, rfl⟩ := htext
  have hkey := (Reads.identifier hplain).nested
  refine ⟨hkey.begins.append _, fun scope rest hscope hdepth hrest => ?_⟩
  have hends : Ends (before ++ ':' :: (after ++ (value ++ rest))) :=
    hbefore.ends_append (.colon _)
  rw [List.append_assoc, List.append_assoc, List.cons_append, List.append_assoc]
  simp only [fieldStep, bind_apply, hkey.read scope _ hscope (by omega) hends, hfield, hunset,
    Bool.false_eq_true, if_false, colonThen_refused hbefore hafter h hscope hdepth hrest]

theorem Refuses.duplicate {field : Field δ} {value text : List Char}
    (hplain : isPlainIdentifier name.toList = true)
    (hfield : fields.find? (·.name == name) = some field) (hset : field.isSet draft = true)
    (htext : Named name value text) :
    Refuses 1 (fieldStep owner fields draft) text (.duplicateField name owner) := by
  obtain ⟨before, after, hbefore, -, rfl⟩ := htext
  have hkey := (Reads.identifier hplain).nested
  refine ⟨hkey.begins.append _, fun scope rest hscope hdepth _ => ?_⟩
  have hends : Ends (before ++ ':' :: (after ++ (value ++ rest))) :=
    hbefore.ends_append (.colon _)
  rw [List.append_assoc, List.append_assoc, List.cons_append, List.append_assoc]
  simp only [fieldStep, bind_apply, hkey.read scope _ hscope hdepth hends, hfield, hset, if_true,
    fail]

theorem Steps.field {field : Field δ} {write : Writer}
    (hplain : isPlainIdentifier name.toList = true)
    (hfield : fields.find? (·.name == name) = some field) (hunset : field.isSet draft = false)
    (h : Reads levels (field.read draft) (write (level + 1)) final) :
    Steps (levels + 1) (fieldStep owner fields) draft (fieldTexts level [(name, write)]) final :=
  .cons (.named hplain hfield hunset h (named_field ..)) (.nil _)

/-- A field that is only written if it has a value; else the draft stays. -/
theorem Steps.ifSome {field : Field δ} {written : Option α} {write : α → Writer}
    (hplain : isPlainIdentifier name.toList = true)
    (hfield : fields.find? (·.name == name) = some field) (hunset : field.isSet draft = false)
    (hnone : written = none → draft = final)
    (hsome : ∀ a, written = some a →
      Reads levels (field.read draft) ("Some(".toList ++ write a (level + 1) ++ [')']) final) :
    Steps (levels + 1) (fieldStep owner fields) draft
      (fieldTexts level (Writer.ifSome name written write)) final := by
  cases written with
  | none =>
    rw [hnone rfl]
    exact .nil final
  | some a =>
    have hstep : Reads (levels + 1) (fieldStep owner fields draft)
        (Writer.field name (fun level => "Some(".toList ++ write a level ++ [')']) (level + 1))
        final :=
      .named hplain hfield hunset (hsome a rfl) (named_field ..)
    exact .cons hstep (.nil _)

theorem fields_laid {finish : δ → Reader α} (answer : Except ReadError α)
    {parts : List (List Char)} (hsteps : Steps levels (fieldStep owner fields) draft parts final)
    (hfinish : ∀ scope rest, finish final scope rest = answer.map fun a => (a, rest))
    {gap inner : List Char} (hgap : Gap gap) (hlaid : Laid parts inner) {scope : Scope}
    (hscope : scope.extensions = .none) (hdepth : levels + 1 ≤ scope.depth) (rest : List Char) :
    nested (fieldList owner fields draft >>= finish) scope (gap ++ (inner ++ ')' :: rest)) =
      answer.map fun a => (a, ')' :: rest) := by
  refine nested_apply (fun scope hscope hdepth => ?_) hscope hdepth
  have hclose : ')' ∈ closers := by decide
  rw [bind_apply, fieldList_eq, elements_laid hsteps hlaid hclose hscope hdepth hgap rest]
  exact hfinish scope (')' :: rest)

theorem fields_refused {before after : List (List Char)} {part : List Char} {e : ReadError}
    (hsteps : Steps levels (fieldStep owner fields) draft before final)
    (hpart : Refuses levels (fieldStep owner fields final) part e) (finish : δ → Reader α)
    {gap inner : List Char} (hgap : Gap gap) (hlaid : Laid (before ++ part :: after) inner)
    {scope : Scope} (hscope : scope.extensions = .none) (hdepth : levels + 1 ≤ scope.depth)
    (rest : List Char) :
    nested (fieldList owner fields draft >>= finish) scope (gap ++ (inner ++ ')' :: rest)) =
      .error e := by
  refine nested_apply (fun scope hscope hdepth => ?_) hscope hdepth
  have hclose : ')' ∈ closers := by decide
  rw [bind_apply, fieldList_eq, elements_refused hsteps hpart hlaid hclose hscope hdepth hgap rest]

theorem Reads.variantRecord {finish : δ → Reader α} {a : α}
    (hsteps : Steps levels (fieldStep owner fields) draft (fieldTexts level written) final)
    (hfinish : ∀ scope rest, finish final scope rest = .ok (a, rest)) :
    Reads (levels + 1) (Reader.variantRecord owner fields draft finish)
      (Writer.record written level) a := by
  obtain ⟨gap, inner, hgap, hlaid, htext⟩ := parenthesized_record written level
  rw [htext]
  refine ⟨.cons (by decide) (by decide) _, fun scope rest hscope hdepth _ => ?_⟩
  have hread : Reader.nested (fieldList owner fields draft >>= finish) scope
      (gap ++ (inner ++ ')' :: rest)) = .ok (a, ')' :: rest) :=
    fields_laid (.ok a) hsteps hfinish hgap hlaid hscope hdepth rest
  rw [List.cons_append, List.append_assoc, List.append_assoc, List.singleton_append]
  simp only [Reader.variantRecord, bind_apply, blanks_cons (c := '(') (by decide) (by decide),
    expect_cons, hread, blanks_cons (c := ')') (by decide) (by decide), pure_apply]

/-- The name of a record may stand before it or be left out. -/
theorem recordName_header {header : List Char} (hplain : isPlainIdentifier name.toList = true)
    (hheader : header = [] ∨ ∃ gap, Gap gap ∧ header = name.toList ++ gap) {scope : Scope}
    (hscope : scope.extensions = .none) (rest : List Char) :
    ∃ text, recordName name scope (header ++ '(' :: rest) = .ok ((), text) ∧
      blanks scope text = .ok ((), '(' :: rest) := by
  have hstruct : scope.extensions.explicitStructNames = false := by
    rw [hscope]
    rfl
  rcases hheader with rfl | ⟨gap, hgap, rfl⟩
  · have hword : continuesIdentifier ('(' :: rest) = false :=
      (Ends.opening rest).continuesIdentifier
    refine ⟨_, ?_, blanks_cons (by decide) (by decide) scope rest⟩
    simp only [recordName, bind_apply, List.nil_append, remaining, hword, extensions, hstruct,
      Bool.false_eq_true, if_false, pure_apply]
  · have hends : Ends (gap ++ '(' :: rest) := hgap.ends_append (.opening rest)
    have hword : continuesIdentifier (name.toList ++ (gap ++ '(' :: rest)) = true := by
      have hcontinue := isIdentifierContinue_of_mem hplain
      cases hname : name.toList with
      | nil => rw [hname] at hplain; cases hplain
      | cons c chars => exact hcontinue c (by rw [hname]; exact List.mem_cons_self)
    have hread := (Reads.identifier hplain).read scope _ hscope (Nat.zero_le _) hends
    refine ⟨_, ?_, blanks_gap hgap (by decide) (by decide) scope rest⟩
    rw [List.append_assoc]
    simp only [recordName, bind_apply, remaining, hword, if_true, optional, hread, pure_apply]

theorem Recorded.begins {parts : List (List Char)} {text : List Char}
    (hplain : isPlainIdentifier owner.toList = true) (htext : Recorded owner parts text) :
    Begins text := by
  obtain ⟨header, body, hheader, ⟨gap, inner, -, -, rfl⟩, rfl⟩ := htext
  rcases hheader with rfl | ⟨gap, -, rfl⟩
  · exact .cons (by decide) (by decide) _
  · rw [List.append_assoc]
    exact (Reads.identifier hplain).begins.append _

theorem Recorded.apply {finish : δ → Reader α} (answer : Except ReadError α)
    {parts : List (List Char)} {text rest : List Char}
    (hplain : isPlainIdentifier owner.toList = true) (htext : Recorded owner parts text)
    {scope : Scope} (hscope : scope.extensions = .none)
    (hinside : ∀ gap inner, Gap gap → Laid parts inner →
      nested (fieldList owner fields draft >>= finish) scope (gap ++ (inner ++ ')' :: rest)) =
        answer.map fun a => (a, ')' :: rest)) :
    Reader.record owner fields draft finish scope (text ++ rest) =
      answer.map fun a => (a, rest) := by
  obtain ⟨header, body, hheader, ⟨gap, inner, hgap, hlaid, rfl⟩, rfl⟩ := htext
  have hfields := hinside gap inner hgap hlaid
  obtain ⟨after, hname, hblanks⟩ :=
    recordName_header hplain hheader hscope (gap ++ (inner ++ ')' :: rest))
  rw [List.append_assoc, List.cons_append, List.append_assoc, List.append_assoc,
    List.singleton_append]
  cases answer <;>
    simp only [Reader.record, bind_apply, hname, hblanks, expect_cons, hfields, Except.map,
      blanks_cons (c := ')') (by decide) (by decide), pure_apply]

/-- A record whose fields are read one after another. -/
theorem Reads.recorded {finish : δ → Reader α} {a : α} {parts : List (List Char)}
    (hplain : isPlainIdentifier owner.toList = true)
    (hsteps : Steps levels (fieldStep owner fields) draft parts final)
    (hfinish : ∀ scope rest, finish final scope rest = .ok (a, rest)) {text : List Char}
    (htext : Recorded owner parts text) :
    Reads (levels + 1) (Reader.record owner fields draft finish) text a :=
  ⟨htext.begins hplain, fun _ rest hscope hdepth _ =>
    htext.apply (.ok a) hplain hscope fun _ _ hgap hlaid =>
      fields_laid (.ok a) hsteps hfinish hgap hlaid hscope hdepth rest⟩

theorem Refuses.unfinished {finish : δ → Reader α} {e : ReadError} {parts : List (List Char)}
    (hplain : isPlainIdentifier owner.toList = true)
    (hsteps : Steps levels (fieldStep owner fields) draft parts final)
    (hfinish : ∀ scope rest, finish final scope rest = .error e) {text : List Char}
    (htext : Recorded owner parts text) :
    Refuses (levels + 1) (Reader.record owner fields draft finish) text e :=
  ⟨htext.begins hplain, fun _ rest hscope hdepth _ =>
    htext.apply (.error e) hplain hscope fun _ _ hgap hlaid =>
      fields_laid (.error e) hsteps hfinish hgap hlaid hscope hdepth rest⟩

theorem Refuses.recorded {finish : δ → Reader α} {e : ReadError} {before after : List (List Char)}
    {part : List Char} (hplain : isPlainIdentifier owner.toList = true)
    (hsteps : Steps levels (fieldStep owner fields) draft before final)
    (hpart : Refuses levels (fieldStep owner fields final) part e) {text : List Char}
    (htext : Recorded owner (before ++ part :: after) text) :
    Refuses (levels + 1) (Reader.record owner fields draft finish) text e :=
  ⟨htext.begins hplain, fun _ rest hscope hdepth _ =>
    htext.apply (.error e) hplain hscope fun _ _ hgap hlaid =>
      fields_refused hsteps hpart finish hgap hlaid hscope hdepth rest⟩

theorem Reads.record {finish : δ → Reader α} {a : α}
    (hplain : isPlainIdentifier owner.toList = true)
    (hsteps : Steps levels (fieldStep owner fields) draft (fieldTexts level written) final)
    (hfinish : ∀ scope rest, finish final scope rest = .ok (a, rest)) :
    Reads (levels + 1) (Reader.record owner fields draft finish) (Writer.record written level) a :=
  .recorded hplain hsteps hfinish ⟨[], _, .inl rfl, parenthesized_record written level, rfl⟩

end Records

/-! ## Documents -/

theorem attributes_of_head? {text : List Char} (hbegins : Begins text)
    (hfirst : text.head? ≠ some '#') (rest : List Char) (n : Nat) (scope : Scope) :
    attributes n .none scope (text ++ rest) = .ok (.none, text ++ rest) := by
  have hhead : (text ++ rest).head? ≠ some '#' := by
    cases text with
    | nil => cases hbegins
    | cons c text => exact hfirst
  cases n with
  | zero => rfl
  | succ n => simp only [attributes, bind_apply, peek?, if_neg hhead, pure_apply]

section Documents

variable {levels : Nat} {value : Reader α}

/-- A document with blanks and comments around its one value. What comes after the value is
passed over to the end. -/
theorem document_of_reads {text : List Char} {a : α} (h : Reads levels value text a)
    (hlevels : levels ≤ depthLimit) (hfirst : text.head? ≠ some '#') {before after : List Char}
    (hbefore : Gap before) (hafter : skipTrivia .between after = .ok []) :
    document value (String.ofList (before ++ (text ++ after))) = .ok a := by
  have hread := h.read ⟨.none, depthLimit⟩ after rfl hlevels (Gap.ends_of_skipTrivia hafter)
  have hblanks (scope : Scope) : blanks scope after = .ok ((), []) := by rw [blanks, hafter]
  simp only [document, String.toList_ofList, bind_apply, h.begins.blanks_append hbefore, remaining,
    attributes_of_head? h.begins hfirst after, hread, hblanks, peek?, List.head?_nil,
    Option.isSome_none, Bool.false_eq_true, if_false, pure_apply]

theorem document_of_refuses {text : List Char} {e : ReadError} (h : Refuses levels value text e)
    (hlevels : levels ≤ depthLimit) (hfirst : text.head? ≠ some '#') {before after : List Char}
    (hbefore : Gap before) (hafter : skipTrivia .between after = .ok []) :
    document value (String.ofList (before ++ (text ++ after))) = .error e := by
  have hread := h.refuse ⟨.none, depthLimit⟩ after rfl hlevels (Gap.ends_of_skipTrivia hafter)
  simp only [document, String.toList_ofList, bind_apply, h.begins.blanks_append hbefore, remaining,
    attributes_of_head? h.begins hfirst after, hread]

theorem document_of_written {w : Writer} {a : α} (h : Reads levels value (w 0) a)
    (hlevels : levels ≤ depthLimit) (hfirst : (w 0).head? ≠ some '#') {after : String}
    (hafter : skipTrivia .between after.toList = .ok []) :
    document value (w.document ++ after) = .ok a := by
  have hdocument := document_of_reads h hlevels hfirst .nil hafter
  rwa [List.nil_append, String.ofList_append, String.ofList_toList] at hdocument

end Documents

end ShaderGraph.Ron.Reader
