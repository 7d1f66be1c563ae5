import ShaderGraph.CommandLine
import Mathlib.Data.List.Induction
import Mathlib.Data.List.Perm.Basic

/-
What lists of arguments mean.

A list of arguments falls into parts from left to right (`divide`): `--defaults` takes
whatever argument comes next, everything else stands for itself. What is wrong with a part
is said of it and the parts before it (`Refused`), and what is asked for is read off the
parts (`asked`).

The parser fails with the first part that is refused, and else answers what the parts ask
for (`parse_eq`); the invariant of its loop is that the options so far are those that the
parts so far ask for. No part is refused because of the order of the parts
(`accepted_iff`), so only the last path of defaults depends on it (`parse_of_perm`).
-/
namespace ShaderGraph.CommandLine

/-- A part of the arguments. -/
inductive Argument where
  | dump
  | defaults (path : String)
  | missingPath
  | unknown (flag : String)
  | snapshot (path : String)
  deriving DecidableEq, Repr

def IsFlag (argument : String) : Prop := ['-', '-'] <+: argument.toList

instance (argument : String) : Decidable (IsFlag argument) := inferInstanceAs (Decidable (_ <+: _))

namespace Argument

def ofWord (argument : String) : Argument :=
  if argument = "--dump-snapshot" then dump
  else if IsFlag argument then unknown argument
  else snapshot argument

def words : Argument → List String
  | dump => ["--dump-snapshot"]
  | defaults path => ["--defaults", path]
  | missingPath => ["--defaults"]
  | unknown flag => [flag]
  | snapshot path => [path]

def snapshotPath? : Argument → Option String
  | snapshot path => some path
  | _ => none

def defaultsPath? : Argument → Option String
  | defaults path => some path
  | _ => none

end Argument

def snapshotPaths (parts : List Argument) : List String :=
  parts.filterMap Argument.snapshotPath?

def defaultsPaths (parts : List Argument) : List String :=
  parts.filterMap Argument.defaultsPath?

/-- The parts of the arguments, from left to right. -/
def divide : List String → List Argument
  | [] => []
  | ["--defaults"] => [.missingPath]
  | "--defaults" :: path :: rest => .defaults path :: divide rest
  | argument :: rest => .ofWord argument :: divide rest

/-- The part cannot stand after the parts before it. -/
inductive Refused (before : List Argument) : Argument → UsageError → Prop
  | missingPath : Refused before .missingPath .missingPath
  | unknown (flag : String) : Refused before (.unknown flag) (.unknownFlag flag)
  | secondSnapshot (path : String) {other : String} :
      .snapshot other ∈ before → Refused before (.snapshot path) .secondSnapshot

def Accepted (parts : List Argument) : Prop :=
  ∀ before part after, parts = before ++ part :: after → ∀ e, ¬Refused before part e

/-- The error is that of the first part which is refused. -/
def FirstRefused (parts : List Argument) (e : UsageError) : Prop :=
  ∃ before part after, parts = before ++ part :: after ∧ Accepted before ∧ Refused before part e

/-- What the parts ask for. -/
def asked (parts : List Argument) : Options where
  snapshot := (snapshotPaths parts).head?
  defaults := (defaultsPaths parts).getLast?
  dumpSnapshot := .dump ∈ parts

/-! ## Division -/

theorem isFlag_iff (argument : String) : IsFlag argument ↔ "--".isPrefixOf argument = true := by
  rw [String.isPrefixOf, String.startsWith_string_iff]
  rfl

/-- A path follows `--defaults`, or nothing does; other arguments stand for themselves. -/
@[elab_as_elim]
theorem arguments_induction {motive : List String → Prop} (nil : motive [])
    (missingPath : motive ["--defaults"])
    (defaults : ∀ path rest, motive rest → motive ("--defaults" :: path :: rest))
    (word : ∀ argument rest, argument ≠ "--defaults" → motive rest → motive (argument :: rest))
    (arguments : List String) : motive arguments := by
  induction arguments using divide.induct with
  | case1 => exact nil
  | case2 => exact missingPath
  | case3 path rest ih => exact defaults path rest ih
  | case4 argument rest hlast hmore ih =>
    refine word argument rest ?_ ih
    rintro rfl
    cases rest with
    | nil => exact hlast rfl rfl
    | cons path rest => exact hmore path rest rfl rfl

theorem divide_cons {argument : String} (h : argument ≠ "--defaults") (rest : List String) :
    divide (argument :: rest) = .ofWord argument :: divide rest := by
  rw [divide]
  · exact fun heq _ => h heq
  · exact fun _ _ heq _ => h heq

theorem words_divide (arguments : List String) :
    (divide arguments).flatMap Argument.words = arguments := by
  induction arguments using arguments_induction with
  | nil => rfl
  | missingPath => rfl
  | defaults path rest ih => rw [divide, List.flatMap_cons, ih]; rfl
  | word argument rest hne ih =>
    have hword : (Argument.ofWord argument).words = [argument] := by
      unfold Argument.ofWord
      split
      · rename_i heq
        rw [heq]
        rfl
      · split <;> rfl
    rw [divide_cons hne, List.flatMap_cons, ih, hword, List.singleton_append]

theorem not_isFlag_of_mem_divide {path : String} {arguments : List String}
    (h : .snapshot path ∈ divide arguments) : ¬IsFlag path := by
  induction arguments using arguments_induction with
  | nil => cases h
  | missingPath => exact Argument.noConfusion (List.mem_singleton.mp h)
  | defaults _ rest ih =>
    rw [divide, List.mem_cons] at h
    exact ih (h.resolve_left Argument.noConfusion)
  | word argument rest hne ih =>
    rw [divide_cons hne, List.mem_cons] at h
    rcases h with heq | h
    · unfold Argument.ofWord at heq
      split at heq
      · cases heq
      · split at heq
        · cases heq
        · rename_i hplain
          rw [Argument.snapshot.inj heq]
          exact hplain
    · exact ih h

/-! ## Refusals -/

theorem Accepted.nil : Accepted [] := by
  intro before part after h
  cases before <;> cases h

theorem accepted_append_singleton {before : List Argument} {part : Argument} :
    Accepted (before ++ [part]) ↔ Accepted before ∧ ∀ e, ¬Refused before part e := by
  constructor
  · intro h
    refine ⟨?_, h before part [] rfl⟩
    rintro front other back rfl
    exact h front other (back ++ [part]) (by rw [List.append_assoc, List.cons_append])
  · rintro ⟨hbefore, hpart⟩ front other back h
    rcases List.eq_nil_or_concat back with rfl | ⟨back, last, rfl⟩
    · obtain ⟨rfl, rfl⟩ := List.append_singleton_inj.mp h
      exact hpart
    · rw [List.concat_eq_append, ← List.cons_append, ← List.append_assoc] at h
      obtain ⟨rfl, -⟩ := List.append_singleton_inj.mp h
      exact hbefore front other back rfl

@[simp]
theorem snapshotPaths_append (parts more : List Argument) :
    snapshotPaths (parts ++ more) = snapshotPaths parts ++ snapshotPaths more :=
  List.filterMap_append

@[simp]
theorem defaultsPaths_append (parts more : List Argument) :
    defaultsPaths (parts ++ more) = defaultsPaths parts ++ defaultsPaths more :=
  List.filterMap_append

@[simp]
theorem snapshotPaths_singleton (part : Argument) :
    snapshotPaths [part] = part.snapshotPath?.toList := by
  cases part <;> rfl

@[simp]
theorem defaultsPaths_singleton (part : Argument) :
    defaultsPaths [part] = part.defaultsPath?.toList := by
  cases part <;> rfl

/-- A snapshot is only refused after another. -/
theorem not_refused_snapshot_iff {before : List Argument} {path : String} :
    (∀ e, ¬Refused before (.snapshot path) e) ↔ snapshotPaths before = [] := by
  rw [snapshotPaths, List.filterMap_eq_nil_iff]
  constructor
  · intro h part hpart
    cases part with
    | snapshot other => exact absurd (.secondSnapshot path hpart) (h _)
    | _ => rfl
  · rintro h _ (_ | _ | ⟨_, hother⟩)
    cases h _ hother

/-- The order of the parts does not matter: no flag may be unknown, no path be missing, and
one snapshot at most be given. -/
theorem accepted_iff (parts : List Argument) :
    Accepted parts ↔ .missingPath ∉ parts ∧ (∀ flag, .unknown flag ∉ parts) ∧
      (snapshotPaths parts).length ≤ 1 := by
  induction parts using List.reverseRecOn with
  | nil => simp [Accepted.nil, snapshotPaths]
  | append_singleton parts part ih =>
    rw [accepted_append_singleton, ih, snapshotPaths_append, snapshotPaths_singleton]
    cases part with
    | dump =>
      have hpart : ∀ e, ¬Refused parts .dump e := by rintro _ ⟨⟩
      simp [hpart, Argument.snapshotPath?]
    | defaults path =>
      have hpart : ∀ e, ¬Refused parts (.defaults path) e := by rintro _ ⟨⟩
      simp [hpart, Argument.snapshotPath?]
    | missingPath =>
      have hpart : ¬∀ e, ¬Refused parts .missingPath e := fun h => h _ .missingPath
      simp [hpart]
    | unknown flag =>
      have hpart : ¬∀ e, ¬Refused parts (.unknown flag) e := fun h => h _ (.unknown flag)
      simp only [hpart, and_false, false_iff, not_and]
      exact fun _ h => absurd (List.mem_concat_self) (h flag)
    | snapshot path =>
      have hone : (snapshotPaths parts ++ [path]).length ≤ 1 ↔ snapshotPaths parts = [] := by
        rw [List.length_append, List.length_singleton, ← List.length_eq_zero_iff]
        omega
      have hnone : snapshotPaths parts = [] → (snapshotPaths parts).length ≤ 1 := by
        intro h
        rw [h]
        exact Nat.zero_le 1
      simp only [not_refused_snapshot_iff, Argument.snapshotPath?, Option.toList_some, hone,
        List.mem_append, List.mem_singleton, reduceCtorEq, or_false]
      tauto

theorem Accepted.snapshotPaths_eq {parts : List Argument} (h : Accepted parts) :
    snapshotPaths parts = (snapshotPaths parts).head?.toList := by
  have hlength := ((accepted_iff parts).mp h).2.2
  cases hpaths : snapshotPaths parts with
  | nil => rfl
  | cons path rest =>
    rw [hpaths, List.length_cons, Nat.succ_le_succ_iff, Nat.le_zero,
      List.length_eq_zero_iff] at hlength
    rw [hlength]
    rfl

/-! ## Parsing -/

theorem asked_append_dump (before : List Argument) :
    asked (before ++ [.dump]) = { asked before with dumpSnapshot := true } := by
  simp [asked, Argument.snapshotPath?, Argument.defaultsPath?]

theorem asked_append_defaults (before : List Argument) (path : String) :
    asked (before ++ [.defaults path]) = { asked before with defaults := some path } := by
  simp [asked, Argument.snapshotPath?, Argument.defaultsPath?]

theorem asked_append_snapshot {before : List Argument} (h : snapshotPaths before = [])
    (path : String) :
    asked (before ++ [.snapshot path]) = { asked before with snapshot := some path } := by
  simp [asked, h, Argument.snapshotPath?, Argument.defaultsPath?]

/-- The outcome of parsing: the first error, or what the parts ask for. -/
def Outcome (parts : List Argument) : Except UsageError Options → Prop
  | .error e => FirstRefused parts e
  | .ok options => Accepted parts ∧ options = asked parts

theorem Outcome.refused {before after : List Argument} {part : Argument} {e : UsageError}
    (hbefore : Accepted before) (hpart : Refused before part e) :
    Outcome (before ++ part :: after) (.error e) :=
  ⟨before, part, after, rfl, hbefore, hpart⟩

theorem outcome_parseFrom (arguments : List String) {before : List Argument}
    (hbefore : Accepted before) :
    Outcome (before ++ divide arguments) ((asked before).parseFrom arguments) := by
  induction arguments using arguments_induction generalizing before with
  | nil =>
    rw [divide, List.append_nil]
    exact ⟨hbefore, rfl⟩
  | missingPath => exact .refused hbefore .missingPath
  | defaults path rest ih =>
    have hpart : ∀ e, ¬Refused before (.defaults path) e := by rintro _ ⟨⟩
    have hnext := ih (accepted_append_singleton.mpr ⟨hbefore, hpart⟩)
    rw [asked_append_defaults, List.append_assoc] at hnext
    exact hnext
  | word argument rest hne ih =>
    rw [divide_cons hne, Argument.ofWord, Options.parseFrom]
    rotate_left
    · exact fun heq _ => hne heq
    · exact fun _ _ heq _ => hne heq
    by_cases hdump : argument = "--dump-snapshot"
    · have hpart : ∀ e, ¬Refused before .dump e := by rintro _ ⟨⟩
      have hnext := ih (accepted_append_singleton.mpr ⟨hbefore, hpart⟩)
      rw [asked_append_dump, List.append_assoc] at hnext
      rw [if_pos hdump, if_pos hdump]
      exact hnext
    rw [if_neg hdump, if_neg hdump]
    by_cases hflag : IsFlag argument
    · rw [if_pos hflag, if_pos ((isFlag_iff argument).mp hflag)]
      exact .refused hbefore (.unknown argument)
    rw [if_neg hflag, if_neg (mt (isFlag_iff argument).mpr hflag)]
    have hsnapshot : (asked before).snapshot.isSome = true ↔ snapshotPaths before ≠ [] := by
      rw [asked, List.isSome_head?]
    by_cases hfirst : snapshotPaths before = []
    · rw [if_neg (mt hsnapshot.mp (not_not.mpr hfirst))]
      have hpart : ∀ e, ¬Refused before (.snapshot argument) e :=
        not_refused_snapshot_iff.mpr hfirst
      have hnext := ih (accepted_append_singleton.mpr ⟨hbefore, hpart⟩)
      rw [asked_append_snapshot hfirst, List.append_assoc] at hnext
      exact hnext
    · rw [if_pos (hsnapshot.mpr hfirst)]
      obtain ⟨e, hrefused⟩ : ∃ e, Refused before (.snapshot argument) e := by
        by_contra hnone
        exact hfirst (not_refused_snapshot_iff.mp fun e he => hnone ⟨e, he⟩)
      have he : e = .secondSnapshot := by cases hrefused; rfl
      exact .refused hbefore (he ▸ hrefused)

/-- The parser answers with the first error, or with what the parts ask for. -/
theorem parse_eq (arguments : List String) :
    Outcome (divide arguments) (Options.parse arguments) :=
  outcome_parseFrom arguments Accepted.nil

theorem Outcome.ok_iff {parts : List Argument} {outcome : Except UsageError Options}
    (h : Outcome parts outcome) (options : Options) :
    outcome = .ok options ↔ Accepted parts ∧ options = asked parts := by
  cases outcome with
  | ok found =>
    obtain ⟨haccepted, rfl⟩ := h
    exact ⟨fun heq => ⟨haccepted, (Except.ok.inj heq).symm⟩, fun heq => by rw [heq.2]⟩
  | error e =>
    obtain ⟨before, part, after, hparts, -, hrefused⟩ := h
    constructor
    · rintro ⟨⟩
    · rintro ⟨haccepted, -⟩
      exact absurd hrefused (haccepted before part after hparts e)

/-! ## The order of the parts -/

theorem divide_words {parts : List Argument} (hmissing : .missingPath ∉ parts)
    (hunknown : ∀ flag, .unknown flag ∉ parts)
    (hsnapshot : ∀ path, .snapshot path ∈ parts → ¬IsFlag path) :
    divide (parts.flatMap Argument.words) = parts := by
  induction parts with
  | nil => rfl
  | cons part parts ih =>
    simp only [List.mem_cons, not_or] at hmissing hunknown hsnapshot
    have hrest := ih hmissing.2 (fun flag => (hunknown flag).2)
      fun path hpath => hsnapshot path (.inr hpath)
    rw [List.flatMap_cons]
    cases part with
    | dump =>
      rw [Argument.words, List.singleton_append, divide_cons (by decide), hrest, Argument.ofWord,
        if_pos rfl]
    | defaults path =>
      show Argument.defaults path :: divide (parts.flatMap Argument.words) = _
      rw [hrest]
    | missingPath => exact absurd rfl hmissing.1
    | unknown flag => exact absurd rfl (hunknown flag).1
    | snapshot path =>
      have hplain := hsnapshot path (.inl rfl)
      have hne : path ≠ "--defaults" := by
        rintro rfl
        exact hplain (by decide)
      have hdump : path ≠ "--dump-snapshot" := by
        rintro rfl
        exact hplain (by decide)
      rw [Argument.words, List.singleton_append, divide_cons hne, hrest, Argument.ofWord,
        if_neg hdump, if_neg hplain]

/-- Where the arguments ask for something, their parts ask for the same in any order that
keeps that of the defaults. -/
theorem parse_of_perm {arguments : List String} {options : Options} {parts : List Argument}
    (h : Options.parse arguments = .ok options) (hperm : parts.Perm (divide arguments))
    (hdefaults : defaultsPaths parts = defaultsPaths (divide arguments)) :
    Options.parse (parts.flatMap Argument.words) = .ok options := by
  obtain ⟨haccepted, rfl⟩ := ((parse_eq arguments).ok_iff options).mp h
  obtain ⟨hmissing, hunknown, hlength⟩ := (accepted_iff _).mp haccepted
  have hpaths : (snapshotPaths parts).Perm (snapshotPaths (divide arguments)) :=
    hperm.filterMap _
  have hdivide : divide (parts.flatMap Argument.words) = parts :=
    divide_words (mt hperm.mem_iff.mp hmissing) (fun flag => mt hperm.mem_iff.mp (hunknown flag))
      fun path hpath => not_isFlag_of_mem_divide (hperm.mem_iff.mp hpath)
  have hsame : snapshotPaths parts = snapshotPaths (divide arguments) := by
    rw [haccepted.snapshotPaths_eq] at hpaths ⊢
    cases hfirst : (snapshotPaths (divide arguments)).head? with
    | none => exact List.perm_nil.mp (by rwa [hfirst] at hpaths)
    | some path => exact List.perm_singleton.mp (by rwa [hfirst] at hpaths)
  refine ((parse_eq _).ok_iff _).mpr ⟨?_, ?_⟩
  · rw [hdivide, accepted_iff, hsame]
    exact ⟨mt hperm.mem_iff.mp hmissing, fun flag => mt hperm.mem_iff.mp (hunknown flag), hlength⟩
  · rw [hdivide, asked, asked, hsame, hdefaults]
    simp only [hperm.mem_iff]

end ShaderGraph.CommandLine
