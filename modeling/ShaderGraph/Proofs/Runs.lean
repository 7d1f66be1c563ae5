import ShaderGraph.Proofs.Arguments
import ShaderGraph.Proofs.Editing
import ShaderGraph.Proofs.RoundTrip

/-
Runs of the program.

A run reads, compiles and prints step by step (`perform`); a step may fail, and what was
printed before stays printed. Nothing is printed, though, before all that can fail is done:
a run that fails prints nothing, and one that does not prints what `printed` says
(`perform_eq`). What can fail are the arguments and the files, but not the starter graph
(`run_fails_iff`). A dump is a snapshot's text with the end of the line, which reads back as
the snapshot, so it is dumped again as it is.
-/
namespace ShaderGraph.CommandLine

/-! ## Printing -/

/-- What prints, and may fail after having printed. -/
abbrev Program := ExceptT RunError (StateM String)

def print (text : String) : Program Unit := modify (· ++ text)

def printLine (line : String) : Program Unit := print (line ++ "\n")

/-- Compiles, and prints what there is to say: every message as it comes, the outline, and
the shader or the fallback material. -/
def printSummary (snapshot : Snapshot) (defaults : MaterialDefaults) : Program Unit := do
  let compilation := snapshot.compile defaults
  compilation.diagnostics.forM fun message => printLine ("warning: " ++ message)
  let outline := snapshot.outline.normalize
  outline.messages.forM fun message => printLine ("outline: " ++ message)
  printLine ("// Nodes: " ++ ", ".intercalate outline.order)
  match compilation.material with
  | .node material => print material.wgsl
  | .fallback material => printLine ("// Fallback material: " ++ material.text)

/-- The run with given options, step by step. -/
def perform (files : Files) (options : Options) : Program Unit := do
  let snapshot ← liftExcept (loadSnapshot files options.snapshot)
  if options.dumpSnapshot then
    printLine snapshot.text
  else
    let defaults ← liftExcept (loadDefaults files options.defaults)
    printSummary snapshot defaults

/-- The program prints the text and does not fail. -/
def Prints (program : Program Unit) (text : String) : Prop :=
  ∀ output, program.run.run output = (.ok (), output ++ text)

namespace Prints

theorem print (text : String) : Prints (CommandLine.print text) text := fun _ => rfl

theorem printLine (line : String) : Prints (CommandLine.printLine line) (line ++ "\n") :=
  .print (line ++ "\n")

theorem bind {first second : Program Unit} {text more : String} (hfirst : Prints first text)
    (hsecond : Prints second more) : Prints (first >>= fun _ => second) (text ++ more) := by
  intro output
  rw [ExceptT.run_bind, StateT.run_bind, hfirst]
  rw [← String.append_assoc]
  exact hsecond (output ++ text)

theorem forM {messages : List String} {program : String → Program Unit} {line : String → String}
    (h : ∀ message, Prints (program message) (line message)) :
    Prints (messages.forM program) (String.join (messages.map line)) := by
  induction messages with
  | nil =>
    intro output
    rw [List.map_nil, String.join_nil, String.append_empty]
    rfl
  | cons message messages ih =>
    rw [List.map_cons, String.join_cons]
    exact (h message).bind ih

end Prints

/-! ## Runs -/

/-- A step that fails prints nothing, and what comes after it is not done. -/
theorem run_liftExcept {α β : Type} (result : Except RunError α) (next : α → Program β)
    (output : String) :
    (liftExcept result >>= next : Program β).run.run output =
      match result with
      | .ok a => (next a).run.run output
      | .error e => (.error e, output) := by
  cases result <;> rfl

theorem prints_summary (snapshot : Snapshot) (defaults : MaterialDefaults) :
    Prints (printSummary snapshot defaults) (summary snapshot defaults) := by
  have hmaterial : Prints
      (match (snapshot.compile defaults).material with
        | .node material => print material.wgsl
        | .fallback material => printLine ("// Fallback material: " ++ material.text))
      (match (snapshot.compile defaults).material with
        | .node material => material.wgsl
        | .fallback material => "// Fallback material: " ++ material.text ++ "\n") := by
    cases (snapshot.compile defaults).material with
    | node material => exact .print material.wgsl
    | fallback material => exact .printLine _
  have hall : Prints (printSummary snapshot defaults) _ :=
    (Prints.forM fun message => .printLine ("warning: " ++ message)).bind
      ((Prints.forM fun message => .printLine ("outline: " ++ message)).bind
        ((Prints.printLine ("// Nodes: " ++ ", ".intercalate snapshot.outline.normalize.order)).bind
          hmaterial))
  convert hall using 1
  simp only [summary]
  cases (snapshot.compile defaults).material <;>
    simp only [List.map_append, List.map_map, Function.comp_def, List.map_cons, List.map_nil,
      String.join_append, String.join_cons, String.join_nil, String.append_empty,
      String.append_assoc]

theorem printed_eq (files : Files) (options : Options) :
    printed files options =
      match loadSnapshot files options.snapshot with
      | .error e => .error e
      | .ok snapshot =>
        if options.dumpSnapshot then .ok (snapshot.text ++ "\n")
        else
          match loadDefaults files options.defaults with
          | .error e => .error e
          | .ok defaults => .ok (summary snapshot defaults) := by
  rw [printed]
  cases loadSnapshot files options.snapshot with
  | error e => rfl
  | ok snapshot =>
    cases hdump : options.dumpSnapshot <;> cases loadDefaults files options.defaults <;>
      simp [bind, Except.bind, pure, Except.pure]

theorem perform_eq (files : Files) (options : Options) (output : String) :
    (perform files options).run.run output =
      match printed files options with
      | .ok text => (.ok (), output ++ text)
      | .error e => (.error e, output) := by
  rw [perform, run_liftExcept, printed_eq]
  cases loadSnapshot files options.snapshot with
  | error e => rfl
  | ok snapshot =>
    by_cases hdump : options.dumpSnapshot = true
    · simp only [hdump, if_true]
      exact Prints.printLine snapshot.text output
    · simp only [hdump, Bool.false_eq_true, if_false]
      rw [run_liftExcept]
      cases loadDefaults files options.defaults with
      | error e => rfl
      | ok defaults => exact prints_summary snapshot defaults output

/-- The program: what it exits with, and all that it prints. -/
def execute (files : Files) (arguments : List String) : Nat × String :=
  let program : Program Unit := do
    let options ← liftExcept ((Options.parse arguments).mapError RunError.usage)
    perform files options
  match program.run.run "" with
  | (.ok (), output) => (0, output)
  | (.error _, output) => (1, output)

theorem execute_eq (files : Files) (arguments : List String) :
    execute files arguments =
      match run files arguments with
      | .ok text => (0, text)
      | .error _ => (1, "") := by
  rw [execute, run_liftExcept, run]
  cases Options.parse arguments with
  | error e => rfl
  | ok options =>
    simp only [Except.mapError, perform_eq]
    cases printed files options with
    | error e => rfl
    | ok text => simp only [String.empty_append]

/-! ## Failures -/

/-- The file cannot be read, or does not hold what it should. -/
def Unloadable {α : Type} (files : Files) (ofText : String → Except Ron.ReadError α)
    (path : String) : Prop :=
  (∃ e, files path = .error e) ∨ ∃ text e, files path = .ok text ∧ ofText text = .error e

/-- The arguments are wrong, or a file that is needed cannot be loaded. The defaults are only
needed if the snapshot is not dumped. -/
def Fails (files : Files) (arguments : List String) : Prop :=
  (∃ e, Options.parse arguments = .error e) ∨
    ∃ options, Options.parse arguments = .ok options ∧
      ((∃ path ∈ options.snapshot, Unloadable files Snapshot.ofText path) ∨
        options.dumpSnapshot = false ∧
          ∃ path ∈ options.defaults, Unloadable files MaterialDefaults.ofText path)

theorem readFile_fails_iff {α : Type} (files : Files) (ofText : String → Except Ron.ReadError α)
    (path : String) :
    (∃ e, readFile files ofText path = .error e) ↔ Unloadable files ofText path := by
  rw [Unloadable, readFile]
  cases files path with
  | error e => simp
  | ok text => cases htext : ofText text <;> simp [htext]

theorem loadSnapshot_fails_iff (files : Files) (snapshot : Option String) :
    (∃ e, loadSnapshot files snapshot = .error e) ↔
      ∃ path ∈ snapshot, Unloadable files Snapshot.ofText path := by
  cases snapshot with
  | none =>
    obtain ⟨graph, ids, hbuilt⟩ := StarterGraph.buildWith_ok EdgeIds.draw .fresh
    have hbuild : StarterGraph.build .fresh = .ok (graph, ids) := hbuilt
    simp [loadSnapshot, hbuild]
  | some path => simpa [loadSnapshot] using readFile_fails_iff files Snapshot.ofText path

theorem loadDefaults_fails_iff (files : Files) (defaults : Option String) :
    (∃ e, loadDefaults files defaults = .error e) ↔
      ∃ path ∈ defaults, Unloadable files MaterialDefaults.ofText path := by
  cases defaults with
  | none => simp [loadDefaults]
  | some path => simpa [loadDefaults] using readFile_fails_iff files MaterialDefaults.ofText path

theorem printed_fails_iff (files : Files) (options : Options) :
    (∃ e, printed files options = .error e) ↔
      (∃ path ∈ options.snapshot, Unloadable files Snapshot.ofText path) ∨
        options.dumpSnapshot = false ∧
          ∃ path ∈ options.defaults, Unloadable files MaterialDefaults.ofText path := by
  rw [← loadSnapshot_fails_iff, ← loadDefaults_fails_iff, printed_eq]
  cases loadSnapshot files options.snapshot with
  | error e => simp
  | ok snapshot =>
    cases options.dumpSnapshot with
    | true => simp
    | false => cases loadDefaults files options.defaults <;> simp

theorem run_fails_iff (files : Files) (arguments : List String) :
    (∃ e, run files arguments = .error e) ↔ Fails files arguments := by
  rw [run, Fails]
  cases Options.parse arguments with
  | error e => simp
  | ok options => simp [printed_fails_iff]

/-- A dump is a line that reads back as the snapshot. -/
theorem printed_dump {files : Files} {options : Options} {text : String}
    (hdump : options.dumpSnapshot = true) (h : printed files options = .ok text) :
    ∃ snapshot, text = snapshot.text ++ "\n" ∧ Snapshot.ofText text = .ok snapshot := by
  rw [printed_eq] at h
  cases hload : loadSnapshot files options.snapshot with
  | error e =>
    rw [hload] at h
    cases h
  | ok snapshot =>
    rw [hload] at h
    simp only [hdump, if_true, Except.ok.injEq] at h
    have hafter : Ron.Reader.skipTrivia .between "\n".toList = .ok [] := rfl
    refine ⟨snapshot, h.symm, ?_⟩
    rw [← h]
    exact snapshot.ofText_append hafter

theorem printed_of_dump {files : Files} {options : Options} {path text : String}
    {snapshot : Snapshot} (hdump : options.dumpSnapshot = true)
    (hpath : options.snapshot = some path) (hfile : files path = .ok text)
    (htext : Snapshot.ofText text = .ok snapshot) :
    printed files options = .ok (snapshot.text ++ "\n") := by
  have hload : loadSnapshot files options.snapshot = .ok snapshot := by
    simp only [hpath, loadSnapshot, readFile, hfile, htext]
  rw [printed_eq, hload]
  simp only [hdump, if_true]

/-- **Arguments and runs.** Parsing answers the first part that is refused, or else what the
parts ask for, in whatever order they stand apart from the paths of defaults. A run exits
with 1 and prints nothing if the arguments are wrong or a file cannot be loaded, and exits
with 0 else. What is dumped is dumped again as it is. -/
theorem arguments_and_runs :
    (∀ arguments, (divide arguments).flatMap Argument.words = arguments ∧
      match Options.parse arguments with
      | .error e => FirstRefused (divide arguments) e
      | .ok options =>
        Accepted (divide arguments) ∧
          snapshotPaths (divide arguments) = options.snapshot.toList ∧
          (defaultsPaths (divide arguments)).getLast? = options.defaults ∧
          (.dump ∈ divide arguments ↔ options.dumpSnapshot = true) ∧
          ∀ parts : List Argument, parts.Perm (divide arguments) →
            defaultsPaths parts = defaultsPaths (divide arguments) →
            Options.parse (parts.flatMap Argument.words) = .ok options) ∧
    (∀ files arguments,
      execute files arguments =
          (exitCode (run files arguments), (run files arguments).toOption.getD "") ∧
        (execute files arguments = (1, "") ↔ Fails files arguments) ∧
        (¬Fails files arguments → (execute files arguments).1 = 0)) ∧
    ∀ files files' arguments arguments' options options' path output,
      Options.parse arguments = .ok options → options.dumpSnapshot = true →
      execute files arguments = (0, output) →
      Options.parse arguments' = .ok options' → options'.dumpSnapshot = true →
      options'.snapshot = some path → files' path = .ok output →
      execute files' arguments' = (0, output) := by
  refine ⟨fun arguments => ⟨words_divide arguments, ?_⟩, fun files arguments => ?_, ?_⟩
  · cases hparse : Options.parse arguments with
    | error e =>
      have houtcome := parse_eq arguments
      rwa [hparse] at houtcome
    | ok options =>
      obtain ⟨haccepted, hasked⟩ := ((parse_eq arguments).ok_iff options).mp hparse
      refine ⟨haccepted, ?_, ?_, ?_, fun parts => parse_of_perm hparse⟩
      · rw [hasked, asked]
        exact haccepted.snapshotPaths_eq
      · rw [hasked, asked]
      · rw [hasked, asked, decide_eq_true_iff]
  · rw [execute_eq, ← run_fails_iff]
    cases run files arguments <;> simp [exitCode, Except.toOption]
  · intro files files' arguments arguments' options options' path output hparse hdump hout hparse'
      hdump' hpath hfile
    rw [execute_eq, run, hparse] at hout
    rw [execute_eq, run, hparse']
    cases hprinted : printed files options with
    | error e =>
      simp only [hprinted] at hout
      cases hout
    | ok text =>
      simp only [hprinted] at hout
      obtain ⟨-, rfl⟩ := Prod.mk.inj hout
      obtain ⟨snapshot, htext, hread⟩ := printed_dump hdump hprinted
      simp only [printed_of_dump hdump' hpath hfile hread, htext]

/-- The starter graph is dumped to a file and dumped again from it; and a path of defaults
that looks like a flag may stand before it or after it. -/
theorem arguments_and_runs_starter :
    let output := (execute (fun _ => .error .notFound) ["--dump-snapshot"]).2
    let files : Files := fun path => if path = "a.ron" then .ok output else .error .notFound
    execute files ["--defaults", "--x", "a.ron", "--dump-snapshot"] = (0, output) ∧
      Options.parse ["--dump-snapshot", "a.ron", "--defaults", "--x"] =
        Options.parse ["--defaults", "--x", "a.ron", "--dump-snapshot"] := by
  intro output files
  have hstarter : Options.parse ["--dump-snapshot"] = .ok ⟨none, none, true⟩ := rfl
  have hparse : Options.parse ["--defaults", "--x", "a.ron", "--dump-snapshot"] =
      .ok ⟨some "a.ron", some "--x", true⟩ := by decide +kernel
  obtain ⟨hparses, hruns, hdumps⟩ := arguments_and_runs
  have hfine : ¬Fails (fun _ => .error .notFound) ["--dump-snapshot"] := by
    rintro (⟨e, he⟩ | ⟨options, hoptions, ⟨path, hpath, -⟩ | ⟨hdump, -⟩⟩)
    · cases hstarter.symm.trans he
    · cases hstarter.symm.trans hoptions
      cases hpath
    · cases hstarter.symm.trans hoptions
      cases hdump
  have hdumped : execute (fun _ => .error .notFound) ["--dump-snapshot"] = (0, output) :=
    Prod.ext ((hruns _ _).2.2 hfine) rfl
  have hordered := (hparses ["--defaults", "--x", "a.ron", "--dump-snapshot"]).2
  rw [hparse] at hordered
  exact ⟨hdumps _ _ _ _ _ _ _ _ hstarter rfl hdumped hparse rfl rfl rfl,
    (hordered.2.2.2.2 [.dump, .snapshot "a.ron", .defaults "--x"] (by decide +kernel)
      (by decide +kernel)).trans hparse.symm⟩

end ShaderGraph.CommandLine
