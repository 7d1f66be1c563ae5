import ShaderGraph.Files.Defaults
import ShaderGraph.Files.Graph
import ShaderGraph.Outline
import ShaderGraph.StarterGraph
import ShaderGraph.Wgsl

/-
The command line: what the arguments ask for, and what is printed.

A run is a function of the arguments and of what the files hold. Without a
snapshot the starter graph is compiled.
-/
namespace ShaderGraph.CommandLine

/-- Why arguments are refused. -/
inductive UsageError where
  | missingPath
  | unknownFlag (flag : String)
  | secondSnapshot
  deriving DecidableEq, Repr

def UsageError.message : UsageError → String
  | missingPath => "--defaults needs a path"
  | unknownFlag flag => "unknown flag " ++ flag
  | secondSnapshot => "only one snapshot may be given"

/-- Why a file cannot be read. -/
inductive FileError where
  | notFound
  | isDirectory
  | other (text : String)
  deriving DecidableEq, Repr

def FileError.message : FileError → String
  | notFound => "No such file or directory (os error 2)"
  | isDirectory => "Is a directory (os error 21)"
  | other text => text

/-- Why a run fails. -/
inductive RunError where
  | usage (error : UsageError)
  | unreadable (path : String) (error : FileError)
  | unparsable (path : String) (error : Ron.ReadError)
  | starter (error : ConnectionError)
  deriving DecidableEq, Repr

def usageText : String :=
  "usage: ordoplay_material [SNAPSHOT.ron] [--defaults DEFAULTS.ron] [--dump-snapshot]"

def RunError.message : RunError → String
  | usage error => usageText ++ ": " ++ error.message
  | unreadable path error => "Failed to read " ++ path ++ ": " ++ error.message
  | unparsable path error => "Failed to parse " ++ path ++ ": " ++ error.message
  | starter error => "Failed to build starter graph: " ++ error.message

/-! ## Arguments -/

/-- What the arguments ask for. -/
structure Options where
  snapshot : Option String
  defaults : Option String
  dumpSnapshot : Bool
  deriving DecidableEq, Repr

namespace Options

def none : Options := ⟨.none, .none, false⟩

/-- Takes the arguments from left to right. `--defaults` takes the next argument
whatever it is; the last one counts. -/
def parseFrom (options : Options) : List String → Except UsageError Options
  | [] => .ok options
  | ["--defaults"] => .error .missingPath
  | "--defaults" :: path :: rest => parseFrom { options with defaults := some path } rest
  | argument :: rest =>
    if argument = "--dump-snapshot" then parseFrom { options with dumpSnapshot := true } rest
    else if "--".isPrefixOf argument then .error (.unknownFlag argument)
    else if options.snapshot.isSome then .error .secondSnapshot
    else parseFrom { options with snapshot := some argument } rest

def parse (arguments : List String) : Except UsageError Options := parseFrom none arguments

def paths (options : Options) : List String := options.snapshot.toList ++ options.defaults.toList

end Options

/-! ## Runs -/

/-- What the files hold. -/
abbrev Files := String → Except FileError String

def readFile {α : Type} (files : Files) (ofText : String → Except Ron.ReadError α)
    (path : String) : Except RunError α :=
  match files path with
  | .error error => .error (.unreadable path error)
  | .ok text =>
    match ofText text with
    | .error error => .error (.unparsable path error)
    | .ok value => .ok value

def loadSnapshot (files : Files) : Option String → Except RunError Snapshot
  | some path => readFile files Snapshot.ofText path
  | none =>
    match StarterGraph.build .fresh with
    | .error error => .error (.starter error)
    | .ok (graph, _) => .ok graph.snapshot

def loadDefaults (files : Files) : Option String → Except RunError MaterialDefaults
  | some path => readFile files MaterialDefaults.ofText path
  | none => .ok .standard

/-- What is printed for a compiled snapshot: messages, the outline, and the shader
or the fallback material. -/
def summary (snapshot : Snapshot) (defaults : MaterialDefaults) : String :=
  let compilation := snapshot.compile defaults
  let outline := snapshot.outline.normalize
  let lines := compilation.diagnostics.map ("warning: " ++ ·)
    ++ outline.messages.map ("outline: " ++ ·)
    ++ ["// Nodes: " ++ ", ".intercalate outline.order]
  String.join (lines.map (· ++ "\n")) ++
    match compilation.material with
    | .node material => material.wgsl
    | .fallback material => "// Fallback material: " ++ material.text ++ "\n"

/-- What a run with given options prints. The defaults are not read for a dump. -/
def printed (files : Files) (options : Options) : Except RunError String := do
  let snapshot ← loadSnapshot files options.snapshot
  if options.dumpSnapshot then return snapshot.text ++ "\n"
  let defaults ← loadDefaults files options.defaults
  return summary snapshot defaults

/-- What a run with given arguments prints. -/
def run (files : Files) (arguments : List String) : Except RunError String :=
  match Options.parse arguments with
  | .error error => .error (.usage error)
  | .ok options => printed files options

def exitCode (outcome : Except RunError String) : Nat :=
  match outcome with
  | .ok _ => 0
  | .error _ => 1

end ShaderGraph.CommandLine
