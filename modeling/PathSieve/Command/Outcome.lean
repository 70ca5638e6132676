import PathSieve.Command.Options
import PathSieve.Rule.Engine
import PathSieve.Settings.Load

namespace PathSieve.Command

/-!
# Outcomes

What a run of the command leaves behind: how it ended, the paths that it printed, the log on the
console, and the files.

* `Ending.status?` — the exit status of a run; a run that breaks off has none.
* `Outcome.stdout`, `Outcome.stderr` — what was written.
-/

/-! ### Refusals -/

/-- Why a run is refused: the options do not go together, the settings cannot be loaded, or the
pattern or the rules are bad or cannot be told of. -/
inductive Refusal where
  | nothingToDo
  | rootMissing (root : String)
  | rootNotFolder (root : String)
  | pathsWithRoot
  | configMissing (file : String)
  | configNotFile (file : String)
  | settings (e : Settings.LoadError)
  | pattern (e : PatternError)
  | flags (e : FlagsError)
  | validation (e : ValidationError)
  | notWritable

/-- The wording of a refusal. -/
def Refusal.message : Refusal → String
  | .nothingToDo =>
    "Either a PATTERN or --config must be specified\nUse --help for usage information"
  | .rootMissing r => "Root directory does not exist: " ++ r
  | .rootNotFolder r => "Root is not a directory: " ++ r
  | .pathsWithRoot => "Candidate paths cannot be combined with --root"
  | .configMissing f => "Configuration file does not exist: " ++ f
  | .configNotFile f => "Configuration path is not a file: " ++ f
  | .settings e => e.message
  | .pattern e => "Invalid pattern: " ++ e.message
  | .flags e => "Invalid configuration: " ++ e.message
  | .validation e => "Invalid configuration: " ++ e.message
  | .notWritable => "Invalid configuration: " ++ Numeral.limitMessage none

/-! ### Breaks -/

/-- What a run can break off with. -/
inductive Break where
  | settings (e : Settings.LoadError)
  | level (e : Log.LevelError)
  | logFile (e : Files.FileError)
  | wrongType
  | noAttribute
  | tooDeep
  | notPrintable

/-- The wording of a break. -/
def Break.message : Break → String
  | .settings e => e.message
  | .level e => e.message
  | .logFile e => e.message
  | .wrongType => "wrong type"
  | .noAttribute => "no attribute"
  | .tooDeep => "maximum recursion depth exceeded"
  | .notPrintable => "codec can't encode"

/-! ### Endings -/

/-- How a run ends. -/
inductive Ending where
  | helped
  | versionShown
  | misused (e : UsageError)
  | refused (r : Refusal)
  | finished (found : Bool)
  | interrupted
  | broken (b : Break)

namespace Ending

/-- The exit status of a run. -/
def status? : Ending → Option Nat
  | .helped | .versionShown => some 0
  | .misused _ | .refused _ => some 2
  | .finished found => some (if found then 0 else 1)
  | .interrupted => some 130
  | .broken _ => none

/-- The name of the program. -/
def programName : String := "pathpattern"

/-- The version of the program. -/
def programVersion : String := "1.0.0"

/-- What is written about an ending to the standard output. -/
def stdout : Ending → String
  | .versionShown => programName ++ " " ++ programVersion ++ "\n"
  | _ => ""

/-- What is written about an ending to the standard error output. -/
def stderr : Ending → String
  | .misused e => programName ++ ": error: " ++ e.message ++ "\n"
  | .refused r => "Error: " ++ r.message ++ "\n"
  | .interrupted => "\nInterrupted by user\n"
  | _ => ""

end Ending

/-! ### Outcomes -/

/-- What a run leaves behind. -/
structure Outcome where
  ending : Ending
  printed : List String
  console : String
  files : Files.Tree

namespace Outcome

/-- The outcome of a run that ends before anything is printed or logged. -/
def early (ending : Ending) (files : Files.Tree) : Outcome := ⟨ending, [], "", files⟩

/-- What a run writes to the standard output. -/
def stdout (o : Outcome) : String :=
  String.join (o.printed.map (· ++ "\n")) ++ o.ending.stdout

/-- What a run writes to the standard error output. -/
def stderr (o : Outcome) : String := o.console ++ o.ending.stderr

end Outcome

end PathSieve.Command
