import PathSieve.Text.Quoted

namespace PathSieve.Command

/-!
# Switches

The options of the command line with their spellings, and what can be wrong with their use.

* `Switch.spellings` — the spellings of an option.
* `UsageError.message` — the wording of a misuse.
-/

/-- An option of the command line. -/
inductive Switch where
  | help
  | version
  | config
  | root
  | invert
  | caseSensitive
  | fullPath
  | debug
  | logFile
  deriving DecidableEq, Repr

namespace Switch

/-- All options, in the order in which they are listed. -/
def all : List Switch :=
  [.help, .version, .config, .root, .invert, .caseSensitive, .fullPath, .debug, .logFile]

/-- The letter of an option. -/
def letter? : Switch → Option Char
  | .help => some 'h'
  | .version => some 'v'
  | .config => some 'c'
  | .root => some 'r'
  | .invert => some 'i'
  | .caseSensitive => some 's'
  | .fullPath => some 'f'
  | .debug => none
  | .logFile => none

/-- The long name of an option. -/
def longName : Switch → String
  | .help => "help"
  | .version => "version"
  | .config => "config"
  | .root => "root"
  | .invert => "invert"
  | .caseSensitive => "case-sensitive"
  | .fullPath => "full-path"
  | .debug => "debug"
  | .logFile => "log-file"

/-- Whether an option takes a value. -/
def takesValue : Switch → Bool
  | .config | .root | .logFile => true
  | _ => false

/-- The option of a letter. -/
def ofLetter? (c : Char) : Option Switch := all.find? (·.letter? = some c)

/-- The long spelling of an option. -/
def longSpelling (s : Switch) : String := "--" ++ s.longName

/-- The spellings of an option, the short one first. -/
def spellings (s : Switch) : List String :=
  (s.letter?.map fun c => String.ofList ['-', c]).toList ++ [s.longSpelling]

/-- The spellings of an option as one text. -/
def title (s : Switch) : String := "/".intercalate s.spellings

/-- The option of a spelling. -/
def ofSpelling? (s : String) : Option Switch := all.find? (s ∈ ·.spellings)

end Switch

/-- How a command line can be misused: by the start of several long options, by a value for an
option that takes none, by an option without the value that it takes, or by arguments that have no
place. -/
inductive UsageError where
  | ambiguous (given : String) (candidates : List String)
  | ignoredValue (s : Switch) (value : String)
  | missingValue (s : Switch)
  | unrecognized (arguments : List String)
  deriving DecidableEq, Repr

/-- The wording of a misuse. -/
def UsageError.message : UsageError → String
  | .ambiguous given candidates =>
    "ambiguous option: " ++ given ++ " could match " ++ ", ".intercalate candidates
  | .ignoredValue s v => "argument " ++ s.title ++ ": ignored explicit argument " ++ Text.quote v
  | .missingValue s => "argument " ++ s.title ++ ": expected one argument"
  | .unrecognized args => "unrecognized arguments: " ++ " ".intercalate args

end PathSieve.Command
