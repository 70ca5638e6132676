import PathSieve.Command.Word
import PathSieve.Flags.Basic

namespace PathSieve.Command

/-!
# Options

What a command line asks for. The first run of words that are no options holds the pattern and the
paths; a later run has no place. With a file of settings every such word is a path.

* `parse` — reads a command line.
* `Options.flags` — the pattern flags that are asked for.
-/

/-! ### The type -/

/-- What is asked for; an absent text is one that was not given or was empty. -/
structure Options where
  pattern : Option String := none
  paths : List String := []
  config : Option String := none
  root : Option String := none
  logFile : Option String := none
  invert : Bool := false
  caseSensitive : Bool := false
  fullPath : Bool := false
  debug : Bool := false
  deriving DecidableEq, Repr

namespace Options

/-- The pattern flags that are asked for. -/
def flags (o : Options) : Flags := Flags.ofBools o.invert o.caseSensitive o.fullPath

/-- The value of an option; an empty one and the divider count as none. -/
def given (value : String) : Option String := if value = "" ∨ value = "--" then none else some value

/-- Sets an option that takes a value. -/
def setValue (o : Options) (s : Switch) (value : String) : Options :=
  match s with
  | .config => { o with config := given value }
  | .root => { o with root := given value }
  | .logFile => { o with logFile := given value }
  | _ => o

/-- Sets an option that takes no value. -/
def setSwitch (o : Options) (s : Switch) : Options :=
  match s with
  | .invert => { o with invert := true }
  | .caseSensitive => { o with caseSensitive := true }
  | .fullPath => { o with fullPath := true }
  | .debug => { o with debug := true }
  | _ => o

/-- With a file of settings the pattern is the first path. -/
def settle (o : Options) : Options :=
  match o.config, o.pattern with
  | some _, some p => { o with pattern := none, paths := p :: o.paths }
  | _, _ => o

end Options

/-! ### Plain words -/

/-- The words of the pattern at the start of a run, with the divider beside it, and the other
words. -/
def patternPart (run : List Word) : List Word × List Word :=
  let start := run.takeWhile Word.isDivider
  match run.drop start.length with
  | [] => (start, [])
  | w :: rest =>
    (start ++ w :: rest.takeWhile Word.isDivider, rest.dropWhile Word.isDivider)

/-- The texts of some words without the first divider among them. -/
def texts (ws : List Word) : List String := (ws.map Word.text).erase "--"

/-- What a command line asks for: the text of the help, the version, or the program itself. -/
inductive Request where
  | help
  | version
  | options (o : Options)
  deriving DecidableEq, Repr

/-- Why the reading of a command line ends before its last word. -/
inductive Stop where
  | misused (e : UsageError)
  | asked (r : Request)
  deriving DecidableEq, Repr

/-- A command line that has been read in part: the options so far, the run of plain words that is
being read, whether an earlier run gave the pattern and the paths, the arguments without a place,
and the options whose last one waits for its value. -/
structure Reading where
  options : Options
  run : List Word
  placed : Bool
  extra : List String
  waiting : Option (List Switch × Switch)

namespace Reading

/-- The start of a command line. -/
def start : Reading := ⟨{}, [], false, [], none⟩

/-- Ends a run of plain words. -/
def endRun (r : Reading) : Reading :=
  if r.run.isEmpty then r
  else if r.placed then { r with run := [], extra := r.extra ++ r.run.map Word.text }
  else
    let (first, rest) := patternPart r.run
    { r with
      run := [], placed := true
      options := { r.options with pattern := (texts first).head?, paths := texts rest } }

/-! ### Options -/

/-- The request that is met by the first of some options that ends the reading. -/
def request? : List Switch → Option Request
  | [] => none
  | .help :: _ => some .help
  | .version :: _ => some .version
  | _ :: rest => request? rest

/-- Sets options, of which only the last may have a value. -/
def set (r : Reading) (ss : List Switch) (last : Option (Switch × String)) :
    Except Stop Reading :=
  match request? ss with
  | some request => .error (.asked request)
  | none =>
    let o := ss.foldl Options.setSwitch r.options
    .ok { r with options := last.elim o fun (s, value) => o.setValue s value }

/-- Reads a use of options. -/
def use (r : Reading) (u : Use) : Except Stop Reading :=
  match u.switches with
  | .error e => .error (.misused e)
  | .ok (ss, .nothing) => r.set ss none
  | .ok (ss, .joined s value) => r.set ss (some (s, value))
  | .ok (ss, .next s) => .ok { r with waiting := some (ss, s) }

/-! ### Words -/

/-- Reads a word. -/
def read (r : Reading) (w : Word) : Except Stop Reading :=
  match r.waiting, w with
  | some (ss, s), .plain value => { r with waiting := none }.set ss (some (s, value))
  | some (_, s), _ => .error (.misused (.missingValue s))
  | none, .option u => r.endRun.use u
  | none, .unknown s => .ok { r.endRun with extra := r.endRun.extra ++ [s] }
  | none, w => .ok { r with run := r.run ++ [w] }

/-- The options at the end of a command line. -/
def finish (r : Reading) : Except Stop Options :=
  match r.waiting with
  | some (_, s) => .error (.misused (.missingValue s))
  | none =>
    if r.endRun.extra.isEmpty then .ok r.endRun.options.settle
    else .error (.misused (.unrecognized r.endRun.extra))

end Reading

/-- Reads a command line. -/
def parse (args : List String) : Except UsageError Request := do
  match ((← words args).foldlM Reading.read .start).bind Reading.finish with
  | .ok o => .ok (.options o)
  | .error (.asked request) => .ok request
  | .error (.misused e) => .error e

end PathSieve.Command
