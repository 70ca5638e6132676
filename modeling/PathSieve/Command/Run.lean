import PathSieve.Command.Judge
import PathSieve.Command.Logging
import PathSieve.Files.Walk
import PathSieve.Selection
import PathSieve.Settings.Environment

namespace PathSieve.Command

/-!
# Runs

A run reads its command line, checks it against the files, loads the settings, opens the log, and
prints those of the candidates that its judge accepts. Candidates are the paths on the command
line, the files in a folder, or the lines of the input. A run may come to the end of its stack, and
to a path that its output does not take.

* `candidates` — the paths that are judged.
* `Limits` — how far a run can go.
* `runWithin`, `run` — the outcome of a command line in given surroundings, within some limits or
  without.
-/

/-- What a run finds around it: a reader of settings, files, environment variables, and the text of
its input, behind which it may be interrupted. -/
structure Surroundings where
  reader : Yaml.Reader
  files : Files.Tree
  environment : List Settings.Variable
  input : String
  interrupted : Bool

/-! ### Checks -/

/-- Checks the folder to walk through. -/
def checkRoot (t : Files.Tree) (o : Options) : Except Refusal Unit :=
  match o.root with
  | none => .ok ()
  | some root => match t.find? root with
    | none => .error (.rootMissing root)
    | some l =>
      if !t.isFolder l then .error (.rootNotFolder root)
      else if o.paths.isEmpty then .ok () else .error .pathsWithRoot

/-- Checks the file of settings. -/
def checkConfig (t : Files.Tree) (o : Options) : Except Refusal Unit :=
  match o.config with
  | none => .ok ()
  | some file => match t.find? file with
    | none => .error (.configMissing file)
    | some l => if t.isFile l then .ok () else .error (.configNotFile file)

/-- Checks that options go together and name what is there. -/
def check (t : Files.Tree) (o : Options) : Except Refusal Unit := do
  if o.pattern.isNone ∧ o.config.isNone then throw .nothingToDo
  checkRoot t o
  checkConfig t o

/-! ### Settings -/

/-- The settings that options stand for. -/
def optionEntries (o : Options) : Entries :=
  let level := if o.debug then [(Scalar.text "level", Value.text "DEBUG")] else []
  let file := (o.logFile.map fun f => (Scalar.text "file", Value.text f)).toList
  if (level ++ file).isEmpty then []
  else [(.text Settings.sectionName, .map [(.text "logging", .map (level ++ file))])]

/-- The settings of a run. -/
def layers (s : Surroundings) (o : Options) : Except Settings.LoadError Settings.Layers := do
  let l := Settings.Layers.initial.withEnvironment s.environment
  let l ← match o.config with
    | none => .ok l
    | some file => l.loadFile s.reader s.files .user file
  return l.put .commandLine (optionEntries o)

/-- The ending of a run whose settings cannot be loaded. -/
def loadEnding (e : Settings.LoadError) : Ending :=
  if e.code?.isSome then .refused (.settings e) else .broken (.settings e)

/-! ### Candidates -/

/-- The lines of a text that are not blank, without the line ends behind them. -/
def inputPaths (text : String) : List String :=
  let lines := (Text.splitWhere (· = '\n') text.toList).filter (!·.all Text.isBlank)
  lines.map fun cs => String.ofList (Text.stripRight (fun c => c = '\r' || c = '\n') cs)

/-- The paths that are judged, and whether the run is interrupted behind them. -/
def candidates (s : Surroundings) (files : Files.Tree) (o : Options) : List String × Bool :=
  match o.root with
  | some root => (((files.find? root).map (files.walk root)).getD [], false)
  | none => if o.paths.isEmpty then (inputPaths s.input, s.interrupted) else (o.paths, false)

/-! ### Limits -/

/-- How far a run can go. Values that are nested deeply and verdicts of deep patterns take more of a
stack than there may be, and an output whose encoding lacks a character does not take a path that
has it. -/
structure Limits where
  makes : Options → Settings.Layers → Bool
  judges : Judge → String → Bool
  prints : String → Bool

/-- A stack that is deep enough for everything, and an output that takes everything. -/
def Limits.ample : Limits := ⟨fun _ _ => true, fun _ _ => true, fun _ => true⟩

/-- Whether a path is to be printed, unless the run comes to its end before. -/
def Limits.judge (m : Limits) (j : Judge) (path : String) : Except Ending Bool :=
  if !m.judges j path then .error (.broken .tooDeep)
  else match j.accepts path with
    | .error e => .error (Judge.patternEnding e)
    | .ok true => if m.prints path then .ok true else .error (.broken .notPrintable)
    | .ok false => .ok false

/-! ### Runs -/

section Runs

variable (m : Limits) (s : Surroundings)

/-- What is told at the end of a run. -/
def doneEntry {ε : Type} (sel : Selection ε String) : Log.Entry :=
  ⟨.command, "Done",
    [("tested", .int sel.consumed), ("matched", .int sel.yielded.length)]⟩

/-- Judges the candidates. -/
def sieve (o : Options) (g : Logging) (j : Judge) : Outcome :=
  let (paths, interrupted) := candidates s g.files o
  let sel := select (m.judge j) none paths
  match sel.failed with
  | some ending => ⟨ending, sel.yielded, g.console, g.files⟩
  | none =>
    if interrupted then ⟨.interrupted, sel.yielded, g.console, g.files⟩
    else
      let g := g.tellOne (doneEntry sel)
      ⟨.finished (!sel.yielded.isEmpty), sel.yielded, g.console, g.files⟩

/-- Judges the candidates with the settings of a run. -/
def runWith (o : Options) (l : Settings.Layers) : Outcome :=
  match Logging.start l s.files with
  | .error b => .early (.broken b) s.files
  | .ok g =>
    if !m.makes o l then ⟨.broken .tooDeep, [], g.console, g.files⟩
    else
      let (made, log) := Judge.make o l
      match g.tell log, made with
      | (g, false), _ => ⟨.refused .notWritable, [], g.console, g.files⟩
      | (g, true), .error ending => ⟨ending, [], g.console, g.files⟩
      | (g, true), .ok j => sieve m s o g j

/-- Runs with options. -/
def runOptions (o : Options) : Outcome :=
  match check s.files o with
  | .error r => .early (.refused r) s.files
  | .ok _ => match layers s o with
    | .error e => .early (loadEnding e) s.files
    | .ok l => runWith m s o l

/-- The outcome of a command line within some limits. -/
def runWithin (args : List String) : Outcome :=
  match parse args with
  | .error e => .early (.misused e) s.files
  | .ok .help => .early .helped s.files
  | .ok .version => .early .versionShown s.files
  | .ok (.options o) => runOptions m s o

/-- The outcome of a command line of a run that has room for everything. -/
def run (args : List String) : Outcome := runWithin .ample s args

end Runs

end PathSieve.Command
