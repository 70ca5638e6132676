import PathSieve.Command.Help
import PathSieve.Command.Run

namespace PathSieve.Command

/-!
# The program

The command on real files: what the run may look at is gathered first, and what the outcome says is
written afterwards.

* `main` — the program.
-/

/-! ### Gathering -/

/-- The paths on the way to a path. -/
def pathsTo (path : String) : List String :=
  let steps := Files.stepsOf path
  (List.range steps.length).map fun n => "/".intercalate (steps.take (n + 1))

/-- Adds what is found at a path. -/
def addFound (t : Files.Tree) (path : String) : IO Files.Tree := do
  let place := (← IO.currentDir) / path
  let l := Files.Location.ofPath path
  if path = "" || t.isThere l || !(← place.pathExists) then return t
  match (← place.metadata).type with
  | .dir => return { t with folders := t.folders ++ [l] }
  | .other => return { t with devices := t.devices ++ [l] }
  | _ => return { t with files := t.files ++ [(l, .ofBytes (← IO.FS.readBinFile place))] }

/-- Adds what is found on the way to a path. -/
def addWay (t : Files.Tree) (path : String) : IO Files.Tree := (pathsTo path).foldlM addFound t

/-- Adds the files in a folder; their contents are not needed. -/
def addFolder (t : Files.Tree) (path : String) : IO Files.Tree := do
  let place := (← IO.currentDir) / path
  if !(← place.isDir) then return t
  let start := place.components.length
  let mut t := t
  for found in (← place.walkDir) do
    let l := (found.components.drop start).foldl Files.Location.step (Files.Location.ofPath path)
    if !(← found.isDir) && !t.isFile l then t := { t with files := t.files ++ [(l, .text "")] }
  return t

/-- The environment variables. -/
def readEnvironment : IO (List Settings.Variable) := do
  let text ← try IO.FS.readFile "/proc/self/environ" catch _ => pure ""
  return (Text.splitWhere (· = '\x00') text.toList).foldl (fun vars cs =>
    match Word.cut cs with
    | (name, some value) => Settings.setVariable vars (String.ofList name) (String.ofList value)
    | _ => vars) []

/-- The text of the input. -/
partial def readInput (input : IO.FS.Stream) (done : String) : IO String := do
  let line ← input.getLine
  if line.isEmpty then return done else readInput input (done ++ line)

/-- The path of the log file that the settings name. -/
def logPath? (s : Surroundings) (o : Options) : Option String :=
  match layers s o with
  | .ok l => match l.get (loggingKey "file") .null with
    | .text path => some path
    | _ => none
  | .error _ => none

/-- What a run with options finds around it. -/
def gather (o : Options) : IO Surroundings := do
  let base := (← IO.currentDir).toString
  let home := (← IO.getEnv "HOME").getD "/"
  let users ← try IO.FS.readFile "/etc/passwd" catch _ => pure ""
  let mut files := { Files.Tree.empty base home with users := Files.usersOf users }
  for path in o.config.toList ++ o.root.toList do
    files ← addWay files path
  for path in o.root.toList do
    files ← addFolder files path
  let s : Surroundings := ⟨Yaml.reader, files, ← readEnvironment, "", false⟩
  for path in (logPath? s o).toList do
    files ← addWay files path
  let input ← if o.root.isNone && o.paths.isEmpty && (check files o).toBool then
      readInput (← IO.getStdin) ""
    else pure ""
  return { s with files, input }

/-! ### Writing -/

/-- Writes what a run has put behind the content of a file. -/
def writeLog (before : Files.Tree) (f : Files.Location × Files.Content) : IO Unit := do
  let old := ((before.read? f.1).getD (.text "")).toBytes
  let new := f.2.toBytes
  if !before.isFile f.1 || old.size < new.size then
    let h ← IO.FS.Handle.mk (f.1.path before.base) .append
    h.write (new.extract old.size new.size)

/-- Writes what an outcome says. -/
def write (before : Files.Tree) (o : Outcome) : IO UInt32 := do
  for f in o.files.files do
    writeLog before f
  (← IO.getStdout).putStr (match o.ending with
    | .helped => helpText
    | _ => o.stdout)
  let err ← IO.getStderr
  err.putStr (match o.ending with
    | .misused _ => usageText ++ o.stderr
    | .broken b => o.stderr ++ b.message ++ "\n"
    | _ => o.stderr)
  return UInt32.ofNat (o.ending.status?.getD 1)

end PathSieve.Command

open PathSieve.Command in
/-- The program. -/
def main (args : List String) : IO UInt32 := do
  let s ← match parse args with
    | .ok (.options o) => gather o
    | _ => pure ⟨PathSieve.Yaml.reader, .empty "" "", [], "", false⟩
  write s.files (run s args)
