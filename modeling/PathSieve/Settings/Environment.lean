import PathSieve.Settings.Layers
import PathSieve.Settings.Variable

namespace PathSieve.Settings

/-!
# Environment variables

The variables whose names start with `PATHPATTERN_` are settings of the program's section: the
rest of the name, in lower case and cut at double underscores, is the key.

* `variableKey?` — the key that the name of a variable stands for.
* `environmentEntries` — the settings of a list of variables.
-/

/-- A variable with its text. -/
abbrev Variable := String × String

/-- Sets a variable; one that is set again keeps its place. -/
def setVariable (vars : List Variable) (name value : String) : List Variable :=
  if vars.any (·.1 = name) then vars.map fun v => if v.1 = name then (name, value) else v
  else vars ++ [(name, value)]

/-- The start of the name of a variable that is a setting. -/
def variableStart : String := "PATHPATTERN_"

/-- The parts of the rest of a name, without empty ones. -/
def variableParts (rest : String) : List String :=
  ((Text.splitOnPair '_' '_' (Text.lower rest).toList).filter (!·.isEmpty)).map String.ofList

/-- The key that the name of a variable stands for. -/
def variableKey? (name : String) : Option (List String) :=
  if variableStart.toList.isPrefixOf name.toList then
    match variableParts (String.ofList (name.toList.drop variableStart.length)) with
    | [] => none
    | parts => some parts
  else none

/-- The settings with one more variable; one with an obstacle on its way says nothing. -/
def addVariable (e : Entries) (v : Variable) : Entries :=
  match variableKey? v.1 with
  | none => e
  | some key => match assign key (readVariable v.2) e with
    | .ok e' => e'
    | .error _ => e

/-- The settings of a list of variables. -/
def environmentEntries (vars : List Variable) : Entries := vars.foldl addVariable []

/-- The layers with the settings of a list of variables. -/
def Layers.withEnvironment (l : Layers) (vars : List Variable) : Layers :=
  match environmentEntries vars with
  | [] => l
  | e => l.put .environment [(.text sectionName, .map e)]

end PathSieve.Settings
