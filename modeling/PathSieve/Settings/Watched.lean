import PathSieve.Settings.Environment
import PathSieve.Settings.Load

namespace PathSieve.Settings

/-!
# Watched settings

Settings are layers with watchers, who are told the merged settings after every assignment and
every load that succeeds, in the order in which they came and as often as they came. A watcher is
taken to come back from what it is told, and not to change the settings itself. A value that is
passed in is taken to hold no map at two places, nor one that is stored.

* `Watched.start` — the settings of a file and of the environment.
* `Watched.watch`, `Watched.unwatch` — coming and going of watchers.
* `Watched.tell` — what the watchers are told.
-/

/-- Layers with the names of their watchers. -/
structure Watched where
  layers : Layers
  watchers : List String

/-- What one watcher is told: its name and the merged settings. -/
abbrev Notice := String × Entries

namespace Watched

/-- The settings at the start: those that are built in, those of a file if one is named, and those
of the environment. -/
def start (reader : Yaml.Reader) (files : Files.Tree) (file : String) (vars : List Variable) :
    Except LoadError Watched :=
  if file = "" then .ok ⟨Layers.initial.withEnvironment vars, []⟩
  else (Layers.initial.loadFile reader files .user file).map fun l => ⟨l.withEnvironment vars, []⟩

/-- Adds a watcher, who may already be there. -/
def watch (w : Watched) (name : String) : Watched := { w with watchers := w.watchers ++ [name] }

/-- Removes a watcher once. -/
def unwatch (w : Watched) (name : String) : Watched := { w with watchers := w.watchers.erase name }

/-- What the watchers are told of the present settings. -/
def tell (w : Watched) : List Notice := w.watchers.map fun name => (name, w.layers.merged)

/-- The settings after a change of the layers, and what the watchers are told of it. -/
def change {ε : Type} (w : Watched) (layers : Except ε Layers) :
    Except ε (Watched × List Notice) :=
  layers.map fun l => ({ w with layers := l }, { w with layers := l }.tell)

/-- Sets a value. -/
def assign (w : Watched) (source : Source) (key : String) (v : Value) :
    Except Obstacle (Watched × List Notice) :=
  w.change (w.layers.assign source (keyParts key) v)

/-- Loads a layer from a value. -/
def loadValue (w : Watched) (source : Source) (v : Value) :
    Except LoadError (Watched × List Notice) :=
  w.change (w.layers.loadValue source v)

/-- Loads a layer from a file. -/
def loadFile (w : Watched) (reader : Yaml.Reader) (files : Files.Tree) (source : Source)
    (file : String) : Except LoadError (Watched × List Notice) :=
  w.change (w.layers.loadFile reader files source file)

/-- Removes what one source says, or what all say if none is named; nobody is told. -/
def clear (w : Watched) : Option Source → Watched
  | some s => { w with layers := w.layers.clear s }
  | none => { w with layers := w.layers.clearAll }

end Watched

end PathSieve.Settings
