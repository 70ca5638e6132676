import PathSieve.Settings.Key
import PathSieve.Settings.Source

namespace PathSieve.Settings

/-!
# Layers

Each source has a layer of entries. One setting is looked up from the highest layer down, where an
absent value hides nothing; the whole is the layers laid over one another from the lowest up, where
an absent value hides what is below it. A layer that was read from a file can hold one map at
several places.

* `Layers.layer` — what is seen of a layer.
* `Layers.resolve?` — the value of a key and the source it comes from.
* `Layers.merged` — all layers laid over one another.
* `Layers.assign` — an assignment in one layer.
-/

/-! ### What is built in -/

/-- The logging part of the settings that are built in. -/
def builtInLogging : Entries := [(.text "level", .text "INFO"), (.text "file", .null)]

/-- The section that is built in. -/
def builtInSection : Entries :=
  [(.text "version", .text "1.0"), (.text "flags", .list []),
   (.text "default_action", .text "include"), (.text "rules", .list []),
   (.text "logging", .map builtInLogging)]

/-- The name of the section that holds the settings of this program. -/
def sectionName : String := "pathpattern"

/-! ### Layers -/

/-- The fields that each source holds. -/
structure Layers where
  held : Source → Entries Marked

namespace Layers

/-- The entries of a source. -/
def layer (l : Layers) (source : Source) : Entries := Marked.entries (l.held source)

/-- The layers with other fields of one source. -/
def hold (l : Layers) (source : Source) (fields : Entries Marked) : Layers :=
  ⟨fun s => if s = source then fields else l.held s⟩

/-- The layers with other entries of one source, of which nothing is held at two places. -/
def put (l : Layers) (source : Source) (entries : Entries) : Layers :=
  l.hold source (Value.unmarkedEntries entries)

@[simp] theorem held_hold_self (l : Layers) (s : Source) (f : Entries Marked) :
    (l.hold s f).held s = f := by simp [hold]

@[simp] theorem held_hold_of_ne (l : Layers) {s t : Source} (f : Entries Marked) (h : t ≠ s) :
    (l.hold s f).held t = l.held t := by simp [hold, h]

@[simp] theorem layer_hold_self (l : Layers) (s : Source) (f : Entries Marked) :
    (l.hold s f).layer s = Marked.entries f := by simp [layer]

@[simp] theorem layer_hold_of_ne (l : Layers) {s t : Source} (f : Entries Marked) (h : t ≠ s) :
    (l.hold s f).layer t = l.layer t := by simp [layer, h]

@[simp] theorem layer_put_self (l : Layers) (s : Source) (e : Entries) :
    (l.put s e).layer s = e := by simp [put]

@[simp] theorem layer_put_of_ne (l : Layers) {s t : Source} (e : Entries) (h : t ≠ s) :
    (l.put s e).layer t = l.layer t := by simp [put, h]

/-- The layers before anything is loaded. -/
def initial : Layers :=
  ⟨fun
    | .builtIn => Value.unmarkedEntries [(.text sectionName, .map builtInSection)]
    | _ => []⟩

/-! ### Reading -/

/-- The value of a key in one layer, unless it is absent there. -/
def valueIn? (l : Layers) (key : List String) (source : Source) : Option Value :=
  (follow? key (.map (l.layer source))).filter (!·.isNull)

/-- The value of a key and the source it comes from. -/
def resolve? (l : Layers) (key : List String) : Option (Value × Source) :=
  Source.rising.reverse.findSome? fun s => (l.valueIn? key s).map (·, s)

/-- The value of a key, or another one where it has none. -/
def get (l : Layers) (key : List String) (default : Value) : Value :=
  ((l.resolve? key).map (·.1)).getD default

/-- All layers laid over one another. -/
def merged (l : Layers) : Entries :=
  Source.rising.foldl (fun e s => Entries.merge e (l.layer s)) []

/-- The section of this program in the merged layers. -/
def programSection (l : Layers) : Value := (l.merged.field? sectionName).getD (.map [])

/-! ### Changing -/

/-- The layers after an assignment in one of them. A map on its way that is held at several places
is written to at all of them. -/
def assign (l : Layers) (source : Source) (key : List String) (v : Value) :
    Except Obstacle Layers :=
  (write key v.unmarked (l.held source)).map fun w => l.hold source w.fields

/-- The layers without what one source says; what is built in stays. -/
def clear (l : Layers) (source : Source) : Layers :=
  if source = .builtIn then l else l.put source []

/-- The layers without what any source says, save what is built in. -/
def clearAll (l : Layers) : Layers := Source.rising.foldl clear l

end Layers

end PathSieve.Settings
