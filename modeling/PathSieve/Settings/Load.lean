import PathSieve.Files.Basic
import PathSieve.Rule.Validation
import PathSieve.Settings.Layers
import PathSieve.Yaml.Reader

namespace PathSieve.Settings

/-!
# Loading settings

A layer is loaded from a value or from a file, which is read by a reader of YAML. The section of the
program in it must be valid, unless it is absent; a load that is refused changes nothing. What a
value holds is copied, so that it shares nothing with what is held already; what was read from a
file is held as it was read.

* `Layers.loadValue`, `Layers.loadFile` — the two ways to load a layer.
* `LoadError.message`, `LoadError.code?` — the wording and the class of a refusal.
-/

/-! ### Refusals -/

/-- Why a layer is not loaded. -/
inductive LoadError where
  | missing (file : String)
  | malformed (file : String)
  | unreadable (file : String) (e : Files.FileError)
  | notMap (file : String)
  | invalid (origin : String) (e : ValidationError)
  | notWritable
  | reading (e : Yaml.Fault)
  | file (e : Files.FileError)
  | noFields
  | unknownHome

namespace LoadError

/-- The wording of a refusal. -/
def message : LoadError → String
  | .missing f => "Config file not found: " ++ f
  | .malformed f => "YAML parse error in " ++ f
  | .unreadable f e => "Error loading config " ++ f ++ ": " ++ e.message
  | .notMap f => "Invalid config format in " ++ f
  | .invalid f e => "Invalid configuration in " ++ f ++ ": " ++ e.message
  | .notWritable => Numeral.limitMessage none
  | .reading e => e.message
  | .file e => e.message
  | .noFields => "no fields"
  | .unknownHome => "Could not determine home directory."

/-- The class of a refusal; what is no fault of the settings as such has none: a number that cannot
be written, a fault of a reader other than of the form of a document, a name that no file can have,
data without fields, and the folder of an unknown user. -/
def code? : LoadError → Option ErrorCode
  | .missing _ => some .notFound
  | .malformed _ => some .invalidInput
  | .unreadable _ _ => some .internalError
  | .notMap _ => some .invalidInput
  | .invalid _ e => some e.code
  | .notWritable | .reading _ | .file _ | .noFields | .unknownHome => none

end LoadError

/-! ### Values -/

/-- Checks the section of the program in a layer, if it is there. -/
def validateLayer (entries : Entries) : Check :=
  match entries.field? sectionName with
  | none | some .null => .ok ()
  | some v => validateSection v

/-- A layer with a valid section; `origin` says where it comes from. -/
def validLayer (origin : String) (entries : Entries) : Except LoadError Entries :=
  match validateLayer entries with
  | .ok _ => .ok entries
  | .error e => .error (if e.isWritable then .invalid origin e else .notWritable)

/-- The layer that a value stands for. -/
def layerOfValue : Value → Except LoadError Entries
  | .map entries => validLayer "dictionary" entries
  | _ => .error .noFields

/-! ### Files -/

/-- The home that a first step stands for if it starts with a tilde: that of the user, or of the
user whose name follows. Slashes at its end do not count. -/
def homeOf? (files : Files.Tree) : List Char → Option String
  | [] => some files.home
  | name => files.users.lookup (String.ofList name)

/-- The place of a file of settings, whose path may start with a home. -/
def fileLocation (files : Files.Tree) (path : String) : Except LoadError Files.Location :=
  match (Files.stepsOf path).filter fun s => s ≠ "" ∧ s ≠ "." with
  | [] => .ok (.ofPath path)
  | first :: rest =>
    match (Files.Location.origin path).absolute, first.toList with
    | false, '~' :: name => match (homeOf? files name).filter (·.toList.head? ≠ some '~') with
      | some home => .ok (.ofPath ("/".intercalate (home :: rest)))
      | none => .error (if Files.hasNull first then .file .nullByte else .unknownHome)
    | _, _ => .ok (.ofPath path)

section Reading

variable (reader : Yaml.Reader) (files : Files.Tree) (file : String)

/-- The fields that the content of a file stands for; `file` is the name for messages. -/
def layerOfContent (content : Files.Content) : Except LoadError (Entries Marked) :=
  match reader.read content with
  | .error .malformed => .error (.malformed file)
  | .error e => .error (.reading e)
  | .ok (.map _ fields) => (validLayer file (Marked.entries fields)).map fun _ => fields
  | .ok _ => .error (.notMap file)

/-- The fields in the file at a place. -/
def layerAt (l : Files.Location) : Except LoadError (Entries Marked) :=
  let full := l.path files.base
  match files.read? l, files.wayFault? full (Text.quote full) l with
  | some content, none => layerOfContent reader file content
  | _, some (.tooLong p) => .error (.file (.tooLong p))
  | _, _ =>
    if files.isFolder l then .error (.unreadable file (.isFolder (Text.quote full)))
    else .error (.missing file)

/-- The fields in a file. -/
def layerOfFile : Except LoadError (Entries Marked) := do
  let l ← fileLocation files file
  if Files.hasNull file then throw (.file .nullByte)
  layerAt reader files file l

end Reading

namespace Layers

/-- Loads a layer from a value. -/
def loadValue (l : Layers) (source : Source) (v : Value) : Except LoadError Layers :=
  (layerOfValue v).map (l.put source)

/-- Loads a layer from a file. -/
def loadFile (l : Layers) (reader : Yaml.Reader) (files : Files.Tree) (source : Source)
    (file : String) : Except LoadError Layers :=
  (layerOfFile reader files file).map (l.hold source)

end Layers

end PathSieve.Settings
