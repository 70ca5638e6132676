import PathSieve.Text.Quoted
import PathSieve.Text.Split
import PathSieve.Text.StandIn

namespace PathSieve.Files

open Text (CodePoint)

/-!
# Files

A tree of files, folders and devices, as it is seen from the folder in which a program runs. A path
is followed step by step, and every step needs a folder to start from; the normal form of a path is
found without looking at the tree.

* `Location.ofPath` — the normal form of a path.
* `Tree.find?` — the place that a path leads to.
* `Content` — what a file holds.
* `Tree.read?`, `Tree.append` — the content at a place, and a text put behind it.
* `Tree.wayFault?` — what stands in the way to a place.
* `Tree.openLog` — a file made ready for appending.
* `FileError.message` — the wording of what can go wrong.
-/

/-! ### Locations -/

/-- A place: the steps to it from the base folder or, for an absolute one, from the root. -/
structure Location where
  absolute : Bool
  steps : List String
  deriving DecidableEq, Repr

/-- The steps of a path. -/
def stepsOf (path : String) : List String :=
  (Text.splitWhere (· = '/') path.toList).map String.ofList

namespace Location

/-- The place where a path starts. -/
def origin (path : String) : Location := ⟨path.toList.head? = some '/', []⟩

/-- The place of an item of a folder. -/
def child (l : Location) (name : String) : Location := { l with steps := l.steps ++ [name] }

/-- The folder around a place; above the base folder there are further folders, and there is
nothing above the root. -/
def up (l : Location) : Location :=
  if !l.absolute && l.steps.all (· = "..") then l.child ".."
  else { l with steps := l.steps.dropLast }

/-- One step without a look at the tree. -/
def step (l : Location) (name : String) : Location :=
  if name = "" ∨ name = "." then l else if name = ".." then l.up else l.child name

/-- The normal form of a path. -/
def ofPath (path : String) : Location := (stepsOf path).foldl step (origin path)

/-- Whether a place lies somewhere inside a folder. -/
def isInside (l folder : Location) : Bool :=
  l.absolute = folder.absolute && folder.steps.length < l.steps.length &&
    l.steps.take folder.steps.length = folder.steps

/-- The full path of a place, where `base` is the full path of the base folder. -/
def path (base : String) (l : Location) : String :=
  if l.absolute && l.steps.isEmpty then "/"
  else "/".intercalate ((if l.absolute then "" else base) :: l.steps)

end Location

/-! ### Trees -/

/-- What a file holds: a text in UTF-8, or bytes that are none. -/
inductive Content where
  | text (s : String)
  | bytes (bs : List UInt8)
  deriving DecidableEq, Repr

/-- The content that some bytes are. -/
def Content.ofBytes (bytes : ByteArray) : Content :=
  match String.fromUTF8? bytes with
  | some s => .text s
  | none => .bytes bytes.toList

/-- The bytes of a content. -/
def Content.toBytes : Content → ByteArray
  | .text s => s.toUTF8
  | .bytes bs => ⟨bs.toArray⟩

/-- A content with a text behind it. Bytes that are no text do not become one by it. -/
def Content.append : Content → String → Content
  | .text s, more => .text (s ++ more)
  | .bytes bs, more => .bytes (bs ++ more.toUTF8.toList)

/-- The files with their contents, and the folders that are there on their own account; every folder
around one of them is there as well. A device is neither a file nor a folder: it holds no text and
keeps none. The base folder and the homes of the user and of the other users are known by their
full paths. -/
structure Tree where
  base : String
  home : String
  users : List (String × String)
  files : List (Location × Content)
  folders : List Location
  devices : List Location
  deriving Repr

/-- The most bytes of a name. -/
def maxNameBytes : Nat := 255

/-- The most bytes of a path. -/
def maxPathBytes : Nat := 4095

namespace Tree

/-- A tree without contents. -/
def empty (base home : String) : Tree := ⟨base, home, [], [], [], []⟩

/-- Whether there is a file at a place. -/
def isFile (t : Tree) (l : Location) : Bool := (t.files.lookup l).isSome

/-- Whether there is a device at a place. -/
def isDevice (t : Tree) (l : Location) : Bool := l ∈ t.devices

/-- The content at a place. -/
def read? (t : Tree) (l : Location) : Option Content :=
  if t.isDevice l then some (.text "") else t.files.lookup l

/-- Whether there is a folder at a place; the base folder and those around it always are. -/
def isFolder (t : Tree) (l : Location) : Bool :=
  l.steps.all (· = "..") || l ∈ t.folders || t.files.any (·.1.isInside l) ||
    t.folders.any (·.isInside l)

/-- Whether there is anything at a place. -/
def isThere (t : Tree) (l : Location) : Bool := t.isFile l || t.isFolder l || t.isDevice l

/-- One step from a place, which must be a folder, to a place where there is something. -/
def step? (t : Tree) (l : Location) (name : String) : Option Location :=
  if t.isFolder l && t.isThere (l.step name) then some (l.step name) else none

/-- The place that a path leads to; a path that is too long leads nowhere. -/
def find? (t : Tree) (path : String) : Option Location :=
  if path = "" ∨ maxPathBytes < path.utf8ByteSize then none
  else (stepsOf path).foldlM t.step? (Location.origin path)

/-- Puts text behind the text of a file, which is made if it is not there. -/
def append (t : Tree) (l : Location) (text : String) : Tree :=
  if t.isDevice l then t
  else if t.isFile l then
    { t with files := t.files.map fun f => if f.1 = l then (l, f.2.append text) else f }
  else { t with files := t.files ++ [(l, .text text)] }

end Tree

/-! ### Faults of files -/

/-- Why a file cannot be opened: most causes show its full path. A surrogate that stands for no
byte cannot be part of a path; the first run of them is known by the indices of its ends. -/
inductive FileError where
  | missing (shown : String)
  | throughFile (shown : String)
  | isFolder (shown : String)
  | tooLong (shown : String)
  | notEncodable (first : Nat) (run : List CodePoint)
  | nullByte
  deriving DecidableEq, Repr

/-- The wording of an error about a run of surrogates. -/
def encodingMessage (first : Nat) (run : List CodePoint) : String :=
  let what := match run with
    | [p] => "character '" ++ String.ofList (Text.escapePoint '\x27' p) ++ "' in position " ++
        toString first
    | _ => "characters in position " ++ toString first ++ "-" ++ toString (first + run.length - 1)
  "'utf-8' codec can't encode " ++ what ++ ": surrogates not allowed"

/-- The wording of an error. -/
def FileError.message : FileError → String
  | .missing p => "[Errno 2] No such file or directory: " ++ p
  | .throughFile p => "[Errno 20] Not a directory: " ++ p
  | .isFolder p => "[Errno 21] Is a directory: " ++ p
  | .tooLong p => "[Errno 36] File name too long: " ++ p
  | .notEncodable first run => encodingMessage first run
  | .nullByte => "embedded null byte"

/-- Whether a path holds the character that no path may hold. -/
def hasNull (path : String) : Bool := path.toList.contains '\x00'

/-- Whether a code point can be part of a path; a surrogate can if it stands for a byte. -/
def isEncodable : CodePoint → Bool
  | .char _ => true
  | .surrogate n => 0x480 ≤ n.val && n.val < 0x500

/-- What cannot be part of a path. -/
def encodingFault? (ps : List CodePoint) : Option FileError :=
  let front := ps.takeWhile isEncodable
  let run := (ps.drop front.length).takeWhile (·.char?.isNone)
  if run.isEmpty then none else some (.notEncodable front.length run)

namespace Tree

/-- What stands in the way of the steps `rest` from a place; `shown` is the path for messages. -/
def faultAlong? (t : Tree) (shown : String) (l : Location) (rest : List String) :
    Option FileError :=
  match rest with
  | [] => none
  | name :: rest =>
    if t.isFile l || t.isDevice l then some (.throughFile shown)
    else if !t.isFolder l then some (.missing shown)
    else if maxNameBytes < name.utf8ByteSize then some (.tooLong shown)
    else t.faultAlong? shown (l.child name) rest

/-- What stands in the way to a place, where there need not be anything yet; `full` is the full
path of the place, and `shown` the one for messages. -/
def wayFault? (t : Tree) (full shown : String) (l : Location) : Option FileError :=
  if maxPathBytes < full.utf8ByteSize then some (.tooLong shown)
  else t.faultAlong? shown { l with steps := [] } l.steps

/-- The full path of a log file; two slashes at the start of its path stay, more or fewer are
one. -/
def logPath (t : Tree) (path : String) : String :=
  let full := (Location.ofPath path).path t.base
  if (path.toList.takeWhile (· = '/')).length = 2 then "/" ++ full else full

/-- Makes the file of a path ready for appending; the file is made if its folder is there. -/
def openLog (t : Tree) (path : List CodePoint) : Except FileError (Tree × Location) :=
  let held := Text.standIns path
  let name := held.encode path
  let l := Location.ofPath name
  let full := t.logPath name
  let shown := Text.quotePoints (held.decode full)
  match encodingFault? (held.decode full) with
  | some e => .error e
  | none =>
    if hasNull name then .error .nullByte
    else match t.wayFault? full shown l with
      | some e => .error e
      | none => if t.isFolder l then .error (.isFolder shown) else .ok (t.append l "", l)

end Tree

/-! ### Texts -/

/-- The users of a list that has one line for each, with their homes in the sixth of its fields. -/
def usersOf (text : String) : List (String × String) :=
  (Text.splitWhere (· = '\n') text.toList).filterMap fun line =>
    match (Text.splitWhere (· = ':') line).map String.ofList with
    | name :: _ :: _ :: _ :: _ :: home :: _ => some (name, home)
    | _ => none

/-- A text whose lines all end with a line feed alone. -/
def unixLines : List Char → List Char
  | [] => []
  | '\r' :: '\n' :: cs => '\n' :: unixLines cs
  | c :: cs => (if c = '\r' then '\n' else c) :: unixLines cs

end PathSieve.Files
