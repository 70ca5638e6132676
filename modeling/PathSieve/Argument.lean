import PathSieve.Flags.Basic
import PathSieve.Value.Printer

namespace PathSieve

/-!
# Arguments

What a caller may hand in where a pattern, a path or flags are expected: plain data, or one of a
few objects that are no data. A pattern that lives in a store is given by its place there.

* `Argument.typeName` — the name of the kind of an argument, for messages.
* `Argument.points?` — the code points of an argument that is a text or a path object.
* `Argument.elements?` — the elements of an argument that can be gone through.
-/

/-- Something handed in by a caller. -/
inductive Argument where
  | value (v : Value)
  | sequence (items : List Argument)
  | flags (f : Flags)
  | path (text : String)
  | bytes (content : ByteArray)
  | bytesPath
  | pattern (place : Nat)

namespace Argument

/-- The absent argument. -/
@[match_pattern] abbrev absent : Argument := .value .null

/-- A text. -/
@[match_pattern] abbrev text (s : String) : Argument := .value (.text s)

/-- The name of the kind of an argument. -/
def typeName : Argument → String
  | .value v => v.typeName
  | .sequence _ => "list"
  | .flags _ => "PatternFlags"
  | .path _ => "PathObject"
  | .bytes _ => "bytes"
  | .bytesPath => "BytesPath"
  | .pattern _ => "PathPattern"

/-- Whether the argument is absent. -/
def isAbsent : Argument → Bool
  | .absent => true
  | _ => false

/-- The code points of an argument that is a text or a path object. -/
def points? : Argument → Option (List Text.CodePoint)
  | .text s => some (Text.pointsOf s.toList)
  | .value (.scalar (.codes ps)) => some ps
  | .path s => some (Text.pointsOf s.toList)
  | _ => none

/-- The elements of an argument that can be gone through: the characters of a text, the keys of a
map, the items of a list and the numbers of a byte string. -/
def elements? : Argument → Option (List Argument)
  | .text s => some (s.toList.map fun c => .text (String.singleton c))
  | .value (.scalar (.codes ps)) => some (ps.map fun p => .value (.ofPoints [p]))
  | .value (.list items) => some (items.map .value)
  | .value (.map entries) => some (entries.map fun e => .value (.scalar e.1))
  | .sequence items => some items
  | .bytes content => some (content.toList.map fun b => .value (.int b.toNat))
  | _ => none

/-- The literal form of a byte string: printable ASCII characters stand for themselves. -/
def bytesLiteral (content : ByteArray) : String :=
  let cs := content.toList.map fun b => Char.ofNat b.toNat
  let q := Text.chooseQuote cs
  let form (c : Char) : List Char :=
    if 0x7e < c.toNat then Text.escapeCode c else Text.escapeChar q c
  String.ofList ('b' :: q :: cs.flatMap form ++ [q])

mutual

/-- The literal form of an argument. -/
def literal : Argument → String
  | .value v => v.literal
  | .sequence items => "[" ++ ", ".intercalate (literals items) ++ "]"
  | .flags f => f.text
  | .bytes content => bytesLiteral content
  | .path _ => "<PathObject>"
  | .bytesPath => "<BytesPath>"
  | .pattern _ => "<PathPattern>"

/-- The literal forms of a list of arguments. -/
def literals : List Argument → List String
  | [] => []
  | a :: rest => literal a :: literals rest

end

/-- Whether a message can show an argument. -/
def isWritable : Argument → Bool
  | .value v => v.isWritable
  | _ => true

/-- The form in which a message shows an argument. -/
def display : Argument → String
  | .value v => v.display
  | .flags f => toString f.mask
  | a => a.literal

end Argument

end PathSieve
