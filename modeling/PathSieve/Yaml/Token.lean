import PathSieve.Yaml.Directive
import PathSieve.Yaml.Scalar
import PathSieve.Yaml.Trail

namespace PathSieve.Yaml

/-!
# Tokens of YAML text

The text is cut into scalars and the marks of its structure. Block collections have no marks of
their own: their starts and ends follow from indentation, and a scalar or flow collection turns
out to be a key only when the colon after it is read, so its key mark is put in afterwards.

* `Token` — the tokens.
* `Layout` — what is remembered while tokens are read: open blocks and possible keys.
* `tokens` — the tokens of a text, up to the first fault.

Tags and block scalars are not read.
-/

/-- A token; the last one may be a fault at which the reading broke off. -/
inductive Token where
  | directive (d : Directive)
  | documentStart
  | documentEnd
  | blockSequence
  | blockMapping
  | blockEnd
  | flowSequence
  | flowMapping
  | flowSequenceEnd
  | flowMappingEnd
  | entry
  | comma
  | key
  | value
  | anchor (name : String)
  | alias (name : String)
  | plain (text : String)
  | quoted (text : List Text.CodePoint)
  | broken (e : Fault)
  deriving DecidableEq, Repr

/-- A token that may turn out to be a key; it is `required` to when it starts a line of a block. -/
structure PossibleKey where
  place : Nat
  required : Bool
  index : Nat
  line : Nat
  column : Nat
  deriving Repr

/-- What is remembered while tokens are read: `depth` counts the open flow collections, `indent` is
the column of the innermost block, and `keys` holds the possible key of each depth. -/
structure Layout where
  cursor : Cursor
  tokens : Trail Token
  depth : Nat
  indent : Int
  indents : List Int
  allowKey : Bool
  keys : List (Nat × PossibleKey)

namespace Layout

/-- The state before the first token. -/
def start (cs : List Char) : Layout := ⟨.start cs, .empty, 0, -1, [], true, []⟩

/-- Whether a flow collection is open. -/
def inFlow (s : Layout) : Bool := s.depth ≠ 0

/-- Adds a token. -/
def push (s : Layout) (t : Token) : Layout := { s with tokens := s.tokens.push t }

/-- Moves the cursor. -/
def skip (s : Layout) (n : Nat) : Layout := { s with cursor := s.cursor.advance n }

/-! ### Possible keys -/

/-- Whether a colon can no longer follow a possible key: it is on an earlier line or too far
back. -/
def isStale (s : Layout) (k : PossibleKey) : Bool :=
  k.line ≠ s.cursor.line || 1024 < s.cursor.index - k.index

/-- Forgets the stale keys. A required one is an error. -/
def dropStale (s : Layout) : Reading Layout :=
  if s.keys.any fun k => s.isStale k.2 && k.2.required then .error .malformed
  else .ok { s with keys := s.keys.filter (!s.isStale ·.2) }

/-- The tokens that no key mark can be put in front of any more. -/
def settled (s : Layout) : List Token :=
  let open? (k : Nat × PossibleKey) : Option Nat :=
    if s.isStale k.2 then none else some k.2.place
  s.tokens.first ((s.keys.filterMap open?).foldl min s.tokens.size)

/-- Forgets the possible key of the present depth. A required one is an error. -/
def dropKey (s : Layout) : Reading Layout :=
  if (s.keys.lookup s.depth).any (·.required) then .error .malformed
  else .ok { s with keys := s.keys.filter (·.1 ≠ s.depth) }

/-- Notes that the next token may turn out to be a key. -/
def noteKey (s : Layout) : Reading Layout :=
  if s.allowKey then do
    let required := !s.inFlow && s.indent = s.cursor.column
    let s ← s.dropKey
    let k : PossibleKey :=
      ⟨s.tokens.size, required, s.cursor.index, s.cursor.line, s.cursor.column⟩
    return { s with keys := (s.depth, k) :: s.keys }
  else .ok s

/-! ### Blocks -/

/-- Closes the blocks that are indented more than `column`. -/
def closeBlocks (s : Layout) (column : Int) : Layout :=
  if s.inFlow then s
  else
    let closed := (s.indent :: s.indents).takeWhile (column < ·)
    let left := (s.indent :: s.indents).dropWhile (column < ·)
    { s with
      tokens := closed.foldl (fun t _ => t.push .blockEnd) s.tokens
      indent := left.headD (-1)
      indents := left.drop 1 }

/-- Opens a block at a column that is indented more than the innermost block, with its mark at the
given place among the tokens. -/
def openBlock (s : Layout) (column : Int) (mark : Token) (place : Nat) : Layout :=
  if s.indent < column then
    { s with
      tokens := s.tokens.insert place mark
      indents := s.indent :: s.indents
      indent := column }
  else s

/-! ### Tokens -/

/-- Moves over spaces, comments and line ends; outside of flow collections a key may follow a line
end. -/
def skipBlanks : Nat → Layout → Layout
  | 0, s => s
  | fuel + 1, s =>
    let c := s.cursor.skipWhile (· = ' ')
    let c := if c.rest.head? = some '#' then c.skipWhile (!isBreak ·) else c
    match c.rest with
    | x :: _ =>
      if isBreak x then
        skipBlanks fuel { s with cursor := c.next, allowKey := s.allowKey || !s.inFlow }
      else { s with cursor := c }
    | [] => { s with cursor := c }

/-- A mark between documents, which closes all blocks. -/
def documentMark (s : Layout) (t : Token) : Reading Layout := do
  let s ← (s.closeBlocks (-1)).dropKey
  return ({ s with allowKey := false }.push t).skip 3

/-- A line that starts with a percent sign. -/
def directiveLine (s : Layout) : Reading Layout := do
  let s ← (s.closeBlocks (-1)).dropKey
  let line := s.cursor.rest.takeWhile (!isBreak ·)
  let d ← Directive.ofLine (line.drop 1)
  return ({ s with allowKey := false }.push (.directive d)).skip line.length

/-- The start of a flow collection. -/
def openFlow (s : Layout) (t : Token) : Reading Layout := do
  let s ← s.noteKey
  return ({ s with depth := s.depth + 1, allowKey := true }.push t).skip 1

/-- The end of a flow collection. -/
def closeFlow (s : Layout) (t : Token) : Reading Layout := do
  let s ← s.dropKey
  if s.depth = 0 then throw .malformed
  else return ({ s with depth := s.depth - 1, allowKey := false }.push t).skip 1

/-- A comma. -/
def commaMark (s : Layout) : Reading Layout := do
  let s ← { s with allowKey := true }.dropKey
  return (s.push .comma).skip 1

/-- The dash of a block sequence. -/
def entryMark (s : Layout) : Reading Layout := do
  if !s.inFlow && !s.allowKey then throw .malformed
  else
    let s := if s.inFlow then s else s.openBlock s.cursor.column .blockSequence s.tokens.size
    let s ← { s with allowKey := true }.dropKey
    return (s.push .entry).skip 1

/-- The question mark of an explicit key. -/
def keyMark (s : Layout) : Reading Layout := do
  if !s.inFlow && !s.allowKey then throw .malformed
  else
    let s := if s.inFlow then s else s.openBlock s.cursor.column .blockMapping s.tokens.size
    let s ← { s with allowKey := !s.inFlow }.dropKey
    return (s.push .key).skip 1

/-- A colon, which makes the possible key before it a key. -/
def valueMark (s : Layout) : Reading Layout :=
  match s.keys.lookup s.depth with
  | some k =>
    let s := { s with
      keys := s.keys.filter (·.1 ≠ s.depth)
      tokens := s.tokens.insert k.place .key }
    let s := if s.inFlow then s else s.openBlock k.column .blockMapping k.place
    .ok (({ s with allowKey := false }.push .value).skip 1)
  | none => do
    if !s.inFlow && !s.allowKey then throw .malformed
    else
      let s := if s.inFlow then s else s.openBlock s.cursor.column .blockMapping s.tokens.size
      let s ← { s with allowKey := !s.inFlow }.dropKey
      return (s.push .value).skip 1

/-- A name behind an ampersand or an asterisk, which mark an anchor and an alias. -/
def nameMark (s : Layout) (make : String → Token) : Reading Layout := do
  let s ← s.noteKey
  let behind := s.cursor.rest.drop 1
  let name := behind.takeWhile isNameChar
  let rest := behind.drop name.length
  if name.isEmpty ∨ !endsName rest then throw .malformed
  return ({ s with allowKey := false }.push (make (String.ofList name))).skip (name.length + 1)

/-- A scalar between quotes. -/
def quoted (s : Layout) (read : List Char → Reading (List Text.CodePoint × Nat)) :
    Reading Layout := do
  let s ← s.noteKey
  let (text, n) ← read (s.cursor.rest.drop 1)
  return ({ s with allowKey := false }.push (.quoted text)).skip (n + 1)

/-- A scalar without quotes. -/
def plain (s : Layout) (fuel : Nat) : Reading Layout := do
  let s ← s.noteKey
  let (text, cursor, overLine) := plainText s.inFlow (s.indent + 1) fuel s.cursor []
  return { s with cursor, allowKey := overLine }.push (.plain (String.ofList text))

/-- Whether a plain scalar may start with `c`, where `ahead` comes after it. -/
def startsPlain (s : Layout) (c : Char) (ahead : List Char) : Bool :=
  (!(isSpaceOrTab c || isBreak c) && c ∉ ['-', '?', ':', ',', '[', ']', '\x7b', '\x7d', '#', '&',
    '*', '!', '|', '>', '\x27', '\x22', '%', '@', '\x60']) ||
  (!endsWord ahead && (c = '-' || (!s.inFlow && (c = '?' || c = ':'))))

/-- The token that starts at the cursor; `fuel` bounds the number of pieces of a scalar. -/
def token (s : Layout) (fuel : Nat) (c : Char) (ahead : List Char) : Reading Layout :=
  let atLineStart := s.cursor.column = 0
  if atLineStart && c = '%' then s.directiveLine
  else if atLineStart && startsMarker (c :: ahead) then
    s.documentMark (if c = '-' then .documentStart else .documentEnd)
  else if c = '[' then s.openFlow .flowSequence
  else if c = '\x7b' then s.openFlow .flowMapping
  else if c = ']' then s.closeFlow .flowSequenceEnd
  else if c = '\x7d' then s.closeFlow .flowMappingEnd
  else if c = ',' then s.commaMark
  else if c = '-' && endsWord ahead then s.entryMark
  else if c = '?' && (s.inFlow || endsWord ahead) then s.keyMark
  else if c = ':' && (s.inFlow || endsWord ahead) then s.valueMark
  else if c = '*' then s.nameMark .alias
  else if c = '&' then s.nameMark .anchor
  else if c = '\x27' then s.quoted (singleQuoted fuel)
  else if c = '\x22' then s.quoted (doubleQuoted fuel)
  else if s.startsPlain c ahead then s.plain fuel
  else .error .malformed

/-- Reads the next token, and says whether the text has ended; `fuel` is more than the number of
characters that are left. -/
def step (s : Layout) (fuel : Nat) : Reading (Layout × Bool) := do
  let s ← (s.skipBlanks fuel).dropStale
  let s := s.closeBlocks s.cursor.column
  match s.cursor.rest with
  | [] => return (← (s.closeBlocks (-1)).dropKey, true)
  | c :: ahead => return (← s.token fuel c ahead, false)

/-- The tokens up to the end of the text, or the settled ones before a fault. Each step takes a
character at least, so a `fuel` of more than the number of characters left stays more than that. -/
def run : Nat → Layout → List Token
  | 0, s => s.settled ++ [.broken .malformed]
  | fuel + 1, s =>
    match s.step fuel with
    | .error e => s.settled ++ [.broken e]
    | .ok (s, true) => s.tokens.toList
    | .ok (s, false) => s.run fuel

end Layout

/-- The tokens of a text; a byte order mark at its start is passed over. -/
def tokens (cs : List Char) : List Token :=
  if !cs.all isAllowed then [.broken .malformed]
  else
    let start := Layout.start cs
    let start := if (cs.head?.any (·.toNat = 0xfeff)) then start.skip 1 else start
    start.run (cs.length + 2)

end PathSieve.Yaml
