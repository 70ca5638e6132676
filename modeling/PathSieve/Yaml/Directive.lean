import PathSieve.Yaml.Cursor
import PathSieve.Yaml.Fault

namespace PathSieve.Yaml

/-!
# Directives

A line that starts with a percent sign gives the version of YAML, or an abbreviation for tags, or
something that is not known here and is passed over.

* `Directive.ofLine` — the directive in a line.
* `Directive.agree` — whether the directives before a document go together.
-/

/-- A directive. -/
inductive Directive where
  | version (major : Nat)
  | tag (handle : List Char)
  | other
  deriving DecidableEq, Repr

/-! ### Pieces of a line -/

/-- Whether a character may stand in the name of a directive, of a tag or of an anchor. -/
def isNameChar (c : Char) : Bool := c.isAlphanum || c = '-' || c = '_'

/-- Whether a character may stand in the address that a tag stands for. -/
def isAddressChar (c : Char) : Bool :=
  c.isAlphanum || c ∈ "-;/?:@&=+$,_.!~*'()[]%".toList

/-- Whether a piece of a line ends here. -/
def endsPiece : List Char → Bool
  | [] => true
  | c :: _ => c = ' '

/-- Checks that nothing but a comment comes behind a directive. -/
def checkLineEnd (cs : List Char) : Reading Unit :=
  match cs.dropWhile (· = ' ') with
  | [] => .ok ()
  | c :: _ => if c = '#' then .ok () else .error .malformed

/-- The octets of the percent escapes at the head of a text, and what follows them. -/
def escapedOctets : List Char → Option (List UInt8 × List Char)
  | '%' :: c :: d :: cs => do
    let high ← hexValue? c
    let low ← hexValue? d
    let (rest, cs) ← escapedOctets cs
    return (UInt8.ofNat (16 * high + low) :: rest, cs)
  | '%' :: _ => none
  | cs => some ([], cs)

/-- The text behind an address, whose escapes must be texts in UTF-8. -/
def behindAddress : Nat → List Char → Option (List Char)
  | 0, cs => some cs
  | fuel + 1, cs => match cs with
    | [] => some []
    | c :: rest =>
      if c = '%' then do
        let (octets, rest) ← escapedOctets cs
        let _ ← String.fromUTF8? ⟨octets.toArray⟩
        behindAddress fuel rest
      else if isAddressChar c then behindAddress fuel rest
      else some cs

namespace Directive

/-! ### Reading -/

/-- The number at the head of a text, and what follows it. -/
def versionNumber (cs : List Char) : Reading (Nat × List Char) :=
  let ds := cs.takeWhile Char.isDigit
  if ds.isEmpty then .error .malformed
  else if Numeral.maxDigits < ds.length then .error (.tooManyDigits ds.length)
  else .ok (ds.foldl (fun n c => 10 * n + (c.toNat - '0'.toNat)) 0, cs.drop ds.length)

/-- The version in the rest of a line. -/
def version? (cs : List Char) : Reading Directive := do
  let (major, cs) ← versionNumber (cs.dropWhile (· = ' '))
  match cs with
  | '.' :: cs =>
    let (_, cs) ← versionNumber cs
    if endsPiece cs then
      checkLineEnd cs
      return .version major
    else throw .malformed
  | _ => throw .malformed

/-- The handle of a tag: a single mark, or a name between two of them. -/
def handle? : List Char → Option (List Char × List Char)
  | '!' :: ' ' :: cs => some (['!'], ' ' :: cs)
  | '!' :: cs => match cs.dropWhile isNameChar with
    | '!' :: rest => some ('!' :: cs.takeWhile isNameChar ++ ['!'], rest)
    | _ => none
  | _ => none

/-- The abbreviation for tags in the rest of a line. -/
def abbreviation (cs : List Char) : Reading Directive := do
  let (handle, cs) ← ofOption (handle? (cs.dropWhile (· = ' ')))
  let address := cs.dropWhile (· = ' ')
  let rest ← ofOption (behindAddress address.length address)
  if cs.head? ≠ some ' ' ∨ rest.length = address.length ∨ !endsPiece rest then throw .malformed
  checkLineEnd rest
  return .tag handle

/-- The directive in a line, which is given without the percent sign. -/
def ofLine (line : List Char) : Reading Directive :=
  let name := line.takeWhile isNameChar
  let rest := line.drop name.length
  if name.isEmpty ∨ !endsPiece rest then .error .malformed
  else match String.ofList name with
    | "YAML" => version? rest
    | "TAG" => abbreviation rest
    | _ => .ok .other

/-! ### Directives before a document -/

/-- The majors of the versions that directives give. -/
def majors (ds : List Directive) : List Nat :=
  ds.filterMap fun | .version n => some n | _ => none

/-- The handles that directives give. -/
def handles (ds : List Directive) : List (List Char) :=
  ds.filterMap fun | .tag h => some h | _ => none

/-- Whether directives go together: at most one version, which is the first one of YAML, and no
handle twice. -/
def agree (ds : List Directive) : Bool :=
  (majors ds = [] || majors ds = [1]) && (handles ds).Nodup

end Directive

end PathSieve.Yaml
