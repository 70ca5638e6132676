namespace PathSieve

/-!
# Pattern flags

Flags change how a pattern is tried on a path: `inversive` negates the verdict, `caseSensitive`
compares literals exactly, `fullPath` tries the whole path and not only its last segment. A set of
flags is a bit mask; bits beyond the three have no meaning and are kept.

* `Flags` — a set of flags, with `∪` by `Flags.union`.
* `Flags.text` — the form in which a set of flags is shown.
-/

/-- A set of flags. -/
structure Flags where
  mask : Nat
  deriving DecidableEq, Repr

namespace Flags

/-- No flags. -/
def none : Flags := ⟨0⟩

/-- Whether the verdict is negated. -/
def inversive (f : Flags) : Bool := f.mask.testBit 0

/-- Whether literals are compared exactly. -/
def caseSensitive (f : Flags) : Bool := f.mask.testBit 1

/-- Whether the whole path is tried. -/
def fullPath (f : Flags) : Bool := f.mask.testBit 2

/-- The flags of two sets together. -/
def union (f g : Flags) : Flags := ⟨f.mask ||| g.mask⟩

/-- The set with the given flags. -/
def ofBools (inversive caseSensitive fullPath : Bool) : Flags :=
  ⟨inversive.toNat + 2 * caseSensitive.toNat + 4 * fullPath.toNat⟩

/-- The names of the three flags with their bits, in the order of the bits. -/
def names : List (String × Nat) := [("INVERSIVE", 1), ("CASE_SENSITIVE", 2), ("FULL_PATH", 4)]

/-- The bits that have a meaning. -/
def knownMask : Nat := 7

/-- The bits of a set that have no meaning. -/
def unknownMask (f : Flags) : Nat := f.mask - (f.mask &&& knownMask)

/-- The form in which a set of flags is shown: the names of its flags, then the unknown bits
beside at least one name, then the mask. -/
def text (f : Flags) : String :=
  let shown := (names.filter fun n => f.mask &&& n.2 ≠ 0).map (·.1)
  let parts := if f.unknownMask = 0 ∨ shown.isEmpty then shown
    else shown ++ [toString f.unknownMask]
  let name := if f.mask = 0 then ".NONE" else if parts.isEmpty then "" else
    "." ++ "|".intercalate parts
  "<PatternFlags" ++ name ++ ": " ++ toString f.mask ++ ">"

end Flags

end PathSieve
