import PathSieve.Matching.Ends
import PathSieve.Flags.Basic
import PathSieve.Text.Split

namespace PathSieve

open Pattern (isSeparator)
open Text (CodePoint)

/-!
# Paths

A path is a text whose segments lie between separators.

* `splitPath`, `basename` — the segments, and the last of them.
* `Pattern.Arena.matchPath` — the verdict of a compiled pattern on a path.
-/

/-- The segments of a path; empty ones are kept. -/
def splitPath (path : List CodePoint) : List (List CodePoint) := Text.splitWhere isSeparator path

/-- The last segment of a path. -/
def basename (path : List CodePoint) : List CodePoint := (splitPath path).getLastD []

/-- The verdict of a compiled pattern on a path: tried on the whole path or on its last segment,
and negated at the end if so flagged. -/
def Pattern.Arena.matchPath (a : Arena) (path : List CodePoint) (flags : Flags) : Bool :=
  let text := if flags.fullPath then path else basename path
  let verdict := a.accepts (.ofText text flags.caseSensitive)
  if flags.inversive then !verdict else verdict

end PathSieve
