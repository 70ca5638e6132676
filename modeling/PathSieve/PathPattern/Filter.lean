import PathSieve.PathPattern.Store

namespace PathSieve.PathPattern

/-!
# Filters

A filter accepts the paths that no exclude pattern accepts and, if it has include patterns, at
least one of them accepts. Its patterns live in a store, so that a pattern may be shared with the
caller and changed later.

* `Filter.add` — adds a pattern to one of the two sides.
* `Filter.accepts` — the verdict on a path.
-/

/-- A filter: the flags for patterns given as text, and the places of its patterns. -/
structure Filter where
  flags : Flags
  included : List Nat
  excluded : List Nat
  deriving DecidableEq, Repr

/-- The two sides of a filter. -/
inductive Side where
  | included
  | excluded
  deriving DecidableEq, Repr

namespace Filter

/-- The filter without patterns. -/
def empty (flags : Flags) : Filter := ⟨flags, [], []⟩

/-- A filter whose flags are given by an argument. -/
def ofFlags (flags : Argument) : Except PatternError Filter := (flagsOf flags).map empty

/-- The filter with one more pattern. -/
def insert (f : Filter) (side : Side) (place : Nat) : Filter :=
  match side with
  | .included => { f with included := f.included ++ [place] }
  | .excluded => { f with excluded := f.excluded ++ [place] }

/-- The flags for a pattern given as text: those given with it, else those of the filter. -/
def flagsFor (f : Filter) (flags : Argument) : Argument :=
  if flags.isAbsent then .flags f.flags else flags

/-- The place of the pattern to be added: a pattern is added itself, anything else is made into a
new pattern. -/
def placeFor (f : Filter) (s : Store) (pattern flags : Argument) : Outcome Nat :=
  match pattern with
  | .pattern place => ⟨s, .ok place, []⟩
  | a => s.add a (f.flagsFor flags)

/-- Adds a pattern; the result is its place. -/
def add (f : Filter) (s : Store) (side : Side) (pattern flags : Argument) :
    Filter × Outcome Nat :=
  let out := f.placeFor s pattern flags
  match out.result with
  | .ok place => (f.insert side place, out)
  | .error _ => (f, out)

/-- The number of patterns. -/
def size (f : Filter) : Nat := f.included.length + f.excluded.length

/-- The verdict on a path. -/
def accepts (f : Filter) (s : Store) (path : Argument) : Except PatternError Bool := do
  if ← anyAccepts path (f.excluded.map s.find) then return false
  if f.included.isEmpty then return true
  anyAccepts path (f.included.map s.find)

/-- The filter without its patterns. -/
def clear (f : Filter) : Filter := empty f.flags

end Filter

end PathSieve.PathPattern
