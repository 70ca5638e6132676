import PathSieve.PathPattern.Basic

namespace PathSieve.PathPattern

/-!
# Stores of patterns

Patterns that are shared and changed in place live in a store and are known by their place. An
operation gives the new store, its result and what it tells; a refused operation leaves the store
as it was.

* `Store.add`, `Store.set`, `Store.setPattern`, `Store.setFlags`, `Store.swap`, `Store.copy` — the
  operations.
* `Shelf` — patterns of a store as they are seen by those who only read them.
-/

/-- Patterns by place. -/
structure Store where
  items : Array PathPattern
  deriving DecidableEq, Repr

/-- What an operation on a store gives. -/
structure Outcome (α : Type) where
  store : Store
  result : Except PatternError α
  log : List Log.Entry

namespace Store

/-- The store without patterns. -/
def empty : Store := ⟨#[]⟩

/-- The pattern at a place. -/
def find (s : Store) (place : Nat) : PathPattern := s.items.getD place default

/-- The store with another pattern at a place. -/
def put (s : Store) (place : Nat) (p : PathPattern) : Store := ⟨s.items.setIfInBounds place p⟩

/-- The store after an attempt to obtain a pattern, which `keep` puts into it. -/
def apply {α : Type} (s : Store) (made : Except PatternError PathPattern × List Log.Entry)
    (keep : PathPattern → Store × α) : Outcome α :=
  match made with
  | (.error e, log) => ⟨s, .error e, log⟩
  | (.ok p, log) =>
    let (s', a) := keep p
    ⟨s', .ok a, log⟩

/-- Makes a new pattern; the result is its place. -/
def add (s : Store) (pattern flags : Argument) : Outcome Nat :=
  s.apply (make s.find pattern flags) fun p => (⟨s.items.push p⟩, s.items.size)

/-- Sets the text and the flags of a pattern. -/
def set (s : Store) (place : Nat) (pattern flags : Argument) (exhausted : Bool) : Outcome Unit :=
  s.apply (PathPattern.set s.find pattern flags exhausted) fun p => (s.put place p, ())

/-- Sets the text of a pattern, whose flags stay. -/
def setPattern (s : Store) (place : Nat) (pattern : Argument) : Outcome Unit :=
  s.apply (PathPattern.setPattern s.find (s.find place) pattern) fun p => (s.put place p, ())

/-- Sets the flags of a pattern; the result is the flags it had. -/
def setFlags (s : Store) (place : Nat) (flags : Argument) : Outcome Flags :=
  s.apply ((s.find place).setFlags flags, []) fun p => (s.put place p, (s.find place).flags)

/-- Exchanges two patterns. -/
def swap (s : Store) (place : Nat) (other : Argument) : Outcome Unit :=
  match other with
  | .pattern q => ⟨(s.put place (s.find q)).put q (s.find place), .ok (), []⟩
  | a => ⟨s, .error (.cannotSwap a.typeName), []⟩

/-- Adds a pattern equal to another one; the result is its place. -/
def copy (s : Store) (place : Nat) : Store × Nat := (⟨s.items.push (s.find place)⟩, s.items.size)

/-- Whether a pattern equals an argument, which it never does unless that is a pattern. -/
def equals (s : Store) (place : Nat) (other : Argument) : Bool :=
  match other with
  | .pattern q => (s.find place).eqv (s.find q)
  | _ => false

end Store

/-- Patterns by place, to be read. Each has a text that compiles: the one that was installed into
it, or else the empty one. -/
structure Shelf where
  find : Nat → PathPattern
  compiles : ∀ place, ∃ a, Pattern.compile (find place).text = .ok a

/-- The shelf of blank patterns. -/
def Shelf.blank : Shelf := ⟨fun _ => default, fun _ => ⟨_, rfl⟩⟩

end PathSieve.PathPattern
