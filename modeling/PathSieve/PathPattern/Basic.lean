import PathSieve.ErrorCode
import PathSieve.Flags.Parser
import PathSieve.Log.Entry
import PathSieve.Matching.Path
import PathSieve.Pattern.Message

namespace PathSieve

open Pattern (Arena FormatError)
open Text (CodePoint)

/-!
# Path patterns

A path pattern is a compiled pattern with its text and its flags. It starts without a compiled
pattern and then accepts no path; an installation that fails leaves it as it was.

* `PathPattern.install` — compiles a text.
* `PathPattern.make`, `PathPattern.set`, `PathPattern.setPattern`, `PathPattern.setFlags` — the
  ways to obtain and to change a pattern.
* `PathPattern.test` — the verdict on a path.
-/

/-! ### Errors -/

/-- What an argument is meant to be. -/
inductive Role where
  | pattern
  | path
  deriving DecidableEq, Repr

/-- Why an operation on patterns is refused. -/
inductive PatternError where
  | missing (role : Role)
  | wrongType (role : Role) (typeName : String)
  | cannotSwap (typeName : String)
  | flags (e : FlagsError)
  | format (e : FormatError)
  | outOfMemory
  deriving DecidableEq, Repr

namespace PatternError

/-- The wording of an error. -/
def message : PatternError → String
  | .missing .pattern => "Pattern must not be None"
  | .missing .path => "Path must not be None"
  | .wrongType .pattern t => "Invalid pattern: expected str or path, got " ++ t
  | .wrongType .path t => "Invalid path: expected str or path, got " ++ t
  | .cannotSwap t => "Cannot swap with " ++ t
  | .flags e => e.message
  | .format e => e.message
  | .outOfMemory => "Out of memory while compiling pattern"

/-- The class of an error; flags that are no flags at all have none. -/
def code? : PatternError → Option ErrorCode
  | .flags (.notIterable _) => none
  | .format _ => some .badFormat
  | .outOfMemory => some .noMemory
  | _ => some .badArguments

/-- The index of the offending code point. -/
def position? : PatternError → Option Nat
  | .format e => some e.position
  | _ => none

end PatternError

/-! ### The type -/

/-- A pattern with its flags; `compiled` is absent until a text has been installed. -/
structure PathPattern where
  compiled : Option Arena
  text : List CodePoint
  flags : Flags
  deriving DecidableEq, Repr

namespace PathPattern

/-- A pattern without text. -/
def blank (flags : Flags) : PathPattern := ⟨none, [], flags⟩

instance : Inhabited PathPattern := ⟨blank .none⟩

/-- Whether a text has been installed. -/
def isCompiled (p : PathPattern) : Bool := p.compiled.isSome

/-- The number of nodes of the compiled pattern. -/
def size? (p : PathPattern) : Option Nat := p.compiled.map Arena.size

/-! ### Changes -/

/-- The arena of a text; when memory is exhausted nothing beyond the check of its length is
done. -/
def arenaOf (exhausted : Bool) (text : List CodePoint) : Except PatternError Arena :=
  match Pattern.checkLength text with
  | .error e => .error (.format e)
  | .ok _ =>
    if exhausted then .error .outOfMemory
    else match Pattern.compile text with
      | .error e => .error (.format e)
      | .ok a => .ok a

/-- What is told about a text that was refused. -/
def rejected (text : List CodePoint) (e : PatternError) : Log.Entry :=
  ⟨.patterns, "Pattern rejected", [("pattern", .ofPoints text),
    ("error_code", e.code?.elim .null fun c => .text c.name),
    ("position", e.position?.elim .null fun n => .int n)]⟩

/-- What is told about a text that was installed. -/
def accepted (text : List CodePoint) (a : Arena) (flags : Flags) : Log.Entry :=
  ⟨.patterns, "Pattern compiled",
    [("pattern", .ofPoints text), ("nodes", .int a.size), ("flags", .int flags.mask)]⟩

/-- The pattern of a text with flags, and what is told about it. -/
def install (exhausted : Bool) (text : List CodePoint) (flags : Flags) :
    Except PatternError PathPattern × List Log.Entry :=
  match arenaOf exhausted text with
  | .error e => (.error e, [rejected text e])
  | .ok a => (.ok ⟨some a, text, flags⟩, [accepted text a flags])

/-- The flags that an argument stands for. -/
def flagsOf (a : Argument) : Except PatternError Flags := (Flags.ofArgument a).mapError .flags

/-- The text and flags to install for a pair of arguments; the text and flags of another pattern
are taken together, and `at` finds that pattern. -/
def source (find : Nat → PathPattern) (pattern flags : Argument) :
    Except PatternError (List CodePoint × Flags) :=
  match pattern with
  | .absent => .error (.missing .pattern)
  | .pattern place => .ok ((find place).text, (find place).flags)
  | a => match a.points? with
    | none => .error (.wrongType .pattern a.typeName)
    | some text => (flagsOf flags).map (text, ·)

/-- The pattern that replaces the present one when a new text and new flags are set. -/
def set (find : Nat → PathPattern) (pattern flags : Argument) (exhausted : Bool) :
    Except PatternError PathPattern × List Log.Entry :=
  match source find pattern flags with
  | .error e => (.error e, [])
  | .ok (text, f) => install exhausted text f

/-- The argument with another pattern replaced by its text. -/
def textOnly (find : Nat → PathPattern) : Argument → Argument
  | .pattern place => .value (.ofPoints (find place).text)
  | a => a

/-- The pattern that replaces `p` when a new text is set and the flags stay. -/
def setPattern (find : Nat → PathPattern) (p : PathPattern) (pattern : Argument) :
    Except PatternError PathPattern × List Log.Entry :=
  set find (textOnly find pattern) (.flags p.flags) false

/-- A new pattern; the flags are read first, and without a text the pattern stays blank. -/
def make (find : Nat → PathPattern) (pattern flags : Argument) :
    Except PatternError PathPattern × List Log.Entry :=
  match flagsOf flags with
  | .error e => (.error e, [])
  | .ok f => if pattern.isAbsent then (.ok (blank f), []) else set find pattern flags false

/-- The pattern with other flags. -/
def setFlags (p : PathPattern) (flags : Argument) : Except PatternError PathPattern :=
  (flagsOf flags).map fun f => { p with flags := f }

/-! ### Use -/

/-- The text of a candidate path. -/
def candidate (path : Argument) : Except PatternError (List CodePoint) :=
  match path with
  | .absent => .error (.missing .path)
  | a => match a.points? with
    | some text => .ok text
    | none => .error (.wrongType .path a.typeName)

/-- The verdict on a text; a blank pattern accepts nothing. -/
def verdict (p : PathPattern) (path : List CodePoint) : Bool :=
  match p.compiled with
  | none => false
  | some a => a.matchPath path p.flags

/-- The verdict on a candidate path. -/
def test (p : PathPattern) (path : Argument) : Except PatternError Bool :=
  (candidate path).map p.verdict

/-- Whether two patterns are equal: both compiled or both blank, with equal texts and flags. -/
def eqv (p q : PathPattern) : Bool :=
  p.isCompiled == q.isCompiled && p.text == q.text && p.flags == q.flags

/-- The form in which a pattern is shown. -/
def shown (p : PathPattern) : String :=
  if p.isCompiled then "PathPattern(" ++ Text.quotePoints p.text ++ ", " ++ p.flags.text ++ ")"
  else "PathPattern()"

/-- Whether one of several patterns accepts a path; the first that does ends the search. -/
def anyAccepts (path : Argument) : List PathPattern → Except PatternError Bool
  | [] => .ok false
  | p :: rest => do if ← p.test path then return true else anyAccepts path rest

end PathPattern

end PathSieve
