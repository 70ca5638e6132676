import PathSieve.Command.Outcome
import PathSieve.Settings.Layers

namespace PathSieve.Command

/-!
# Judges

A run judges its candidates by one pattern or by the rules of the settings. Flags of the settings
and of the command line add up; the inversion of the command line negates the verdict of rules as
a whole.

* `Judge.make` — the judge that options and settings ask for.
* `Judge.accepts` — its verdict on a path.
-/

/-- What decides about candidates. -/
inductive Judge where
  | byPattern (p : PathPattern)
  | byRules (e : Engine) (inverted : Bool)

namespace Judge

/-- The verdict on a path. -/
def accepts (j : Judge) (path : String) : Except PatternError Bool :=
  match j with
  | .byPattern p => p.test (.text path)
  | .byRules e inverted => (e.includes (.text path)).map (xor inverted)

/-! ### Errors -/

/-- The ending of a run whose flags are bad. -/
def flagsEnding (e : FlagsError) : Ending :=
  match e with
  | .notIterable _ => .broken .wrongType
  | e => .refused (.flags e)

/-- The ending of a run whose pattern is bad. -/
def patternEnding (e : PatternError) : Ending :=
  if e.code?.isSome then .refused (.pattern e) else .broken .wrongType

/-- The ending of a run whose rules are bad. -/
def rulesEnding (e : Engine.BuildError) : Ending :=
  match e with
  | .validation e => .refused (.validation e)
  | .flags e => flagsEnding e
  | .engine (.pattern e) => patternEnding e
  | .engine .wrongType => .broken .wrongType
  | .engine .noAttribute => .broken .noAttribute
  | .engine .notWritable => .refused .notWritable

/-! ### Making -/

/-- The name of the action where no rule decides. -/
def defaultName (e : Engine) : Value :=
  match e.defaultAction with
  | .known a => .text a.name
  | .other v => v

/-- The flags of a section. -/
def sectionFlags (fields : Entries) : Except FlagsError Flags :=
  Flags.ofValue ((fields.field? "flags").getD .null)

/-- The judge by a pattern, and what is told about it. -/
def ofPattern (text : String) (flags : Flags) : Except Ending Judge × List Log.Entry :=
  match PathPattern.install false (Text.pointsOf text.toList) flags with
  | (.error e, log) => (.error (patternEnding e), log)
  | (.ok p, log) =>
    (.ok (.byPattern p), log ++
      [⟨.command, "Using pattern", [("pattern", .text text), ("flags", .int flags.mask)]⟩])

/-- The judge by the rules of a section, and what is told about it. -/
def ofRules (fields : Entries) (flags : Flags) (inverted : Bool) :
    Except Ending Judge × List Log.Entry :=
  match Engine.ofSection (.map (fields.setField "flags" (.int flags.mask))) with
  | .error e => (.error (rulesEnding e), [])
  | .ok (e, log) =>
    (.ok (.byRules e inverted), log ++
      [⟨.command, "Using rules", [("rules", .int e.size), ("default", defaultName e)]⟩])

/-- The judge that options and settings ask for, and what is told about it. -/
def make (o : Options) (l : Settings.Layers) : Except Ending Judge × List Log.Entry :=
  match o.pattern, l.programSection with
  | some text, .map fields => match sectionFlags fields with
    | .error e => (.error (flagsEnding e), [])
    | .ok f => ofPattern text (f.union o.flags)
  | none, .map fields => match sectionFlags fields with
    | .error e => (.error (flagsEnding e), [])
    | .ok f => ofRules fields (f.union { o with invert := false }.flags) o.invert
  | some _, _ => (.error (.broken .noAttribute), [])
  | none, _ => (.error (.broken .wrongType), [])

end Judge

end PathSieve.Command
