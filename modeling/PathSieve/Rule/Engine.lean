import PathSieve.PathPattern.Store
import PathSieve.Rule.Ordering
import PathSieve.Rule.Validation
import PathSieve.Value.Order

namespace PathSieve

open PathPattern

/-!
# Rules and engines

An engine holds rules in falling order of priority. The first enabled rule with a pattern that
accepts a path decides what is done with it, and a default action decides where no rule does.
Rules are objects that can be shared and changed from outside, so an engine knows them by number,
and it keeps the patterns that it compiled when a rule was added. A rule may be given patterns that
are objects themselves; their texts and flags are read from a shelf.

* `Engine.add`, `Engine.remove`, `Engine.setEnabled`, `Engine.clear` — changes of an engine.
* `Engine.addTold` — adding a rule where it is written at once what is told.
* `Engine.includes`, `Engine.matching` — the verdict on a path, and the rules that accept it.
* `Engine.ofSection` — the engine of a section of configuration.
-/

/-! ### Rules -/

/-- The action of a rule, or whatever else was put in its place. -/
inductive ActionField where
  | known (a : Action)
  | other (v : Value)

/-- Whether the field says that paths are included. -/
def ActionField.isIncluded : ActionField → Bool
  | .known .included => true
  | _ => false

/-- A rule. -/
structure Rule where
  action : ActionField
  patterns : Argument
  flags : Argument
  name : Value
  priority : Value
  enabled : Value

/-- The name by which a rule is spoken of. -/
def Rule.spokenName (r : Rule) : Value := if r.name.truthy then r.name else .text "<unnamed>"

/-- Why an operation on an engine is refused: a pattern is, a field is of a kind that does not
allow what is asked of it, or it lacks what is asked for, or it is too large to be written. -/
inductive EngineError where
  | pattern (e : PatternError)
  | wrongType
  | noAttribute
  | notWritable

/-- A rule of an engine by its number, and its compiled patterns. -/
structure EngineEntry where
  rule : Nat
  patterns : List PathPattern

/-- An engine, with all rules that have been made for it by number, and the pattern objects that
they may hold. -/
structure Engine where
  rules : Array Rule
  shelf : Shelf
  entries : List EngineEntry
  defaultAction : ActionField

namespace Engine

/-- The engine without rules. -/
def empty (defaultAction : ActionField) : Engine := ⟨#[], .blank, [], defaultAction⟩

/-- A rule that says nothing; it stands where a number has no rule. -/
def blankRule : Rule := ⟨.known .included, .sequence [], .flags .none, .null, .int 0, .bool true⟩

/-- The rule of a number. -/
def rule (e : Engine) (number : Nat) : Rule := e.rules.getD number blankRule

/-- The rules in the order in which they are tried. -/
def order (e : Engine) : List Rule := e.entries.map fun x => e.rule x.rule

/-- The number of rules in use. -/
def size (e : Engine) : Nat := e.entries.length

/-- Makes a rule known under the next number. -/
def register (e : Engine) (r : Rule) : Engine := { e with rules := e.rules.push r }

/-- Changes the rule of a number in place. -/
def modifyRule (e : Engine) (number : Nat) (f : Rule → Rule) : Engine :=
  { e with rules := e.rules.modify number f }

/-! ### Changes -/

/-- The patterns of a list of arguments, compiled in order until one is refused; those that are
pattern objects are found on a shelf. -/
def compileAll (shelf : Shelf) (flags : Argument) : List Argument →
    Except PatternError (List PathPattern) × List Log.Entry
  | [] => (.ok [], [])
  | a :: rest =>
    match make shelf.find a flags with
    | (.error e, log) => (.error e, log)
    | (.ok p, log) =>
      let (result, more) := compileAll shelf flags rest
      (result.map (p :: ·), log ++ more)

/-- The priority of an entry, which is that of its rule. -/
def priorityOf (e : Engine) (x : EngineEntry) : Value := (e.rule x.rule).priority

/-- What is told about a rule that was added. -/
def added (r : Rule) (a : Action) (patterns : List PathPattern) : Log.Entry :=
  ⟨.rules, "Rule added", [("rule", r.spokenName), ("action", .text a.name),
    ("patterns", .int patterns.length)]⟩

/-- Puts an entry behind the others and sorts them all by priority. The rule is spoken of at the
end, which fails unless its action is one. -/
def place (e : Engine) (entry : EngineEntry) : Engine × Except EngineError Log.Entry :=
  let (sorted, done) := sortFalling e.priorityOf (e.entries ++ [entry])
  let r := e.rule entry.rule
  let result := match done, r.action with
    | false, _ => .error .wrongType
    | true, .known a => .ok (added r a entry.patterns)
    | true, .other _ => .error .noAttribute
  ({ e with entries := sorted }, result)

/-- Adds the rule of a number. Its patterns are compiled first, so that a refused pattern leaves
the engine as it was. What is told is written later, if at all. -/
def add (e : Engine) (number : Nat) : Engine × Except EngineError Unit × List Log.Entry :=
  let r := e.rule number
  match r.patterns.elements? with
  | none => (e, .error .wrongType, [])
  | some items =>
    match compileAll e.shelf r.flags items with
    | (.error x, log) => (e, .error (.pattern x), log)
    | (.ok patterns, log) =>
      match e.place ⟨number, patterns⟩ with
      | (e', .error x) => (e', .error x, log)
      | (e', .ok told) => (e', .ok (), log ++ [told])

/-- Adds the rule of a number while some parts of the library are heard, whose entries are written
at once. One that cannot be written ends the call: for a pattern before the engine is changed, for
the rule when it is in. -/
def addTold (e : Engine) (heard : Log.Origin → Bool) (number : Nat) :
    Engine × Except EngineError Unit :=
  let r := e.rule number
  match r.patterns.elements? with
  | none => (e, .error .wrongType)
  | some items =>
    let (compiled, log) := compileAll e.shelf r.flags items
    if log.any (·.fails heard) then (e, .error .notWritable) else
      match compiled with
      | .error x => (e, .error (.pattern x))
      | .ok patterns =>
        match e.place ⟨number, patterns⟩ with
        | (e', .error x) => (e', .error x)
        | (e', .ok told) => (e', if told.fails heard then .error .notWritable else .ok ())

/-- Whether a rule has a name. -/
def hasName (e : Engine) (name : Value) (x : EngineEntry) : Bool := (e.rule x.rule).name.eqv name

/-- Removes the first rule with a name; the result says whether there was one. -/
def remove (e : Engine) (name : Value) : Engine × Bool :=
  ({ e with entries := e.entries.eraseP (e.hasName name) }, e.entries.any (e.hasName name))

/-- Switches the first rule with a name on or off; the result says whether there was one. -/
def setEnabled (e : Engine) (name : Value) (enabled : Bool) : Engine × Bool :=
  match e.entries.find? (e.hasName name) with
  | none => (e, false)
  | some x => (e.modifyRule x.rule fun r => { r with enabled := .bool enabled }, true)

/-- The engine without rules in use. -/
def clear (e : Engine) : Engine := { e with entries := [] }

/-! ### Verdicts -/

/-- Whether an entry is enabled and one of its patterns accepts a path. -/
def applies (e : Engine) (path : Argument) (x : EngineEntry) : Except PatternError Bool :=
  if (e.rule x.rule).enabled.truthy then anyAccepts path x.patterns else .ok false

/-- The first of some entries that applies to a path. -/
def firstApplying (e : Engine) (path : Argument) :
    List EngineEntry → Except PatternError (Option EngineEntry)
  | [] => .ok none
  | x :: rest => do if ← e.applies path x then return some x else e.firstApplying path rest

/-- Whether a path is included. -/
def includes (e : Engine) (path : Argument) : Except PatternError Bool :=
  (e.firstApplying path e.entries).map fun
    | some x => (e.rule x.rule).action.isIncluded
    | none => e.defaultAction.isIncluded

/-- The rules that apply to a path, in the order in which they are tried. -/
def matching (e : Engine) (path : Argument) : Except PatternError (List Rule) :=
  (e.entries.filterM (e.applies path)).map (·.map fun x => e.rule x.rule)

/-! ### Engines of a configuration -/

/-- Why no engine can be built from a section. -/
inductive BuildError where
  | validation (e : ValidationError)
  | flags (e : FlagsError)
  | engine (e : EngineError)

/-- The patterns of a configured rule: its single pattern before its list. -/
def configuredPatterns (rule : Entries) : List Value :=
  let listed := match rule.field? "patterns" with
    | some (.list items) => items
    | _ => []
  (rule.field? "pattern").toList ++ listed

/-- The rule that a configuration describes; flags that it does not give are those of the
section. -/
def configuredRule (flags : Flags) (rule : Entries) : Except FlagsError Rule := do
  let own ← match rule.field? "flags" with
    | some v => Flags.ofValue v
    | none => pure flags
  return {
    action := match Action.ofValue? ((rule.field? "action").getD .null) with
      | some a => .known a
      | none => .other ((rule.field? "action").getD .null)
    patterns := .sequence ((configuredPatterns rule).map .value)
    flags := .flags own
    name := (rule.field? "name").getD .null
    priority := (rule.field? "priority").getD (.int 0)
    enabled := (rule.field? "enabled").getD (.bool true) }

/-- Adds the configured rules one by one. -/
def addConfigured (flags : Flags) (e : Engine) (log : List Log.Entry) :
    List Value → Except BuildError (Engine × List Log.Entry)
  | [] => .ok (e, log)
  | v :: rest =>
    let fields : Entries := match v with
      | .map fields => fields
      | _ => []
    match configuredRule flags fields with
    | .error x => .error (.flags x)
    | .ok r =>
      let known := e.register r
      match known.add e.rules.size with
      | (_, .error x, _) => .error (.engine x)
      | (e', .ok _, more) => addConfigured flags e' (log ++ more) rest

/-- Numbers the rules of a fresh engine in the order in which they are tried. -/
def renumber (e : Engine) : Engine :=
  { e with
    rules := e.order.toArray
    entries := e.entries.mapIdx fun i x => { x with rule := i } }

/-- The engine of a section of configuration, and what is told while it is built. -/
def ofSection (config : Value) : Except BuildError (Engine × List Log.Entry) := do
  match validateSection config with
  | .error x => throw (.validation x)
  | .ok _ => pure ()
  let fields : Entries := match config with
    | .map fields => fields
    | _ => []
  let flags ← match Flags.ofValue ((fields.field? "flags").getD .null) with
    | .ok f => pure f
    | .error x => throw (.flags x)
  let action := match fields.field? "default_action" with
    | none => ActionField.known .included
    | some v => match Action.ofValue? v with
      | some a => .known a
      | none => .other v
  let rules := match fields.field? "rules" with
    | some (.list rules) => rules
    | _ => []
  (addConfigured flags (empty action) [] rules).map fun (e, log) => (e.renumber, log)

end Engine

end PathSieve
