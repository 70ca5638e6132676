import PathSieve.Flags.Parser
import PathSieve.Log.Level
import PathSieve.PathPattern.Basic
import PathSieve.Rule.Action

namespace PathSieve

/-!
# Validation

A section of configuration is checked before an engine is built from it: its flags, its default
action, its rules one by one, and its logging level.

* `validPattern` — whether an argument is a text that compiles.
* `validateFlags`, `validateAction`, `validateRule`, `validateSection` — the checks.
* `ValidationError.message` — the wording of what they find.
-/

/-! ### Findings -/

/-- What is wrong with a section or a part of one. -/
inductive ValidationError where
  | flags (e : FlagsError)
  | action (shown : Argument)
  | ruleNotMap
  | actionMissing
  | patternMissing
  | pattern (shown : Value)
  | patternsNotList
  | listedPattern (shown : Value)
  | priority (shown : Value)
  | enabled (shown : Value)
  | sectionNotMap
  | rulesNotList
  | rule (index : Nat) (e : ValidationError)
  | loggingNotMap
  | logLevel (shown : Value)

namespace ValidationError

/-- The wording of a finding. -/
def message : ValidationError → String
  | .flags e => "Invalid flags: " ++ e.message
  | .action a =>
    "Invalid rule action: " ++ a.display ++ ". Must be one of ['include', 'exclude']"
  | .ruleNotMap => "Rule must be a dictionary"
  | .actionMissing => "Rule must have 'action' field"
  | .patternMissing => "Rule must have 'pattern' or 'patterns' field"
  | .pattern v => "Invalid pattern: " ++ v.display
  | .patternsNotList => "Patterns must be a list"
  | .listedPattern v => "Invalid pattern in list: " ++ v.display
  | .priority v => "Rule priority must be integer: " ++ v.display
  | .enabled v => "Rule enabled must be boolean: " ++ v.display
  | .sectionNotMap => "Configuration must be a dictionary"
  | .rulesNotList => "Rules must be a list"
  | .rule i e => "Invalid rule configuration at index " ++ toString i ++ ": " ++ e.message
  | .loggingNotMap => "Logging configuration must be a dictionary"
  | .logLevel v => "Invalid log level: " ++ v.display

/-- The class of a finding. -/
def code : ValidationError → ErrorCode
  | .pattern _ => .badFormat
  | .listedPattern _ => .badFormat
  | .rule _ e => e.code
  | _ => .invalidInput

/-- Whether the message of a finding can show what it is about. -/
def isWritable : ValidationError → Bool
  | .action a => a.isWritable
  | .pattern v | .listedPattern v | .priority v | .enabled v | .logLevel v => v.isWritable
  | .rule _ e => e.isWritable
  | _ => true

@[simp] theorem isWritable_rule (i : Nat) (e : ValidationError) :
    (rule i e).isWritable = e.isWritable := rfl

end ValidationError

/-! ### Checks -/

/-- The outcome of a check. -/
abbrev Check := Except ValidationError Unit

/-- Whether an argument is a text that compiles. -/
def validPattern : Argument → Bool
  | .text s => (Pattern.compile (Text.pointsOf s.toList)).toBool
  | .value (.scalar (.codes ps)) => (Pattern.compile ps).toBool
  | _ => false

/-- Checks a specification of flags. -/
def validateFlags (flags : Argument) : Check :=
  match Flags.ofArgument flags with
  | .ok _ => .ok ()
  | .error e => .error (.flags e)

/-- Checks the name of an action. -/
def validateAction (action : Argument) : Check :=
  match Action.ofArgument? action with
  | some _ => .ok ()
  | none => .error (.action action)

/-- Makes the check of a field, if the field is there. -/
def onField (e : Entries) (name : String) (check : Value → Check) : Check :=
  match e.field? name with
  | none => .ok ()
  | some v => check v

/-- Checks the list of patterns of a rule, in order. -/
def validateListed : List Value → Check
  | [] => .ok ()
  | v :: rest => if validPattern (.value v) then validateListed rest else .error (.listedPattern v)

/-- Checks the patterns of a rule. -/
def validatePatterns (rule : Entries) : Check := do
  if (rule.field? "pattern").isNone ∧ (rule.field? "patterns").isNone then
    throw .patternMissing
  onField rule "pattern" fun v =>
    if validPattern (.value v) then .ok () else .error (.pattern v)
  onField rule "patterns" fun
    | .list items => validateListed items
    | _ => .error .patternsNotList

/-- Checks the priority of a rule. -/
def validatePriority : Value → Check
  | .int _ => .ok ()
  | v => .error (.priority v)

/-- Checks the switch of a rule. -/
def validateEnabled : Value → Check
  | .bool _ => .ok ()
  | v => .error (.enabled v)

/-- Checks the fields of a rule. -/
def validateRuleFields (rule : Entries) : Check := do
  match rule.field? "action" with
  | none => throw .actionMissing
  | some v => validateAction (.value v)
  validatePatterns rule
  onField rule "flags" fun v => validateFlags (.value v)
  onField rule "priority" validatePriority
  onField rule "enabled" validateEnabled

/-- Checks a rule. -/
def validateRule : Value → Check
  | .map rule => validateRuleFields rule
  | _ => .error .ruleNotMap

/-- Checks rules in order; a finding tells the index of its rule, the first having index `i`. -/
def validateRulesFrom (i : Nat) : List Value → Check
  | [] => .ok ()
  | v :: rest =>
    match validateRule v with
    | .error e => .error (.rule i e)
    | .ok _ => validateRulesFrom (i + 1) rest

/-- Checks the logging part of a section. -/
def validateLogging : Value → Check
  | .map logging =>
    match (Entries.field? logging "level").getD .null with
    | .null => .ok ()
    | level =>
      if (Log.Level.ofName? level.display).isSome then .ok () else .error (.logLevel level)
  | _ => .error .loggingNotMap

/-- Checks a section of configuration. -/
def validateSection : Value → Check
  | .map fields => do
    onField fields "flags" fun v => validateFlags (.value v)
    onField fields "default_action" fun v => validateAction (.value v)
    onField fields "rules" fun
      | .list rules => validateRulesFrom 0 rules
      | _ => .error .rulesNotList
    onField fields "logging" validateLogging
  | _ => .error .sectionNotMap

end PathSieve
