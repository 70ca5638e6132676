import PathSieve.Command.Switch
import PathSieve.Text.Digit

namespace PathSieve.Command

/-!
# Words of a command line

Each argument is a plain word, the divider `--`, or the use of an option. Long options may be cut
short, a value may be joined to its option, and several letters may follow one dash. Behind the
divider all words are plain.

* `Word.ofArgument` — what one argument is.
* `words` — what the arguments of a command line are.
* `Use.switches` — the options that one use of options stands for.
-/

/-! ### Words -/

/-- The use of an option: whether it is spelled with two dashes, and what is joined to it. -/
structure Use where
  switch : Switch
  isLong : Bool
  joined : Option (List Char)
  deriving DecidableEq, Repr

/-- What an argument is. -/
inductive Word where
  | plain (text : String)
  | divider
  | option (use : Use)
  | unknown (text : String)
  deriving DecidableEq, Repr

namespace Word

/-- Whether a word is the divider. -/
def isDivider : Word → Bool
  | .divider => true
  | _ => false

/-- The text of a word that is no option. -/
def text : Word → String
  | .plain s => s
  | .unknown s => s
  | _ => "--"

/-- Whether characters are decimal digits, at least one. -/
def areDigits (cs : List Char) : Bool := !cs.isEmpty && cs.all fun c => (Text.digitValue? c).isSome

/-- Whether the characters after a dash make it a negative number, perhaps with a line feed behind
it. -/
def isNumber (cs : List Char) : Bool :=
  let cs := if cs.getLast? = some '\n' then cs.dropLast else cs
  match cs.dropWhile (· ≠ '.') with
  | [] => areDigits cs
  | _ :: fraction =>
    (cs.takeWhile (· ≠ '.')).all (fun c => (Text.digitValue? c).isSome) && areDigits fraction

/-- The part of an argument before its first equals sign, and the part after it if there is one. -/
def cut (cs : List Char) : List Char × Option (List Char) :=
  match cs.dropWhile (· ≠ '=') with
  | [] => (cs, none)
  | _ :: value => (cs.takeWhile (· ≠ '='), some value)

/-- The uses that an argument with two dashes may stand for. -/
def longUses (cs : List Char) : List Use :=
  let (start, value) := cut cs
  (Switch.all.filter fun s => start.isPrefixOf s.longSpelling.toList).map (⟨·, true, value⟩)

/-- The use that an argument with one dash may stand for. -/
def shortUse? (cs : List Char) : Option Use :=
  match cs with
  | _ :: c :: rest => (Switch.ofLetter? c).map (⟨·, false, some rest⟩)
  | _ => none

/-- The use of an option whose spelling is written out, alone or before an equals sign. -/
def exactUse? (cs : List Char) : Option Use :=
  let isLong := ['-', '-'].isPrefixOf cs
  match Switch.ofSpelling? (String.ofList cs), cut cs with
  | some s, _ => some ⟨s, isLong, none⟩
  | none, (name, some value) =>
    (Switch.ofSpelling? (String.ofList name)).map (⟨·, isLong, some value⟩)
  | none, (_, none) => none

/-- What an argument with a dash is that is no option. -/
def withoutUse (s : String) : Word :=
  if isNumber (s.toList.drop 1) || ' ' ∈ s.toList then .plain s else .unknown s

/-- What one argument is. -/
def ofArgument (s : String) : Except UsageError Word :=
  match s.toList with
  | '-' :: c :: cs =>
    match exactUse? ('-' :: c :: cs) with
    | some u => .ok (.option u)
    | none =>
      let uses :=
        if c = '-' then longUses ('-' :: c :: cs) else (shortUse? ('-' :: c :: cs)).toList
      match uses with
      | [] => .ok (withoutUse s)
      | [u] => .ok (.option u)
      | us => .error (.ambiguous s (us.map (·.switch.longSpelling)))
  | _ => .ok (.plain s)

end Word

/-- What the arguments of a command line are. -/
def words : List String → Except UsageError (List Word)
  | [] => .ok []
  | s :: rest =>
    if s = "--" then .ok (.divider :: rest.map .plain)
    else do
      let w ← Word.ofArgument s
      return w :: (← words rest)

/-! ### Uses of options -/

/-- What the last option of a use still asks for: nothing, its value in the next word, or the value
that is joined to it. -/
inductive Demand where
  | nothing
  | next (s : Switch)
  | joined (s : Switch) (value : String)
  deriving DecidableEq, Repr

/-- The options that letters behind an option stand for. -/
def letters (s : Switch) : List Char → Except UsageError (List Switch × Demand)
  | [] => .ok (if s.takesValue then ([], .next s) else ([s], .nothing))
  | c :: cs =>
    if s.takesValue then .ok ([], .joined s (String.ofList (c :: cs)))
    else match Switch.ofLetter? c with
      | some s' => (letters s' cs).map fun (ss, d) => (s :: ss, d)
      | none => .error (.ignoredValue s (String.ofList (c :: cs)))

/-- The options without a value that a use stands for, and what its last option asks for. -/
def Use.switches (u : Use) : Except UsageError (List Switch × Demand) :=
  match u.joined with
  | none => letters u.switch []
  | some cs =>
    if u.switch.takesValue then .ok ([], .joined u.switch (String.ofList cs))
    else if u.isLong || cs.isEmpty then .error (.ignoredValue u.switch (String.ofList cs))
    else letters u.switch cs

end PathSieve.Command
