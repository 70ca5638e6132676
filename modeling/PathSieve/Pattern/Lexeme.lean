import PathSieve.Text.CodePoint

namespace PathSieve.Pattern

open Text (CodePoint pointsOf)

/-!
# Lexemes

The smallest pieces of pattern text: plain code points, escaped ones and the symbols of the pattern
language.

* `lexeme` — the lexeme at the head of a text, by its first code point and what follows.
* `lexemes` — all lexemes of a text with their positions.
* `Lexeme.spelling` — the code points a lexeme was read from.
-/

/-! ### Separators and symbols -/

/-- A path separator. -/
inductive Separator where
  | slash
  | backslash
  deriving DecidableEq, Repr

/-- The character of a separator. -/
def Separator.char : Separator → Char
  | .slash => '/'
  | .backslash => '\\'

/-- The separator that a code point is. -/
def Separator.ofPoint? (c : CodePoint) : Option Separator :=
  if c = .char '/' then some .slash else if c = .char '\\' then some .backslash else none

/-- Whether a code point separates the segments of a path. -/
def isSeparator (c : CodePoint) : Bool := c = .char '/' || c = .char '\\'

@[simp] theorem Separator.ofPoint?_char (s : Separator) : ofPoint? (.char s.char) = some s := by
  cases s <;> rfl

@[simp] theorem Separator.isSeparator_char (s : Separator) :
    isSeparator (.char s.char) = true := by
  cases s <;> rfl

theorem Separator.ofPoint?_isSome (c : CodePoint) : (ofPoint? c).isSome = isSeparator c := by
  unfold ofPoint? isSeparator; split <;> simp_all; split <;> simp_all

/-- A symbol of the pattern language. -/
inductive Symbol where
  | anyChar
  | anyChars
  | anyPath (s : Separator)
  | split (s : Separator)
  | conj
  | disj
  | openGroup
  | openInverse
  | closeGroup
  deriving DecidableEq, Repr

/-- The characters of a symbol. -/
def Symbol.spelling : Symbol → List Char
  | .anyChar => ['?']
  | .anyChars => ['*']
  | .anyPath s => ['*', '*', s.char]
  | .split s => [s.char]
  | .conj => ['&']
  | .disj => ['|']
  | .openGroup => ['(']
  | .openInverse => ['(', '!']
  | .closeGroup => [')']

/-! ### Lexemes -/

/-- A piece of pattern text. -/
inductive Lexeme where
  | plain (c : CodePoint)
  | escaped (c : CodePoint)
  | symbol (s : Symbol)
  deriving DecidableEq, Repr

/-- The escape character. -/
def escapeMark : Char := '$'

/-- Whether a code point may follow the escape character. -/
def isEscapable (c : CodePoint) : Bool :=
  c ∈ pointsOf ['*', '?', '$', '/', '\\', '&', '|', '(', ')']

namespace Lexeme

/-- The code points that a lexeme is read from. -/
def spelling : Lexeme → List CodePoint
  | .plain c => [c]
  | .escaped c => [.char escapeMark, c]
  | .symbol s => pointsOf s.spelling

/-- The code point that a lexeme adds to a literal. -/
def literal? : Lexeme → Option CodePoint
  | .plain c => some c
  | .escaped c => some c
  | .symbol _ => none

theorem spelling_ne_nil (l : Lexeme) : l.spelling ≠ [] := by
  cases l with
  | symbol s => cases s <;> simp [spelling, Symbol.spelling, pointsOf]
  | _ => simp [spelling]

end Lexeme

/-! ### Errors -/

/-- What can be wrong with pattern text. -/
inductive FormatCause where
  | tooLong
  | danglingEscape
  | invalidEscape (c : CodePoint)
  | emptyGroup
  | emptyBefore (operator : Symbol)
  | emptyAfter (operator : Symbol)
  | tooDeep
  | unbalanced
  | unterminated
  deriving DecidableEq, Repr

/-- A fault of pattern text and the index of the offending code point. -/
structure FormatError where
  cause : FormatCause
  position : Nat
  deriving DecidableEq, Repr

/-! ### Scanning -/

/-- The lexeme that starts with `c`, where `ahead` is the text after `c`. -/
def lexeme (c : CodePoint) (ahead : List CodePoint) : Except FormatCause Lexeme :=
  match c, ahead with
  | .char '$', [] => .error .danglingEscape
  | .char '$', e :: _ => if isEscapable e then .ok (.escaped e) else .error (.invalidEscape e)
  | .char '*', .char '*' :: s :: _ =>
    match Separator.ofPoint? s with
    | some sep => .ok (.symbol (.anyPath sep))
    | none => .ok (.symbol .anyChars)
  | .char '*', _ => .ok (.symbol .anyChars)
  | .char '/', _ => .ok (.symbol (.split .slash))
  | .char '\\', _ => .ok (.symbol (.split .backslash))
  | .char '(', .char '!' :: _ => .ok (.symbol .openInverse)
  | .char '(', _ => .ok (.symbol .openGroup)
  | .char '?', _ => .ok (.symbol .anyChar)
  | .char '&', _ => .ok (.symbol .conj)
  | .char '|', _ => .ok (.symbol .disj)
  | .char ')', _ => .ok (.symbol .closeGroup)
  | c, _ => .ok (.plain c)

/-- A lexeme and the index of its first code point. -/
structure Placed where
  lexeme : Lexeme
  position : Nat
  deriving DecidableEq, Repr

/-- The lexemes of a text whose first code point has index `position`; the first `covered` ones
belong to a lexeme that has been read already. -/
def lexemesFrom (position covered : Nat) : List CodePoint → Except FormatError (List Placed)
  | [] => .ok []
  | c :: cs =>
    match covered with
    | k + 1 => lexemesFrom (position + 1) k cs
    | 0 =>
      match lexeme c cs with
      | .error cause => .error ⟨cause, position⟩
      | .ok l =>
        match lexemesFrom (position + 1) (l.spelling.length - 1) cs with
        | .error e => .error e
        | .ok ls => .ok (⟨l, position⟩ :: ls)

/-- The lexemes of a text. -/
def lexemes (text : List CodePoint) : Except FormatError (List Placed) := lexemesFrom 0 0 text

end PathSieve.Pattern
