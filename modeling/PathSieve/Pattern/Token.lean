import PathSieve.Pattern.Lexeme

namespace PathSieve.Pattern

open Text (CodePoint pointsOf)

/-!
# Tokens

A token is a symbol or a literal, which is a maximal run of plain and escaped code points.

* `gather` — joins the runs of code points among lexemes.
* `tokenize` — the tokens of pattern text.
-/

/-- What a token is. -/
inductive TokenKind where
  | literal (text : List CodePoint)
  | symbol (s : Symbol)
  deriving DecidableEq, Repr

/-- A token and the index of its first code point. -/
structure Token where
  kind : TokenKind
  position : Nat
  deriving DecidableEq, Repr

/-- The text of a token: the code points of a literal without their escapes, the separator of a
`**` operator, the spelling of any other symbol. -/
def Token.value (t : Token) : List CodePoint :=
  match t.kind with
  | .literal text => text
  | .symbol (.anyPath s) => [.char s.char]
  | .symbol s => pointsOf s.spelling

/-- Puts a code point in front of the tokens that follow it, into their first literal if they start
with one. -/
def prepend (c : CodePoint) (position : Nat) : List Token → List Token
  | ⟨.literal text, _⟩ :: rest => ⟨.literal (c :: text), position⟩ :: rest
  | rest => ⟨.literal [c], position⟩ :: rest

/-- Joins the runs of code points among lexemes. -/
def gather : List Placed → List Token
  | [] => []
  | ⟨.symbol s, p⟩ :: rest => ⟨.symbol s, p⟩ :: gather rest
  | ⟨.plain c, p⟩ :: rest => prepend c p (gather rest)
  | ⟨.escaped c, p⟩ :: rest => prepend c p (gather rest)

/-- The tokens of pattern text. -/
def tokenize (text : List CodePoint) : Except FormatError (List Token) := (lexemes text).map gather

end PathSieve.Pattern
