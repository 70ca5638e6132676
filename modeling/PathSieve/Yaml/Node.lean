import PathSieve.Yaml.Token

namespace PathSieve.Yaml

/-!
# Nodes

A document is a tree of scalars, sequences and mappings, which is read from its tokens. What a
scalar stands for is not looked at here. A node behind an anchor is also the node of every alias
with its name that comes later, so that a mapping can stand at several places of the tree: it is
known by the number of tokens that were left where it started.

* `Feed` — tokens that are left, and the nodes that have anchors.
* `Node.read` — the node that some tokens start with, and what is left.
* `Node.ofText` — the node of a text that holds at most one document.
-/

/-- A node of a document. -/
inductive Node where
  | plain (text : String)
  | quoted (text : List Text.CodePoint)
  | sequence (items : List Node)
  | mapping (start : Nat) (entries : List (Node × Node))
  deriving Repr

/-- Tokens that are left, and the nodes of the anchors before them; a node that has not come to its
end is none yet. -/
structure Feed where
  tokens : List Token
  anchors : List (String × Option Node)

/-- What is left when only some tokens are. -/
def Feed.on (f : Feed) (tokens : List Token) : Feed := { f with tokens }

/-- What is left once an anchor has a node, or none yet. -/
def Feed.tie (f : Feed) (name : String) (n : Option Node) : Feed :=
  { f with anchors := (name, n) :: f.anchors }

namespace Node

/-- The node that stands where nothing is written. -/
def absent : Node := .plain ""

/-! ### Ends -/

/-- What is wrong with tokens that cannot go on like this: the fault that they break off with, or
their order. -/
def refusal : List Token → Fault
  | .broken e :: _ => e
  | _ => .malformed

/-- Whether a node has content that starts with a token. -/
def startsContent (block indentless : Bool) : Token → Bool
  | .plain _ | .quoted _ | .flowSequence | .flowMapping => true
  | .entry => indentless
  | .blockSequence | .blockMapping => block
  | _ => false

/-- Whether one of the given tokens comes next, so that a node before it is absent. -/
def endsBefore (ends : Token → Bool) : List Token → Bool
  | [] => true
  | t :: _ => ends t

/-- Whether a key or value of a block mapping is absent before a token. -/
def mappingEnd (t : Token) : Bool := t ∈ [.key, .value, .blockEnd]

/-- Whether an item of a block sequence is absent before a token. -/
def sequenceEnd (t : Token) : Bool := t ∈ [.entry, .blockEnd]

/-- Whether an item of a block sequence at its parent's indentation is absent before a token. -/
def itemEnd (t : Token) : Bool := t ∈ [.entry, .key, .value, .blockEnd]

/-- Whether a document is absent before a token. -/
def documentEnd : Token → Bool
  | .directive _ | .documentStart | .documentEnd => true
  | _ => false

/-! ### Reading -/

mutual

/-- A node. Inside flow collections (`block` is false) only flow collections and scalars are
nodes; `indentless` allows a sequence at the indentation of the mapping around it. An alias inside
the node of its own anchor is not read. -/
def read : Nat → Bool → Bool → Feed → Reading (Node × Feed)
  | 0, _, _, _ => .error .malformed
  | fuel + 1, block, indentless, f =>
    match f.tokens with
    | .alias name :: rest => match f.anchors.lookup name with
      | some (some n) => .ok (n, f.on rest)
      | _ => .error .malformed
    | .anchor _ :: .broken e :: _ => .error e
    | .anchor name :: rest => do
      if (f.anchors.lookup name).isSome then throw .malformed
      let f := (f.on rest).tie name none
      let (n, f) ← if rest.head?.any (startsContent block indentless) then
          content fuel block indentless f
        else .ok (absent, f)
      return (n, f.tie name (some n))
    | _ => content fuel block indentless f

/-- The content of a node. -/
def content : Nat → Bool → Bool → Feed → Reading (Node × Feed)
  | 0, _, _, _ => .error .malformed
  | fuel + 1, block, indentless, f =>
    let start := f.tokens.length
    match f.tokens with
    | .plain text :: rest => .ok (.plain text, f.on rest)
    | .quoted text :: rest => .ok (.quoted text, f.on rest)
    | .flowSequence :: rest => flowItems fuel true (f.on rest) []
    | .flowMapping :: rest => flowEntries fuel start true (f.on rest) []
    | .entry :: _ => if indentless then indentlessItems fuel f [] else .error (refusal f.tokens)
    | .blockSequence :: rest =>
      if block then blockItems fuel (f.on rest) [] else .error (refusal f.tokens)
    | .blockMapping :: rest =>
      if block then blockEntries fuel start (f.on rest) [] else .error (refusal f.tokens)
    | _ => .error (refusal f.tokens)

/-- A node that is absent before the given tokens. -/
def optional : Nat → Bool → Bool → (Token → Bool) → Feed → Reading (Node × Feed)
  | 0, _, _, _, _ => .error .malformed
  | fuel + 1, block, indentless, ends, f =>
    if endsBefore ends f.tokens then .ok (absent, f) else read fuel block indentless f

/-- The items of a block sequence; `done` holds those read, in reverse. -/
def blockItems : Nat → Feed → List Node → Reading (Node × Feed)
  | 0, _, _ => .error .malformed
  | fuel + 1, f, done =>
    match f.tokens with
    | .entry :: rest => do
      let (v, f) ← optional fuel true false sequenceEnd (f.on rest)
      blockItems fuel f (v :: done)
    | .blockEnd :: rest => .ok (.sequence done.reverse, f.on rest)
    | _ => .error (refusal f.tokens)

/-- The items of a block sequence that ends with the mapping around it. -/
def indentlessItems : Nat → Feed → List Node → Reading (Node × Feed)
  | 0, _, _ => .error .malformed
  | fuel + 1, f, done =>
    match f.tokens with
    | .entry :: rest => do
      let (v, f) ← optional fuel true false itemEnd (f.on rest)
      indentlessItems fuel f (v :: done)
    | _ => .ok (.sequence done.reverse, f)

/-- The entries of a block mapping. -/
def blockEntries : Nat → Nat → Feed → List (Node × Node) → Reading (Node × Feed)
  | 0, _, _, _ => .error .malformed
  | fuel + 1, start, f, done =>
    match f.tokens with
    | .key :: rest => do
      let (k, f) ← optional fuel true true mappingEnd (f.on rest)
      let (v, f) ← match f.tokens with
        | .value :: rest => optional fuel true true mappingEnd (f.on rest)
        | _ => .ok (absent, f)
      blockEntries fuel start f ((k, v) :: done)
    | .blockEnd :: rest => .ok (.mapping start done.reverse, f.on rest)
    | _ => .error (refusal f.tokens)

/-- The value after a key of a flow collection that ends with `close`. -/
def flowValue : Nat → Token → Feed → Reading (Node × Feed)
  | 0, _, _ => .error .malformed
  | fuel + 1, close, f =>
    match f.tokens with
    | .value :: rest => optional fuel false false (· ∈ [.comma, close]) (f.on rest)
    | _ => .ok (absent, f)

/-- The items of a flow sequence; a comma stands before each but the `first`. A key starts an item
that is a mapping with one entry. -/
def flowItems : Nat → Bool → Feed → List Node → Reading (Node × Feed)
  | 0, _, _, _ => .error .malformed
  | fuel + 1, first, f, done =>
    match f.tokens with
    | .flowSequenceEnd :: rest => .ok (.sequence done.reverse, f.on rest)
    | _ => do
      let tokens ← match first, f.tokens with
        | true, ts => .ok ts
        | false, .comma :: ts => .ok ts
        | false, ts => .error (refusal ts)
      match tokens with
      | .flowSequenceEnd :: rest => .ok (.sequence done.reverse, f.on rest)
      | .key :: rest =>
        let ends (t : Token) : Bool := t ∈ [.value, .comma, .flowSequenceEnd]
        let (k, f) ← optional fuel false false ends (f.on rest)
        let (v, f) ← flowValue fuel .flowSequenceEnd f
        flowItems fuel false f (.mapping tokens.length [(k, v)] :: done)
      | ts =>
        let (v, f) ← read fuel false false (f.on ts)
        flowItems fuel false f (v :: done)

/-- The entries of a flow mapping; an entry without a key mark has no value. -/
def flowEntries : Nat → Nat → Bool → Feed → List (Node × Node) → Reading (Node × Feed)
  | 0, _, _, _, _ => .error .malformed
  | fuel + 1, start, first, f, done =>
    match f.tokens with
    | .flowMappingEnd :: rest => .ok (.mapping start done.reverse, f.on rest)
    | _ => do
      let tokens ← match first, f.tokens with
        | true, ts => .ok ts
        | false, .comma :: ts => .ok ts
        | false, ts => .error (refusal ts)
      match tokens with
      | .flowMappingEnd :: rest => .ok (.mapping start done.reverse, f.on rest)
      | .key :: rest =>
        let (k, f) ← optional fuel false false (· ∈ [.value, .comma, .flowMappingEnd]) (f.on rest)
        let (v, f) ← flowValue fuel .flowMappingEnd f
        flowEntries fuel start false f ((k, v) :: done)
      | ts =>
        let (k, f) ← read fuel false false (f.on ts)
        flowEntries fuel start false f ((k, absent) :: done)

end

/-! ### Documents -/

/-- The directives at the head of a list of tokens. -/
def leadingDirectives : List Token → List Directive
  | .directive d :: rest => d :: leadingDirectives rest
  | _ => []

/-- The node of the first document, whose directives must go together, and what is left after it. -/
def firstDocument (fuel : Nat) (tokens : List Token) : Reading (Node × Feed) :=
  match tokens with
  | [] => .ok (absent, ⟨[], []⟩)
  | .directive _ :: _ | .documentStart :: _ =>
    let ds := leadingDirectives tokens
    if !Directive.agree ds then .error .malformed
    else match tokens.drop ds.length with
      | .documentStart :: rest => optional fuel true false documentEnd ⟨rest, []⟩
      | rest => .error (refusal rest)
  | _ => read fuel true false ⟨tokens, []⟩

/-- Refuses tokens behind a document. -/
def checkEnd (tokens : List Token) : Reading Unit :=
  let rest := tokens.dropWhile (· = .documentEnd)
  let ds := leadingDirectives rest
  if rest.isEmpty then .ok ()
  else if !Directive.agree ds then .error .malformed
  else .error (refusal (rest.drop ds.length))

/-- The node of a list of tokens that holds at most one document. -/
def ofTokens (tokens : List Token) : Reading Node := do
  let (node, left) ← firstDocument (6 * tokens.length + 6) tokens
  checkEnd left.tokens
  return node

/-- The node of a text that holds at most one document. -/
def ofText (cs : List Char) : Reading Node := ofTokens (tokens cs)

end Node

end PathSieve.Yaml
