import PathSieve.Proofs.Pattern.Lexing
import PathSieve.Proofs.Pattern.Rooted

namespace PathSieve.Pattern

/-!
# The size of arenas

A compiled pattern has few nodes: at most two for each code point, and two more.

* `Build.weight` — the nodes of a build, and those that its open levels will still need.
* `Build.close_size_le`, `Build.step_weight_le`, `Build.run_weight_le`, `Build.finish_size_le` — a
  level that is closed, one token, all tokens, the end.
* `compile_size_le` — the bound for a compiled pattern.
-/

/-! ### Tokens of a text -/

theorem length_prependKind_le (c : Text.CodePoint) (ks : List TokenKind) :
    (prependKind c ks).length ≤ ks.length + 1 := by
  unfold prependKind
  split
  · simp
  · simp

theorem length_kinds_le (ls : List Lexeme) : (kinds ls).length ≤ ls.length := by
  induction ls with
  | nil => simp [kinds]
  | cons l ls ih =>
    cases l with
    | symbol s => simpa [kinds] using ih
    | plain c =>
      have hprepend := length_prependKind_le c (kinds ls)
      simp only [kinds, List.length_cons]
      omega
    | escaped c =>
      have hprepend := length_prependKind_le c (kinds ls)
      simp only [kinds, List.length_cons]
      omega

theorem Spells.length_le {ls : List Lexeme} {text : List Text.CodePoint} (h : Spells ls text) :
    ls.length ≤ text.length := by
  induction h with
  | nil => exact Nat.le_refl _
  | cons head spelling tail ih =>
    simp only [List.length_cons, List.length_append]
    omega

/-- A text has at least one code point for each of its tokens. -/
theorem tokenize_length_le {text : List Text.CodePoint} {ts : List Token}
    (h : tokenize text = .ok ts) : ts.length ≤ text.length := by
  obtain ⟨ls, hspells, hkinds⟩ := tokenize_spells h
  calc ts.length = (kinds ls).length := by rw [← hkinds, List.length_map]
    _ ≤ ls.length := length_kinds_le ls
    _ ≤ text.length := hspells.length_le

/-! ### Levels that are closed -/

namespace Build

/-- Joining operands adds at most one node for each of them but the first. -/
theorem join_size_le (nodes : Array Node) (op : Connective) (children : List Nat)
    (rest : List (Connective × Nat)) :
    (join nodes op children rest).1.size ≤ nodes.size + rest.length + 1 := by
  induction rest generalizing nodes op children with
  | nil => simp [join]
  | cons p rest ih =>
    obtain ⟨next, operand⟩ := p
    rw [join]
    split
    · have hrest := ih nodes op (children ++ [operand])
      simp only [List.length_cons]
      omega
    · have hrest := ih (nodes.push (.combine op children)) next [nodes.size, operand]
      simp only [Array.size_push, List.length_cons] at hrest ⊢
      omega

theorem length_chain (operands : List (Nat × Connective)) (last : Nat) :
    (chain operands last).2.length = operands.length := by
  have hmap := congrArg List.length (map_chain operands last)
  simpa using hmap

/-- A level needs one node for its terms, and one more at most for each operand. -/
theorem close_size_le {nodes nodes' : Array Node} {l : Level} {finish top : Nat} {isGroup : Bool}
    (h : close nodes l finish isGroup = .ok (nodes', top)) :
    nodes'.size ≤ nodes.size + l.operands.size + 1 := by
  obtain ⟨-, rfl, -⟩ | ⟨first, op, second, rest, hchain, hjoin⟩ := close_eq_ok h
  · simp
  · have hlength := length_chain l.operands.toList nodes.size
    have hsize := join_size_le (nodes.push (.sequence l.items.toList)) op [first, second] rest
    rw [hchain] at hlength
    rw [hjoin] at hsize
    simp only [Array.size_push, List.length_cons, Array.length_toList] at hsize hlength
    omega

/-! ### Tokens -/

/-- The nodes of a build, and one for each operand that still has to be joined. -/
def weight (b : Build) : Nat :=
  b.nodes.size + b.level.operands.size + b.outer.foldr (fun l n => l.operands.size + n) 0

variable {b b' : Build}

theorem weight_term (b : Build) (n : Node) : (b.term n).weight = b.weight + 1 := by
  simp only [weight, term, Level.push, Array.size_push]
  omega

theorem connect_weight_le {op : Connective} {position : Nat}
    (h : b.connect op position = .ok b') : b'.weight ≤ b.weight + 2 := by
  rw [connect_eq_ok h]
  simp only [weight, Array.size_push]
  omega

theorem openGroup_weight_le {inverted : Bool} {position : Nat}
    (h : b.openGroup inverted position = .ok b') : b'.weight ≤ b.weight := by
  rw [(openGroup_eq_ok h).2]
  simp only [weight, List.foldr_cons, Array.size_empty]
  omega

theorem closeGroup_weight_le {position : Nat} (h : b.closeGroup position = .ok b') :
    b'.weight ≤ b.weight + 2 := by
  obtain ⟨parent, outer, nodes, child, houter, hclose, rfl⟩ := closeGroup_eq_ok h
  have hsize := close_size_le hclose
  simp only [weight, houter, Level.push, Array.size_push, List.foldr_cons]
  omega

/-- A token adds at most two to the weight. -/
theorem step_weight_le {t : Token} (h : b.step t = .ok b') : b'.weight ≤ b.weight + 2 := by
  have hmark : ∀ b : Build, b.markMulti.weight = b.weight := fun _ => rfl
  obtain ⟨n, -, -, rfl | rfl⟩ | ⟨s, rfl⟩ | ⟨op, h⟩ | ⟨inverted, h⟩ | h := step_eq_ok h
  · rw [weight_term]
    omega
  · rw [hmark, weight_term]
    omega
  · rw [hmark, weight_term, weight_term]
  · exact connect_weight_le h
  · exact Nat.le_add_right_of_le (openGroup_weight_le h)
  · exact closeGroup_weight_le h

theorem run_weight_le {ts : List Token} (h : ts.foldlM step b = .ok b') :
    b'.weight ≤ b.weight + 2 * ts.length := by
  induction ts generalizing b with
  | nil =>
    cases h
    exact Nat.le_refl _
  | cons t ts ih =>
    rw [List.foldlM_cons] at h
    cases hstep : b.step t with
    | error e =>
      rw [hstep] at h
      cases h
    | ok next =>
      rw [hstep] at h
      have hnext := step_weight_le hstep
      have hrest := ih h
      rw [List.length_cons]
      omega

theorem finish_size_le {length : Nat} {a : Arena} (h : b.finish length = .ok a) :
    a.size ≤ b.weight + 2 := by
  obtain ⟨-, nodes, top, hclose, hroot⟩ := finish_eq_ok h
  have hsize := close_size_le hclose
  rcases hroot with rfl | rfl
  · simp only [Arena.size, weight]
    omega
  · simp only [Arena.size, weight, Array.size_push]
    omega

end Build

/-! ### Compiled patterns -/

/-- A compiled pattern has at most two nodes for each code point, and two more. -/
theorem compile_size_le {text : List Text.CodePoint} {a : Arena} (h : compile text = .ok a) :
    a.size ≤ 2 * text.length + 2 := by
  obtain ⟨ts, b, htokens, hrun, hfinish⟩ := compile_exists_build h
  have hlength := tokenize_length_le htokens
  have hweight := Build.run_weight_le hrun
  have hstart : ({} : Build).weight = 0 := rfl
  have hsize := Build.finish_size_le hfinish
  omega

end PathSieve.Pattern
