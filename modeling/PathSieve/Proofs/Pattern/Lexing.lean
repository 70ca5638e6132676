import Mathlib.Data.List.Basic
import PathSieve.Proofs.Pattern.Derivation

namespace PathSieve.Pattern

open Text (CodePoint pointsOf)

/-!
# Lexemes of joined texts

A text that is followed by a connective or by the end of a group keeps its lexemes, so the tokens of
texts that are joined this way are those of the texts, with the tokens between them.

* `Spells` — the lexemes that spell a text, without their positions.
* `exists_spells_or` — lexemes spell a text up to the first escape mark that escapes nothing.
* `tokenize_eq_ok_iff_spells`, `tokenize_eq_error_iff_spells` — the tokens of a text and the lexemes
  that spell it, and what it is refused for.
* `Spells.append_iff`, `Spells.append` — what is added behind a text does not change how it is read.
* `Spells.kinds_induction` — induction on a text beside its tokens.
* `kinds_symbol` — a symbol between lexemes is a token between their tokens.
-/

/-! ### One lexeme -/

/-- What the lexeme at the head of a text is, by the first code point and those after it. -/
inductive Reads : CodePoint → List CodePoint → Lexeme → Prop where
  | escaped {e : CodePoint} {rest : List CodePoint} :
      isEscapable e → Reads (.char '$') (e :: rest) (.escaped e)
  | anyPath {s : Separator} {rest : List CodePoint} :
      Reads (.char '*') (.char '*' :: .char s.char :: rest) (.symbol (.anyPath s))
  | anyChars {ahead : List CodePoint} :
      (∀ s : Separator, ¬ [.char '*', .char s.char] <+: ahead) →
      Reads (.char '*') ahead (.symbol .anyChars)
  | openInverse {rest : List CodePoint} :
      Reads (.char '(') (.char '!' :: rest) (.symbol .openInverse)
  | openGroup {ahead : List CodePoint} :
      ahead.head? ≠ some (.char '!') → Reads (.char '(') ahead (.symbol .openGroup)
  | single {s : Symbol} {c : Char} {ahead : List CodePoint} :
      s.spelling = [c] → s ≠ .anyChars → s ≠ .openGroup → Reads (.char c) ahead (.symbol s)
  | plain {c : CodePoint} {ahead : List CodePoint} :
      isEscapable c = false → Reads c ahead (.plain c)

theorem Separator.ofPoint?_eq_some_iff {c : CodePoint} {s : Separator} :
    ofPoint? c = some s ↔ c = .char s.char := by
  constructor
  · intro h
    unfold ofPoint? at h
    split at h
    · cases h
      assumption
    · split at h
      · cases h
        assumption
      · cases h
  · rintro rfl
    exact ofPoint?_char s

theorem lexeme_reads {c : CodePoint} {ahead : List CodePoint} {l : Lexeme}
    (h : lexeme c ahead = .ok l) : Reads c ahead l := by
  unfold lexeme at h
  -- One case for each line of `lexeme`, in its order.
  split at h
  · cases h
  · split at h
    · cases h
      exact .escaped ‹_›
    · cases h
  · split at h
    · rename_i hsep
      cases h
      rw [Separator.ofPoint?_eq_some_iff.1 hsep]
      exact .anyPath
    · rename_i hsep
      cases h
      refine .anyChars fun s hs => ?_
      have hs' := (List.cons_prefix_cons.1 (List.cons_prefix_cons.1 hs).2).1
      rw [Separator.ofPoint?_eq_some_iff.2 hs'.symm] at hsep
      cases hsep
  · rename_i hno
    cases h
    refine .anyChars fun s ⟨rest, hs⟩ => ?_
    exact hno _ rest hs.symm
  · cases h
    exact .single rfl (by decide) (by decide)
  · cases h
    exact .single rfl (by decide) (by decide)
  · cases h
    exact .openInverse
  · rename_i hno
    cases h
    refine .openGroup fun hhead => ?_
    obtain ⟨rest, hrest⟩ := List.head?_eq_some_iff.1 hhead
    exact hno rest hrest
  · cases h
    exact .single rfl (by decide) (by decide)
  · cases h
    exact .single rfl (by decide) (by decide)
  · cases h
    exact .single rfl (by decide) (by decide)
  · cases h
    exact .single rfl (by decide) (by decide)
  · cases h
    refine .plain ?_
    cases ahead <;> simp_all [isEscapable, pointsOf]

theorem Reads.lexeme_eq {c : CodePoint} {ahead : List CodePoint} {l : Lexeme}
    (h : Reads c ahead l) : lexeme c ahead = .ok l := by
  cases h with
  | escaped he => simp [lexeme, he]
  | anyPath => simp [lexeme]
  | anyChars hno =>
    unfold lexeme
    split <;> simp_all
    rename_i d _
    cases hsep : Separator.ofPoint? d with
    | none => rfl
    | some sep => exact absurd (Separator.ofPoint?_eq_some_iff.1 hsep).symm (hno sep)
  | openInverse => rfl
  | openGroup hno =>
    unfold lexeme
    split <;> simp_all
  | single hs hchars hgroup =>
    rename_i s c
    cases s with
    | split s => cases s <;> cases hs <;> rfl
    | anyChars => exact absurd rfl hchars
    | openGroup => exact absurd rfl hgroup
    | anyPath s => cases hs
    | openInverse => cases hs
    | _ =>
      cases hs
      rfl
  | plain hc =>
    unfold lexeme
    split <;> simp_all [isEscapable, pointsOf]

/-- A lexeme is read from the code points of its spelling. -/
theorem Reads.spelling {c : CodePoint} {ahead : List CodePoint} {l : Lexeme}
    (h : Reads c ahead l) :
    ∃ u rest, l.spelling = c :: u ∧ ahead = u ++ rest := by
  cases h with
  | escaped => exact ⟨_, _, rfl, rfl⟩
  | anyPath => exact ⟨_, _, rfl, rfl⟩
  | anyChars => exact ⟨[], _, rfl, rfl⟩
  | openInverse => exact ⟨_, _, rfl, rfl⟩
  | openGroup => exact ⟨[], _, rfl, rfl⟩
  | single hs =>
    refine ⟨[], _, ?_, rfl⟩
    rw [Lexeme.spelling, hs]
    rfl
  | plain => exact ⟨[], _, rfl, rfl⟩

theorem Reads.isEscapable_eq_false {c d : CodePoint} {ahead : List CodePoint}
    (h : Reads c ahead (.plain d)) : isEscapable d = false := by
  cases h
  assumption

theorem isEscapable_eq_false_iff {c : CodePoint} :
    isEscapable c = false ↔ c ≠ .char '*' ∧ c ≠ .char '?' ∧ c ≠ .char '$' ∧ c ≠ .char '/' ∧
      c ≠ .char '\\' ∧ c ≠ .char '&' ∧ c ≠ .char '|' ∧ c ≠ .char '(' ∧ c ≠ .char ')' := by
  simp [isEscapable, pointsOf]

/-- What begins with nothing that a lexeme in front of it looks for. -/
structure Detached (z : List CodePoint) : Prop where
  mark : z.head? ≠ some (.char '!')
  separator : ∀ s : Separator, z.head? ≠ some (.char s.char)
  pathway : ∀ s : Separator, ¬ [.char '*', .char s.char] <+: z

/-- A code point that is no part of a lexeme which begins before it. -/
def Apart (d : CodePoint) : Prop := d ∈ pointsOf ['&', '|', ')', '$']

instance (d : CodePoint) : Decidable (Apart d) :=
  inferInstanceAs (Decidable (d ∈ pointsOf ['&', '|', ')', '$']))

theorem Apart.detached {d : CodePoint} (hd : Apart d) (z : List CodePoint) :
    Detached (d :: z) := by
  have hd' : d = .char '&' ∨ d = .char '|' ∨ d = .char ')' ∨ d = .char '$' := by
    simpa [Apart, pointsOf] using hd
  constructor
  · rcases hd' with rfl | rfl | rfl | rfl <;> simp
  · intro s
    rcases hd' with rfl | rfl | rfl | rfl <;> cases s <;> simp [Separator.char]
  · intro s hs
    obtain ⟨hstar, -⟩ := List.cons_prefix_cons.1 hs
    rcases hd' with rfl | rfl | rfl | rfl <;> cases hstar

/-- What is read at the head of a text does not change when something is added behind it that no
lexeme looks for. -/
theorem Reads.append {c : CodePoint} {ahead z : List CodePoint} {l : Lexeme}
    (h : Reads c ahead l) (hz : Detached z) : Reads c (ahead ++ z) l := by
  cases h with
  | escaped he => exact .escaped he
  | anyPath => exact .anyPath
  | anyChars hno =>
    refine .anyChars fun s hs => ?_
    -- A star looks two code points ahead, and these may stand on either side.
    cases ahead with
    | nil => exact hz.pathway s hs
    | cons e ahead =>
      obtain ⟨rfl, htail⟩ := List.cons_prefix_cons.1 hs
      cases ahead with
      | nil =>
        obtain ⟨rest, rfl⟩ := htail
        exact hz.separator s rfl
      | cons f ahead =>
        obtain ⟨rfl, -⟩ := List.cons_prefix_cons.1 htail
        exact hno s ⟨ahead, rfl⟩
  | openInverse => exact .openInverse
  | openGroup hno =>
    refine .openGroup ?_
    cases ahead with
    | nil => exact hz.mark
    | cons => exact hno
  | single hs hchars hgroup => exact .single hs hchars hgroup
  | plain hc => exact .plain hc

/-- What is read at the head of a text is read without what stands behind the lexeme, too. -/
theorem Reads.of_append {c : CodePoint} {u rest z : List CodePoint} {l : Lexeme}
    (h : Reads c (u ++ rest ++ z) l) (hs : l.spelling = c :: u) : Reads c (u ++ rest) l := by
  generalize hahead : u ++ rest ++ z = ahead at h
  cases h with
  | escaped he =>
    cases hs
    cases hahead
    exact .escaped he
  | anyPath =>
    cases hs
    exact .anyPath
  | anyChars hno =>
    subst hahead
    exact .anyChars fun s hahead => hno s (hahead.trans (List.prefix_append _ z))
  | openInverse =>
    cases hs
    exact .openInverse
  | openGroup hno =>
    subst hahead
    refine .openGroup fun hhead => hno ?_
    rw [List.head?_append, hhead]
    rfl
  | single hs' hchars hgroup => exact .single hs' hchars hgroup
  | plain hc => exact .plain hc

/-- What is behind an escape mark that escapes nothing, and the fault that it is. -/
inductive BadEscape : List CodePoint → FormatCause → Prop where
  | dangling : BadEscape [] .danglingEscape
  | invalid {c : CodePoint} {rest : List CodePoint} :
      isEscapable c = false → BadEscape (c :: rest) (.invalidEscape c)

/-- Nothing is read where an escape mark escapes nothing, and only there. -/
theorem lexeme_eq_error_iff {c : CodePoint} {ahead : List CodePoint} {cause : FormatCause} :
    lexeme c ahead = .error cause ↔ c = .char '$' ∧ BadEscape ahead cause := by
  constructor
  · intro h
    unfold lexeme at h
    split at h
    · cases h
      exact ⟨rfl, .dangling⟩
    · split at h
      · cases h
      · cases h
        exact ⟨rfl, .invalid (Bool.not_eq_true _ ▸ ‹_›)⟩
    · split at h <;> cases h
    all_goals cases h
  · rintro ⟨rfl, hbad⟩
    cases hbad with
    | dangling => rfl
    | invalid hc => simp [lexeme, hc]

/-! ### All lexemes -/

/-- The lexemes that spell a text, each being what is read at the head of what is left. -/
inductive Spells : List Lexeme → List CodePoint → Prop where
  | nil : Spells [] []
  | cons {l : Lexeme} {ls : List Lexeme} {c : CodePoint} {u rest : List CodePoint}
      (head : Reads c (u ++ rest) l) (spelling : l.spelling = c :: u)
      (tail : Spells ls rest) : Spells (l :: ls) (c :: (u ++ rest))

/-- Code points that are covered by a lexeme are passed over. -/
theorem lexemesFrom_append (position : Nat) (u rest : List CodePoint) :
    lexemesFrom position u.length (u ++ rest) = lexemesFrom (position + u.length) 0 rest := by
  induction u generalizing position with
  | nil => rfl
  | cons c u ih =>
    rw [List.cons_append, List.length_cons, lexemesFrom, ih, Nat.add_assoc, Nat.add_comm 1]

/-- Lexemes that stand one behind the other, the first one at a position. -/
def placed (position : Nat) : List Lexeme → List Placed
  | [] => []
  | l :: ls => ⟨l, position⟩ :: placed (position + l.spelling.length) ls

theorem map_lexeme_placed (position : Nat) (ls : List Lexeme) :
    (placed position ls).map Placed.lexeme = ls := by
  induction ls generalizing position with
  | nil => rfl
  | cons l ls ih => rw [placed, List.map_cons, ih]

theorem Spells.lexemesFrom {ls : List Lexeme} {text : List CodePoint} (h : Spells ls text)
    (position : Nat) : Pattern.lexemesFrom position 0 text = .ok (placed position ls) := by
  induction h generalizing position with
  | nil => rfl
  | cons head spelling tail ih =>
    rename_i l ls c u rest
    rw [Pattern.lexemesFrom, head.lexeme_eq]
    simp only [spelling, List.length_cons, Nat.add_sub_cancel, lexemesFrom_append, ih, placed,
      Nat.add_assoc, Nat.add_comm 1]

/-- Behind whole lexemes, an escape mark that escapes nothing is what a text is refused for. -/
theorem Spells.lexemesFrom_error {ls : List Lexeme} {u v : List CodePoint} {cause : FormatCause}
    (h : Spells ls u) (hbad : BadEscape v cause) (position : Nat) :
    Pattern.lexemesFrom position 0 (u ++ .char '$' :: v) =
      .error ⟨cause, position + u.length⟩ := by
  have happart : Apart (.char '$') := by decide
  induction h generalizing position with
  | nil =>
    rw [List.nil_append, Pattern.lexemesFrom, lexeme_eq_error_iff.2 ⟨rfl, hbad⟩]
    rfl
  | cons head spelling tail ih =>
    rename_i l ls c u rest
    have hhead := (head.append (happart.detached v)).lexeme_eq
    rw [List.append_assoc] at hhead
    have hlen : position + 1 + u.length + rest.length = position + (c :: (u ++ rest)).length := by
      rw [List.length_cons, List.length_append]
      omega
    rw [List.cons_append, Pattern.lexemesFrom, List.append_assoc, hhead]
    simp only [spelling, List.length_cons, Nat.add_sub_cancel, lexemesFrom_append, ih, hlen]

/-- A text is spelled by lexemes, up to the first escape mark that escapes nothing if there is
one. -/
theorem exists_spells_or (text : List CodePoint) :
    (∃ ls, Spells ls text) ∨
      ∃ ls u v cause, Spells ls u ∧ text = u ++ .char '$' :: v ∧ BadEscape v cause := by
  -- The induction is on the length, since a lexeme may cover several code points.
  induction hn : text.length using Nat.strongRecOn generalizing text with
  | ind n ih =>
    cases text with
    | nil => exact .inl ⟨[], .nil⟩
    | cons c cs =>
      cases hl : lexeme c cs with
      | error cause =>
        obtain ⟨rfl, hbad⟩ := lexeme_eq_error_iff.1 hl
        exact .inr ⟨[], [], cs, cause, .nil, rfl, hbad⟩
      | ok l =>
        have hreads := lexeme_reads hl
        obtain ⟨w, rest, hspelling, rfl⟩ := hreads.spelling
        have hlt : rest.length < n := by
          rw [← hn, List.length_cons, List.length_append]
          omega
        rcases ih rest.length hlt rest rfl with ⟨ls, hls⟩ | ⟨ls, u, v, cause, hls, rfl, hbad⟩
        · exact .inl ⟨l :: ls, .cons hreads hspelling hls⟩
        · rw [← List.append_assoc] at hreads
          have hhead := hreads.of_append hspelling
          refine .inr ⟨l :: ls, c :: (w ++ u), v, cause, .cons hhead hspelling hls, ?_, hbad⟩
          rw [List.cons_append, List.append_assoc]

theorem lexemesFrom_spells {position : Nat} {text : List CodePoint} {ps : List Placed}
    (h : Pattern.lexemesFrom position 0 text = .ok ps) :
    ∃ ls, Spells ls text ∧ ps = placed position ls := by
  rcases exists_spells_or text with ⟨ls, hls⟩ | ⟨ls, u, v, cause, hls, rfl, hbad⟩
  · rw [hls.lexemesFrom] at h
    exact ⟨ls, hls, (Except.ok.inj h).symm⟩
  · rw [hls.lexemesFrom_error hbad] at h
    cases h

theorem lexemesFrom_error_spells {position : Nat} {text : List CodePoint} {e : FormatError}
    (h : Pattern.lexemesFrom position 0 text = .error e) :
    ∃ ls u v, Spells ls u ∧ text = u ++ .char '$' :: v ∧ BadEscape v e.cause ∧
      e.position = position + u.length := by
  rcases exists_spells_or text with ⟨ls, hls⟩ | ⟨ls, u, v, cause, hls, rfl, hbad⟩
  · rw [hls.lexemesFrom] at h
    cases h
  · rw [hls.lexemesFrom_error hbad] at h
    cases h
    exact ⟨ls, u, v, hls, rfl, hbad, rfl⟩

/-- What is read at the head of a text is its first lexeme, and the others spell what is left. -/
theorem Reads.spells_iff {c : CodePoint} {u rest : List CodePoint} {l : Lexeme} {ks : List Lexeme}
    (h : Reads c (u ++ rest) l) (hs : l.spelling = c :: u) :
    Spells ks (c :: (u ++ rest)) ↔ ∃ ms, ks = l :: ms ∧ Spells ms rest := by
  constructor
  · intro hks
    generalize htext : c :: (u ++ rest) = text at hks
    cases hks with
    | nil => cases htext
    | cons head spelling tail =>
      obtain ⟨rfl, hahead⟩ := List.cons.inj htext
      rw [← hahead] at head
      obtain rfl := Except.ok.inj (h.lexeme_eq.symm.trans head.lexeme_eq)
      obtain ⟨-, rfl⟩ := List.cons.inj (hs.symm.trans spelling)
      exact ⟨_, rfl, List.append_cancel_left hahead ▸ tail⟩
  · rintro ⟨ms, rfl, hms⟩
    exact .cons h hs hms

/-- What is made in two steps is made in one. -/
theorem exists_eq_comp {α β γ : Type} {f : β → γ} {g : α → β} {p : α → Prop} {c : γ} :
    (∃ b, c = f b ∧ ∃ a, b = g a ∧ p a) ↔ ∃ a, c = f (g a) ∧ p a := by
  constructor
  · rintro ⟨_, rfl, a, rfl, ha⟩
    exact ⟨a, rfl, ha⟩
  · rintro ⟨a, rfl, ha⟩
    exact ⟨_, rfl, a, rfl, ha⟩

/-- What a text is spelled by, and what no lexeme of it looks for behind it, spell both together. -/
theorem Spells.append_iff {ls ks : List Lexeme} {x z : List CodePoint} (hx : Spells ls x)
    (hdetached : Detached z) : Spells ks (x ++ z) ↔ ∃ ms, ks = ls ++ ms ∧ Spells ms z := by
  induction hx generalizing ks with
  | nil => simp
  | cons head spelling tail ih =>
    have hhead := head.append hdetached
    rw [List.append_assoc] at hhead
    rw [List.cons_append, List.append_assoc, hhead.spells_iff spelling]
    simp only [ih]
    exact exists_eq_comp

/-- A text keeps its lexemes when something is added behind it that no lexeme looks for. -/
theorem Spells.append {ls ms : List Lexeme} {x z : List CodePoint} (hx : Spells ls x)
    (hdetached : Detached z) (hz : Spells ms z) : Spells (ls ++ ms) (x ++ z) :=
  (hx.append_iff hdetached).2 ⟨ms, rfl, hz⟩

/-- A symbol of one character in front of a text. -/
theorem Spells.symbol {ls : List Lexeme} {z : List CodePoint} {s : Symbol} {c : Char}
    (hc : s.spelling = [c]) (hs : Reads (.char c) z (.symbol s)) (hz : Spells ls z) :
    Spells (.symbol s :: ls) (.char c :: z) := by
  refine .cons (u := []) hs ?_ hz
  rw [Lexeme.spelling, hc]
  rfl

/-! ### Tokens -/

/-- Puts a code point in front of some tokens, into their first literal if they start with one. -/
def prependKind (c : CodePoint) : List TokenKind → List TokenKind
  | .literal text :: rest => .literal (c :: text) :: rest
  | rest => .literal [c] :: rest

/-- The tokens that lexemes make up, without their positions. -/
def kinds : List Lexeme → List TokenKind
  | [] => []
  | .symbol s :: rest => .symbol s :: kinds rest
  | .plain c :: rest => prependKind c (kinds rest)
  | .escaped c :: rest => prependKind c (kinds rest)

/-- What holds of every text and its tokens, by the lexeme at the head of the text: a code point that is
escaped or plain goes in front of the tokens of the rest, a symbol is a token of its own. -/
theorem Spells.kinds_induction {motive : List CodePoint → List TokenKind → Prop}
    (nil : motive [] [])
    (escaped : ∀ e cs ks, motive cs ks → motive (.char '$' :: e :: cs) (prependKind e ks))
    (plain : ∀ c cs ks, isEscapable c = false → motive cs ks →
      motive (c :: cs) (prependKind c ks))
    (symbol : ∀ s cs ks, motive cs ks → motive (pointsOf s.spelling ++ cs) (.symbol s :: ks))
    {ls : List Lexeme} {text : List CodePoint} (h : Spells ls text) : motive text (kinds ls) := by
  induction h with
  | nil => exact nil
  | cons head spelling tail ih =>
    rename_i l ls c u rest
    have htext : c :: (u ++ rest) = l.spelling ++ rest := by rw [spelling, List.cons_append]
    rw [htext]
    cases l with
    | escaped e => exact escaped e rest _ ih
    | plain d => exact plain d rest _ head.isEscapable_eq_false ih
    | symbol s => exact symbol s rest _ ih

theorem map_kind_prepend (c : CodePoint) (position : Nat) (ts : List Token) :
    (prepend c position ts).map Token.kind = prependKind c (ts.map Token.kind) := by
  fun_cases prepend c position ts with
  | case1 text position' rest => rfl
  | case2 =>
    rename_i hno
    cases ts with
    | nil => rfl
    | cons t ts =>
      obtain ⟨kind, position'⟩ := t
      cases kind with
      | literal text => exact absurd rfl (hno text position' ts)
      | symbol s => rfl

theorem map_kind_gather (ps : List Placed) :
    (gather ps).map Token.kind = kinds (ps.map Placed.lexeme) := by
  induction ps with
  | nil => rfl
  | cons p ps ih =>
    obtain ⟨lexeme, position⟩ := p
    cases lexeme with
    | symbol s => rw [gather, List.map_cons, ih, List.map_cons, kinds]
    | plain c => rw [gather, map_kind_prepend, ih, List.map_cons, kinds]
    | escaped c => rw [gather, map_kind_prepend, ih, List.map_cons, kinds]

/-- The tokens of a text are those of the lexemes that spell it, where these stand. -/
theorem tokenize_eq_ok_iff_spells {text : List CodePoint} {ts : List Token} :
    tokenize text = .ok ts ↔ ∃ ls, Spells ls text ∧ ts = gather (placed 0 ls) := by
  constructor
  · intro h
    unfold tokenize at h
    cases hps : lexemes text with
    | error e =>
      rw [hps] at h
      cases h
    | ok ps =>
      rw [hps] at h
      obtain ⟨ls, hls, rfl⟩ := lexemesFrom_spells hps
      exact ⟨ls, hls, (Except.ok.inj h).symm⟩
  · rintro ⟨ls, hls, rfl⟩
    rw [tokenize, lexemes, hls.lexemesFrom]
    rfl

/-- A text is refused for its first escape mark that escapes nothing. -/
theorem tokenize_eq_error_iff_spells {text : List CodePoint} {e : FormatError} :
    tokenize text = .error e ↔
      ∃ ls u v, Spells ls u ∧ text = u ++ .char '$' :: v ∧ BadEscape v e.cause ∧
        e.position = u.length := by
  constructor
  · intro h
    unfold tokenize at h
    cases hps : lexemes text with
    | ok ps =>
      rw [hps] at h
      cases h
    | error e' =>
      rw [hps] at h
      obtain rfl := Except.error.inj h
      obtain ⟨ls, u, v, hls, htext, hbad, hposition⟩ := lexemesFrom_error_spells hps
      rw [Nat.zero_add] at hposition
      exact ⟨ls, u, v, hls, htext, hbad, hposition⟩
  · rintro ⟨ls, u, v, hls, rfl, hbad, hposition⟩
    rw [tokenize, lexemes, hls.lexemesFrom_error hbad, Nat.zero_add, ← hposition]
    rfl

theorem tokenize_spells {text : List CodePoint} {ts : List Token} (h : tokenize text = .ok ts) :
    ∃ ls, Spells ls text ∧ ts.map Token.kind = kinds ls := by
  obtain ⟨ls, hls, rfl⟩ := tokenize_eq_ok_iff_spells.1 h
  exact ⟨ls, hls, by rw [map_kind_gather, map_lexeme_placed]⟩

theorem Spells.tokenize {ls : List Lexeme} {text : List CodePoint} (h : Spells ls text) :
    ∃ ts, tokenize text = .ok ts ∧ ts.map Token.kind = kinds ls :=
  ⟨_, tokenize_eq_ok_iff_spells.2 ⟨ls, h, rfl⟩, by rw [map_kind_gather, map_lexeme_placed]⟩

/-- A symbol between lexemes is a token between their tokens. -/
theorem kinds_symbol (ls ms : List Lexeme) (s : Symbol) :
    kinds (ls ++ .symbol s :: ms) = kinds ls ++ .symbol s :: kinds ms := by
  have hprepend : ∀ c ks ks', prependKind c (ks ++ .symbol s :: ks') =
      prependKind c ks ++ .symbol s :: ks' := by
    intro c ks ks'
    cases ks with
    | nil => rfl
    | cons k ks => cases k <;> rfl
  induction ls with
  | nil => rfl
  | cons l ls ih => cases l <;> simp only [List.cons_append, kinds, ih, hprepend]

end PathSieve.Pattern
