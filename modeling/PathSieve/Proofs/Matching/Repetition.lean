import Mathlib.Algebra.Group.Idempotent
import PathSieve.Proofs.Matching.Meaning
import PathSieve.Proofs.Matching.Segments

namespace PathSieve.Pattern

open Text (CodePoint pointsOf)

/-!
# Repeated wildcards

A wildcard that is written several times in a row accepts what it accepts once, wherever the
wildcards stand in a pattern.

* `Draft.reading_run_replicate`, `outcome_repeated` — a leaf that is read several times.
* `isIdempotentElem_anyPath`, `isIdempotentElem_anyChars` — the wildcards.
* `Recurs` — a symbol that is read as often as it is written.
* `AmountsTo` — a text for which a shorter one may be written.
* `matchPath_repeated` — verdicts of texts with repeated wildcards.
-/

/-! ### Repeated leaves -/

section Leaves

variable {l : Leaf}

theorem Draft.reading_addLeaf_addLeaf (h : IsIdempotentElem (Term.leaf l).meaning) (d : Draft) :
    ((d.addLeaf l).addLeaf l).reading = (d.addLeaf l).reading := by
  refine Prod.ext ?_ rfl
  show ((d.level.addTerm (.leaf l)).addTerm (.leaf l)).reading =
    (d.level.addTerm (.leaf l)).reading
  rw [Part.reading_addTerm, Part.reading_addTerm, Option.elim_some]
  cases d.level.reading.current with
  | none => rw [Option.elim_none, h.eq]
  | some m => rw [Option.elim_some, mul_assoc, h.eq]

/-- A leaf that is read several times means what it does once, if it is idempotent. -/
theorem Draft.reading_run_replicate (h : IsIdempotentElem (Term.leaf l).meaning) (d : Draft)
    (n : Nat) :
    (d.run (List.replicate (n + 1) l.token)).map reading = some (d.addLeaf l).reading := by
  induction n generalizing d with
  | zero =>
    rw [List.replicate_one, run_cons, step_leaf]
    rfl
  | succ n ih =>
    rw [List.replicate_succ, run_cons, step_leaf, Option.bind_some, ih,
      reading_addLeaf_addLeaf h]

theorem outcome_repeated (h : IsIdempotentElem (Term.leaf l).meaning)
    (ks ms : List TokenKind) (n : Nat) :
    outcome (ks ++ (List.replicate (n + 1) l.token ++ ms)) = outcome (ks ++ l.token :: ms) := by
  rw [outcome, outcome, Draft.run_append, Draft.run_append, Option.bind_assoc, Option.bind_assoc]
  refine map_bind_congr (f := id) rfl fun d d' hd => ?_
  obtain rfl : d = d' := hd
  rw [Draft.run_append, Draft.run_cons, Draft.step_leaf, Option.bind_assoc, Option.bind_assoc]
  -- Behind the repeated leaf, both drafts mean the same.
  have hleaf := Draft.reading_run_replicate h d n
  exact map_bind_congr hleaf fun _ _ hnext =>
    map_bind_congr (Draft.run_congr hnext ms) fun _ _ hrun => Draft.finish_congr hrun

end Leaves

/-! ### Idempotent leaves -/

theorem isIdempotentElem_language {l : Language CodePoint} (hnil : [] ∈ l)
    (happend : ∀ u ∈ l, ∀ v ∈ l, u ++ v ∈ l) : IsIdempotentElem l := by
  ext w
  constructor
  · rintro ⟨u, hu, v, hv, rfl⟩
    exact happend u hu v hv
  · intro hw
    exact ⟨w, hw, [], hnil, List.append_nil w⟩

theorem isIdempotentElem_separatorFree : IsIdempotentElem separatorFree :=
  isIdempotentElem_language nofun fun _ hu _ hv => append_mem_separatorFree hu hv

theorem isIdempotentElem_wholeSegments : IsIdempotentElem wholeSegments := by
  refine isIdempotentElem_language (.inl rfl) fun u hu v hv => ?_
  obtain rfl | ⟨v, c, rfl, hc⟩ := hv
  · rwa [List.append_nil]
  · exact .inr ⟨u ++ v, c, (List.append_assoc ..).symm, hc⟩

/-- A leaf is idempotent if what it accepts is. -/
theorem isIdempotentElem_leaf {l : Leaf} {m : Language CodePoint} (hm : IsIdempotentElem m)
    (h : ∀ caseSensitive, Tree.concat caseSensitive l.trees = m) :
    IsIdempotentElem (Term.leaf l).meaning := by
  refine Meaning.ext (funext fun caseSensitive => ?_) (Bool.or_self _)
  show Tree.concat caseSensitive l.trees * Tree.concat caseSensitive l.trees =
    Tree.concat caseSensitive l.trees
  rw [h, hm.eq]

theorem isIdempotentElem_anyPath (s : Separator) :
    IsIdempotentElem (Term.leaf (.anyPath s)).meaning := by
  refine isIdempotentElem_leaf isIdempotentElem_wholeSegments fun caseSensitive => ?_
  rw [Leaf.trees, Tree.concat, Tree.concat, mul_one]

theorem isIdempotentElem_anyChars : IsIdempotentElem (Term.leaf .anyChars).meaning := by
  refine isIdempotentElem_leaf isIdempotentElem_separatorFree fun caseSensitive => ?_
  rw [Leaf.trees, Tree.concat_singleton (by simp), Tree.language]

/-! ### Repeated symbols -/

/-- A symbol several times in front of a text. -/
def repeated (s : Symbol) (n : Nat) (y : List CodePoint) : List CodePoint :=
  (List.replicate n (pointsOf s.spelling)).flatten ++ y

theorem repeated_succ (s : Symbol) (n : Nat) (y : List CodePoint) :
    repeated s (n + 1) y = pointsOf s.spelling ++ repeated s n y := by
  rw [repeated, List.replicate_succ, List.flatten_cons, List.append_assoc, repeated]

/-- A symbol is read as often as it is written in front of a text, whatever is in front of it. -/
structure Recurs (s : Symbol) (y : List CodePoint) : Prop where
  detached : ∀ n, Detached (repeated s (n + 1) y)
  spells : ∀ n ls, Spells ls (repeated s (n + 1) y) ↔
    ∃ ms, ls = .symbol s :: ms ∧ Spells ms (repeated s n y)

/-- Nothing looks for two stars. -/
theorem detached_stars (z : List CodePoint) : Detached (.char '*' :: .char '*' :: z) where
  mark := by simp
  separator s := by cases s <;> simp [Separator.char]
  pathway s := by cases s <;> simp [Separator.char]

theorem recurs_anyPath (s : Separator) (y : List CodePoint) : Recurs (.anyPath s) y where
  detached n := by
    rw [repeated_succ]
    exact detached_stars _
  spells n ls := by
    rw [repeated_succ]
    exact Reads.spells_iff (u := [.char '*', .char s.char]) .anyPath rfl

theorem recurs_anyChars {y : List CodePoint}
    (hy : ∀ c ∈ y.head?, c ≠ .char '*' ∧ isSeparator c = false) : Recurs .anyChars y := by
  -- Behind a star, there is another one or what the text begins with.
  have hhead : ∀ n (s : Separator), (repeated .anyChars n y).head? ≠ some (.char s.char) := by
    intro n s hs
    cases n with
    | zero => exact absurd (hy _ hs).2 (by simp)
    | succ n => cases s <;> cases hs
  have hpathway : ∀ n (s : Separator), ¬ [.char '*', .char s.char] <+: repeated .anyChars n y := by
    rintro n s ⟨rest, hrest⟩
    cases n with
    | zero =>
      have hy' : y = .char '*' :: .char s.char :: rest := hrest.symm
      exact (hy (.char '*') (by simp [hy'])).1 rfl
    | succ n =>
      have hahead : .char s.char :: rest = repeated .anyChars n y := List.tail_eq_of_cons_eq hrest
      exact hhead n s (by rw [← hahead, List.head?_cons])
  refine ⟨fun n => ⟨by simp [repeated_succ, pointsOf, Symbol.spelling], hhead (n + 1),
    hpathway (n + 1)⟩, fun n ls => ?_⟩
  rw [repeated_succ]
  exact Reads.spells_iff (u := []) (.anyChars (hpathway n)) rfl

section Texts

variable {x y : List CodePoint} {ls ks : List Lexeme} {s : Symbol}

theorem Spells.repeated_iff (hs : Recurs s y) (n : Nat) :
    Spells ks (repeated s n y) ↔
      ∃ ms, ks = List.replicate n (.symbol s) ++ ms ∧ Spells ms y := by
  induction n generalizing ks with
  | zero => simp [repeated]
  | succ n ih =>
    rw [hs.spells]
    simp only [ih]
    exact exists_eq_comp

/-- Between two texts, a symbol is read as often as it is written. -/
theorem Spells.append_repeated_iff (hx : Spells ls x) (hs : Recurs s y) (n : Nat) :
    Spells ks (x ++ repeated s (n + 1) y) ↔
      ∃ ms, ks = ls ++ (List.replicate (n + 1) (.symbol s) ++ ms) ∧ Spells ms y := by
  rw [hx.append_iff (hs.detached n)]
  simp only [Spells.repeated_iff hs]
  exact exists_eq_comp

theorem kinds_replicate (ls ms : List Lexeme) (s : Symbol) (n : Nat) :
    kinds (ls ++ (List.replicate (n + 1) (.symbol s) ++ ms)) =
      kinds ls ++ (List.replicate (n + 1) (.symbol s) ++ kinds ms) := by
  have hrest : ∀ n, kinds (List.replicate n (.symbol s) ++ ms) =
      List.replicate n (.symbol s) ++ kinds ms := by
    intro n
    induction n with
    | zero => rfl
    | succ n ih =>
      rw [List.replicate_succ, List.cons_append, kinds, ih]
      rfl
  rw [List.replicate_succ, List.cons_append, kinds_symbol, hrest]
  rfl

end Texts

/-! ### Verdicts -/

/-- A text compiles if a shorter one does and it is not too long, and it has the verdicts of that
one. -/
def AmountsTo (long short : List CodePoint) : Prop :=
  ((∃ a, compile long = .ok a) ↔ long.length ≤ maxLength ∧ ∃ b, compile short = .ok b) ∧
    ∀ a b, compile long = .ok a → compile short = .ok b →
      ∀ path flags, a.matchPath path flags = b.matchPath path flags

/-- An idempotent symbol that is read as often as it is written may as well be written once. -/
theorem Recurs.amountsTo {x y : List CodePoint} {ls : List Lexeme} {s : Symbol} {l : Leaf}
    (hs : Recurs s y) (hx : Spells ls x) (hl : l.token = .symbol s)
    (hidem : IsIdempotentElem (Term.leaf l).meaning) (n : Nat) :
    AmountsTo (x ++ repeated s (n + 1) y) (x ++ repeated s 1 y) := by
  have houtcome : ∀ ms m, outcome (kinds (ls ++ (List.replicate (m + 1) (.symbol s) ++ ms))) =
      outcome (kinds ls ++ l.token :: kinds ms) := by
    intro ms m
    rw [kinds_replicate, ← hl, outcome_repeated hidem]
  -- If one of both texts has lexemes, then these are the same but for the repeated symbol.
  have hspells : ∀ m c, compile (x ++ repeated s (m + 1) y) = .ok c → ∃ ms, ∀ m,
      Spells (ls ++ (List.replicate (m + 1) (.symbol s) ++ ms)) (x ++ repeated s (m + 1) y) := by
    intro m c hc
    obtain ⟨-, -, ts, -, hts, -⟩ := compile_eq_ok hc
    obtain ⟨ks, hks, -⟩ := tokenize_spells hts
    obtain ⟨ms, -, hms⟩ := (hx.append_repeated_iff hs m).1 hks
    exact ⟨ms, fun m => (hx.append_repeated_iff hs m).2 ⟨ms, rfl, hms⟩⟩
  have hlength : (x ++ repeated s 1 y).length ≤ (x ++ repeated s (n + 1) y).length := by
    have hzero : repeated s 0 y = y := rfl
    have hrest : y.length ≤ (repeated s n y).length := by
      rw [repeated, List.length_append]
      exact Nat.le_add_left ..
    rw [repeated_succ, repeated_succ, hzero]
    simp only [List.length_append]
    omega
  refine ⟨⟨?_, ?_⟩, fun a b ha hb path flags => ?_⟩
  · rintro ⟨a, ha⟩
    obtain ⟨ms, hms⟩ := hspells n a ha
    obtain ⟨hlen, hsome⟩ := (hms n).exists_compile_iff.1 ⟨a, ha⟩
    rw [houtcome, ← houtcome ms 0] at hsome
    exact ⟨hlen, (hms 0).exists_compile_iff.2 ⟨hlength.trans hlen, hsome⟩⟩
  · rintro ⟨hlen, b, hb⟩
    obtain ⟨ms, hms⟩ := hspells 0 b hb
    obtain ⟨-, hsome⟩ := (hms 0).exists_compile_iff.1 ⟨b, hb⟩
    rw [houtcome, ← houtcome ms n] at hsome
    exact (hms n).exists_compile_iff.2 ⟨hlen, hsome⟩
  · obtain ⟨ms, hms⟩ := hspells n a ha
    have hsame := (houtcome ms n).trans (houtcome ms 0).symm
    exact matchPath_of_outcome (hms n) (hms 0) hsame ha hb path flags

/-- **Repeated wildcards are redundant.** Behind a text that has tokens by itself, path wildcards with
a separator may be written several times or once, and so may stars if neither a star nor a separator
follows them: the texts compile alike, and they have the same verdict on every path. -/
theorem matchPath_repeated {x : List CodePoint} {ts : List Token} (hx : tokenize x = .ok ts)
    (y : List CodePoint) {n : Nat} (hn : 0 < n) :
    (∀ s : Separator, AmountsTo (x ++ repeated (.anyPath s) n y)
      (x ++ (pointsOf ['*', '*', s.char] ++ y))) ∧
    ((∀ c ∈ y.head?, c ≠ .char '*' ∧ isSeparator c = false) →
      AmountsTo (x ++ repeated .anyChars n y) (x ++ .char '*' :: y)) := by
  obtain ⟨ls, hls, -⟩ := tokenize_spells hx
  obtain ⟨n, rfl⟩ := Nat.exists_eq_succ_of_ne_zero hn.ne'
  refine ⟨fun s => ?_, fun hy => ?_⟩
  · exact (recurs_anyPath s y).amountsTo hls rfl (isIdempotentElem_anyPath s) n
  · exact (recurs_anyChars hy).amountsTo hls rfl isIdempotentElem_anyChars n

/-- Wildcards in an inverted group, of which the path wildcards stand in the middle of a segment. -/
theorem matchPath_repeated_inverse :
    ∃ a b c d, compile (pointsOf ['(', '!', 'a', '*', '*', '/', '*', '*', '/', 'b', ')']) = .ok a ∧
      compile (pointsOf ['(', '!', 'a', '*', '*', '/', 'b', ')']) = .ok b ∧
      compile (pointsOf ['(', '!', 'a', '*', '*', 'b', ')']) = .ok c ∧
      compile (pointsOf ['(', '!', 'a', '*', 'b', ')']) = .ok d ∧
      ∀ path flags, a.matchPath path flags = b.matchPath path flags ∧
        c.matchPath path flags = d.matchPath path flags := by
  have hx : tokenize (pointsOf ['(', '!', 'a']) =
      .ok [⟨.symbol .openInverse, 0⟩, ⟨.literal [.char 'a'], 2⟩] := rfl
  obtain ⟨hpaths, hchars⟩ := matchPath_repeated hx (pointsOf ['b', ')']) (by decide : 0 < 2)
  have hverdicts := (hpaths .slash).2 _ _ rfl rfl
  have hverdicts' := (hchars (by decide)).2 _ _ rfl rfl
  exact ⟨_, _, _, _, rfl, rfl, rfl, rfl,
    fun path flags => ⟨hverdicts path flags, hverdicts' path flags⟩⟩

end PathSieve.Pattern
