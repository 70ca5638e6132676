import Mathlib.Data.List.Forall2
import PathSieve.Proofs.Pattern.Lexing

namespace PathSieve.Pattern

open Text (CodePoint pointsOf)

/-!
# Texts that are read alike

When code points are told apart by a key only, such as their case folds, texts with the same keys
need not be the same. They are still cut into the same lexemes, as long as the key does not mix up
the signs of the pattern language with each other or with anything else. Separators may stand for
each other.

* `KeepsSigns` — keys of this kind.
* `Lexeme.Alike`, `TokenKind.Alike` — lexemes and tokens that differ in literals and separators only.
* `Reads.exists_alike`, `Spells.exists_alike` — texts with the same keys have lexemes that are alike.
* `kinds_alike`, `peak_alike` — so are their tokens, and these open as many groups.
-/

/-! ### Keys -/

/-- The characters other than separators that have a meaning in pattern text. -/
def signs : List Char := ['*', '?', '$', '&', '|', '(', ')', '!']

/-- A key that tells each sign from every other code point, and separators from what is none. -/
structure KeepsSigns {κ : Type} (key : CodePoint → κ) : Prop where
  separator : ∀ {c d : CodePoint}, key c = key d → isSeparator d → isSeparator c
  sign : ∀ {c : CodePoint} {s : Char}, s ∈ signs → key c = key (.char s) → c = .char s

theorem exists_separator {c : CodePoint} (h : isSeparator c) :
    ∃ s : Separator, c = .char s.char := by
  rw [← Separator.ofPoint?_isSome, Option.isSome_iff_exists] at h
  obtain ⟨s, hs⟩ := h
  exact ⟨s, Separator.ofPoint?_eq_some_iff.1 hs⟩

theorem isEscapable_of_isSeparator {c : CodePoint} (h : isSeparator c) : isEscapable c := by
  obtain ⟨s, rfl⟩ := exists_separator h
  cases s <;> decide

section Keys

variable {κ : Type} {key : CodePoint → κ}

namespace KeepsSigns

theorem isSeparator_eq (hkey : KeepsSigns key) {c d : CodePoint} (h : key c = key d) :
    isSeparator c = isSeparator d := by
  rw [Bool.eq_iff_iff]
  exact ⟨hkey.separator h.symm, hkey.separator h⟩

theorem isEscapable_imp (hkey : KeepsSigns key) {c d : CodePoint} (h : key c = key d)
    (hd : isEscapable d) : isEscapable c := by
  by_cases hsep : isSeparator d
  · exact isEscapable_of_isSeparator (hkey.separator h hsep)
  · -- What can be escaped and is no separator is a sign, and has its key for itself.
    have hsign : ∃ s ∈ signs, d = .char s := by
      simp [isEscapable, pointsOf, isSeparator, signs] at hd hsep ⊢
      tauto
    obtain ⟨s, hs, rfl⟩ := hsign
    rw [hkey.sign hs h]
    exact hd

theorem isEscapable_eq (hkey : KeepsSigns key) {c d : CodePoint} (h : key c = key d) :
    isEscapable c = isEscapable d := by
  rw [Bool.eq_iff_iff]
  exact ⟨hkey.isEscapable_imp h.symm, hkey.isEscapable_imp h⟩

/-- A text with the same keys as one that begins with a sign begins with that sign. -/
theorem head?_eq (hkey : KeepsSigns key) {x y : List CodePoint} (h : x.map key = y.map key)
    {s : Char} (hs : s ∈ signs) (hy : y.head? = some (.char s)) : x.head? = some (.char s) := by
  obtain ⟨rest, rfl⟩ := List.head?_eq_some_iff.1 hy
  obtain ⟨c, cs, rfl, hc, -⟩ := List.map_eq_cons_iff.1 h
  rw [hkey.sign hs hc]
  rfl

/-- A text with the same keys as one that begins with `*` and a separator begins so, too. -/
theorem star_separator (hkey : KeepsSigns key) {x y : List CodePoint}
    (h : x.map key = y.map key) {s : Separator} (hy : [.char '*', .char s.char] <+: y) :
    ∃ (t : Separator) (rest : List CodePoint), x = .char '*' :: .char t.char :: rest := by
  obtain ⟨rest, rfl⟩ := hy
  obtain ⟨c, cs, rfl, hc, hcs⟩ := List.map_eq_cons_iff.1 h
  obtain ⟨d, ds, rfl, hd, -⟩ := List.map_eq_cons_iff.1 hcs
  obtain rfl := hkey.sign (by decide) hc
  obtain ⟨t, rfl⟩ := exists_separator (hkey.separator hd s.isSeparator_char)
  exact ⟨t, ds, rfl⟩

end KeepsSigns

/-! ### Lexemes -/

/-- Symbols that are the same but for the separator in them. -/
inductive Symbol.Alike : Symbol → Symbol → Prop where
  | same (s : Symbol) : Alike s s
  | split (s t : Separator) : Alike (.split s) (.split t)
  | anyPath (s t : Separator) : Alike (.anyPath s) (.anyPath t)

/-- Lexemes that are the same but for the separator of a symbol and for code points with the same
key. -/
inductive Lexeme.Alike (key : CodePoint → κ) : Lexeme → Lexeme → Prop where
  | plain {c d : CodePoint} : key c = key d → Alike key (.plain c) (.plain d)
  | escaped {c d : CodePoint} : key c = key d → Alike key (.escaped c) (.escaped d)
  | symbol {s t : Symbol} : s.Alike t → Alike key (.symbol s) (.symbol t)

theorem Symbol.Alike.length_spelling {s t : Symbol} (h : s.Alike t) :
    s.spelling.length = t.spelling.length := by
  cases h <;> rfl

theorem Lexeme.Alike.length_spelling {l m : Lexeme} (h : l.Alike key m) :
    l.spelling.length = m.spelling.length := by
  cases h with
  | symbol h => simp [Lexeme.spelling, pointsOf, h.length_spelling]
  | _ => rfl

/-- The same is read at the heads of texts with the same keys. -/
theorem Reads.exists_alike (hkey : KeepsSigns key) {c d : CodePoint}
    {ahead other : List CodePoint} {l : Lexeme} (h : Reads c ahead l) (hd : key d = key c)
    (hother : other.map key = ahead.map key) : ∃ m, Reads d other m ∧ m.Alike key l := by
  cases h with
  | escaped he =>
    obtain rfl := hkey.sign (by decide) hd
    obtain ⟨e, rest, rfl, hkeys, -⟩ := List.map_eq_cons_iff.1 hother
    exact ⟨.escaped e, .escaped (hkey.isEscapable_imp hkeys he), .escaped hkeys⟩
  | anyPath =>
    rename_i s rest
    obtain rfl := hkey.sign (by decide) hd
    obtain ⟨t, rest', rfl⟩ := hkey.star_separator hother ⟨rest, rfl⟩
    exact ⟨.symbol (.anyPath t), .anyPath, .symbol (.anyPath t s)⟩
  | anyChars hno =>
    obtain rfl := hkey.sign (by decide) hd
    refine ⟨.symbol .anyChars, .anyChars fun t ht => ?_, .symbol (.same _)⟩
    obtain ⟨s, rest, rfl⟩ := hkey.star_separator hother.symm ht
    exact hno s ⟨rest, rfl⟩
  | openInverse =>
    obtain rfl := hkey.sign (by decide) hd
    obtain ⟨rest, rfl⟩ :=
      List.head?_eq_some_iff.1 (hkey.head?_eq hother (s := '!') (by decide) rfl)
    exact ⟨.symbol .openInverse, .openInverse, .symbol (.same _)⟩
  | openGroup hno =>
    obtain rfl := hkey.sign (by decide) hd
    refine ⟨.symbol .openGroup, .openGroup fun hhead => ?_, .symbol (.same _)⟩
    exact hno (hkey.head?_eq hother.symm (by decide) hhead)
  | single hs hchars hgroup =>
    rename_i s c
    cases s with
    | split s =>
      -- The one symbol whose character may be another one is the separator.
      have hsep : isSeparator d := by
        have hc : isSeparator (.char c) := by
          cases s <;> cases hs <;> rfl
        exact hkey.separator hd hc
      obtain ⟨t, rfl⟩ := exists_separator hsep
      exact ⟨.symbol (.split t), .single rfl (by simp) (by simp), .symbol (.split t s)⟩
    | anyChars => exact absurd rfl hchars
    | openGroup => exact absurd rfl hgroup
    | anyPath s => cases hs
    | openInverse => cases hs
    | _ =>
      cases hs
      obtain rfl := hkey.sign (by decide) hd
      exact ⟨_, .single rfl hchars hgroup, .symbol (.same _)⟩
  | plain hc =>
    rw [← hkey.isEscapable_eq hd] at hc
    exact ⟨.plain d, .plain hc, .plain hd⟩

/-- **Texts with the same keys are read alike.** The lexemes that spell one of them have lexemes
alike that spell the other. -/
theorem Spells.exists_alike (hkey : KeepsSigns key) {ls : List Lexeme} {x y : List CodePoint}
    (hx : Spells ls x) (h : y.map key = x.map key) :
    ∃ ms, Spells ms y ∧ List.Forall₂ (Lexeme.Alike key) ms ls := by
  induction hx generalizing y with
  | nil =>
    obtain rfl := List.map_eq_nil_iff.1 h
    exact ⟨[], .nil, .nil⟩
  | cons head spelling tail ih =>
    rename_i l ls c u rest
    obtain ⟨d, other, rfl, hd, hother⟩ := List.map_eq_cons_iff.1 h
    obtain ⟨m, hm, halike⟩ := head.exists_alike hkey hd hother
    obtain ⟨v, rest', hv, rfl⟩ := hm.spelling
    -- Both lexemes cover as many code points, so what is left has the same keys again.
    have hlen : v.length = u.length := by
      have hspelling := halike.length_spelling
      rw [hv, spelling] at hspelling
      simpa using hspelling
    rw [List.map_append, List.map_append] at hother
    have hrest := (List.append_inj hother (by simp [hlen])).2
    obtain ⟨ms, hms, hall⟩ := ih hrest
    exact ⟨m :: ms, .cons hm hv hms, .cons halike hall⟩

/-! ### Tokens -/

/-- Tokens that are the same but for the separator of a symbol and for literals that `lit`
relates. -/
inductive TokenKind.Alike (lit : List CodePoint → List CodePoint → Prop) :
    TokenKind → TokenKind → Prop where
  | literal {t u : List CodePoint} : lit t u → Alike lit (.literal t) (.literal u)
  | symbol {s t : Symbol} : s.Alike t → Alike lit (.symbol s) (.symbol t)

/-- Literals with the same keys. -/
def SameKeys (key : CodePoint → κ) (t u : List CodePoint) : Prop := t.map key = u.map key

theorem prependKind_alike {c d : CodePoint} (h : key c = key d) {ks ls : List TokenKind}
    (hall : List.Forall₂ (TokenKind.Alike (SameKeys key)) ks ls) :
    List.Forall₂ (TokenKind.Alike (SameKeys key)) (prependKind c ks) (prependKind d ls) := by
  have hsingle : SameKeys key [c] [d] := by simp [SameKeys, h]
  cases hall with
  | nil => exact .cons (.literal hsingle) .nil
  | cons hhead htail =>
    cases hhead with
    | literal htu =>
      refine .cons (.literal ?_) htail
      rw [SameKeys, List.map_cons, List.map_cons, h, htu]
    | symbol hst => exact .cons (.literal hsingle) (.cons (.symbol hst) htail)

/-- Lexemes that are alike make up tokens that are alike. -/
theorem kinds_alike {ms ls : List Lexeme} (h : List.Forall₂ (Lexeme.Alike key) ms ls) :
    List.Forall₂ (TokenKind.Alike (SameKeys key)) (kinds ms) (kinds ls) := by
  induction h with
  | nil => exact .nil
  | cons head tail ih =>
    cases head with
    | plain hc => exact prependKind_alike hc ih
    | escaped hc => exact prependKind_alike hc ih
    | symbol hs => exact .cons (.symbol hs) ih

end Keys

section Tokens

variable {lit : List CodePoint → List CodePoint → Prop}

theorem TokenKind.Alike.openAfter_eq {k l : TokenKind} (h : k.Alike lit l) (now : Nat) :
    openAfter now k = openAfter now l := by
  cases h with
  | literal => rfl
  | symbol hs => cases hs <;> rfl

/-- Literals that are alike stay so when more is known of those on one side. -/
theorem alike_of_literals {q : List CodePoint → Prop} {ks ls : List TokenKind}
    (h : List.Forall₂ (TokenKind.Alike lit) ks ls) (hq : ∀ u, .literal u ∈ ls → q u) :
    List.Forall₂ (TokenKind.Alike fun t u => q u ∧ lit t u) ks ls := by
  induction h with
  | nil => exact .nil
  | cons head tail ih =>
    have htail := ih fun u hu => hq u (List.mem_cons_of_mem _ hu)
    cases head with
    | literal htu => exact .cons (.literal ⟨hq _ (List.mem_cons_self ..), htu⟩) htail
    | symbol hs => exact .cons (.symbol hs) htail

/-- Tokens that are alike open as many groups. -/
theorem peak_alike {ks ls : List TokenKind} (h : List.Forall₂ (TokenKind.Alike lit) ks ls)
    (now : Nat) : peak now ks = peak now ls := by
  induction h generalizing now with
  | nil => rfl
  | cons head tail ih => rw [peak, peak, head.openAfter_eq, ih]

end Tokens

end PathSieve.Pattern
