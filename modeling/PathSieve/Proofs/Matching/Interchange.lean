import PathSieve.Proofs.Matching.Likeness

namespace PathSieve.Pattern

open Text (CodePoint pointsOf)

/-!
# Interchangeable code points

Some code points stand for each other in pattern texts and in paths. Both separators mean the same:
each one that is not escaped may be exchanged for the other, on its own. Where case does not matter,
so may code points with the same fold.

* `escapesSeparator` — a text that takes a separator literally.
* `exchanged` — a text with some of its separators exchanged.
* `matchPath_exchanged` — it does not matter which separators are written.
* `matchPath_folded` — without regard to case, only folds matter.
-/

/-! ### Escaped separators -/

/-- Whether an escaped separator stands in a text. -/
def escapesSeparator : List CodePoint → Bool
  | [] => false
  | .char '$' :: c :: cs => isSeparator c || escapesSeparator cs
  | _ :: cs => escapesSeparator cs

/-- Whether a token is a literal with a separator. -/
def TokenKind.literalSeparator : TokenKind → Bool
  | .literal text => text.any isSeparator
  | .symbol _ => false

theorem any_literalSeparator_prependKind (c : CodePoint) (ks : List TokenKind) :
    (prependKind c ks).any TokenKind.literalSeparator =
      (isSeparator c || ks.any TokenKind.literalSeparator) := by
  fun_cases prependKind c ks <;> simp [TokenKind.literalSeparator, Bool.or_assoc]

theorem isSeparator_eq_false {c : CodePoint} (h : isEscapable c = false) :
    isSeparator c = false := by
  rw [Bool.eq_false_iff]
  intro hsep
  rw [isEscapable_of_isSeparator hsep] at h
  cases h

theorem escapesSeparator_cons {c : CodePoint} (hc : c ≠ .char '$') (cs : List CodePoint) :
    escapesSeparator (c :: cs) = escapesSeparator cs := by
  rw [escapesSeparator]
  rintro - - rfl -
  exact hc rfl

theorem escapesSeparator_symbol (s : Symbol) (cs : List CodePoint) :
    escapesSeparator (pointsOf s.spelling ++ cs) = escapesSeparator cs := by
  cases s with
  | split s => cases s <;> exact escapesSeparator_cons (by decide) cs
  | anyPath s =>
    cases s <;> simp [pointsOf, Symbol.spelling, Separator.char, escapesSeparator_cons]
  | _ => simp [pointsOf, Symbol.spelling, escapesSeparator_cons]

/-- The escaped separators of a text are those of its literals. -/
theorem Spells.escapesSeparator_eq {ls : List Lexeme} {text : List CodePoint}
    (h : Spells ls text) :
    escapesSeparator text = (kinds ls).any TokenKind.literalSeparator := by
  refine h.kinds_induction
    (motive := fun text ks => escapesSeparator text = ks.any TokenKind.literalSeparator)
    rfl ?_ ?_ ?_
  · intro e cs ks ih
    rw [escapesSeparator, ih, any_literalSeparator_prependKind]
  · intro c cs ks hc ih
    have hescape : c ≠ .char '$' := (isEscapable_eq_false_iff.1 hc).2.2.1
    rw [escapesSeparator_cons hescape, ih, any_literalSeparator_prependKind,
      isSeparator_eq_false hc, Bool.false_or]
  · intro s cs ks ih
    rw [escapesSeparator_symbol, ih, List.any_cons, TokenKind.literalSeparator, Bool.false_or]

/-- Without escaped separators, all literals of a text stay within a segment. -/
theorem literals_separatorFree {x : List CodePoint} (hx : escapesSeparator x = false) :
    Literals (fun text => text.any isSeparator = false) x := by
  intro ls hls text htext
  rw [hls.escapesSeparator_eq, List.any_eq_false] at hx
  exact Bool.not_eq_true _ ▸ hx _ htext

/-! ### Separators that are not told apart -/

/-- A code point, or one and the same separator in place of both. -/
def unified (c : CodePoint) : CodePoint := if isSeparator c then .char '/' else c

theorem unified_of_isSeparator {c : CodePoint} (h : isSeparator c) : unified c = .char '/' :=
  if_pos h

theorem unified_of_not_isSeparator {c : CodePoint} (h : isSeparator c = false) : unified c = c :=
  if_neg (by simp [h])

theorem isSeparator_unified (c : CodePoint) : isSeparator (unified c) = isSeparator c := by
  by_cases hc : isSeparator c
  · rw [unified_of_isSeparator hc, hc]
    rfl
  · rw [unified_of_not_isSeparator (Bool.not_eq_true _ ▸ hc)]

theorem isSeparator_eq_of_unified {c d : CodePoint} (h : unified c = unified d) :
    isSeparator c = isSeparator d := by
  rw [← isSeparator_unified c, h, isSeparator_unified]

/-- Code points of which one is no separator are told apart. -/
theorem eq_of_unified {c d : CodePoint} (hd : isSeparator d = false) (h : unified c = unified d) :
    c = d := by
  have hc : isSeparator c = false := (isSeparator_eq_of_unified h).trans hd
  rwa [unified_of_not_isSeparator hc, unified_of_not_isSeparator hd] at h

theorem keepsSigns_unified : KeepsSigns unified where
  separator h hd := (isSeparator_eq_of_unified h).trans hd
  sign hs h := by
    have hsigns : signs.all fun s => isSeparator (.char s) = false := by decide
    exact eq_of_unified (of_decide_eq_true (List.all_eq_true.1 hsigns _ hs)) h

/-- A text that stays within a segment is told from all others. -/
theorem eq_of_map_unified {t u : List CodePoint} (hu : u.any isSeparator = false)
    (h : t.map unified = u.map unified) : t = u := by
  induction u generalizing t with
  | nil => exact List.map_eq_nil_iff.1 h
  | cons d u ih =>
    obtain ⟨c, t, rfl, hc, ht⟩ := List.map_eq_cons_iff.1 h
    rw [List.any_cons, Bool.or_eq_false_iff] at hu
    rw [eq_of_unified hu.1 hc, ih hu.2 ht]

/-- What a literal without separators accepts has none either, so each text that it accepts is told from
all others. -/
theorem agree_literalTexts {caseSensitive : Bool} {t u : List CodePoint}
    (hu : u.any isSeparator = false) (h : t.map unified = u.map unified) :
    Agree unified (literalTexts caseSensitive t) (literalTexts caseSensitive u) := by
  obtain rfl := eq_of_map_unified hu h
  have himp : ∀ w v, w.map unified = v.map unified → w ∈ literalTexts caseSensitive t →
      v ∈ literalTexts caseSensitive t := by
    intro w v hwv hw
    have hfree : w.any isSeparator = false :=
      List.any_eq_false.2 fun c hc => Bool.not_eq_true _ ▸ literalTexts_inSegment _ hu w hw c hc
    rw [eq_of_map_unified hfree hwv.symm]
    exact hw
  exact .of_imp himp himp

theorem escapesSeparator_eq_of_unified {x y : List CodePoint}
    (h : y.map unified = x.map unified) : escapesSeparator y = escapesSeparator x := by
  -- The induction follows how the text is read, an escape with the code point behind it at once.
  fun_induction escapesSeparator x generalizing y with
  | case1 =>
    rw [List.map_eq_nil_iff.1 h]
    rfl
  | case2 c cs ih =>
    obtain ⟨e, rest, rfl, he, hrest⟩ := List.map_eq_cons_iff.1 h
    obtain ⟨d, ds, rfl, hd, hds⟩ := List.map_eq_cons_iff.1 hrest
    obtain rfl := eq_of_unified (by decide) he
    rw [escapesSeparator, isSeparator_eq_of_unified hd, ih hds]
  | case3 c cs hno ih =>
    obtain ⟨d, ds, rfl, hd, hds⟩ := List.map_eq_cons_iff.1 h
    rw [← ih hds]
    by_cases hescape : d = .char '$'
    · -- An escape without anything behind it escapes nothing.
      subst hescape
      obtain rfl := eq_of_unified (by decide) hd.symm
      have hcs : cs = [] := by
        cases cs with
        | nil => rfl
        | cons e es => exact (hno e es rfl rfl).elim
      subst hcs
      rw [List.map_eq_nil_iff.1 hds]
      rfl
    · exact escapesSeparator_cons hescape ds

/-! ### Exchanging separators -/

/-- The other one of the two separators; every other code point is kept. -/
def otherSeparator (c : CodePoint) : CodePoint :=
  if c = .char '/' then .char '\\' else if c = .char '\\' then .char '/' else c

/-- A text with its separators exchanged at chosen places. -/
def exchanged (chosen : Nat → Bool) (text : List CodePoint) : List CodePoint :=
  text.mapIdx fun i c => if chosen i then otherSeparator c else c

theorem unified_otherSeparator (c : CodePoint) : unified (otherSeparator c) = unified c := by
  by_cases hslash : c = .char '/'
  · subst hslash
    rfl
  · by_cases hback : c = .char '\\'
    · subst hback
      rfl
    · rw [otherSeparator, if_neg hslash, if_neg hback]

theorem map_unified_exchanged (chosen : Nat → Bool) (text : List CodePoint) :
    (exchanged chosen text).map unified = text.map unified := by
  induction text generalizing chosen with
  | nil => rfl
  | cons c cs ih =>
    have hhead : unified (if chosen 0 then otherSeparator c else c) = unified c := by
      split
      · exact unified_otherSeparator c
      · rfl
    -- The places of the rest are those behind the first one.
    have hrest := ih fun i => chosen (i + 1)
    rw [exchanged] at hrest ⊢
    rw [List.mapIdx_cons, List.map_cons, List.map_cons, hhead, hrest]

/-- **Separators are interchangeable.** Exchanging separators of a text without escaped ones, and of
a path, at any places changes neither whether the text compiles nor what it says about the path. -/
theorem matchPath_exchanged {x : List CodePoint} (hx : escapesSeparator x = false)
    (inText : Nat → Bool) :
    ((∃ a, compile x = .ok a) ↔ ∃ b, compile (exchanged inText x) = .ok b) ∧
      ∀ a b, compile x = .ok a → compile (exchanged inText x) = .ok b →
        ∀ path inPath flags,
          b.matchPath (exchanged inPath path) flags = a.matchPath path flags := by
  have hkeys := map_unified_exchanged inText x
  have hy := (escapesSeparator_eq_of_unified hkeys).trans hx
  -- Literals are the same on both sides, so it does not matter how they are compared.
  have halike := fun caseSensitive =>
    matchPath_alike caseSensitive keepsSigns_unified hkeys (literals_separatorFree hx)
      (literals_separatorFree hy) agree_literalTexts
  refine ⟨(halike true).1, fun a b ha hb path inPath flags => ?_⟩
  have hpath := map_unified_exchanged inPath path
  exact (halike flags.caseSensitive).2 a b ha hb flags rfl path _ hpath

/-- The separators of a path wildcard and behind an escaped escape character are exchanged, and the
one in an inverted group is not. -/
theorem matchPath_exchanged_some :
    ∃ a b,
      compile (pointsOf ['*', '*', '/', '(', '!', 'a', '\\', 'b', ')', '$', '$', '/']) = .ok a ∧
        compile (pointsOf ['*', '*', '\\', '(', '!', 'a', '\\', 'b', ')', '$', '$', '\\']) =
          .ok b ∧
        ∀ path inPath flags,
          b.matchPath (exchanged inPath path) flags = a.matchPath path flags := by
  let text := pointsOf ['*', '*', '/', '(', '!', 'a', '\\', 'b', ')', '$', '$', '/']
  have hx : escapesSeparator text = false := by decide
  have ha : ∃ a, compile text = .ok a := ⟨_, rfl⟩
  obtain ⟨hcompile, hverdict⟩ := matchPath_exchanged hx fun i => i ≠ 6
  obtain ⟨a, ha⟩ := ha
  obtain ⟨b, hb⟩ := hcompile.1 ⟨a, ha⟩
  exact ⟨a, b, ha, hb, hverdict a b ha hb⟩

/-! ### Case folds -/

theorem keepsSigns_fold : KeepsSigns CodePoint.fold where
  separator h hd := @isSeparator_of_key_eq false _ _ hd h
  sign hs h := by
    -- No sign is a letter, so the table has none of them for an image and leaves all as they are.
    have hsigns : signs.all fun s =>
        Text.OutsideFolds s ∧ (CodePoint.char s).fold = [.char s] := by decide +kernel
    obtain ⟨houtside, hfold⟩ := of_decide_eq_true (List.all_eq_true.1 hsigns _ hs)
    exact CodePoint.eq_of_fold_eq houtside (h.trans hfold)

theorem agree_literalTexts_fold {t u : List CodePoint}
    (h : t.map CodePoint.fold = u.map CodePoint.fold) :
    Agree CodePoint.fold (literalTexts false t) (literalTexts false u) := by
  intro w v hwv
  show w.map CodePoint.fold = t.map CodePoint.fold ↔ v.map CodePoint.fold = u.map CodePoint.fold
  rw [hwv, h]

/-- **Without regard to case, only folds matter.** Of texts with the same folds, code point by code
point, both compile or neither does, and they have the same verdicts on paths with the same folds. -/
theorem matchPath_folded {x y : List CodePoint}
    (h : y.map CodePoint.fold = x.map CodePoint.fold) :
    ((∃ a, compile x = .ok a) ↔ ∃ b, compile y = .ok b) ∧
      ∀ a b, compile x = .ok a → compile y = .ok b →
        ∀ flags : Flags, flags.caseSensitive = false →
          ∀ path other, other.map CodePoint.fold = path.map CodePoint.fold →
            b.matchPath other flags = a.matchPath path flags :=
  matchPath_alike false keepsSigns_fold h (literals_true x) (literals_true y) fun _ =>
    agree_literalTexts_fold

/-- The small sharp s has a fold of two letters, which it shares with the capital one, and the kelvin
sign that of the letter. -/
theorem matchPath_folded_letters :
    ∃ a b, compile (pointsOf ['*', '/', '(', '!', 'ß', ')', '|', 'K']) = .ok a ∧
      compile (pointsOf ['*', '/', '(', '!', 'ẞ', ')', '|', 'k']) = .ok b ∧
      b.matchPath (pointsOf ['A', '/', 'k']) .none =
        a.matchPath (pointsOf ['a', '/', '\u212a']) .none := by
  let text := pointsOf ['*', '/', '(', '!', 'ß', ')', '|', 'K']
  let folded := pointsOf ['*', '/', '(', '!', 'ẞ', ')', '|', 'k']
  have hfolds : folded.map CodePoint.fold = text.map CodePoint.fold := by decide
  have ha : ∃ a, compile text = .ok a := ⟨_, rfl⟩
  obtain ⟨hcompile, hverdict⟩ := matchPath_folded hfolds
  obtain ⟨a, ha⟩ := ha
  obtain ⟨b, hb⟩ := hcompile.1 ⟨a, ha⟩
  exact ⟨a, b, ha, hb, hverdict a b ha hb .none rfl _ _ (by decide)⟩

end PathSieve.Pattern
