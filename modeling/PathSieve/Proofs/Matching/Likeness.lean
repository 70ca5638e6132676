import PathSieve.Proofs.Matching.Segments
import PathSieve.Proofs.Matching.Verdict
import PathSieve.Proofs.Pattern.Likeness

namespace PathSieve.Pattern

open Text (CodePoint pointsOf)

/-!
# Verdicts on texts that are alike

Code points are told apart by a key. Where the literals of a pattern text cannot tell texts with the
same keys apart, the pattern cannot either: it has the same verdict on such paths, and so has every
pattern text with the same keys.

* `Agree` — languages that cannot be told apart by texts with the same keys.
* `Term.exists_agree`, `Operand.exists_agree`, `Expr.exists_agree` — tokens that are alike have
  derivations whose languages agree.
* `Literals` — what all literals of a text are like.
* `exists_compile_agree` — a text with the same keys as one that compiles does so, too.
* `matchPath_alike` — texts with the same keys compile both or neither and have the same verdicts.
-/

variable {κ : Type} {key : CodePoint → κ}

/-! ### Languages -/

/-- Two languages cannot be told apart by texts with the same keys. -/
def Agree (key : CodePoint → κ) (l m : Language CodePoint) : Prop :=
  ∀ w v, w.map key = v.map key → (w ∈ l ↔ v ∈ m)

namespace Agree

variable {l l' m m' : Language CodePoint}

theorem symm (h : Agree key l m) : Agree key m l := fun w v hwv => (h v w hwv.symm).symm

/-- One direction is enough when it holds both ways round. -/
theorem of_imp (h : ∀ w v, w.map key = v.map key → w ∈ l → v ∈ m)
    (h' : ∀ w v, w.map key = v.map key → w ∈ m → v ∈ l) : Agree key l m :=
  fun w v hwv => ⟨h w v hwv, h' v w hwv.symm⟩

theorem one : Agree key 1 1 := by
  intro w v hwv
  have hlen : w.length = v.length := by simpa using congrArg List.length hwv
  rw [Language.mem_one, Language.mem_one, ← List.length_eq_zero_iff, hlen, List.length_eq_zero_iff]

theorem mul (h : Agree key l m) (h' : Agree key l' m') : Agree key (l * l') (m * m') := by
  -- The other text is cut where the first one is.
  have hcut : ∀ {l l' m m' : Language CodePoint}, Agree key l m → Agree key l' m' →
      ∀ w v, w.map key = v.map key → w ∈ l * l' → v ∈ m * m' := by
    rintro l l' m m' h h' - v hwv ⟨a, ha, b, hb, rfl⟩
    rw [List.map_append] at hwv
    obtain ⟨c, d, rfl, hc, hd⟩ := List.map_eq_append_iff.1 hwv.symm
    exact Language.append_mem_mul ((h a c hc.symm).1 ha) ((h' b d hd.symm).1 hb)
  exact of_imp (hcut h h') (hcut h.symm h'.symm)

theorem both (op : Connective) (h : Agree key l m) (h' : Agree key l' m') :
    Agree key (Tree.both op l l') (Tree.both op m m') := by
  intro w v hwv
  cases op with
  | conj => rw [Tree.mem_both_conj, Tree.mem_both_conj, h w v hwv, h' w v hwv]
  | disj => rw [Tree.mem_both_disj, Tree.mem_both_disj, h w v hwv, h' w v hwv]

end Agree

section Leaves

variable (hsep : ∀ {c d : CodePoint}, key c = key d → isSeparator c = isSeparator d)
include hsep

theorem agree_oneOf {q : CodePoint → Bool} (hq : ∀ c d, isSeparator c = isSeparator d → q c = q d) :
    Agree key (oneOf q) (oneOf q) := by
  have himp : ∀ w v, w.map key = v.map key → w ∈ oneOf q → v ∈ oneOf q := by
    rintro - v hwv ⟨c, rfl, hc⟩
    obtain ⟨d, rfl, hd⟩ := List.map_eq_singleton_iff.1 hwv.symm
    exact ⟨d, rfl, (hq d c (hsep hd)).trans hc⟩
  exact .of_imp himp himp

theorem agree_separatorFree : Agree key separatorFree separatorFree := by
  have himp : ∀ w v, w.map key = v.map key → w ∈ separatorFree → v ∈ separatorFree := by
    intro w v hwv hw d hd
    have hmem : key d ∈ w.map key := by
      rw [hwv]
      exact List.mem_map_of_mem hd
    obtain ⟨c, hc, hcd⟩ := List.mem_map.1 hmem
    rw [← hsep hcd]
    exact hw c hc
  exact .of_imp himp himp

theorem agree_wholeSegments : Agree key wholeSegments wholeSegments := by
  have himp : ∀ w v, w.map key = v.map key → w ∈ wholeSegments → v ∈ wholeSegments := by
    rintro w v hwv (rfl | ⟨u, c, rfl, hc⟩)
    · exact .inl (List.map_eq_nil_iff.1 hwv.symm)
    · rw [List.map_append] at hwv
      obtain ⟨a, b, rfl, -, hb⟩ := List.map_eq_append_iff.1 hwv.symm
      obtain ⟨d, rfl, hd⟩ := List.map_eq_singleton_iff.1 hb
      exact .inr ⟨a, d, rfl, (hsep hd).trans hc⟩
  exact .of_imp himp himp

/-- The last segments of paths with the same keys have the same keys. -/
theorem map_basename {path other : List CodePoint} (h : path.map key = other.map key) :
    (basename path).map key = (basename other).map key := by
  obtain ⟨u, hu, v, hv, rfl⟩ := exists_wholeSegments_append path
  rw [List.map_append] at h
  obtain ⟨u', v', rfl, hu', hv'⟩ := List.map_eq_append_iff.1 h.symm
  -- The other path falls into whole segments and a last one at the same place.
  have husegments : u' ∈ wholeSegments := (agree_wholeSegments hsep u u' hu'.symm).1 hu
  have hvfree : v' ∈ separatorFree := (agree_separatorFree hsep v v' hv'.symm).1 hv
  rw [basename_append hu hv, basename_append husegments hvfree, hv']

theorem map_subjectText {path other : List CodePoint} (h : path.map key = other.map key)
    (flags : Flags) : (subjectText path flags).map key = (subjectText other flags).map key := by
  unfold subjectText
  split
  · exact h
  · exact map_basename hsep h

end Leaves

/-! ### Derivations -/

section Derivations

variable {caseSensitive : Bool} {lit : List CodePoint → List CodePoint → Prop}

/-- Tokens that are alike are separators alike. -/
theorem TokenKind.Alike.isSplit_eq {k l : TokenKind} (h : k.Alike lit l) :
    k.isSplit = l.isSplit := by
  cases h with
  | literal => rfl
  | symbol hs => cases hs <;> rfl

theorem any_isSplit_alike {ks ls : List TokenKind}
    (h : List.Forall₂ (TokenKind.Alike lit) ks ls) :
    ks.any TokenKind.isSplit = ls.any TokenKind.isSplit := by
  induction h with
  | nil => rfl
  | cons head tail ih => rw [List.any_cons, List.any_cons, head.isSplit_eq, ih]

/-- A token like a symbol that is no separator is that symbol. -/
theorem TokenKind.Alike.eq_symbol {k : TokenKind} {s : Symbol} (h : k.Alike lit (.symbol s))
    (hs : (TokenKind.symbol s).isSplit = false) : k = .symbol s := by
  cases h with
  | symbol halike =>
    cases halike with
    | same => rfl
    | split => cases hs
    | anyPath => cases hs

/-- What it takes for leaves to agree: the key keeps separators, and literals that are related cannot
tell texts with the same keys apart. -/
structure LeavesAgree (key : CodePoint → κ) (caseSensitive : Bool)
    (lit : List CodePoint → List CodePoint → Prop) : Prop where
  separator : ∀ {c d : CodePoint}, key c = key d → isSeparator c = isSeparator d
  literal : ∀ {t u : List CodePoint}, lit t u →
    Agree key (literalTexts caseSensitive t) (literalTexts caseSensitive u)

theorem Leaf.exists_agree (hleaves : LeavesAgree key caseSensitive lit) (l : Leaf) {k : TokenKind}
    (h : k.Alike lit l.token) :
    ∃ m : Leaf, m.token = k ∧
      Agree key (Tree.concat caseSensitive m.trees) (Tree.concat caseSensitive l.trees) := by
  cases l with
  | literal u =>
    cases h
    rename_i t htu
    refine ⟨.literal t, rfl, ?_⟩
    rw [Leaf.trees, Leaf.trees, Tree.concat_singleton (by simp), Tree.concat_singleton (by simp)]
    exact hleaves.literal htu
  | anyChar =>
    obtain rfl := h.eq_symbol rfl
    refine ⟨.anyChar, rfl, ?_⟩
    rw [Leaf.trees, Tree.concat_singleton (by simp)]
    exact agree_oneOf hleaves.separator fun c d hcd => by rw [hcd]
  | anyChars =>
    obtain rfl := h.eq_symbol rfl
    refine ⟨.anyChars, rfl, ?_⟩
    rw [Leaf.trees, Tree.concat_singleton (by simp)]
    exact agree_separatorFree hleaves.separator
  | split s =>
    -- Which separator it is does not matter to what it accepts.
    have hone : Agree key (oneOf isSeparator) (oneOf isSeparator) :=
      agree_oneOf hleaves.separator fun c d hcd => hcd
    have hsplit : ∀ t : Separator,
        Tree.concat caseSensitive (Leaf.split t).trees = oneOf isSeparator := by
      intro t
      rw [Leaf.trees, Tree.concat_singleton (by simp), Tree.language]
    obtain ⟨t, rfl⟩ : ∃ t : Separator, k = .symbol (.split t) := by
      cases h
      rename_i hs
      cases hs <;> exact ⟨_, rfl⟩
    refine ⟨.split t, rfl, ?_⟩
    rw [hsplit, hsplit]
    exact hone
  | anyPath s =>
    have hpath : ∀ t : Separator,
        Tree.concat caseSensitive (Leaf.anyPath t).trees = wholeSegments * 1 := by
      intro t
      rw [Leaf.trees, Tree.concat, Tree.concat]
    obtain ⟨t, rfl⟩ : ∃ t : Separator, k = .symbol (.anyPath t) := by
      cases h
      rename_i hs
      cases hs <;> exact ⟨_, rfl⟩
    refine ⟨.anyPath t, rfl, ?_⟩
    rw [hpath, hpath]
    exact (agree_wholeSegments hleaves.separator).mul .one

mutual

/-- Tokens that are like those of a term are themselves those of a term, and what it accepts
agrees with it. -/
theorem Term.exists_agree (hleaves : LeavesAgree key caseSensitive lit) :
    (t : Term) → (ks : List TokenKind) →
    List.Forall₂ (TokenKind.Alike lit) ks t.tokens →
    ∃ t' : Term, t'.tokens = ks ∧
      Agree key (Tree.concat caseSensitive t'.trees) (Tree.concat caseSensitive t.trees)
  | .leaf l, ks, h => by
    rw [Term.tokens] at h
    obtain ⟨k, ks', hk, hnil, rfl⟩ := List.forall₂_cons_right_iff.1 h
    obtain rfl := List.forall₂_nil_right_iff.1 hnil
    obtain ⟨m, rfl, hm⟩ := l.exists_agree hleaves hk
    exact ⟨.leaf m, rfl, hm⟩
  | .group inverted body, ks, h => by
    rw [Term.tokens] at h
    obtain ⟨k, ks', hk, hrest, rfl⟩ := List.forall₂_cons_right_iff.1 h
    obtain rfl : k = opening inverted := hk.eq_symbol (by cases inverted <;> rfl)
    have hbody := List.forall₂_take_append _ _ _ hrest
    have hclose := List.forall₂_drop_append _ _ _ hrest
    obtain ⟨b, htokens, hb⟩ := body.exists_agree hleaves _ hbody
    obtain ⟨k', ks'', hk', hnil, hdrop⟩ := List.forall₂_cons_right_iff.1 hclose
    obtain rfl := List.forall₂_nil_right_iff.1 hnil
    obtain rfl : k' = closing := hk'.eq_symbol rfl
    refine ⟨.group inverted b, ?_, ?_⟩
    · rw [Term.tokens, htokens, ← hdrop, List.take_append_drop]
    · rw [Term.trees, Term.trees, Tree.concat_singleton (by simp),
        Tree.concat_singleton (by simp)]
      cases inverted with
      | false =>
        rw [Tree.language, Tree.language]
        exact hb
      | true =>
        -- Both groups are marked or none is, so the complements are taken in the same way.
        have hmark : b.holdsSplit = body.holdsSplit := by
          rw [← b.any_isSplit_tokens, ← body.any_isSplit_tokens, htokens]
          exact any_isSplit_alike hbody
        intro w v hwv
        rw [Tree.mem_group_inverted, Tree.mem_group_inverted, hmark, hb w v hwv,
          agree_separatorFree hleaves.separator w v hwv]

theorem Operand.exists_agree (hleaves : LeavesAgree key caseSensitive lit) :
    (s : Operand) → (ks : List TokenKind) →
    List.Forall₂ (TokenKind.Alike lit) ks s.tokens →
    ∃ s' : Operand, s'.tokens = ks ∧
      Agree key (Tree.concat caseSensitive s'.trees) (Tree.concat caseSensitive s.trees)
  | .one t, ks, h => by
    obtain ⟨t', htokens, ht⟩ := t.exists_agree hleaves ks h
    exact ⟨.one t', htokens, ht⟩
  | .snoc s t, ks, h => by
    rw [Operand.tokens] at h
    obtain ⟨s', hstokens, hs⟩ := s.exists_agree hleaves _ (List.forall₂_take_append _ _ _ h)
    obtain ⟨t', httokens, ht⟩ := t.exists_agree hleaves _ (List.forall₂_drop_append _ _ _ h)
    refine ⟨.snoc s' t', ?_, ?_⟩
    · rw [Operand.tokens, hstokens, httokens, List.take_append_drop]
    · rw [Operand.trees, Operand.trees, Tree.concat_append s.paired, Tree.concat_append s'.paired]
      exact hs.mul ht

theorem Expr.exists_agree (hleaves : LeavesAgree key caseSensitive lit) :
    (a : Expr) → (ks : List TokenKind) →
    List.Forall₂ (TokenKind.Alike lit) ks a.tokens →
    ∃ a' : Expr, a'.tokens = ks ∧
      Agree key (a'.tree.language caseSensitive) (a.tree.language caseSensitive)
  | .one s, ks, h => by
    obtain ⟨s', htokens, hs⟩ := s.exists_agree hleaves ks h
    refine ⟨.one s', htokens, ?_⟩
    rw [Expr.tree, Expr.tree, Tree.language, Tree.language]
    exact hs
  | .snoc a op s, ks, h => by
    rw [Expr.tokens] at h
    obtain ⟨a', hatokens, ha⟩ := a.exists_agree hleaves _ (List.forall₂_take_append _ _ _ h)
    obtain ⟨k, ks', hk, hrest, hdrop⟩ :=
      List.forall₂_cons_right_iff.1 (List.forall₂_drop_append _ _ _ h)
    obtain rfl : k = op.token := hk.eq_symbol (by cases op <;> rfl)
    obtain ⟨s', hstokens, hs⟩ := s.exists_agree hleaves _ hrest
    refine ⟨.snoc a' op s', ?_, ?_⟩
    · rw [Expr.tokens, hatokens, hstokens, ← hdrop, List.take_append_drop]
    · rw [Expr.tree, Expr.tree, Tree.language_join, Tree.language_join, Tree.language,
        Tree.language]
      exact ha.both op hs

end

end Derivations

/-! ### Pattern texts -/

/-- All literals of a text are of some kind. -/
def Literals (q : List CodePoint → Prop) (x : List CodePoint) : Prop :=
  ∀ ls, Spells ls x → ∀ text, .literal text ∈ kinds ls → q text

theorem literals_true (x : List CodePoint) : Literals (fun _ => True) x := fun _ _ _ _ => trivial

section Texts

variable {x y : List CodePoint} {a : Arena} {q : List CodePoint → Prop}

/-- A text with the same keys as one that compiles does so, too, and what it accepts agrees, if the
literals cannot tell texts with the same keys apart. -/
theorem exists_compile_agree (caseSensitive : Bool) (hkey : KeepsSigns key)
    (hx : compile x = .ok a) (hyx : y.map key = x.map key) (hq : Literals q x)
    (hlit : ∀ {t u : List CodePoint}, q u → t.map key = u.map key →
      Agree key (literalTexts caseSensitive t) (literalTexts caseSensitive u)) :
    ∃ b, compile y = .ok b ∧
      Agree key (b.tree.language caseSensitive) (a.tree.language caseSensitive) := by
  by_cases hne : x = []
  · -- The empty text has no tokens, and is the only one with its keys.
    subst hne
    obtain rfl := List.map_eq_nil_iff.1 hyx
    refine ⟨a, hx, fun w v hwv => ?_⟩
    rw [mem_language_nil hx, mem_language_nil hx]
    exact Agree.one w v hwv
  · obtain ⟨ls, e, hls, he, hpeak, hatree⟩ := compile_spells hx hne
    obtain ⟨ms, hms, hlexemes⟩ := hls.exists_alike hkey hyx
    have htokens := kinds_alike hlexemes
    have hsame : List.Forall₂ (TokenKind.Alike fun t u => q u ∧ SameKeys key t u)
        (kinds ms) e.tokens := by
      rw [he]
      exact alike_of_literals htokens (hq ls hls)
    obtain ⟨f, hf, hagree⟩ :=
      e.exists_agree ⟨hkey.isSeparator_eq, fun h => hlit h.1 h.2⟩ _ hsame
    obtain ⟨ts, hts, hkinds⟩ := hms.tokenize
    have hlen : y.length ≤ maxLength := by
      have hlen := congrArg List.length hyx
      rw [List.length_map, List.length_map] at hlen
      rw [hlen]
      exact (compile_eq_ok_iff.1 hx).1
    have hderives : Derives ts (some f) := hf.trans hkinds.symm
    have hdepth : peak 0 (ts.map Token.kind) ≤ maxDepth := by
      rw [hkinds, peak_alike htokens, ← he]
      exact hpeak
    obtain ⟨b, hb⟩ := exists_compile hlen hts hderives hdepth
    refine ⟨b, hb, ?_⟩
    rw [hms.tree hf hb, hatree, language_patternTree, language_patternTree]
    exact hagree

/-- Patterns whose languages agree have the same verdict on paths with the same keys. -/
theorem matchPath_agree {b : Arena}
    (hsep : ∀ {c d : CodePoint}, key c = key d → isSeparator c = isSeparator d)
    (hx : compile x = .ok a) (hy : compile y = .ok b) {flags : Flags}
    (h : Agree key (b.tree.language flags.caseSensitive) (a.tree.language flags.caseSensitive))
    {path other : List CodePoint} (hpath : other.map key = path.map key) :
    b.matchPath other flags = a.matchPath path flags := by
  rw [Bool.eq_iff_iff, matchPath_eq_true_iff hx, matchPath_eq_true_iff hy,
    h _ _ (map_subjectText hsep hpath flags)]

/-- Texts with the same keys compile both or neither, and have the same verdicts on paths with the
same keys, if their literals cannot tell texts with the same keys apart. -/
theorem matchPath_alike (caseSensitive : Bool) (hkey : KeepsSigns key)
    (hyx : y.map key = x.map key) (hx : Literals q x) (hy : Literals q y)
    (hlit : ∀ {t u : List CodePoint}, q u → t.map key = u.map key →
      Agree key (literalTexts caseSensitive t) (literalTexts caseSensitive u)) :
    ((∃ a, compile x = .ok a) ↔ ∃ b, compile y = .ok b) ∧
      ∀ a b, compile x = .ok a → compile y = .ok b →
        ∀ flags : Flags, flags.caseSensitive = caseSensitive →
          ∀ path other, other.map key = path.map key →
            b.matchPath other flags = a.matchPath path flags := by
  refine ⟨⟨fun ⟨a, ha⟩ => ?_, fun ⟨b, hb⟩ => ?_⟩, fun a b ha hb flags hflags path other hpath => ?_⟩
  · obtain ⟨b, hb, -⟩ := exists_compile_agree caseSensitive hkey ha hyx hx hlit
    exact ⟨b, hb⟩
  · obtain ⟨a, ha, -⟩ := exists_compile_agree caseSensitive hkey hb hyx.symm hy hlit
    exact ⟨a, ha⟩
  · obtain ⟨b', hb', hagree⟩ := exists_compile_agree caseSensitive hkey ha hyx hx hlit
    obtain rfl := Except.ok.inj (hb.symm.trans hb')
    subst hflags
    exact matchPath_agree hkey.isSeparator_eq ha hb hagree hpath

end Texts

end PathSieve.Pattern
