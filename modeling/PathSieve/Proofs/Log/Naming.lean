import PathSieve.Log.Level
import PathSieve.Value.Proper

namespace PathSieve

/-!
# Values that name a level

Only a text is shown as the name of a level.

* `Text.mem_upper` — what stays as it is in upper case.
* `Value.display_cases` — a text shows itself, and any other value shows a sign that is no letter,
  or a word.
* `Log.Level.exists_ofValue` — a value that is shown as the name of a level stands for a level.
-/

open Text (upper upperChar replacementMark)

/-! ### Signs -/

/-- Whether a character is no capital letter and stays as it is in upper case. -/
def isSign (c : Char) : Bool := upperChar c = [c] && !c.isUpper

theorem isSign_iff {c : Char} : isSign c ↔ upperChar c = [c] ∧ ¬c.isUpper := by
  simp [isSign]

theorem Text.mem_upper {s : String} {c : Char} (hc : c ∈ s.toList) (hstays : upperChar c = [c]) :
    c ∈ (upper s).toList := by
  rw [upper, String.toList_ofList, List.mem_flatMap]
  exact ⟨c, hc, by rw [hstays]; exact List.mem_singleton_self c⟩

/-- Characters before the capital letters are signs. -/
theorem isSign_of_lt {c : Char} (h : c.toNat < 65) : isSign c := by
  have hstays : upperChar c = [c] := by
    have hlookup : Text.CaseMap.lookup c.toNat Text.upperRuns = none :=
      if_pos (Nat.lt_trans h (by decide))
    rw [upperChar, Text.CaseMap.apply, hlookup]
    exact if_pos (Nat.lt_trans h (by decide))
  have hsmall : ¬c.isUpper := by
    intro hupper
    have hbounds : 'A'.val ≤ c.val ∧ c.val ≤ 'Z'.val := of_decide_eq_true hupper
    have hlow : 'A'.toNat ≤ c.toNat := UInt32.le_iff_toNat_le.1 hbounds.1
    exact absurd hlow (Nat.not_le.2 h)
  rw [isSign, hstays, Bool.eq_false_iff.2 hsmall]
  simp

theorem isSign_bracket : isSign '[' := by decide +kernel

theorem isSign_brace : isSign '\x7b' := by decide +kernel

theorem isSign_replacementMark : isSign replacementMark := by decide +kernel

namespace Log.Level

/-- The names of levels are capital letters. -/
theorem ofName?_eq_none {s : String} {c : Char} (hc : c ∈ s.toList) (hsign : isSign c) :
    ofName? s = none := by
  obtain ⟨hstays, hupper⟩ := isSign_iff.1 hsign
  have hnames : ∀ l ∈ all, l.name.toList.all Char.isUpper := by decide
  refine List.find?_eq_none.2 fun l hl heq => ?_
  have hname : l.name = upper s := of_decide_eq_true heq
  have hmem := Text.mem_upper hc hstays
  rw [← hname] at hmem
  exact hupper (List.all_eq_true.1 (hnames l hl) c hmem)

end Log.Level

/-! ### What is shown -/

/-- A text has a sign. -/
def HasSign (s : String) : Prop := ∃ c ∈ s.toList, isSign c

theorem HasSign.append_left {s : String} (h : HasSign s) (t : String) : HasSign (s ++ t) := by
  obtain ⟨c, hc, hsign⟩ := h
  exact ⟨c, by rw [String.toList_append]; exact List.mem_append_left _ hc, hsign⟩

theorem HasSign.append_right {t : String} (h : HasSign t) (s : String) : HasSign (s ++ t) := by
  obtain ⟨c, hc, hsign⟩ := h
  exact ⟨c, by rw [String.toList_append]; exact List.mem_append_right _ hc, hsign⟩

theorem hasSign_nat (n : Nat) : HasSign n.repr := by
  obtain ⟨c, hc⟩ := List.exists_mem_of_ne_nil _ (Nat.toDigits_ne_nil (n := n) (b := 10))
  refine ⟨c, ?_, isSign_of_lt ?_⟩
  · rw [Nat.toList_repr]
    exact hc
  · have hdigit := Nat.isDigit_of_mem_toDigits (by omega) (by omega) hc
    have hle := (Char.isDigit_iff_toNat.1 hdigit).2
    exact Nat.lt_of_le_of_lt hle (by decide)

theorem hasSign_int (n : Int) : HasSign (toString n) := by
  rw [Int.toString_eq_repr, Int.repr_eq_if]
  split
  · exact hasSign_nat _
  · exact (hasSign_nat _).append_right _

/-- A text with a character before the capital letters. -/
theorem hasSign_of_mem {s : String} {c : Char} (hc : c ∈ s.toList) (h : c.toNat < 65) :
    HasSign s := ⟨c, hc, isSign_of_lt h⟩

theorem hasSign_exponent (e : Int) : HasSign (Double.exponentText e) := by
  have hmark : HasSign (if e < 0 then "-" else "+") := by
    split
    · exact hasSign_of_mem (c := '-') (by decide) (by decide)
    · exact hasSign_of_mem (c := '+') (by decide) (by decide)
  exact (hmark.append_left _).append_left _

/-- A decimal has a point or an exponent. -/
theorem hasSign_decimal (d : Double.Decimal) : HasSign d.text := by
  have hpoint : HasSign "." := hasSign_of_mem (c := '.') (by decide) (by decide)
  unfold Double.Decimal.text
  simp only
  split
  · exact (hasSign_exponent _).append_right _
  · split
    · have hzero : HasSign "0." := hasSign_of_mem (c := '.') (by decide) (by decide)
      exact (hzero.append_left _).append_left _
    · split
      · have hzero : HasSign ".0" := hasSign_of_mem (c := '.') (by decide) (by decide)
        exact hzero.append_right _
      · exact (hpoint.append_right _).append_left _

/-- A double shows a sign, or one of two words. -/
theorem double_text_cases (d : Double) : HasSign d.text ∨ d.text = "nan" ∨ d.text = "inf" := by
  cases d with
  | nan => exact .inr (.inl rfl)
  | infinity negative =>
    cases negative with
    | false => exact .inr (.inr rfl)
    | true => exact .inl (hasSign_of_mem (c := '-') (by decide) (by decide))
  | finite negative m e =>
    refine .inl (HasSign.append_right ?_ _)
    split
    · exact hasSign_of_mem (c := '.') (by decide) (by decide)
    · exact hasSign_decimal _

theorem hasSign_date (d : Calendar.Date) : HasSign d.text := by
  have hmark : HasSign "-" := hasSign_of_mem (c := '-') (by decide) (by decide)
  exact (hmark.append_right _).append_left _

theorem hasSign_moment (m : Calendar.Moment) : HasSign m.text := by
  have hdate := hasSign_date m.date
  exact (((((((hdate.append_left _).append_left _).append_left _).append_left _).append_left
    _).append_left _).append_left _).append_left _

/-- Points that are no text have a surrogate. -/
theorem Text.exists_surrogate {ps : List CodePoint} (h : wellFormed? ps = none) :
    ∃ n, .surrogate n ∈ ps := by
  induction ps with
  | nil => cases h
  | cons p ps ih =>
    cases p with
    | surrogate n => exact ⟨n, List.mem_cons_self ..⟩
    | char c =>
      rw [wellFormed?, List.mapM_cons] at h
      cases hrest : wellFormed? ps with
      | none =>
        obtain ⟨n, hn⟩ := ih hrest
        exact ⟨n, List.mem_cons_of_mem _ hn⟩
      | some cs =>
        rw [wellFormed?] at hrest
        rw [hrest] at h
        cases h

theorem hasSign_points {ps : List Text.CodePoint} (h : Text.wellFormed? ps = none) :
    HasSign (Text.shownPoints ps) := by
  obtain ⟨n, hn⟩ := Text.exists_surrogate h
  refine ⟨replacementMark, ?_, isSign_replacementMark⟩
  rw [Text.shownPoints, String.toList_ofList]
  exact List.mem_map.2 ⟨_, hn, rfl⟩

/-- What is shown of a value that is no text has a sign, or it is a word. -/
theorem Value.display_cases {v : Value} (h : v.Proper) : (∃ s, v = .text s) ∨
    HasSign v.display ∨ v.display ∈ ["None", "True", "False", "nan", "inf"] := by
  cases h with
  | list _ =>
    have hbracket : HasSign "[" := ⟨'[', by decide, isSign_bracket⟩
    exact .inr (.inl ((hbracket.append_left _).append_left _))
  | map _ _ =>
    have hbrace : HasSign "\x7b" := ⟨'\x7b', by decide, isSign_brace⟩
    exact .inr (.inl ((hbrace.append_left _).append_left _))
  | @scalar s hs =>
    cases s with
    | null => exact .inr (.inr (by decide))
    | bool b => cases b <;> exact .inr (.inr (by decide))
    | int n => exact .inr (.inl (hasSign_int n))
    | float d =>
      rcases double_text_cases d with hsign | hword | hword
      · exact .inr (.inl hsign)
      · refine .inr (.inr ?_)
        show d.text ∈ _
        rw [hword]
        decide
      · refine .inr (.inr ?_)
        show d.text ∈ _
        rw [hword]
        decide
    | text s => exact .inl ⟨s, rfl⟩
    | codes ps => exact .inr (.inl (hasSign_points hs))
    | date d => exact .inr (.inl (hasSign_date d))
    | moment m => exact .inr (.inl (hasSign_moment m))

/-- A value that is shown as the name of a level stands for a level. -/
theorem Log.Level.exists_ofValue {v : Value} (h : v.Proper) (hname : (ofName? v.display).isSome) :
    ∃ l, ofValue v = .ok l := by
  have hwords : ∀ word ∈ ["None", "True", "False", "nan", "inf"], ofName? word = none := by
    decide +kernel
  rcases Value.display_cases h with ⟨s, rfl⟩ | ⟨c, hc, hsign⟩ | hword
  · obtain ⟨l, hl⟩ := Option.isSome_iff_exists.1 hname
    have hl : ofName? s = some l := hl
    exact ⟨l, by rw [ofValue, hl]⟩
  · rw [ofName?_eq_none hc hsign] at hname
    cases hname
  · rw [hwords _ hword] at hname
    cases hname

end PathSieve
