import PathSieve.PathPattern.Filter
import PathSieve.Proofs.PathPattern.Duplicates

namespace PathSieve.PathPattern

open Pattern (compile)
open Text (CodePoint)

/-!
# What a filter decides

Texts are added to the two sides of a filter in any order. What the filter decides depends only on
which texts are on which side.

* `decision` — the decision by texts that include and texts that exclude.
* `anyAccepts_of_candidate`, `anyAccepts_of_refused` — the search for a pattern that accepts a path.
* `Filter.Holds`, `Filter.Holds.addAll` — a filter has the texts that were added to it.
* `Filter.Holds.accepts_eq` — it decides by them.
-/

/-! ### Decisions -/

variable {f : Flags} {flags pattern path : Argument} {text cs : List CodePoint} {p : PathPattern}
  {ps : List PathPattern} {texts : List (List CodePoint)} {x : PatternError}

/-- Whether a text accepts a path once it is compiled. -/
def textAccepts (f : Flags) (path text : List CodePoint) : Bool :=
  match compile text with
  | .ok a => a.matchPath path f
  | .error _ => false

/-- The decision by texts that include and texts that exclude. A text that excludes goes first, and
where no text includes, the others are included. Without any texts the path is not looked at. -/
def decision (f : Flags) (texts : Side → List (List CodePoint)) (path : Argument) :
    Except PatternError Bool :=
  if texts .included = [] ∧ texts .excluded = [] then .ok true
  else (candidate path).map fun cs => !(texts .excluded).any (textAccepts f cs) &&
    ((texts .included).isEmpty || (texts .included).any (textAccepts f cs))

theorem decision_of_candidate (h : candidate path = .ok cs) (f : Flags)
    (texts : Side → List (List CodePoint)) : decision f texts path =
      .ok (!(texts .excluded).any (textAccepts f cs) &&
        ((texts .included).isEmpty || (texts .included).any (textAccepts f cs))) := by
  rw [decision, h]
  split
  · next hnone =>
    rw [hnone.1, hnone.2]
    rfl
  · rfl

theorem decision_of_refused (h : candidate path = .error x) (f : Flags)
    (texts : Side → List (List CodePoint)) : decision f texts path =
      if texts .included = [] ∧ texts .excluded = [] then .ok true else .error x := by
  rw [decision, h]
  rfl

/-- A pattern is a compiled text with some flags. -/
def Compiled (f : Flags) (text : List CodePoint) (p : PathPattern) : Prop :=
  ∃ a, compile text = .ok a ∧ p = ⟨some a, text, f⟩

theorem Compiled.verdict_eq (h : Compiled f text p) (path : List CodePoint) :
    p.verdict path = textAccepts f path text := by
  obtain ⟨a, ha, rfl⟩ := h
  rw [textAccepts, ha]
  rfl

/-- Patterns accept what their texts accept. -/
theorem any_verdict_eq (h : List.Forall₂ (Compiled f) texts ps) (path : List CodePoint) :
    ps.any (·.verdict path) = texts.any (textAccepts f path) := by
  induction h with
  | nil => rfl
  | cons hp _ ih => rw [List.any_cons, List.any_cons, hp.verdict_eq, ih]

theorem eq_nil_iff_of_compiled (h : List.Forall₂ (Compiled f) texts ps) : ps = [] ↔ texts = [] := by
  cases h <;> simp

/-- What is made from a text is that text, compiled. -/
theorem make_eq_ok_iff (find : Nat → PathPattern) (hflags : flagsOf flags = .ok f)
    (htext : pattern.points? = some text) :
    (make find pattern flags).1 = .ok p ↔ Compiled f text p := by
  have hpresent : ¬pattern.isAbsent := by
    intro habsent
    unfold Argument.isAbsent at habsent
    split at habsent
    · cases htext
    · cases habsent
  have hmake : make find pattern flags = set find pattern flags false := by
    simp only [make, hflags, if_neg hpresent]
  have htextOf : textOf (fun place => (find place).text) pattern = some text := by
    unfold textOf
    split
    · cases htext
    · exact htext
  have hflagsWith : flagsWith find pattern flags = .ok f := by
    unfold flagsWith
    split
    · cases htext
    · exact hflags
  rw [hmake, set_eq_ok_iff]
  constructor
  · rintro ⟨-, text', f', a, htext', hflags', ha, rfl⟩
    cases htextOf.symm.trans htext'
    cases hflagsWith.symm.trans hflags'
    exact ⟨a, ha, rfl⟩
  · rintro ⟨a, ha, rfl⟩
    exact ⟨rfl, text, f, a, htextOf, hflagsWith, ha, rfl⟩

theorem anyAccepts_of_candidate (h : candidate path = .ok cs) (ps : List PathPattern) :
    anyAccepts path ps = .ok (ps.any (·.verdict cs)) := by
  induction ps with
  | nil => rfl
  | cons p ps ih =>
    have htest : p.test path = .ok (p.verdict cs) := by
      rw [test, h]
      rfl
    rw [anyAccepts, htest, List.any_cons]
    cases p.verdict cs with
    | true => rfl
    | false => exact ih

/-- What is no path is refused by the first pattern. -/
theorem anyAccepts_of_refused (h : candidate path = .error x) (ps : List PathPattern) :
    anyAccepts path ps = if ps = [] then .ok false else .error x := by
  cases ps with
  | nil => rfl
  | cons p ps =>
    have htest : p.test path = .error x := by
      rw [test, h]
      rfl
    rw [anyAccepts, htest, if_neg (List.cons_ne_nil p ps)]
    rfl

/-! ### Filters -/

/-- The texts that are put on one side. -/
def textsOf (offers : List (Side × Argument)) (side : Side) : List (List CodePoint) :=
  offers.filterMap fun x => if x.1 = side then x.2.points? else none

theorem textsOf_append (offers more : List (Side × Argument)) (side : Side) :
    textsOf (offers ++ more) side = textsOf offers side ++ textsOf more side :=
  List.filterMap_append

theorem textsOf_own (side : Side) (htext : pattern.points? = some text) :
    textsOf [(side, pattern)] side = [text] := by simp [textsOf, htext]

theorem textsOf_other {side side' : Side} (h : side ≠ side') (pattern : Argument) :
    textsOf [(side, pattern)] side' = [] := by simp [textsOf, h]

theorem mem_textsOf_iff {offers : List (Side × Argument)} {side : Side} :
    text ∈ textsOf offers side ↔ ∃ x ∈ offers, x.1 = side ∧ x.2.points? = some text := by
  simp [textsOf]

/-- Every text is on one of the two sides. -/
theorem length_textsOf {offers : List (Side × Argument)}
    (h : ∀ x ∈ offers, ∃ text, x.2.points? = some text) :
    (textsOf offers .included).length + (textsOf offers .excluded).length = offers.length := by
  induction offers with
  | nil => rfl
  | cons x offers ih =>
    obtain ⟨⟨text, htext⟩, hrest⟩ := List.forall_mem_cons.1 h
    obtain ⟨side, a⟩ := x
    have hcons (side' : Side) : textsOf ((side, a) :: offers) side' =
        textsOf [(side, a)] side' ++ textsOf offers side' := textsOf_append [(side, a)] offers side'
    have hlength := ih hrest
    rw [hcons, hcons, List.length_append, List.length_append, List.length_cons, ← hlength]
    cases side with
    | included =>
      rw [textsOf_own _ htext, textsOf_other (by decide), List.length_singleton, List.length_nil]
      omega
    | excluded =>
      rw [textsOf_own _ htext, textsOf_other (by decide), List.length_singleton, List.length_nil]
      omega

namespace Filter

/-- A filter and its store after patterns were added to its sides, one by one. -/
def addAll (fl : Filter) (s : Store) : List (Side × Argument) → Filter × Store
  | [] => (fl, s)
  | (side, a) :: offers =>
    ((fl.add s side a .absent).1).addAll (fl.add s side a .absent).2.store offers

/-- The places of the patterns on one side. -/
def places (fl : Filter) : Side → List Nat
  | .included => fl.included
  | .excluded => fl.excluded

/-- A filter has the texts that were put on its sides, compiled with its flags. -/
def Holds (fl : Filter) (s : Store) (offers : List (Side × Argument)) : Prop :=
  ∀ side, List.Forall₂
    (fun text place => place < s.items.size ∧ Compiled fl.flags text (s.find place))
    (textsOf offers side) (fl.places side)

variable {fl : Filter} {s : Store} {offers : List (Side × Argument)}

theorem places_insert_self (fl : Filter) (side : Side) (place : Nat) :
    (fl.insert side place).places side = fl.places side ++ [place] := by cases side <;> rfl

theorem places_insert_of_ne {side side' : Side} (h : side ≠ side') (fl : Filter) (place : Nat) :
    (fl.insert side place).places side' = fl.places side' := by
  cases side <;> cases side' <;> first | rfl | exact absurd rfl h

theorem flags_insert (fl : Filter) (side : Side) (place : Nat) :
    (fl.insert side place).flags = fl.flags := by cases side <;> rfl

theorem holds_empty (f : Flags) (s : Store) : (empty f).Holds s [] := by
  intro side
  cases side <;> exact .nil

theorem Holds.compiled (h : fl.Holds s offers) (side : Side) :
    List.Forall₂ (Compiled fl.flags) (textsOf offers side) ((fl.places side).map s.find) :=
  List.forall₂_map_right_iff.2 ((h side).imp fun _ _ h => h.2)

theorem Holds.size_eq (h : fl.Holds s offers)
    (htexts : ∀ x ∈ offers, ∃ text, x.2.points? = some text) : fl.size = offers.length := by
  have hlength (side : Side) : (fl.places side).length = (textsOf offers side).length :=
    (h side).length_eq.symm
  show (fl.places .included).length + (fl.places .excluded).length = _
  rw [hlength, hlength, length_textsOf htexts]

/-- A filter decides by its texts. -/
theorem Holds.accepts_eq (h : fl.Holds s offers) (path : Argument) :
    fl.accepts s path = decision fl.flags (textsOf offers) path := by
  have hexcluded : List.Forall₂ (Compiled fl.flags) _ (fl.excluded.map s.find) :=
    h.compiled .excluded
  have hincluded : List.Forall₂ (Compiled fl.flags) _ (fl.included.map s.find) :=
    h.compiled .included
  have hempty : fl.included.isEmpty = (textsOf offers .included).isEmpty := by
    rw [Bool.eq_iff_iff, List.isEmpty_iff, List.isEmpty_iff, ← eq_nil_iff_of_compiled hincluded,
      List.map_eq_nil_iff]
  rw [accepts, hempty]
  cases hcandidate : candidate path with
  | ok cs =>
    rw [decision_of_candidate hcandidate, anyAccepts_of_candidate hcandidate,
      anyAccepts_of_candidate hcandidate, any_verdict_eq hexcluded, any_verdict_eq hincluded]
    cases (textsOf offers .excluded).any (textAccepts fl.flags cs) with
    | true => rfl
    | false =>
      cases (textsOf offers .included).isEmpty with
      | true => rfl
      | false => rfl
  | error x =>
    rw [decision_of_refused hcandidate, anyAccepts_of_refused hcandidate,
      anyAccepts_of_refused hcandidate]
    simp only [eq_nil_iff_of_compiled hexcluded, eq_nil_iff_of_compiled hincluded,
      List.isEmpty_iff]
    by_cases hnone : textsOf offers .excluded = []
    · by_cases hnil : textsOf offers .included = []
      · simp only [hnone, hnil, and_self, ite_true]
        rfl
      · simp only [hnone, hnil, false_and, ite_true, ite_false]
        rfl
    · simp only [hnone, and_false, ite_false]
      rfl

/-- A pattern that is stored and inserted comes to those of its side. -/
theorem Holds.insert (h : fl.Holds s offers) (side : Side) {a : Argument} {text : List CodePoint}
    {p : PathPattern} (htext : a.points? = some text) (hp : Compiled fl.flags text p) :
    (fl.insert side s.items.size).Holds ⟨s.items.push p⟩ (offers ++ [(side, a)]) := by
  have hold (side' : Side) : List.Forall₂ (fun text place => place < (s.items.push p).size ∧
      Compiled fl.flags text (Store.find ⟨s.items.push p⟩ place))
      (textsOf offers side') (fl.places side') := by
    refine (h side').imp fun text place hplace => ⟨?_, ?_⟩
    · rw [Array.size_push]
      exact Nat.lt_succ_of_lt hplace.1
    · rw [Store.find_push_of_lt hplace.1]
      exact hplace.2
  have hnew : List.Forall₂ (fun text place => place < (s.items.push p).size ∧
      Compiled fl.flags text (Store.find ⟨s.items.push p⟩ place)) [text] [s.items.size] := by
    refine .cons ⟨?_, ?_⟩ .nil
    · rw [Array.size_push]
      exact Nat.lt_succ_self _
    · rw [Store.find_push]
      exact hp
  intro side'
  rw [flags_insert, textsOf_append]
  by_cases hside : side = side'
  · subst hside
    rw [textsOf_own side htext, places_insert_self]
    exact List.rel_append (hold side) hnew
  · rw [textsOf_other hside, places_insert_of_ne hside, List.append_nil]
    exact hold side'

/-- A text that compiles is added. -/
theorem Holds.add (h : fl.Holds s offers) (side : Side) {a : Argument} {text : List CodePoint}
    (htext : a.points? = some text) (hcompile : ∃ arena, compile text = .ok arena) :
    (fl.add s side a .absent).1.Holds (fl.add s side a .absent).2.store (offers ++ [(side, a)]) ∧
      (fl.add s side a .absent).1.flags = fl.flags := by
  obtain ⟨arena, harena⟩ := hcompile
  let p : PathPattern := ⟨some arena, text, fl.flags⟩
  have hp : Compiled fl.flags text p := ⟨arena, harena, rfl⟩
  have hmake : (make s.find a (.flags fl.flags)).1 = .ok p := (make_eq_ok_iff s.find rfl htext).2 hp
  let keep (p : PathPattern) : Store × Nat := (⟨s.items.push p⟩, s.items.size)
  have happly : (s.apply _ keep).store = (keep p).1 ∧ (s.apply _ keep).result = .ok (keep p).2 :=
    Store.apply_ok hmake
  obtain ⟨hstore, hresult⟩ := happly
  have hplaced : fl.placeFor s a .absent = s.add a (.flags fl.flags) := by
    unfold placeFor
    split
    · cases htext
    · rfl
  have hadd : fl.add s side a .absent =
      (fl.insert side s.items.size, s.add a (.flags fl.flags)) := by
    have hok : (s.add a (.flags fl.flags)).result = .ok s.items.size := hresult
    simp only [Filter.add, hplaced, hok]
  have hkept : (s.add a (.flags fl.flags)).store = ⟨s.items.push p⟩ := hstore
  rw [hadd, hkept]
  exact ⟨h.insert side htext hp, flags_insert ..⟩

/-- Texts that compile may be added to a filter in any order. -/
theorem Holds.addAll (h : fl.Holds s offers) {more : List (Side × Argument)}
    (hmore : ∀ x ∈ more, ∃ text a, x.2.points? = some text ∧ compile text = .ok a) :
    (fl.addAll s more).1.Holds (fl.addAll s more).2 (offers ++ more) ∧
      (fl.addAll s more).1.flags = fl.flags := by
  induction more generalizing fl s offers with
  | nil =>
    rw [List.append_nil]
    exact ⟨h, rfl⟩
  | cons x more ih =>
    obtain ⟨⟨text, a, htext, ha⟩, hrest⟩ := List.forall_mem_cons.1 hmore
    obtain ⟨hadded, hflags⟩ := h.add x.1 htext ⟨a, ha⟩
    obtain ⟨hall, hsame⟩ := ih hadded hrest
    rw [List.append_assoc] at hall
    exact ⟨hall, hsame.trans hflags⟩

end Filter

end PathSieve.PathPattern
