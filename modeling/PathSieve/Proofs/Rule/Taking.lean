import PathSieve.Proofs.PathPattern.Using
import PathSieve.Proofs.Rule.Adding
import PathSieve.Proofs.Rule.Reaching

namespace PathSieve

open PathPattern
open Pattern (compile)
open Text (CodePoint)

/-!
# What is taken as a pattern

Filters and rules make patterns from what they are given. A text, or an object with a text, is taken
if it compiles; what is absent is taken too, and left uncompiled.

* `Argument.Compiles`, `Argument.Refused` — what is taken, and why the rest is refused.
* `make_cases`, `Engine.compileAll_cases` — making patterns from something that is not absent.
* `validPattern_iff` — the check of a configuration agrees.
* `patterns_taken` — what filters and rules take, and what they hold.
-/

/-! ### Arguments -/

/-- An argument is a text, or an object with a text, that compiles. -/
def Argument.Compiles (a : Argument) : Prop :=
  ∃ text arena, a.points? = some text ∧ compile text = .ok arena

/-- Why an argument is refused as a pattern: for its kind, or for its text. -/
inductive Argument.Refused (a : Argument) : PatternError → Prop
  | kind (h : a.points? = none) : a.Refused (.wrongType .pattern a.typeName)
  | text {text : List CodePoint} {e : Pattern.FormatError} (h : a.points? = some text)
    (he : compile text = .error e) : a.Refused (.format e)

variable {a flags : Argument} {x : PatternError}

/-- A refusal is one of the errors that patterns have. -/
theorem Argument.Refused.isSome_code? (h : a.Refused x) : x.code?.isSome := by
  cases h <;> rfl

/-- The check of a configuration takes what compiles. -/
theorem validPattern_iff {v : Value} : validPattern (.value v) ↔ (Argument.value v).Compiles := by
  constructor
  · intro h
    obtain ⟨text, arena, htext, harena⟩ := installable_of_validPattern h fun _ => []
    exact ⟨text, arena, htext, harena⟩
  · rintro ⟨text, arena, htext, harena⟩
    unfold validPattern
    split
    · rename_i s heq
      cases heq
      cases htext
      rw [harena]
      rfl
    · rename_i ps heq
      cases heq
      cases htext
      rw [harena]
      rfl
    · rename_i htextless hcodeless
      unfold Argument.points? at htext
      split at htext
      · rename_i s heq
        exact absurd heq (htextless s)
      · rename_i ps heq
        exact absurd heq (hcodeless ps)
      · rename_i heq
        cases heq
      · cases htext

/-! ### Making patterns -/

/-- A text is refused for what is wrong with it. -/
theorem arenaOf_eq_error {text : List CodePoint} (h : arenaOf false text = .error x) :
    ∃ e, x = .format e ∧ compile text = .error e := by
  unfold arenaOf at h
  split at h
  · rename_i e he
    cases h
    refine ⟨e, rfl, ?_⟩
    rw [compile, he]
    rfl
  · rw [if_neg Bool.false_ne_true] at h
    split at h
    · rename_i e he
      cases h
      exact ⟨e, rfl, he⟩
    · cases h

theorem source_of_isRaw (find : Nat → PathPattern) (ha : isRaw a) (flags : Argument) :
    source find a flags = match a.points? with
      | none => .error (.wrongType .pattern a.typeName)
      | some text => (flagsOf flags).map (text, ·) := by
  unfold source
  split
  · cases ha
  · cases ha
  · rfl

/-- What is neither absent nor a pattern is refused for its kind or its text. -/
theorem refused_of_make {find : Nat → PathPattern} (ha : isRaw a) (hflags : Readable flags)
    (h : (make find a flags).1 = .error x) : a.Refused x := by
  obtain ⟨f, hf⟩ := hflags
  simp only [make, hf, if_neg (not_isAbsent_of_isRaw ha), PathPattern.set,
    source_of_isRaw find ha] at h
  cases htext : a.points? with
  | none =>
    simp only [htext, Except.error.injEq] at h
    rw [← h]
    exact .kind htext
  | some text =>
    simp only [htext, Except.map, install] at h
    split at h
    · rename_i e he
      cases h
      obtain ⟨reason, rfl, hreason⟩ := arenaOf_eq_error he
      exact .text htext hreason
    · cases h

/-- A pattern is made from what compiles, if the flags can be read. -/
theorem exists_make_iff_compiles {find : Nat → PathPattern} (ha : isRaw a) :
    (∃ p, (make find a flags).1 = .ok p) ↔ Readable flags ∧ a.Compiles := by
  have htext : textOf (fun place => (find place).text) a = a.points? := by
    unfold textOf
    split
    · cases ha
    · rfl
  rw [exists_make_iff, Installable, htext]
  refine and_congr_right fun _ => ?_
  constructor
  · rintro (habsent | ⟨text, arena, htext, harena⟩)
    · exact absurd habsent (not_isAbsent_of_isRaw ha)
    · exact ⟨text, arena, htext, harena⟩
  · rintro ⟨text, arena, htext, harena⟩
    exact .inr ⟨text, arena, htext, harena⟩

theorem isRaw_or_pattern (ha : ¬a.isAbsent) : isRaw a ∨ ∃ place, a = .pattern place := by
  unfold isRaw
  split
  · rename_i place
    exact .inr ⟨place, rfl⟩
  · exact .inl (by simpa using ha)

namespace Engine

variable {shelf : Shelf} {items : List Argument} {ps : List PathPattern} {e : Engine} {number : Nat}

/-- A pattern of a rule that is not absent is taken if it is a pattern already or compiles. -/
theorem acceptable_iff (ha : ¬a.isAbsent) (hflags : Readable flags) :
    Acceptable shelf flags a ↔ (isRaw a → a.Compiles) := by
  rcases isRaw_or_pattern ha with hraw | ⟨place, rfl⟩
  · rw [← exists_make_iff_acceptable, exists_make_iff_compiles hraw]
    simp [hraw, hflags]
  · obtain ⟨arena, harena⟩ := shelf.compiles place
    have hshelved : Installable (fun place => (shelf.find place).text) (.pattern place) :=
      ⟨_, arena, rfl, harena⟩
    exact iff_of_true ⟨hflags, .inr hshelved⟩ fun hraw => by cases hraw

/-- A list of patterns is refused for one of them. -/
theorem compileAll_refused (hpresent : ∀ a ∈ items, ¬a.isAbsent) (hflags : Readable flags)
    (h : (compileAll shelf flags items).1 = .error x) : ∃ a ∈ items, isRaw a ∧ a.Refused x := by
  induction items with
  | nil => simp [compileAll] at h
  | cons a items ih =>
    obtain ⟨ha, hrest⟩ := List.forall_mem_cons.1 hpresent
    rw [compileAll_cons] at h
    cases hmade : (make shelf.find a flags).1 with
    | error y =>
      obtain rfl : y = x := by simpa [hmade, Except.bind] using h
      rcases isRaw_or_pattern ha with hraw | ⟨place, rfl⟩
      · exact ⟨a, by simp, hraw, refused_of_make hraw hflags hmade⟩
      · -- A pattern has a text that compiles.
        have hshelved : Acceptable shelf flags (.pattern place) :=
          (acceptable_iff ha hflags).2 (by simp [isRaw])
        obtain ⟨p, hp⟩ := exists_make_iff_acceptable.2 hshelved
        simp [hmade] at hp
    | ok p =>
      have herror : (compileAll shelf flags items).1 = .error x := by
        cases hall : (compileAll shelf flags items).1 with
        | error y => simpa [hmade, hall, Except.bind, Except.map] using h
        | ok ps => simp [hmade, hall, Except.bind, Except.map] at h
      obtain ⟨b, hb, hrefused⟩ := ih hrest herror
      exact ⟨b, List.mem_cons_of_mem _ hb, hrefused⟩

theorem compileAll_compiled (hpresent : ∀ a ∈ items, ¬a.isAbsent)
    (h : (compileAll shelf flags items).1 = .ok ps) : ∀ p ∈ ps, p.isCompiled := by
  induction items generalizing ps with
  | nil =>
    simp only [compileAll, Except.ok.injEq] at h
    simp [← h]
  | cons a items ih =>
    obtain ⟨ha, hrest⟩ := List.forall_mem_cons.1 hpresent
    obtain ⟨p, rest, hp, hall, rfl⟩ := compileAll_cons_eq_ok_iff.1 h
    exact List.forall_mem_cons.2 ⟨isCompiled_of_make ha hp, ih hrest hall⟩

/-! ### Rules -/

/-- A rule with patterns that are not absent can be compiled if they are patterns or compile. -/
theorem compilable_iff {r : Rule} (hitems : r.patterns.elements? = some items)
    (hpresent : ∀ a ∈ items, ¬a.isAbsent) (hflags : Readable r.flags) :
    r.Compilable shelf ↔ ∀ a ∈ items, isRaw a → a.Compiles := by
  simp only [Rule.Compilable, hitems, Option.some.injEq, exists_eq_left']
  exact forall₂_congr fun a ha => acceptable_iff (hpresent a ha) hflags

/-- Nothing but its patterns and its flags is a reason for a pattern error. -/
theorem add_pattern_error_iff (hitems : (e.rule number).patterns.elements? = some items) :
    (e.add number).2.1 = .error (.pattern x) ↔
      (compileAll e.shelf (e.rule number).flags items).1 = .error x := by
  simp only [add, hitems]
  rcases compileAll e.shelf (e.rule number).flags items with ⟨result, log⟩
  cases result with
  | error y => simp
  | ok patterns =>
    have hplace : ∀ y, (e.place ⟨number, patterns⟩).2 ≠ .error (.pattern y) := by
      intro y
      rcases hsort : sortFalling e.priorityOf (e.entries ++ [⟨number, patterns⟩]) with
        ⟨sorted, done⟩
      cases done with
      | false => simp [place, hsort]
      | true => cases haction : (e.rule number).action <;> simp [place, hsort, haction]
    rcases hplaced : e.place ⟨number, patterns⟩ with ⟨e', told⟩
    cases told with
    | ok told => simp [hplaced]
    | error y =>
      have hne := hplace x
      simp only [hplaced, ne_eq, Except.error.injEq] at hne
      simp [hplaced, hne]

/-- What a rule that is added has for patterns compiles, unless they are patterns already. -/
theorem compiles_of_add_ok (hitems : (e.rule number).patterns.elements? = some items)
    (hpresent : ∀ a ∈ items, ¬a.isAbsent) (hok : (e.add number).2.1 = .ok ()) :
    ∀ a ∈ items, isRaw a → a.Compiles := by
  rcases e.add_cases number with ⟨-, -, x, hx⟩ | ⟨patterns, hpatterns, -⟩
  · simp [hok] at hx
  · obtain ⟨own, hown, hall⟩ := (e.rule number).exists_compiled_iff.1 ⟨patterns, hpatterns⟩
    obtain rfl : items = own := Option.some.inj (hitems.symm.trans hown)
    intro a ha
    exact (acceptable_iff (hpresent a ha) (hall a ha).1).1 (hall a ha)

/-- If nothing else speaks against a rule with values of a configuration as patterns, then it is
taken exactly if the check of each of them succeeds. -/
theorem add_ok_iff_valid {vs : List Value}
    (hitems : (e.rule number).patterns.elements? = some (vs.map .value))
    (hpresent : ∀ a ∈ vs.map Argument.value, ¬a.isAbsent) (hflags : Readable (e.rule number).flags)
    (haction : ∃ a, (e.rule number).action = .known a)
    (horder : inOrder (e.entries.map e.priorityOf ++ [(e.rule number).priority])) :
    (e.add number).2.1 = .ok () ↔ ∀ v ∈ vs, validPattern (.value v) = true := by
  have hok : (e.add number).2.1 = .ok () ↔ ¬∃ x, (e.add number).2.1 = .error x := by
    cases (e.add number).2.1 <;> simp
  rw [hok, add_error_iff haction horder, not_not, compilable_iff hitems hpresent hflags,
    List.forall_mem_map]
  refine forall₂_congr fun v hv => ?_
  have hraw : isRaw (.value v) := by
    have hnot := hpresent (.value v) (List.mem_map_of_mem hv)
    simpa [isRaw] using hnot
  rw [validPattern_iff]
  exact ⟨fun h => h hraw, fun h _ => h⟩

/-- No pattern of a rule that is added is absent. -/
def Filled (e : Engine) : Use → Prop
  | .call (.add number) => ∀ items, (e.rule number).patterns.elements? = some items →
    ∀ a ∈ items, ¬a.isAbsent
  | _ => True

/-- The patterns that a rule was compiled to. -/
theorem compiled_of_compiled? {r : Rule} (h : r.compiled? shelf = some ps)
    (hpresent : ∀ items, r.patterns.elements? = some items → ∀ a ∈ items, ¬a.isAbsent) :
    ∀ p ∈ ps, p.isCompiled := by
  obtain ⟨items, hitems, -⟩ := r.exists_compiled_iff.1 ⟨ps, h⟩
  have hok := (r.compiled?_eq_some_iff_compileAll hitems).1 h
  exact compileAll_compiled (hpresent items hitems) hok

/-- Whatever an engine holds is compiled, unless absent patterns were given to it. -/
theorem compiled_of_reached (h : e.Reached Filled) :
    ∀ y ∈ e.entries, ∀ p ∈ y.patterns, p.isCompiled := by
  induction h with
  | new action => simp [Engine.empty]
  | built h => exact ofSection_compiled h
  | use _ hu ih =>
    rename_i e u _
    cases u with
    | make r => exact ih
    | change number f => exact ih
    | shelve shelf => exact ih
    | call c =>
      cases c with
      | add number =>
        intro y hy
        rcases mem_entries_add hy with hold | ⟨-, hpatterns⟩
        · exact ih y hold
        · exact compiled_of_compiled? hpatterns hu
      | remove name => exact fun y hy => ih y (List.mem_of_mem_eraseP hy)
      | setEnabled name enabled =>
        show ∀ y ∈ (e.setEnabled name enabled).1.entries, _
        rw [(e.setEnabled_same name enabled).1]
        exact ih
      | clear => exact fun y hy => absurd hy List.not_mem_nil
      | setDefault action => exact ih

/-- A rule with patterns that are not absent is refused for them exactly if one of them is neither a
pattern nor compiles, and that is the reason. -/
theorem add_refused_for_pattern (hitems : (e.rule number).patterns.elements? = some items)
    (hpresent : ∀ a ∈ items, ¬a.isAbsent) (hflags : Readable (e.rule number).flags) :
    ((∃ x, (e.add number).2.1 = .error (.pattern x)) ↔ ∃ a ∈ items, isRaw a ∧ ¬a.Compiles) ∧
      ∀ x, (e.add number).2.1 = .error (.pattern x) → ∃ a ∈ items, isRaw a ∧ a.Refused x := by
  simp only [add_pattern_error_iff hitems]
  constructor
  · have hnot : (∃ x, (compileAll e.shelf (e.rule number).flags items).1 = .error x) ↔
        ¬∃ ps, (compileAll e.shelf (e.rule number).flags items).1 = .ok ps := by
      cases (compileAll e.shelf (e.rule number).flags items).1 <;> simp
    rw [hnot, exists_compileAll_iff,
      forall₂_congr fun a ha => acceptable_iff (hpresent a ha) hflags]
    simp
  · intro x hx
    exact compileAll_refused hpresent hflags hx

end Engine

/-! ### Filters and rules -/

/-- What is neither absent nor a pattern is added to a filter if it compiles. -/
theorem PathPattern.Filter.add_raw (fl : Filter) (s : Store) (side : Side) (flags : Argument)
    (ha : isRaw a) :
    ((∃ place, (fl.add s side a flags).2.result = .ok place) ↔
        Readable (fl.flagsFor flags) ∧ a.Compiles) ∧
      ∀ x, Readable (fl.flagsFor flags) → (fl.add s side a flags).2.result = .error x →
        a.Refused x := by
  have hmakes : (∃ p, (make s.find a (fl.flagsFor flags)).1 = .ok p) ↔
      Readable (fl.flagsFor flags) ∧ a.Compiles := exists_make_iff_compiles ha
  rw [← hmakes]
  rcases fl.add_cases s side a flags with ⟨place, rfl, -⟩ |
    ⟨-, ⟨p, hmade, -, -, hresult⟩ | ⟨y, hmade, -, -, hresult⟩⟩
  · cases ha
  · simp [hmade, hresult]
  · refine ⟨by simp [hmade, hresult], fun x hflags hx => ?_⟩
    obtain rfl : y = x := by simpa [hresult] using hx
    exact refused_of_make ha hflags hmade

/-- **What is taken as a pattern.** After any run a filter takes, of what is neither absent nor a
pattern already, exactly what compiles, and refuses anything else with an error of patterns if the
flags can be read. What it has made itself stays compiled, whatever is done, unless it is exchanged
for another pattern. An engine takes the patterns of a rule likewise, one by one, if none is absent;
if they are values of a configuration, then a rule that nothing else speaks against is taken exactly
if the check of each of them succeeds. All that an engine holds is compiled if no absent pattern was
ever given to it. -/
theorem patterns_taken (f : Flags) (calls : List Filter.Call) (e : Engine) :
    let w := Filter.Session.run f calls
    (∀ (side : Side) (a flags : Argument), isRaw a →
      let result := (w.filter.add w.store side a flags).2.result
      ((∃ place, result = .ok place) ↔ Readable (w.filter.flagsFor flags) ∧ a.Compiles) ∧
        ∀ x, Readable (w.filter.flagsFor flags) → result = .error x →
          a.Refused x ∧ x.code?.isSome) ∧
    (∀ place ∈ w.own, (w.store.find place).isCompiled) ∧
    (∀ (number : Nat) (items : List Argument),
      let r := e.rule number
      let result := (e.add number).2.1
      r.patterns.elements? = some items → (∀ a ∈ items, ¬a.isAbsent) →
        (result = .ok () → ∀ a ∈ items, isRaw a → a.Compiles) ∧
        (Readable r.flags →
          ((∃ x, result = .error (.pattern x)) ↔ ∃ a ∈ items, isRaw a ∧ ¬a.Compiles) ∧
          (∀ x, result = .error (.pattern x) →
            x.code?.isSome ∧ ∃ a ∈ items, isRaw a ∧ a.Refused x) ∧
          ((∃ a, r.action = .known a) → inOrder (e.entries.map e.priorityOf ++ [r.priority]) →
            ∀ vs : List Value, items = vs.map .value →
              (result = .ok () ↔ ∀ v ∈ vs, validPattern (.value v) = true)))) ∧
    (e.Reached Engine.Filled → ∀ y ∈ e.entries, ∀ p ∈ y.patterns, p.isCompiled) := by
  intro w
  have hsound : w.Sound := Filter.Session.sound_run f calls
  refine ⟨fun side a flags ha => ?_, fun place hplace => (hsound.owned place hplace).2,
    fun number items => ?_, fun he => Engine.compiled_of_reached he⟩
  · obtain ⟨hiff, hrefused⟩ := w.filter.add_raw w.store side flags ha
    exact ⟨hiff, fun x hflags hx =>
      ⟨hrefused x hflags hx, (hrefused x hflags hx).isSome_code?⟩⟩
  · intro r result hitems hpresent
    refine ⟨Engine.compiles_of_add_ok hitems hpresent, fun hflags => ?_⟩
    obtain ⟨herror, hreason⟩ := Engine.add_refused_for_pattern hitems hpresent hflags
    refine ⟨herror, fun x hx => ?_, ?_⟩
    · obtain ⟨a, ha, hraw, hrefused⟩ := hreason x hx
      exact ⟨hrefused.isSome_code?, a, ha, hraw, hrefused⟩
    · rintro haction horder vs rfl
      exact Engine.add_ok_iff_valid hitems hpresent hflags haction horder

/-- A filter whose pattern is set in vain and given other flags and that is offered a number, and a
rule with two texts of a configuration. -/
theorem patterns_taken_all :
    let calls : List Filter.Call := [.add .included (.text "a") .absent,
      .pattern (.set 0 (.text "(") .absent false), .pattern (.setFlags 0 (.flags ⟨1⟩))]
    let w := Filter.Session.run .none calls
    let five : Argument := .value (.int 5)
    let vs : List Value := [.text "*.c", .text "a*"]
    let r : Rule := ⟨.known .excluded, .value (.list vs), .flags .none, .null, .int 0, .bool true⟩
    let e := ((Engine.empty (.known .included)).use (.make r)).use (.call (.add 0))
    (isRaw five ∧ Readable (w.filter.flagsFor .absent) ∧
        ∃ x, (w.filter.add w.store .excluded five .absent).2.result = .error x ∧
          five.Refused x ∧ x.code?.isSome) ∧
      (0 ∈ w.own ∧ (w.store.find 0).isCompiled) ∧
      ((∀ a ∈ vs.map Argument.value, ¬a.isAbsent) ∧
        ((e.add 0).2.1 = .ok () ↔ ∀ v ∈ vs, validPattern (.value v) = true)) ∧
      e.Reached Engine.Filled ∧ ∀ y ∈ e.entries, ∀ p ∈ y.patterns, p.isCompiled := by
  intro calls w five vs r e
  obtain ⟨hoffered, hown, hrule, hheld⟩ := patterns_taken .none calls e
  have hflags : Readable (w.filter.flagsFor .absent) := ⟨.none, rfl⟩
  have hrefused : (w.filter.add w.store .excluded five .absent).2.result =
    .error (.wrongType .pattern "int") := rfl
  obtain ⟨-, hreason⟩ := hoffered .excluded five .absent rfl
  have hzero : 0 ∈ w.own := by decide +kernel
  have hpresent : ∀ a ∈ vs.map Argument.value, ¬a.isAbsent := by simp [vs, Argument.isAbsent]
  have he : e.Reached Engine.Filled := by
    refine .use (.use (u := .make r) (.new _) trivial) ?_
    intro items hitems
    obtain rfl : vs.map Argument.value = items := Option.some.inj hitems
    exact hpresent
  have horder : inOrder (e.entries.map e.priorityOf ++ [(e.rule 0).priority]) := by decide +kernel
  obtain ⟨-, hreadable⟩ := hrule 0 (vs.map .value) rfl hpresent
  obtain ⟨-, -, hvalid⟩ := hreadable ⟨.none, rfl⟩
  exact ⟨⟨rfl, hflags, _, hrefused, hreason _ hflags hrefused⟩, ⟨hzero, hown 0 hzero⟩,
    ⟨hpresent, hvalid ⟨.excluded, rfl⟩ horder vs rfl⟩, he, hheld he⟩

/-- What is absent is no pattern, but a filter takes it on either side, uncompiled, and rejects what
it accepted, and a rule is taken that has no other pattern. -/
theorem absent_taken :
    let fl := Filter.empty .none
    let out := fl.add .empty .included .absent .absent
    let r : Rule := ⟨.known .excluded, .sequence [.absent], .flags .none, .null, .int 0, .bool true⟩
    let e := (Engine.empty (.known .included)).register r
    validPattern .absent = false ∧
      (out.2.result = .ok 0 ∧ (out.2.store.find 0).isCompiled = false ∧
        fl.accepts .empty (.text "a") = .ok true ∧
        out.1.accepts out.2.store (.text "a") = .ok false) ∧
      (e.add 0).2.1.isOk = true ∧
        (e.add 0).1.entries.map (fun x => x.patterns.map (·.isCompiled)) = [[false]] := by
  decide +kernel

end PathSieve
