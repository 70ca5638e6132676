import PathSieve.Proofs.PathPattern.Present
import PathSieve.Proofs.Rule.Adding
import PathSieve.Proofs.Rule.Deciding
import PathSieve.Proofs.Rule.Reaching

namespace PathSieve

open PathPattern
open Text (CodePoint pointsOf)

/-!
# Rules that go on deciding

The rule that decides about a path goes on deciding about it while rules of no higher priority are
added and others are taken out or switched off.

* `falling_prefix`, `find?_eraseP`, `find?_of_imp` — lists that are sorted, shortened, and searched
  by another measure.
* `Engine.Usual`, `Engine.Orderly`, `Engine.Orderly.of_reached` — what is usually done with an
  engine, and the order of its entries then.
* `Engine.Decides`, `Engine.Decides.add`, `Engine.Decides.remove`, `Engine.Decides.disable` — an
  entry that decides about a path, and what leaves it in its place.
* `Engine.decider_stable` — what holds of every engine.
-/

/-! ### Lists -/

section Lists

variable {α : Type} {rank : α → Int} {p q : α → Bool} {xs ys zs : List α} {x : α}

/-- Items in falling order stay in front of others that are not higher, however these are sorted. -/
theorem falling_prefix (hys : ys.Pairwise fun x y => rank y ≤ rank x)
    (h : ∀ y ∈ ys, ∀ z ∈ zs, rank z ≤ rank y) :
    falling rank (ys ++ zs) = ys ++ falling rank zs := by
  refine falling_ext (falling_pairwise rank _) ?_ fun n => ?_
  · refine List.pairwise_append.2 ⟨hys, falling_pairwise rank zs, fun y hy z hz => ?_⟩
    exact h y hy z ((falling_perm rank zs).mem_iff.1 hz)
  · rw [filter_falling, List.filter_append, List.filter_append, filter_falling]

/-- An item that is taken out is not the one that is found. -/
theorem find?_eraseP (hx : xs.find? p = some x) (hne : ∀ y, xs.find? q = some y → y ≠ x) :
    (xs.eraseP q).find? p = some x := by
  induction xs with
  | nil => simp at hx
  | cons y xs ih =>
    by_cases hq : q y
    · have hyx : y ≠ x := hne y (List.find?_cons_of_pos hq)
      rw [List.eraseP_cons_of_pos hq]
      by_cases hp : p y
      · rw [List.find?_cons_of_pos hp] at hx
        exact absurd (Option.some.inj hx) hyx
      · rwa [List.find?_cons_of_neg hp] at hx
    · rw [List.eraseP_cons_of_neg hq]
      by_cases hp : p y
      · rw [List.find?_cons_of_pos hp] at hx ⊢
        exact hx
      · rw [List.find?_cons_of_neg hp] at hx ⊢
        refine ih hx fun z hz => hne z ?_
        rw [List.find?_cons_of_neg hq, hz]

/-- What is found is found as well if less is looked for and it is still among that. -/
theorem find?_of_imp (hx : xs.find? p = some x) (hq : q x) (h : ∀ y ∈ xs, q y → p y) :
    xs.find? q = some x := by
  obtain ⟨-, before, after, rfl, hbefore⟩ := List.find?_eq_some_iff_append.1 hx
  refine List.find?_eq_some_iff_append.2 ⟨hq, before, after, rfl, fun y hy => ?_⟩
  have hnot := hbefore y hy
  have himp := h y (List.mem_append_left _ hy)
  simp only [Bool.not_eq_true'] at hnot ⊢
  rw [hnot] at himp
  simpa using himp

/-- A filter whose questions all have an answer. -/
theorem filterM_of_ok {ε : Type} {f : α → Except ε Bool} (h : ∀ x, f x = .ok (p x)) (xs : List α) :
    xs.filterM f = .ok (xs.filter p) := by
  -- What was kept so far is handed on in reverse.
  have hacc (xs kept : List α) :
      xs.filterAuxM f kept = .ok ((xs.filter p).reverse ++ kept) := by
    induction xs generalizing kept with
    | nil => rfl
    | cons x xs ih =>
      rw [List.filterAuxM, h]
      show xs.filterAuxM f (cond (p x) (x :: kept) kept) = _
      rw [ih]
      by_cases hp : p x <;> simp [hp]
  rw [List.filterM, hacc, List.append_nil]
  show Except.ok (xs.filter p).reverse.reverse = _
  rw [List.reverse_reverse]

end Lists

namespace Engine

variable {e : Engine} {path : Argument} {cs : List CodePoint} {x : EngineEntry} {number : Nat}

/-! ### Engines in order -/

/-- Rules are made with integers as priorities and known actions, they are not changed from outside,
and only rules that were made are added. -/
def Usual (e : Engine) : Use → Prop
  | .make r => r.Ordinary
  | .change _ _ => False
  | .shelve _ => True
  | .call (.add number) => number < e.rules.size
  | .call _ => True

/-- All entries are of rules that were made, and they are in falling order of priority. -/
structure Orderly (e : Engine) : Prop where
  ordinary : e.Ordinary
  numbered : ∀ x ∈ e.entries, x.rule < e.rules.size
  falling : e.entries.Pairwise fun x y => e.rank y ≤ e.rank x

theorem rank_register (r : Rule) (h : x.rule < e.rules.size) :
    (e.register r).rank x = e.rank x := by
  rw [rank, rank, rule_register, if_neg (by omega)]

/-- Switching a rule off changes nothing else. -/
theorem rule_disable (e : Engine) (name : Value) (number : Nat) :
    (e.setEnabled name false).1.rule number = e.rule number ∨
      (∃ y, e.entries.find? (e.hasName name) = some y ∧ y.rule = number) ∧
        ((e.setEnabled name false).1.rule number).enabled.truthy = false := by
  unfold setEnabled
  split
  · exact .inl rfl
  · rename_i y hy
    simp only [modifyRule, rule, Array.getD_eq_getD_getElem?, Array.getElem?_modify]
    by_cases hsame : y.rule = number
    · cases e.rules[number]? with
      | none => simp
      | some r => exact .inr ⟨⟨y, hy, hsame⟩, by simp [hsame, Value.truthy, Scalar.truthy]⟩
    · simp [hsame]

namespace Orderly

theorem empty (action : ActionField) : (empty action).Orderly :=
  ⟨ordinary_of_rules (by simp) .blank [] action, by simp [Engine.empty], by simp [Engine.empty]⟩

theorem of_section {config : Value} {log : List Log.Entry}
    (h : ofSection config = .ok (e, log)) : e.Orderly :=
  ⟨ofSection_ordinary h, ofSection_numbered h, ofSection_falling h⟩

/-- A new rule leaves the rules that were there as they are. -/
theorem register (h : e.Orderly) {r : Rule} (hr : r.Ordinary) : (e.register r).Orderly := by
  have hsize : (e.register r).rules.size = e.rules.size + 1 := by simp [Engine.register]
  refine ⟨h.ordinary.register hr, fun x hx => ?_, ?_⟩
  · have hlt := h.numbered x hx
    omega
  · refine h.falling.imp_of_mem fun {x y} hx hy hxy => ?_
    rw [rank_register r (h.numbered x hx), rank_register r (h.numbered y hy)]
    exact hxy

theorem call (h : e.Orderly) {c : Call} (hc : e.Usual (.call c)) : (e.call c).Orderly := by
  obtain ⟨hordinary, hrank⟩ := call_rank h.ordinary c
  have hsublist (hsize : (e.call c).rules.size = e.rules.size)
      (hentries : (e.call c).entries.Sublist e.entries) : (e.call c).Orderly := by
    refine ⟨hordinary, fun x hx => ?_, ?_⟩
    · rw [hsize]
      exact h.numbered x (hentries.mem hx)
    · rw [hrank]
      exact h.falling.sublist hentries
  cases c with
  | add number =>
    refine ⟨hordinary, fun x hx => ?_, ?_⟩
    · show x.rule < (e.add number).1.rules.size
      rw [add_same h.ordinary number]
      rcases mem_entries_add hx with hold | ⟨rfl, -⟩
      · exact h.numbered x hold
      · exact hc
    · rw [hrank]
      exact falling_add h.ordinary h.falling number
  | remove name => exact hsublist rfl List.eraseP_sublist
  | setEnabled name enabled =>
    obtain ⟨hentries, hsize, -⟩ := e.setEnabled_same name enabled
    exact hsublist hsize (by rw [← hentries]; exact List.Sublist.refl _)
  | clear => exact hsublist rfl (List.nil_sublist _)
  | setDefault action => exact hsublist rfl (List.Sublist.refl _)

theorem of_reached (h : e.Reached Usual) : e.Orderly := by
  induction h with
  | new action => exact empty action
  | built h => exact of_section h
  | use _ hu ih =>
    rename_i u _
    cases u with
    | make r => exact ih.register hu
    | change number f => exact hu.elim
    | shelve shelf => exact ⟨ih.ordinary, ih.numbered, ih.falling⟩
    | call c => exact ih.call hu

end Orderly

/-! ### Deciding entries -/

/-- An entry decides about a path: it is the first one that applies to it. -/
def Decides (e : Engine) (path : Argument) (x : EngineEntry) : Prop :=
  e.firstApplying path e.entries = .ok (some x)

theorem decides_iff (h : candidate path = .ok cs) :
    e.Decides path x ↔ e.entries.find? (e.accepting cs) = some x := by
  rw [Decides, firstApplying_of_candidate h, Except.ok.injEq]

/-- The rules that apply to a text. -/
theorem matching_of_candidate (h : candidate path = .ok cs) :
    e.matching path = .ok ((e.entries.filter (e.accepting cs)).map fun x => e.rule x.rule) := by
  rw [matching, filterM_of_ok (applies_of_candidate h)]
  rfl

namespace Decides

theorem includes_eq (h : e.Decides path x) :
    e.includes path = .ok (e.rule x.rule).action.isIncluded := by
  rw [includes, h]
  rfl

/-- The verdict is the same where the same entry decides and its rule has the same action. -/
theorem includes_congr {e' : Engine} (h : e.Decides path x) (h' : e'.Decides path x)
    (haction : (e'.rule x.rule).action = (e.rule x.rule).action) :
    e'.includes path = e.includes path := by rw [h'.includes_eq, haction, h.includes_eq]

/-- A rule that is added is tried after those that are not lower. -/
theorem add (hcandidate : candidate path = .ok cs) (h : e.Decides path x) (horderly : e.Orderly)
    (hrank : (e.rule number).rank ≤ e.rank x) : (e.add number).1.Decides path x := by
  rw [decides_iff hcandidate] at h ⊢
  rw [add_eq horderly.ordinary]
  split
  · rename_i patterns _
    obtain ⟨haccepts, before, after, hentries, hbefore⟩ := List.find?_eq_some_iff_append.1 h
    have hfalling := horderly.falling
    let new : EngineEntry := ⟨number, patterns⟩
    have hsplit : e.entries ++ [new] = (before ++ [x]) ++ (after ++ [new]) := by simp [hentries]
    have hsorted : falling e.rank (e.entries ++ [new]) =
        before ++ x :: falling e.rank (after ++ [new]) := by
      have hwhole : ((before ++ [x]) ++ after).Pairwise fun x y => e.rank y ≤ e.rank x := by
        rw [hentries] at hfalling
        simpa using hfalling
      obtain ⟨hfront, -, hover⟩ := List.pairwise_append.1 hwhole
      rw [hsplit, falling_prefix hfront, List.append_assoc, List.singleton_append]
      have hlow : ∀ y ∈ before ++ [x], e.rank x ≤ e.rank y := by
        intro y hy
        rw [List.mem_append, List.mem_singleton] at hy
        rcases hy with hy | rfl
        · exact (List.pairwise_append.1 hfront).2.2 y hy x (by simp)
        · exact le_refl _
      intro y hy z hz
      rw [List.mem_append, List.mem_singleton] at hz
      rcases hz with hz | rfl
      · exact hover y hy z hz
      · exact le_trans hrank (hlow y hy)
    exact List.find?_eq_some_iff_append.2 ⟨haccepts, before, _, hsorted, hbefore⟩
  · exact h

theorem includes_add (hcandidate : candidate path = .ok cs) (h : e.Decides path x)
    (horderly : e.Orderly) (hrank : (e.rule number).rank ≤ e.rank x) :
    (e.add number).1.includes path = e.includes path := by
  apply h.includes_congr (h.add hcandidate horderly hrank)
  rw [add_same horderly.ordinary number]
  rfl

/-- A new rule does not matter before it is added. -/
theorem register (hcandidate : candidate path = .ok cs) (h : e.Decides path x)
    (horderly : e.Orderly) (r : Rule) : (e.register r).Decides path x := by
  rw [decides_iff hcandidate] at h ⊢
  have hsame : ∀ y ∈ e.entries, (e.register r).accepting cs y = e.accepting cs y := by
    intro y hy
    have hlt := horderly.numbered y hy
    rw [accepting, accepting, rule_register, if_neg (by omega)]
  apply find?_of_imp h
  · rw [hsame x (List.mem_of_find?_eq_some h)]
    exact List.find?_some h
  · intro y hy
    rw [hsame y hy]
    exact id

/-- Taking out another entry leaves the deciding one in its place. -/
theorem remove (hcandidate : candidate path = .ok cs) (h : e.Decides path x) {name : Value}
    (hne : ∀ y, e.entries.find? (e.hasName name) = some y → y.rule ≠ x.rule) :
    (e.remove name).1.Decides path x := by
  rw [decides_iff hcandidate] at h ⊢
  apply find?_eraseP h
  rintro y hy rfl
  exact hne y hy rfl

/-- Switching off another rule leaves the deciding entry in its place. -/
theorem disable (hcandidate : candidate path = .ok cs) (h : e.Decides path x) {name : Value}
    (hne : ∀ y, e.entries.find? (e.hasName name) = some y → y.rule ≠ x.rule) :
    (e.setEnabled name false).1.Decides path x := by
  rw [decides_iff hcandidate] at h ⊢
  rw [(e.setEnabled_same name false).1]
  apply find?_of_imp h
  · rcases e.rule_disable name x.rule with hrule | ⟨⟨y, hy, hsame⟩, -⟩
    · have haccepts : e.accepting cs x = true := List.find?_some h
      rw [accepting] at haccepts ⊢
      rw [hrule]
      exact haccepts
    · exact absurd hsame (hne y hy)
  · intro y _ haccepts
    rcases e.rule_disable name y.rule with hrule | ⟨-, hoff⟩
    · rw [accepting, hrule] at haccepts
      exact haccepts
    · simp [accepting, hoff] at haccepts

end Decides

/-! ### Every engine -/

/-- **The rule that decides stays.** For every engine that comes about by usual uses and every text,
the verdict is that of the first rule of those that apply, or of the default action if there is
none. If an entry decides about the text, then the verdict stays when a rule is added, old or new,
whose priority is not higher than that of its rule, and when by name an entry of another rule is
removed or its rule is switched off. -/
theorem decider_stable (he : e.Reached Usual) (hpath : path.points? = some cs) :
    (∃ decider applying, e.firstApplying path e.entries = .ok decider ∧
      e.matching path = .ok applying ∧ applying.head? = decider.map (fun x => e.rule x.rule) ∧
      e.includes path =
        .ok (applying.head?.elim e.defaultAction.isIncluded (·.action.isIncluded))) ∧
    ∀ x, e.Decides path x →
      (∀ number, (e.rule number).rank ≤ (e.rule x.rule).rank →
        (e.add number).1.includes path = e.includes path) ∧
      (∀ r : Rule, r.Ordinary → r.rank ≤ (e.rule x.rule).rank →
        ((e.register r).add e.rules.size).1.includes path = e.includes path) ∧
      ∀ name, (∀ y, e.entries.find? (e.hasName name) = some y → y.rule ≠ x.rule) →
        (e.remove name).1.includes path = e.includes path ∧
          (e.setEnabled name false).1.includes path = e.includes path := by
  have horderly : e.Orderly := .of_reached he
  have hcandidate : candidate path = .ok cs := candidate_of_points? hpath
  constructor
  · refine ⟨_, _, firstApplying_of_candidate hcandidate _, matching_of_candidate hcandidate, ?_, ?_⟩
    · rw [List.head?_map, List.head?_filter]
    · rw [includes, firstApplying_of_candidate hcandidate, List.head?_map, List.head?_filter]
      cases e.entries.find? (e.accepting cs) with
      | none => rfl
      | some x => rfl
  · intro x hx
    refine ⟨fun number hrank => ?_, fun r hr hrank => ?_, fun name hne => ⟨?_, ?_⟩⟩
    · exact hx.includes_add hcandidate horderly hrank
    · have hlt : x.rule < e.rules.size :=
        horderly.numbered x (List.mem_of_find?_eq_some ((decides_iff hcandidate).1 hx))
      have hold : (e.register r).rule x.rule = e.rule x.rule := by
        rw [rule_register, if_neg (by omega)]
      have hlow : ((e.register r).rule e.rules.size).rank ≤ (e.register r).rank x := by
        rw [rank, hold, rule_register, if_pos rfl]
        exact hrank
      have hmade := hx.register hcandidate horderly r
      calc ((e.register r).add e.rules.size).1.includes path
          = (e.register r).includes path :=
            hmade.includes_add hcandidate (horderly.register hr) hlow
        _ = e.includes path := hx.includes_congr hmade (by rw [hold])
    · exact hx.includes_congr (hx.remove hcandidate hne) rfl
    · apply hx.includes_congr (hx.disable hcandidate hne)
      obtain ⟨b, hb⟩ := e.rule_setEnabled name false x.rule
      rw [hb]

/-- A rule that decides before one of lower priority, which is added once more, removed and switched
off. -/
theorem decider_stable_two :
    let keep : Rule := ⟨.known .included, .sequence [.text "*.c"], .flags .none, .text "keep",
      .int 5, .bool true⟩
    let drop : Rule := ⟨.known .excluded, .sequence [.text "*"], .flags .none, .text "drop",
      .int 0, .bool true⟩
    let known := ((empty (.known .included)).use (.make keep)).use (.make drop)
    let e := (known.use (.call (.add 0))).use (.call (.add 1))
    let path : Argument := .text "main.c"
    e.Reached Usual ∧ path.points? = some (pointsOf "main.c".toList) ∧
      ∃ x, e.Decides path x ∧ x.rule = 0 ∧
        (e.rule 1).rank ≤ (e.rule x.rule).rank ∧
        (e.add 1).1.includes path = e.includes path ∧
        (∀ y, e.entries.find? (e.hasName (.text "drop")) = some y → y.rule ≠ x.rule) ∧
        (e.remove (.text "drop")).1.includes path = e.includes path ∧
        (e.setEnabled (.text "drop") false).1.includes path = e.includes path := by
  intro keep drop known e path
  have hkeep : keep.Ordinary := ⟨⟨5, rfl⟩, ⟨.included, rfl⟩⟩
  have hdrop : drop.Ordinary := ⟨⟨0, rfl⟩, ⟨.excluded, rfl⟩⟩
  let first := known.use (.call (.add 0))
  have hknown : known.Reached Usual :=
    .use (u := .make drop) (.use (u := .make keep) (.new _) hkeep) hdrop
  have hfirst : first.Reached Usual := hknown.use (u := .call (.add 0)) (show 0 < 2 by omega)
  have hsize : 1 < first.rules.size := by decide +kernel
  have he : e.Reached Usual := hfirst.use (u := .call (.add 1)) hsize
  have hpath : path.points? = some (pointsOf "main.c".toList) := rfl
  have hcandidate := candidate_of_points? hpath
  have horderly := Orderly.of_reached hfirst
  have hfound : (first.entries.find? (first.accepting (pointsOf "main.c".toList))).isSome := by
    decide +kernel
  obtain ⟨x, hx⟩ := Option.isSome_iff_exists.1 hfound
  have hzero : x.rule = 0 := by
    have hall : first.entries.all (·.rule = 0) := by decide +kernel
    simpa using List.all_eq_true.1 hall x (List.mem_of_find?_eq_some hx)
  have hlow : (first.rule 1).rank ≤ first.rank x := by
    rw [rank, hzero]
    decide +kernel
  have hdecides : (first.add 1).1.Decides path x :=
    ((decides_iff hcandidate).2 hx).add hcandidate horderly hlow
  have hlast : e = (first.add 1).1 := rfl
  have hrules : e.rules = first.rules := by
    rw [hlast, add_same horderly.ordinary 1]
  have hrank : (e.rule 1).rank ≤ (e.rule x.rule).rank := by
    rw [rule, rule, hrules]
    exact hlow
  have hne : ∀ y, e.entries.find? (e.hasName (.text "drop")) = some y → y.rule ≠ x.rule := by
    intro y hy hsame
    have hname : e.hasName (.text "drop") y = true := List.find?_some hy
    have hother : (first.rule 0).name.eqv (.text "drop") = false := by decide +kernel
    rw [hasName, hsame, hzero, rule, hrules] at hname
    rw [rule, hname] at hother
    cases hother
  obtain ⟨-, hstable⟩ := decider_stable he hpath
  obtain ⟨hadd, -, hname⟩ := hstable x hdecides
  obtain ⟨hremove, hdisable⟩ := hname _ hne
  exact ⟨he, hpath, x, hdecides, hzero, hrank, hadd 1 hrank, hne, hremove, hdisable⟩

end Engine

end PathSieve
