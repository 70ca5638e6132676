import PathSieve.Command.Judge
import PathSieve.Proofs.Rule.Building
import PathSieve.Proofs.Settings.Merging
import PathSieve.Selection

namespace PathSieve

/-!
# Judging candidates

When a run has a judge, and that a judge has a verdict on every path.

* `Engine.exists_includes`, `Command.Judge.exists_accepts` — verdicts on paths never fail.
* `select_of_total`, `select_of_error` — what is selected by verdicts up to one that fails.
* `Flags.Unreadable`, `Flags.exists_notIterable_iff` — the values that are no flags and cannot be
  gone through.
* `Command.Sound`, `Command.Judge.make_cases` — when there is a judge.
-/

/-! ### Verdicts -/

section Selecting

variable {ε α : Type} {accepts : α → Except ε Bool} {verdict : α → Bool}

/-- One more item on which there is a verdict is selected or not. -/
theorem select_cons {x : α} (h : accepts x = .ok (verdict x)) (xs : List α) :
    select accepts none (x :: xs) =
      (select accepts none xs).after (if verdict x then some x else none) := by
  rw [select.eq_def]
  simp only [h]
  cases verdict x with
  | true => rfl
  | false => rfl

/-- What is selected by verdicts that do not fail. -/
theorem select_of_total {xs : List α} (h : ∀ x ∈ xs, accepts x = .ok (verdict x)) :
    select accepts none xs = ⟨xs.filter verdict, xs.length, none⟩ := by
  induction xs with
  | nil => rfl
  | cons x xs ih =>
    obtain ⟨hx, hrest⟩ := List.forall_mem_cons.1 h
    rw [select_cons hx, ih hrest, List.filter_cons]
    cases verdict x with
    | true => rfl
    | false => rfl

/-- What is selected up to the first verdict that fails. -/
theorem select_of_error {front : List α} {x : α} {e : ε} (back : List α)
    (hfront : ∀ y ∈ front, accepts y = .ok (verdict y)) (hx : accepts x = .error e) :
    select accepts none (front ++ x :: back) =
      ⟨front.filter verdict, front.length + 1, some e⟩ := by
  induction front with
  | nil =>
    show select accepts none (x :: back) = ⟨[], 1, some e⟩
    rw [select.eq_def]
    simp only [hx]
  | cons y front ih =>
    obtain ⟨hy, hrest⟩ := List.forall_mem_cons.1 hfront
    rw [List.cons_append, select_cons hy, ih hrest, List.filter_cons]
    cases verdict y with
    | true => rfl
    | false => rfl

end Selecting

theorem PathPattern.exists_anyAccepts (path : String) (ps : List PathPattern) :
    ∃ b, anyAccepts (.text path) ps = .ok b := by
  induction ps with
  | nil => exact ⟨false, rfl⟩
  | cons p ps ih =>
    have htest : p.test (.text path) = .ok (p.verdict (Text.pointsOf path.toList)) := rfl
    rw [anyAccepts, htest]
    cases p.verdict (Text.pointsOf path.toList) with
    | true => exact ⟨true, rfl⟩
    | false => exact ih

theorem Engine.exists_firstApplying (e : Engine) (path : String) (entries : List EngineEntry) :
    ∃ found, e.firstApplying (.text path) entries = .ok found := by
  induction entries with
  | nil => exact ⟨none, rfl⟩
  | cons x entries ih =>
    have happlies : ∃ b, e.applies (.text path) x = .ok b := by
      unfold applies
      split
      · exact PathPattern.exists_anyAccepts path x.patterns
      · exact ⟨false, rfl⟩
    obtain ⟨b, hb⟩ := happlies
    rw [firstApplying, hb]
    cases b with
    | true => exact ⟨some x, rfl⟩
    | false => exact ih

/-- An engine has a verdict on every path. -/
theorem Engine.exists_includes (e : Engine) (path : String) :
    ∃ b, e.includes (.text path) = .ok b := by
  obtain ⟨found, hfound⟩ := e.exists_firstApplying path e.entries
  rw [includes, hfound]
  exact ⟨_, rfl⟩

namespace Command.Judge

/-- The verdict on a path. -/
def verdict (j : Judge) (path : String) : Bool := (j.accepts path).toOption = some true

/-- A judge has a verdict on every path. -/
theorem accepts_eq (j : Judge) (path : String) : j.accepts path = .ok (j.verdict path) := by
  have haccepts : ∃ b, j.accepts path = .ok b := by
    cases j with
    | byPattern p => exact ⟨_, rfl⟩
    | byRules e inverted =>
      obtain ⟨b, hb⟩ := e.exists_includes path
      rw [accepts, hb]
      exact ⟨_, rfl⟩
  obtain ⟨b, hb⟩ := haccepts
  rw [verdict, hb]
  cases b with
  | true => rfl
  | false => rfl

end Command.Judge

/-! ### Flags -/

namespace Flags

/-- A value that cannot be gone through: a double, a date or a moment. -/
def Unreadable : Value → Prop
  | .float _ | .scalar (.date _) | .scalar (.moment _) => True
  | _ => False

theorem addElement_ne_notIterable (f : Flags) (a : Argument) (name : String) :
    addElement f a ≠ .error (.notIterable name) := by
  intro h
  unfold addElement at h
  split at h
  · split at h
    · cases h
    · cases h
  · cases h
  · split at h
    · cases h
    · cases h

theorem foldlM_ne_notIterable (f : Flags) (items : List Argument) (name : String) :
    items.foldlM addElement f ≠ .error (.notIterable name) := by
  induction items generalizing f with
  | nil => exact fun h => nomatch h
  | cons a items ih =>
    rw [List.foldlM_cons]
    cases ha : addElement f a with
    | ok g => exact ih g
    | error e =>
      intro h
      obtain rfl : e = .notIterable name := Except.error.inj h
      exact addElement_ne_notIterable f a name ha

theorem ofMask_ne_notIterable (n : Int) (name : String) :
    ofMask n ≠ .error (.notIterable name) := by
  intro h
  unfold ofMask at h
  split at h
  · cases h
  · split at h
    · cases h
    · cases h

/-- Only what cannot be gone through is refused for that. -/
theorem exists_notIterable_iff {v : Value} :
    (∃ name, ofValue v = .error (.notIterable name)) ↔ Unreadable v := by
  cases v with
  | list items =>
    exact iff_of_false (fun ⟨name, h⟩ => foldlM_ne_notIterable none _ name h) fun h => h
  | map entries =>
    exact iff_of_false (fun ⟨name, h⟩ => foldlM_ne_notIterable none _ name h) fun h => h
  | scalar s =>
    cases s with
    | null => exact iff_of_false (fun ⟨name, h⟩ => nomatch h) fun h => h
    | bool b => exact iff_of_false (fun ⟨name, h⟩ => nomatch h) fun h => h
    | int n => exact iff_of_false (fun ⟨name, h⟩ => ofMask_ne_notIterable n name h) fun h => h
    | text s =>
      exact iff_of_false (fun ⟨name, h⟩ => addElement_ne_notIterable none (.text s) name h) fun h => h
    | codes ps =>
      have hname : ∀ name, ofValue (.scalar (.codes ps)) ≠ .error (.notIterable name) :=
        fun name => addElement_ne_notIterable none (.value (.scalar (.codes ps))) name
      exact iff_of_false (fun ⟨name, h⟩ => hname name h) fun h => h
    | float d => exact iff_of_true ⟨_, rfl⟩ trivial
    | date d => exact iff_of_true ⟨_, rfl⟩ trivial
    | moment m => exact iff_of_true ⟨_, rfl⟩ trivial

/-! #### Masks -/

/-- A set has no bits without a meaning. -/
def Known (f : Flags) : Prop := f.mask < 8

theorem known_none : none.Known := Nat.succ_pos 7

theorem Known.union {f g : Flags} (hf : f.Known) (hg : g.Known) : (f.union g).Known :=
  Nat.or_lt_two_pow (n := 3) hf hg

theorem known_ofBools (inversive caseSensitive fullPath : Bool) :
    (ofBools inversive caseSensitive fullPath).Known := by
  have h (b : Bool) : b.toNat ≤ 1 := b.toNat_le
  have h₁ := h inversive
  have h₂ := h caseSensitive
  have h₃ := h fullPath
  show inversive.toNat + 2 * caseSensitive.toNat + 4 * fullPath.toNat < 8
  omega

theorem addElement_known {f g : Flags} {a : Argument} (hf : f.Known) (h : addElement f a = .ok g) :
    g.Known := by
  obtain ⟨s, f', rfl, hname⟩ := exists_addElement_iff.1 ⟨g, h⟩
  rw [addElement, hname] at h
  cases h
  refine hf.union ?_
  unfold ofName? named? at hname
  split at hname
  · cases hname
    exact known_none
  · cases hname
    exact Nat.lt_of_sub_eq_succ rfl
  · cases hname
    exact Nat.lt_of_sub_eq_succ rfl
  · cases hname
    exact Nat.lt_of_sub_eq_succ rfl
  · cases hname

theorem foldlM_known {f g : Flags} {items : List Argument} (hf : f.Known)
    (h : items.foldlM addElement f = .ok g) : g.Known := by
  induction items generalizing f with
  | nil =>
    cases h
    exact hf
  | cons a items ih =>
    rw [List.foldlM_cons] at h
    cases ha : addElement f a with
    | error e =>
      rw [ha] at h
      cases h
    | ok f' =>
      rw [ha] at h
      exact ih (addElement_known hf ha) h

theorem ofMask_known {n : Int} {f : Flags} (h : ofMask n = .ok f) : f.Known := by
  unfold ofMask at h
  split at h
  · rename_i hn
    cases h
    have hle : n ≤ 7 := hn.2
    show n.toNat < 8
    omega
  · split at h
    · cases h
    · cases h

/-- A value of a configuration stands for bits with a meaning only. -/
theorem ofValue_known {v : Value} {f : Flags} (h : ofValue v = .ok f) : f.Known := by
  cases v with
  | list items =>
    have hfold : (items.map Argument.value).foldlM addElement none = .ok f := h
    exact foldlM_known known_none hfold
  | map entries =>
    have hfold : (entries.map fun kv => Argument.value (.scalar kv.1)).foldlM addElement none =
        .ok f := h
    exact foldlM_known known_none hfold
  | scalar s =>
    cases s with
    | null =>
      cases h
      exact known_none
    | bool b => cases h
    | int n => exact ofMask_known h
    | text s => exact addElement_known known_none (a := .text s) h
    | codes ps => exact addElement_known known_none (a := .value (.scalar (.codes ps))) h
    | float d => cases h
    | date d => cases h
    | moment m => cases h

/-- A set without other bits is read from its mask. -/
theorem ofValue_mask {f : Flags} (h : f.Known) : ofValue (.int f.mask) = .ok f := by
  have hle : (0 : Int) ≤ f.mask ∧ (f.mask : Int) ≤ knownMask := by
    have hlt : f.mask < 8 := h
    have hmask : knownMask = 7 := rfl
    omega
  show ofMask f.mask = _
  rw [ofMask, if_pos hle]
  rfl

end Flags

/-! ### Judges -/

namespace Command

/-- The section of some layers cannot even be looked into: it is no map, or its flags cannot be
gone through. -/
def Unusable (l : Settings.Layers) : Prop :=
  (∀ fields, l.programSection ≠ .map fields) ∨
    ∃ (fields : Entries) (v : Value), l.programSection = .map fields ∧
      fields.field? "flags" = some v ∧ Flags.Unreadable v

/-- What a judge needs: a section whose flags can be read, and either a pattern that compiles or
rules that are valid with all of the section. -/
def Sound (o : Options) (l : Settings.Layers) : Prop :=
  ∃ fields flags, l.programSection = .map fields ∧ Judge.sectionFlags fields = .ok flags ∧
    match o.pattern with
    | some text => ∃ a, Pattern.compile (Text.pointsOf text.toList) = .ok a
    | none => validateSection (.map fields) = .ok ()

/-- A section with other flags is as valid as before. -/
theorem validateSection_setFlags {fields : Entries} {flags own : Flags}
    (hown : Judge.sectionFlags fields = .ok own) (hflags : flags.Known) :
    validateSection (.map (fields.setField "flags" (.int flags.mask))) = .ok () ↔
      validateSection (.map fields) = .ok () := by
  have hfield : ∀ {name : String}, name ≠ "flags" →
      (fields.setField "flags" (.int flags.mask)).field? name = fields.field? name :=
    fun hname => Entries.field?_setField_of_ne hname _ _
  rw [validateSection_eq_ok_iff, validateSection_eq_ok_iff, exists_map_iff, exists_map_iff]
  constructor
  · intro h
    constructor
    · intro v hv
      rw [Judge.sectionFlags, hv] at hown
      exact ⟨own, hown⟩
    · exact fun v hv => h.action v ((hfield (by decide)).trans hv)
    · exact fun v hv => h.rules v ((hfield (by decide)).trans hv)
    · exact fun v hv => h.logging v ((hfield (by decide)).trans hv)
  · intro h
    constructor
    · intro v hv
      rw [Entries.field?_setField] at hv
      obtain rfl := Option.some.inj hv
      exact ⟨flags, Flags.ofValue_mask hflags⟩
    · exact fun v hv => h.action v ((hfield (by decide)).symm.trans hv)
    · exact fun v hv => h.rules v ((hfield (by decide)).symm.trans hv)
    · exact fun v hv => h.logging v ((hfield (by decide)).symm.trans hv)

namespace Judge

variable {o : Options} {l : Settings.Layers}

/-- The ending for bad flags. -/
theorem flagsEnding_cases (e : FlagsError) :
    (∃ name, e = .notIterable name ∧ flagsEnding e = .broken .wrongType) ∨
      (∀ name, e ≠ .notIterable name) ∧ flagsEnding e = .refused (.flags e) := by
  cases e with
  | notIterable name => exact .inl ⟨name, rfl, rfl⟩
  | _ => exact .inr ⟨fun _ h => (nomatch h), rfl⟩

theorem install_error {text : List Text.CodePoint} {flags : Flags} {e : PatternError}
    (h : (PathPattern.install false text flags).1 = .error e) : ∃ x, e = .format x := by
  unfold PathPattern.install at h
  split at h
  · rename_i x hx
    obtain rfl := Except.error.inj h
    unfold PathPattern.arenaOf at hx
    split at hx
    · exact ⟨_, (Except.error.inj hx).symm⟩
    · split at hx
      · rename_i hexhausted
        cases hexhausted
      · split at hx
        · exact ⟨_, (Except.error.inj hx).symm⟩
        · cases hx
  · cases h

/-- A pattern is refused unless it compiles. -/
theorem ofPattern_cases (text : String) (flags : Flags) :
    ((∀ a, Pattern.compile (Text.pointsOf text.toList) ≠ .ok a) ∧
        ∃ r log, ofPattern text flags = (.error (.refused r), log)) ∨
      (∃ a, Pattern.compile (Text.pointsOf text.toList) = .ok a) ∧
        ∃ j log, ofPattern text flags = (.ok j, log) := by
  unfold ofPattern
  rcases hinstall : PathPattern.install false (Text.pointsOf text.toList) flags with ⟨result, log⟩
  cases result with
  | error e =>
    obtain ⟨x, rfl⟩ := install_error (congrArg Prod.fst hinstall)
    refine .inl ⟨fun a ha => ?_, _, log, rfl⟩
    have hok : (PathPattern.install false _ flags).1 = .ok _ :=
      PathPattern.install_eq_ok_iff.2 ⟨rfl, a, ha, rfl⟩
    rw [hinstall] at hok
    cases hok
  | ok p =>
    obtain ⟨-, a, ha, -⟩ := PathPattern.install_eq_ok_iff.1 (congrArg Prod.fst hinstall)
    exact .inr ⟨⟨a, ha⟩, _, _, rfl⟩

/-- Rules are refused unless they are valid. -/
theorem ofRules_cases {fields : Entries} {own flags : Flags}
    (hown : sectionFlags fields = .ok own) (hflags : flags.Known) (inverted : Bool) :
    (validateSection (.map fields) ≠ .ok () ∧
        ∃ r log, ofRules fields flags inverted = (.error (.refused r), log)) ∨
      validateSection (.map fields) = .ok () ∧
        ∃ j log, ofRules fields flags inverted = (.ok j, log) := by
  have hvalid := validateSection_setFlags hown hflags
  unfold ofRules
  cases hengine : Engine.ofSection (.map (fields.setField "flags" (.int flags.mask))) with
  | error x =>
    obtain ⟨e, rfl, herror⟩ := Engine.ofSection_error hengine
    refine .inl ⟨fun h => ?_, _, _, rfl⟩
    rw [hvalid.2 h] at herror
    cases herror
  | ok result =>
    refine .inr ⟨hvalid.1 ?_, _, _, rfl⟩
    cases hcheck : validateSection (.map (fields.setField "flags" (.int flags.mask))) with
    | error x =>
      unfold Engine.ofSection at hengine
      rw [hcheck] at hengine
      cases hengine
    | ok u => rfl

theorem make_of_pattern {fields : Entries} {own : Flags} {text : String}
    (hsection : l.programSection = .map fields) (hown : sectionFlags fields = .ok own)
    (hpattern : o.pattern = some text) : make o l = ofPattern text (own.union o.flags) := by
  simp only [make, hpattern, hsection, hown]

theorem make_of_rules {fields : Entries} {own : Flags}
    (hsection : l.programSection = .map fields) (hown : sectionFlags fields = .ok own)
    (hpattern : o.pattern = none) :
    make o l = ofRules fields (own.union { o with invert := false }.flags) o.invert := by
  simp only [make, hpattern, hsection, hown]

/-- With flags that can be read it is the pattern or the rules that decide. -/
theorem make_of_flags {fields : Entries} {own : Flags} (hsection : l.programSection = .map fields)
    (hown : sectionFlags fields = .ok own) :
    (¬Sound o l ∧ ∃ r log, make o l = (.error (.refused r), log)) ∨
      Sound o l ∧ ∃ j log, make o l = (.ok j, log) := by
  have hsound : Sound o l ↔ match o.pattern with
      | some text => ∃ a, Pattern.compile (Text.pointsOf text.toList) = .ok a
      | none => validateSection (.map fields) = .ok () := by
    constructor
    · rintro ⟨fields', flags, hsection', -, h⟩
      cases hsection.symm.trans hsection'
      exact h
    · intro h
      exact ⟨fields, own, hsection, hown, h⟩
  cases hpattern : o.pattern with
  | some text =>
    rw [hsound, hpattern, make_of_pattern hsection hown hpattern]
    rcases ofPattern_cases text (own.union o.flags) with ⟨hcompile, hrefused⟩ | ⟨hcompile, hmade⟩
    · exact .inl ⟨fun ⟨a, ha⟩ => hcompile a ha, hrefused⟩
    · exact .inr ⟨hcompile, hmade⟩
  | none =>
    have hknown : (own.union { o with invert := false }.flags).Known :=
      (Flags.ofValue_known hown).union (Flags.known_ofBools ..)
    rw [hsound, hpattern, make_of_rules hsection hown hpattern]
    exact ofRules_cases hown hknown o.invert

/-- A section that is a map is looked into unless its flags cannot be gone through. -/
theorem unusable_iff {fields : Entries} (hsection : l.programSection = .map fields) :
    Unusable l ↔ ∃ name, sectionFlags fields = .error (.notIterable name) := by
  constructor
  · rintro (hno | ⟨fields', v, hsection', hv, hunreadable⟩)
    · exact absurd hsection (hno fields)
    · cases hsection.symm.trans hsection'
      obtain ⟨name, hname⟩ := Flags.exists_notIterable_iff.2 hunreadable
      exact ⟨name, by rw [sectionFlags, hv, Option.getD_some, hname]⟩
  · intro h
    have hunreadable := Flags.exists_notIterable_iff.1 h
    cases hfield : Entries.field? fields "flags" with
    | none =>
      rw [hfield] at hunreadable
      exact hunreadable.elim
    | some v =>
      rw [hfield] at hunreadable
      exact .inr ⟨fields, v, hsection, hfield, hunreadable⟩

/-- When a run has a judge, when it is refused one, and when it breaks off instead. -/
theorem make_cases (o : Options) (l : Settings.Layers) :
    (Unusable l ∧ ∃ b, make o l = (.error (.broken b), [])) ∨
      (¬Unusable l ∧ ¬Sound o l ∧ ∃ r log, make o l = (.error (.refused r), log)) ∨
      ¬Unusable l ∧ Sound o l ∧ ∃ j log, make o l = (.ok j, log) := by
  by_cases hmap : ∃ fields, l.programSection = .map fields
  · obtain ⟨fields, hsection⟩ := hmap
    rw [unusable_iff hsection]
    cases hflags : sectionFlags fields with
    | error e =>
      have hmake : make o l = (.error (flagsEnding e), []) := by
        cases hpattern : o.pattern with
        | some text => simp only [make, hpattern, hsection, hflags]
        | none => simp only [make, hpattern, hsection, hflags]
      rw [hmake]
      rcases flagsEnding_cases e with ⟨name, rfl, hending⟩ | ⟨hother, hending⟩
      · exact .inl ⟨⟨name, rfl⟩, _, by rw [hending]⟩
      · have hsound : ¬Sound o l := by
          rintro ⟨fields', flags, hsection', hown, -⟩
          cases hsection.symm.trans hsection'
          rw [hflags] at hown
          cases hown
        have husable : ¬∃ name, (.error e : Except FlagsError Flags) = .error (.notIterable name) :=
          fun ⟨name, h⟩ => hother name (Except.error.inj h)
        exact .inr (.inl ⟨husable, hsound, _, [], by rw [hending]⟩)
    | ok own =>
      have husable : ¬∃ name, (.ok own : Except FlagsError Flags) = .error (.notIterable name) :=
        fun ⟨name, h⟩ => nomatch h
      rcases make_of_flags hsection hflags with ⟨hsound, hrefused⟩ | ⟨hsound, hmade⟩
      · exact .inr (.inl ⟨husable, hsound, hrefused⟩)
      · exact .inr (.inr ⟨husable, hsound, hmade⟩)
  · have hno : ∀ fields, l.programSection ≠ .map fields := fun fields h => hmap ⟨fields, h⟩
    refine .inl ⟨.inl hno, ?_⟩
    unfold make
    split
    · rename_i fields _ hsection
      exact absurd hsection (hno fields)
    · rename_i fields _ hsection
      exact absurd hsection (hno fields)
    · exact ⟨_, rfl⟩
    · exact ⟨_, rfl⟩

end Judge

end Command

end PathSieve
