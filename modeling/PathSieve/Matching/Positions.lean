namespace PathSieve.Matching

/-!
# Sets of positions

A finite set of positions in a text, held as the bits of a natural number; `p ∈ s` is its only
view, and each operation has one membership lemma.

* `insert`, `union`, `inter`, `diff`, `interval`, `shift`, `select`, `spread` — the operations.
* `least?` — the least member.
* `toList` — the members in increasing order.
-/

/-- A finite set of positions. -/
structure Positions where
  bits : Nat
  deriving DecidableEq, Repr

namespace Positions

instance : Membership Nat Positions := ⟨fun s p => s.bits.testBit p = true⟩

instance (p : Nat) (s : Positions) : Decidable (p ∈ s) :=
  inferInstanceAs (Decidable (s.bits.testBit p = true))

theorem mem_def {p : Nat} {s : Positions} : p ∈ s ↔ s.bits.testBit p = true := Iff.rfl

/-- Sets with the same members are equal. -/
theorem ext {s t : Positions} (h : ∀ p, p ∈ s ↔ p ∈ t) : s = t := by
  cases s; cases t
  congr
  exact Nat.eq_of_testBit_eq fun p => Bool.eq_iff_iff.2 (h p)

/-! ### Construction -/

/-- The set without members. -/
def empty : Positions := ⟨0⟩

/-- The set with one member. -/
def single (p : Nat) : Positions := ⟨1 <<< p⟩

/-- Adds a member. -/
def insert (p : Nat) (s : Positions) : Positions := ⟨s.bits ||| 1 <<< p⟩

/-- The union of two sets. -/
def union (s t : Positions) : Positions := ⟨s.bits ||| t.bits⟩

/-- The members that two sets share. -/
def inter (s t : Positions) : Positions := ⟨s.bits &&& t.bits⟩

/-- The members of `s` that are not in `t`. -/
def diff (s t : Positions) : Positions := ⟨s.bits ^^^ (s.bits &&& t.bits)⟩

/-- The positions from `low` to `high`, both included. -/
def interval (low high : Nat) : Positions := ⟨(1 <<< (high + 1 - low) - 1) <<< low⟩

/-- The set moved up by `k`. -/
def shift (k : Nat) (s : Positions) : Positions := ⟨s.bits <<< k⟩

@[simp] theorem not_mem_empty (p : Nat) : p ∉ empty := by simp [mem_def, empty]

@[simp] theorem mem_single {p q : Nat} : p ∈ single q ↔ p = q := by
  simp only [mem_def, single, Nat.shiftLeft_eq, Nat.one_mul, Nat.testBit_two_pow,
    decide_eq_true_eq]
  exact eq_comm

@[simp] theorem mem_insert {p q : Nat} {s : Positions} : p ∈ s.insert q ↔ p = q ∨ p ∈ s := by
  simp only [mem_def, insert, Nat.shiftLeft_eq, Nat.one_mul, Nat.testBit_or, Nat.testBit_two_pow,
    Bool.or_eq_true, decide_eq_true_eq]
  exact ⟨fun h => h.elim Or.inr fun h => .inl h.symm, fun h => h.elim (fun h => .inr h.symm) .inl⟩

@[simp] theorem mem_union {p : Nat} {s t : Positions} : p ∈ s.union t ↔ p ∈ s ∨ p ∈ t := by
  simp [mem_def, union]

@[simp] theorem mem_inter {p : Nat} {s t : Positions} : p ∈ s.inter t ↔ p ∈ s ∧ p ∈ t := by
  simp [mem_def, inter]

@[simp] theorem mem_diff {p : Nat} {s t : Positions} : p ∈ s.diff t ↔ p ∈ s ∧ p ∉ t := by
  cases hs : s.bits.testBit p <;> cases ht : t.bits.testBit p <;>
    simp [mem_def, diff, hs, ht]

@[simp] theorem mem_interval {p low high : Nat} : p ∈ interval low high ↔ low ≤ p ∧ p ≤ high := by
  simp only [mem_def, interval, Nat.testBit_shiftLeft, Nat.one_shiftLeft,
    Nat.testBit_two_pow_sub_one, Bool.and_eq_true, decide_eq_true_eq]
  omega

@[simp] theorem mem_shift {p k : Nat} {s : Positions} : p ∈ s.shift k ↔ k ≤ p ∧ p - k ∈ s := by
  simp [mem_def, shift, Nat.testBit_shiftLeft]

/-! ### Selection -/

/-- The bits of the `1 <<< k` positions from `low` on that satisfy `q`. -/
def gatherBits (q : Nat → Bool) : (k low : Nat) → Nat
  | 0, low => (q low).toNat
  | k + 1, low => gatherBits q k low ||| gatherBits q k (low + 1 <<< k) <<< (1 <<< k)

theorem testBit_gatherBits (q : Nat → Bool) (k low p : Nat) :
    (gatherBits q k low).testBit p = (decide (p < 1 <<< k) && q (low + p)) := by
  induction k generalizing low p with
  | zero =>
    cases p with
    | zero => cases h : q low <;> simp [gatherBits, h]
    | succ p => cases h : q low <;> simp [gatherBits, h, Nat.testBit_succ]
  | succ k ih =>
    have hk : 1 <<< (k + 1) = 1 <<< k + 1 <<< k := by
      simp only [Nat.one_shiftLeft, Nat.pow_succ]
      omega
    rw [Bool.eq_iff_iff]
    simp only [gatherBits, Nat.testBit_or, Nat.testBit_shiftLeft, ih, Bool.or_eq_true,
      Bool.and_eq_true, decide_eq_true_eq, hk]
    generalize 1 <<< k = w
    rcases Nat.lt_or_ge p w with h | h
    · simp [h, Nat.not_le.2 h]
      omega
    · rw [show low + w + (p - w) = low + p by omega]
      exact ⟨fun | .inl h' => ⟨by omega, h'.2⟩ | .inr h' => ⟨by omega, h'.2.2⟩,
        fun h' => .inr ⟨h, by omega, h'.2⟩⟩

/-- The positions below `n` that satisfy `q`. -/
def select (n : Nat) (q : Nat → Bool) : Positions :=
  ⟨gatherBits (fun p => p < n && q p) (n.log2 + 1) 0⟩

@[simp] theorem mem_select {p n : Nat} {q : Nat → Bool} : p ∈ select n q ↔ p < n ∧ q p := by
  simp only [mem_def, select, testBit_gatherBits, Nat.zero_add, Nat.one_shiftLeft,
    Bool.and_eq_true, decide_eq_true_eq, and_iff_right_iff_imp]
  exact fun h => Nat.lt_trans h.1 Nat.lt_log2_self

/-! ### Spreading -/

/-- The positions reached from those of `s` by steps of one, each from a position in `ground`.
Addition carries through every run of positions in `ground` from its first position in `s` on. -/
def spread (s ground : Positions) : Positions :=
  ⟨s.bits ||| ((ground.bits + (s.bits &&& ground.bits)) ^^^ ground.bits)⟩

/-- A bit of a sum is the sum of the two bits and of the carry from those below. -/
theorem testBit_add (m n p : Nat) :
    (m + n).testBit p =
      (m.testBit p ^^ (n.testBit p ^^ decide (1 <<< p ≤ m % (1 <<< p) + n % (1 <<< p)))) := by
  have h := BitVec.getLsbD_add (Nat.lt_succ_self p) (BitVec.ofNat (p + 1) m)
    (BitVec.ofNat (p + 1) n)
  have hdvd := Nat.pow_dvd_pow 2 (Nat.le_succ p)
  rw [← BitVec.ofNat_add] at h
  simp only [Nat.one_shiftLeft]
  simpa only [BitVec.getLsbD_ofNat, BitVec.carry, BitVec.toNat_ofNat, Nat.mod_mod_of_dvd _ hdvd,
    Nat.lt_succ_self, decide_true, Bool.true_and, Bool.toNat_false, Nat.add_zero, ge_iff_le] using h

/-- Whether the sum carries into position `p`. -/
def carriesInto (s ground : Positions) (p : Nat) : Bool :=
  1 <<< p ≤ ground.bits % (1 <<< p) + (s.bits &&& ground.bits) % (1 <<< p)

theorem mem_spread_iff_carries {s ground : Positions} {p : Nat} :
    p ∈ s.spread ground ↔ p ∈ s ∨ carriesInto s ground p := by
  simp only [mem_def, spread, Nat.testBit_or, Nat.testBit_xor, testBit_add, Nat.testBit_and,
    carriesInto]
  generalize decide (1 <<< p ≤ _) = carry
  cases s.bits.testBit p <;> cases ground.bits.testBit p <;> cases carry <;> decide

theorem carriesInto_zero (s ground : Positions) : carriesInto s ground 0 = false := by
  simp [carriesInto, Nat.mod_one]

/-- The low bits of a number, the highest of them apart. -/
theorem mod_one_shiftLeft_succ (x i : Nat) :
    x % (1 <<< (i + 1)) = 1 <<< i * (x.testBit i).toNat + x % (1 <<< i) := by
  rw [Nat.one_shiftLeft, Nat.one_shiftLeft, Nat.mod_pow_succ, Nat.add_comm, Nat.toNat_testBit]

theorem carriesInto_succ (s ground : Positions) (p : Nat) :
    carriesInto s ground (p + 1) = decide (p ∈ ground ∧ p ∈ s.spread ground) := by
  have hw : 0 < 1 <<< p := by rw [Nat.one_shiftLeft]; exact Nat.two_pow_pos p
  have hsucc : 1 <<< (p + 1) = 1 <<< p * 2 := by
    rw [Nat.one_shiftLeft, Nat.one_shiftLeft, Nat.pow_succ]
  have ho := Nat.mod_lt ground.bits hw
  have hs := Nat.mod_lt (s.bits &&& ground.bits) hw
  rw [Bool.eq_iff_iff, decide_eq_true_eq, mem_spread_iff_carries]
  simp only [carriesInto, mem_def, mod_one_shiftLeft_succ, Nat.testBit_and, decide_eq_true_eq]
  rw [hsucc]
  generalize 1 <<< p = w at *
  cases s.bits.testBit p <;> cases ground.bits.testBit p <;> simp <;> omega

@[simp] theorem mem_spread_zero {s ground : Positions} : 0 ∈ s.spread ground ↔ 0 ∈ s := by
  simp [mem_spread_iff_carries, carriesInto_zero]

theorem mem_spread_succ {s ground : Positions} {p : Nat} :
    p + 1 ∈ s.spread ground ↔ p + 1 ∈ s ∨ (p ∈ ground ∧ p ∈ s.spread ground) := by
  rw [mem_spread_iff_carries, carriesInto_succ, decide_eq_true_eq]

theorem mem_spread {s ground : Positions} {p : Nat} :
    p ∈ s.spread ground ↔ ∃ q ∈ s, q ≤ p ∧ ∀ r, q ≤ r → r < p → r ∈ ground := by
  induction p with
  | zero =>
    rw [mem_spread_zero]
    exact ⟨fun h => ⟨0, h, Nat.le_refl 0, by omega⟩, fun ⟨q, h, hq, _⟩ => by
      obtain rfl : q = 0 := by omega
      exact h⟩
  | succ p ih =>
    rw [mem_spread_succ, ih]
    constructor
    · rintro (h | ⟨ho, q, hq, hle, hall⟩)
      · exact ⟨p + 1, h, Nat.le_refl _, by omega⟩
      · refine ⟨q, hq, by omega, fun r h₁ h₂ => ?_⟩
        rcases Nat.lt_or_ge r p with h | h
        · exact hall r h₁ h
        · obtain rfl : r = p := by omega
          exact ho
    · rintro ⟨q, hq, hle, hall⟩
      rcases Nat.lt_or_ge p q with h | h
      · obtain rfl : q = p + 1 := by omega
        exact .inl hq
      · exact .inr ⟨hall p h (by omega), q, hq, h, fun r h₁ h₂ => hall r h₁ (by omega)⟩

/-! ### Traversal -/

/-- The members among the `1 <<< k` positions from `low` on, whose bits are given. -/
def membersFrom : (k low bits : Nat) → List Nat
  | 0, low, bits => if bits.testBit 0 then [low] else []
  | k + 1, low, bits =>
    if bits = 0 then []
    else membersFrom k low (bits &&& (1 <<< (1 <<< k) - 1)) ++
      membersFrom k (low + 1 <<< k) (bits >>> (1 <<< k))

theorem mem_membersFrom {k low bits p : Nat} :
    p ∈ membersFrom k low bits ↔ low ≤ p ∧ p < low + 1 <<< k ∧ bits.testBit (p - low) := by
  induction k generalizing low bits with
  | zero =>
    simp only [membersFrom, Nat.shiftLeft_zero]
    split <;> rename_i h
    · rw [List.mem_singleton]
      refine ⟨fun e => by subst e; simpa using h, fun ⟨h₁, h₂, _⟩ => by omega⟩
    · refine ⟨fun e => by simp at e, fun ⟨h₁, h₂, h₃⟩ => ?_⟩
      obtain rfl : p = low := by omega
      simp_all
  | succ k ih =>
    simp only [membersFrom]
    split <;> rename_i h
    · simp [h]
    · have hk : 1 <<< (k + 1) = 1 <<< k * 2 := by
        rw [Nat.one_shiftLeft, Nat.one_shiftLeft, Nat.pow_succ]
      simp only [List.mem_append, ih, hk]
      generalize 1 <<< k = w
      simp only [Nat.one_shiftLeft, Nat.testBit_and, Nat.testBit_two_pow_sub_one,
        Nat.testBit_shiftRight, Bool.and_eq_true, decide_eq_true_eq]
      constructor
      · rintro (⟨h₁, h₂, h₃, h₄⟩ | ⟨h₁, h₂, h₃⟩)
        · exact ⟨h₁, by omega, h₃⟩
        · have : w + (p - (low + w)) = p - low := by omega
          exact ⟨by omega, by omega, this ▸ h₃⟩
      · rintro ⟨h₁, h₂, h₃⟩
        rcases Nat.lt_or_ge p (low + w) with h | h
        · exact .inl ⟨h₁, h, h₃, by omega⟩
        · have : w + (p - (low + w)) = p - low := by omega
          exact .inr ⟨h, by omega, this ▸ h₃⟩

/-- The members in increasing order. -/
def toList (s : Positions) : List Nat := membersFrom (s.bits.log2.log2 + 1) 0 s.bits

@[simp] theorem mem_toList {p : Nat} {s : Positions} : p ∈ s.toList ↔ p ∈ s := by
  simp only [toList, mem_membersFrom, mem_def, Nat.zero_le, true_and, Nat.zero_add, Nat.sub_zero,
    Nat.one_shiftLeft, and_iff_right_iff_imp]
  intro h
  have h0 : s.bits ≠ 0 := fun h0 => by simp [h0] at h
  have hp : p ≤ s.bits.log2 := (Nat.le_log2 h0).2 (Nat.ge_two_pow_of_testBit h)
  exact Nat.lt_of_le_of_lt hp Nat.lt_log2_self

/-- The members come in increasing order, each once. -/
theorem pairwise_membersFrom (k low bits : Nat) :
    (membersFrom k low bits).Pairwise (· < ·) := by
  induction k generalizing low bits with
  | zero => simp only [membersFrom]; split <;> simp
  | succ k ih =>
    simp only [membersFrom]
    split
    · exact .nil
    · refine List.pairwise_append.2 ⟨ih .., ih .., fun a ha b hb => ?_⟩
      have ha := (mem_membersFrom.1 ha).2.1
      have hb := (mem_membersFrom.1 hb).1
      omega

theorem pairwise_toList (s : Positions) : s.toList.Pairwise (· < ·) := pairwise_membersFrom ..

/-- The least member among the `1 <<< k` positions from `low` on, whose bits are given. -/
def leastFrom? : (k low bits : Nat) → Option Nat
  | 0, low, bits => if bits.testBit 0 then some low else none
  | k + 1, low, bits =>
    if bits = 0 then none
    else match leastFrom? k low (bits &&& (1 <<< (1 <<< k) - 1)) with
      | some p => some p
      | none => leastFrom? k (low + 1 <<< k) (bits >>> (1 <<< k))

theorem leastFrom?_eq (k low bits : Nat) :
    leastFrom? k low bits = (membersFrom k low bits).head? := by
  induction k generalizing low bits with
  | zero => simp only [leastFrom?, membersFrom]; split <;> rfl
  | succ k ih =>
    simp only [leastFrom?, membersFrom, ih]
    split
    · rfl
    · rw [List.head?_append]
      cases (membersFrom k low (bits &&& (1 <<< (1 <<< k) - 1))).head? <;> rfl

/-- The least member. -/
def least? (s : Positions) : Option Nat := leastFrom? (s.bits.log2.log2 + 1) 0 s.bits

theorem least?_eq_head? (s : Positions) : s.least? = s.toList.head? := leastFrom?_eq ..

@[simp] theorem least?_empty : empty.least? = none := rfl

theorem least?_eq_some_iff {s : Positions} {p : Nat} :
    s.least? = some p ↔ p ∈ s ∧ ∀ q ∈ s, p ≤ q := by
  rw [least?_eq_head?]
  have hs : s.toList.Pairwise (· < ·) := s.pairwise_toList
  constructor
  · intro h
    obtain ⟨rest, hl⟩ := List.head?_eq_some_iff.1 h
    rw [hl] at hs
    refine ⟨mem_toList.1 (by simp [hl]), fun q hq => ?_⟩
    have hq := mem_toList.2 hq
    rw [hl] at hq
    rcases List.mem_cons.1 hq with rfl | hq
    · exact Nat.le_refl _
    · exact Nat.le_of_lt (List.rel_of_pairwise_cons hs hq)
  · rintro ⟨hp, hall⟩
    cases hl : s.toList with
    | nil => have := mem_toList.2 hp; simp [hl] at this
    | cons a rest =>
      rw [hl] at hs
      have ha := hall a (mem_toList.1 (by simp [hl]))
      have hp := mem_toList.2 hp
      rw [hl] at hp
      rcases List.mem_cons.1 hp with rfl | hp
      · rfl
      · have := List.rel_of_pairwise_cons hs hp
        omega

/-- The set of the members of a list. -/
def ofList (ps : List Nat) : Positions := ps.foldl (fun s p => s.insert p) empty

theorem mem_foldl_insert {p : Nat} {ps : List Nat} {s : Positions} :
    p ∈ ps.foldl (fun s q => s.insert q) s ↔ p ∈ ps ∨ p ∈ s := by
  induction ps generalizing s with
  | nil => simp
  | cons q ps ih => simp only [List.foldl_cons, ih, mem_insert, List.mem_cons]; grind

@[simp] theorem mem_ofList {p : Nat} {ps : List Nat} : p ∈ ofList ps ↔ p ∈ ps := by
  simp [ofList, mem_foldl_insert]

theorem mem_foldl_union {p : Nat} {sets : List Positions} {s : Positions} :
    p ∈ sets.foldl .union s ↔ p ∈ s ∨ ∃ t ∈ sets, p ∈ t := by
  induction sets generalizing s with
  | nil => simp
  | cons t sets ih => simp only [List.foldl_cons, ih, mem_union, List.mem_cons]; grind

/-- Whether there are no members. -/
def isEmpty (s : Positions) : Bool := s.bits = 0

theorem isEmpty_iff {s : Positions} : s.isEmpty ↔ s = empty := by
  cases s; simp [isEmpty, empty]

end Positions

end PathSieve.Matching
