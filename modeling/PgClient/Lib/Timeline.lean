import Mathlib.Data.List.Count
import Mathlib.Data.List.TakeDrop
import Mathlib.Tactic.Common

/-!
# Timelines — logs with a tick among the events

What happens between two ticks of a log happens in one unit of time.

* `occurrences` — the times at which an event happens.
* `occurrences_append`, `occurrences_flatMap` — they are put together from those of the parts.
* `lt_of_time_lt` — of two events, the one with the smaller time comes first in the log.
-/

namespace Timeline

variable {ε : Type*} [DecidableEq ε] (tick : ε → Bool) (e : ε)

/-- The times at which `e` happens in a log that starts at time `n`. -/
def occurrences : Nat → List ε → List Nat
  | _, [] => []
  | n, a :: log => (if a = e then [n] else []) ++ occurrences (if tick a then n + 1 else n) log

variable {tick e}

/-- What comes later is shifted by the ticks before it. -/
theorem occurrences_append (n : Nat) (log log' : List ε) :
    occurrences tick e n (log ++ log') =
      occurrences tick e n log ++ occurrences tick e (n + log.countP tick) log' := by
  induction log generalizing n with
  | nil => rfl
  | cons a log ih =>
    rw [List.cons_append, occurrences, occurrences, ih, List.append_assoc, List.countP_cons]
    -- the rest starts one later if the first event is a tick
    cases tick a with
    | true => simp only [if_true, Nat.add_assoc, Nat.add_comm 1]
    | false => rfl

/-- An event that is not in the log. -/
theorem occurrences_eq_nil {log : List ε} (h : e ∉ log) (n : Nat) :
    occurrences tick e n log = [] := by
  induction log generalizing n with
  | nil => rfl
  | cons a log ih =>
    obtain ⟨hne, hrest⟩ := List.ne_and_not_mem_of_not_mem_cons h
    rw [occurrences, if_neg (Ne.symm hne), ih hrest, List.append_nil]

/-- Parts without a tick all happen in one unit of time. -/
theorem occurrences_flatMap {α : Type*} {f : α → List ε} (h : ∀ a, (f a).countP tick = 0)
    (xs : List α) (n : Nat) :
    occurrences tick e n (xs.flatMap f) = xs.flatMap fun a => occurrences tick e n (f a) := by
  induction xs with
  | nil => rfl
  | cons a xs ih =>
    rw [List.flatMap_cons, List.flatMap_cons, occurrences_append, h a, Nat.add_zero, ih]

/-- The time of an event is the number of ticks before it. -/
theorem time_mem_occurrences {log : List ε} {i : Nat} (h : log[i]? = some e) (n : Nat) :
    n + (log.take i).countP tick ∈ occurrences tick e n log := by
  obtain ⟨hlt, hget⟩ := List.getElem?_eq_some_iff.mp h
  have hsplit : log = log.take i ++ e :: log.drop (i + 1) := by
    rw [← hget, ← List.drop_eq_getElem_cons hlt, List.take_append_drop]
  have happend : occurrences tick e n (log.take i ++ e :: log.drop (i + 1)) =
      occurrences tick e n (log.take i) ++
        occurrences tick e (n + (log.take i).countP tick) (e :: log.drop (i + 1)) :=
    occurrences_append n (log.take i) (e :: log.drop (i + 1))
  rw [← hsplit] at happend
  rw [happend, occurrences, if_pos rfl]
  simp

/-- **The order of the times is the order in the log.** -/
theorem lt_of_time_lt {log : List ε} {e' : ε} {i j n m m' : Nat} (hi : log[i]? = some e)
    (hj : log[j]? = some e') (he : occurrences tick e n log = [m])
    (he' : occurrences tick e' n log = [m']) (hlt : m < m') : i < j := by
  have htime : n + (log.take i).countP tick = m :=
    List.mem_singleton.mp (he ▸ time_mem_occurrences hi n)
  have htime' : n + (log.take j).countP tick = m' :=
    List.mem_singleton.mp (he' ▸ time_mem_occurrences hj n)
  by_contra hle
  -- behind the other there are no fewer ticks
  have hmono : (log.take j).countP tick ≤ (log.take i).countP tick :=
    (List.take_sublist_take_left (by omega)).countP_le
  omega

end Timeline
