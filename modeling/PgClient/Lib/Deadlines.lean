import Mathlib.Tactic.Common

/-!
# Deadlines — calls at the first scan that is late enough

Scans at some instants, and calls that are due: `due k t` says that at `t` the call after `k`
others is. A scan makes one call at most.

* `Fires` — each call is at the first scan after the one before it at which it is due.
* `fires_iff` — these are the calls of a scan after the other.
* `fires_concat` — one more scan.
-/

namespace Deadlines

variable {τ : Type*}

/-- From `k` calls on, the scans `ts` make these calls. -/
inductive Fires (due : Nat → τ → Prop) : Nat → List τ → List τ → Prop
  | none {k : Nat} {ts : List τ} (h : ∀ t ∈ ts, ¬due k t) : Fires due k ts []
  | next {k : Nat} {before after calls : List τ} {t : τ} (hbefore : ∀ u ∈ before, ¬due k u)
    (hdue : due k t) (hafter : Fires due (k + 1) after calls) :
    Fires due k (before ++ t :: after) (t :: calls)

variable {due : Nat → τ → Prop} {k : Nat}

/-- A scan that is too early does not change what the others make. -/
theorem Fires.skip {t : τ} {ts calls : List τ} (ht : ¬due k t) (h : Fires due k ts calls) :
    Fires due k (t :: ts) calls := by
  cases h with
  | none hts => exact .none fun u hu => (List.mem_cons.mp hu).elim (fun heq => heq ▸ ht) (hts u)
  | @next _ before after calls u hbefore hdue hafter =>
    refine @Fires.next _ due k (t :: before) after calls u (fun v hv => ?_) hdue hafter
    exact (List.mem_cons.mp hv).elim (fun heq => heq ▸ ht) (hbefore v)

variable [∀ k t, Decidable (due k t)]

/-- The calls of one scan after the other. -/
def fires (due : Nat → τ → Prop) [∀ k t, Decidable (due k t)] : Nat → List τ → List τ
  | _, [] => []
  | k, t :: ts => if due k t then t :: fires due (k + 1) ts else fires due k ts

/-- Times at which nothing is due can be skipped. -/
theorem fires_append_of_not {before : List τ} (h : ∀ u ∈ before, ¬due k u) (ts : List τ) :
    fires due k (before ++ ts) = fires due k ts := by
  induction before with
  | nil => rfl
  | cons u before ih =>
    rw [List.cons_append, fires, if_neg (h u List.mem_cons_self),
      ih fun v hv => h v (List.mem_cons_of_mem u hv)]

/-- The calls are determined by the times the timer is looked at. -/
theorem fires_iff {ts calls : List τ} : Fires due k ts calls ↔ calls = fires due k ts := by
  constructor
  · intro h
    induction h with
    | @none k ts h =>
      have happend := fires_append_of_not h []
      rw [List.append_nil] at happend
      exact happend.symm
    | next hbefore hdue _ ih => rw [fires_append_of_not hbefore, fires, if_pos hdue, ih]
  -- each time looked at is a call or is skipped
  · rintro rfl
    induction ts generalizing k with
    | nil => exact .none nofun
    | cons t ts ih =>
      rw [fires]
      split_ifs with hdue
      · exact @Fires.next _ due k [] ts _ t nofun hdue ih
      · exact ih.skip hdue

/-- **One more scan** makes one more call if it is due. -/
theorem fires_concat (ts : List τ) (t : τ) :
    fires due k (ts ++ [t]) =
      fires due k ts ++ if due (k + (fires due k ts).length) t then [t] else [] := by
  induction ts generalizing k with
  | nil => rfl
  | cons u ts ih =>
    rw [List.cons_append, fires, fires]
    by_cases hdue : due k u
    -- the call at the head is one of those counted
    · have hcount : k + 1 + (fires due (k + 1) ts).length =
          k + (u :: fires due (k + 1) ts).length := by
        rw [List.length_cons]
        omega
      simp only [if_pos hdue, ih, hcount, List.cons_append]
    · simp only [if_neg hdue, ih]

end Deadlines
