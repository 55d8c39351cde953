import Mathlib.Logic.Function.Basic
import Mathlib.Tactic.Common

/-!
# Heaps whose cells have owners

What is live in a heap belongs to an owner, and no two owners share a cell. An owner has a
record with the address of its cell in it, from the allocation to the release.

* `Owned` — every cell has its owner, and every owner its cell.
* `Owned.alloc`, `Owned.write`, `Owned.free` — the operations keep this.
* `Owned.update_of_ne` — an operation of one owner leaves the cells of the others alone.
-/

namespace OwnedHeap

open Function (update update_self update_of_ne)

variable {α β ι ν : Type*}

/-- The live cells and their owners. -/
structure Owned (heap : α → Option β) (owner : ι → Option ν) (addr : ν → α) : Prop where
  live : ∀ i n, owner i = some n → ∃ v, heap (addr n) = some v
  inj : ∀ i j n n', owner i = some n → owner j = some n' → addr n = addr n' → i = j
  owned : ∀ a v, heap a = some v → ∃ i n, owner i = some n ∧ addr n = a

namespace Owned

variable {heap : α → Option β} {owner : ι → Option ν} {addr : ν → α} {i : ι} {n : ν}

/-- Nothing is allocated and nothing is owned. -/
theorem empty : Owned (fun _ => none : α → Option β) (fun _ => none : ι → Option ν) addr where
  live _ _ h := nomatch h
  inj _ _ _ _ h := nomatch h
  owned _ _ h := nomatch h

/-- Two owners have different cells. -/
theorem ne_addr (h : Owned heap owner addr) (hi : owner i = some n) {j : ι} {n' : ν}
    (hj : owner j = some n') (hne : j ≠ i) : addr n' ≠ addr n :=
  fun heq => hne (h.inj j i n' n hj hi heq)

/-- Two owners have one record only if they are the same. -/
theorem record_inj (h : Owned heap owner addr) (hi : owner i = some n) {j : ι} {n' : ν}
    (hj : owner j = some n') (heq : addr n' = addr n) : n' = n := by
  obtain rfl := h.inj j i n' n hj hi heq
  exact Option.some.inj (hj.symm.trans hi)

/-- A cell that is free has no owner. -/
theorem ne_of_free (h : Owned heap owner addr) (hi : owner i = some n) {a : α}
    (hfree : heap a = none) : addr n ≠ a := by
  rintro rfl
  obtain ⟨v, hv⟩ := h.live i n hi
  exact nomatch hfree.symm.trans hv

variable [DecidableEq α]

/-- A cell that is written is seen by its owner alone. -/
theorem update_of_ne (h : Owned heap owner addr) (hi : owner i = some n) {j : ι} {n' : ν}
    (hj : owner j = some n') (hne : j ≠ i) (x : Option β) :
    update heap (addr n) x (addr n') = heap (addr n') :=
  Function.update_of_ne (h.ne_addr hi hj hne) x heap

/-- The owner of a cell changes what is in it. -/
theorem write (h : Owned heap owner addr) (hi : owner i = some n) (v : β) :
    Owned (update heap (addr n) (some v)) owner addr where
  live j n' hj := by
    rcases eq_or_ne (addr n') (addr n) with heq | hne
    · exact ⟨v, by rw [heq, update_self]⟩
    · rw [Function.update_of_ne hne]
      exact h.live j n' hj
  inj := h.inj
  owned a w ha := by
    rcases eq_or_ne a (addr n) with rfl | hne
    · exact ⟨i, n, hi, rfl⟩
    · rw [Function.update_of_ne hne] at ha
      exact h.owned a w ha

variable [DecidableEq ι]

/-- A new owner gets a cell that is not live. -/
theorem alloc (h : Owned heap owner addr) (hi : owner i = none) (hfree : heap (addr n) = none)
    (v : β) : Owned (update heap (addr n) (some v)) (update owner i (some n)) addr := by
  have hother : ∀ j n', owner j = some n' → addr n' ≠ addr n :=
    fun j n' hj => h.ne_of_free hj hfree
  -- an owner is the new one or an old one
  have hcases : ∀ j n', update owner i (some n) j = some n' →
      (j = i ∧ n' = n) ∨ (j ≠ i ∧ owner j = some n') := by
    intro j n' hj
    rcases eq_or_ne j i with rfl | hne
    · rw [update_self] at hj
      exact .inl ⟨rfl, (Option.some.inj hj).symm⟩
    · rw [Function.update_of_ne hne] at hj
      exact .inr ⟨hne, hj⟩
  constructor
  · intro j n' hj
    obtain ⟨-, rfl⟩ | ⟨-, hj⟩ := hcases j n' hj
    · exact ⟨v, update_self _ _ _⟩
    · rw [Function.update_of_ne (hother j n' hj)]
      exact h.live j n' hj
  · intro j k n₁ n₂ hj hk heq
    rcases hcases j n₁ hj with ⟨rfl, rfl⟩ | ⟨-, hj'⟩ <;>
      rcases hcases k n₂ hk with ⟨rfl, rfl⟩ | ⟨-, hk'⟩
    · rfl
    · exact absurd heq.symm (hother k n₂ hk')
    · exact absurd heq (hother j n₁ hj')
    · exact h.inj j k n₁ n₂ hj' hk' heq
  · intro a w ha
    rcases eq_or_ne a (addr n) with rfl | hne
    · exact ⟨i, n, update_self _ _ _, rfl⟩
    · rw [Function.update_of_ne hne] at ha
      obtain ⟨j, n', hj, rfl⟩ := h.owned a w ha
      have hji : j ≠ i := by
        rintro rfl
        exact nomatch hi.symm.trans hj
      exact ⟨j, n', by rw [Function.update_of_ne hji]; exact hj, rfl⟩

/-- An owner releases its cell. -/
theorem free (h : Owned heap owner addr) (hi : owner i = some n) :
    Owned (update heap (addr n) none) (update owner i none) addr := by
  -- the other owners are those there were
  have hcases : ∀ j n', update owner i none j = some n' → j ≠ i ∧ owner j = some n' := by
    intro j n' hj
    rcases eq_or_ne j i with rfl | hne
    · rw [update_self] at hj
      exact nomatch hj
    · rw [Function.update_of_ne hne] at hj
      exact ⟨hne, hj⟩
  constructor
  · intro j n' hj
    obtain ⟨hne, hj⟩ := hcases j n' hj
    rw [h.update_of_ne hi hj hne]
    exact h.live j n' hj
  · intro j k n₁ n₂ hj hk heq
    exact h.inj j k n₁ n₂ (hcases j n₁ hj).2 (hcases k n₂ hk).2 heq
  · intro a w ha
    -- a cell that is left was not the one released, so its owner still has it
    rcases eq_or_ne a (addr n) with rfl | hne
    · rw [update_self] at ha
      exact nomatch ha
    · rw [Function.update_of_ne hne] at ha
      obtain ⟨j, n', hj, rfl⟩ := h.owned a w ha
      have hji : j ≠ i := by
        rintro rfl
        obtain rfl := Option.some.inj (hi.symm.trans hj)
        exact hne rfl
      exact ⟨j, n', by rw [Function.update_of_ne hji]; exact hj, rfl⟩

end Owned

end OwnedHeap
