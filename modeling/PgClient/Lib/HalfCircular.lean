import Mathlib.Data.List.Nodup
import Mathlib.Logic.Function.Basic

/-!
# Half-circular doubly linked lists

Lists threaded through two link fields, `prev` and `next`, of their nodes. The chain of `next`
ends in null, the chain of `prev` does not: the head's `prev` is the last node, so that a node
is appended without a walk.

* `IsList` — the list that a head pointer stands for.
* `IsList.removeHead` — unlinking the head.
* `IsList.addEmpty`, `IsList.addTail` — linking a node behind the last one.
-/

namespace HalfCircular

variable {α : Type*}

/-- From `head` on, the links visit `xs`. -/
structure IsList (prev next : α → Option α) (head : Option α) (xs : List α) : Prop where
  nodup : xs.Nodup
  head_eq : head = xs.head?
  next_eq : ∀ i a, xs[i]? = some a → next a = xs[i + 1]?
  prev_eq : ∀ i b, xs[i + 1]? = some b → prev b = xs[i]?
  prev_head : ∀ a, xs.head? = some a → prev a = xs.getLast?

variable {prev next prev' next' : α → Option α} {head : Option α} {xs : List α}

/-- The empty list. -/
theorem isList_nil (prev next : α → Option α) : IsList prev next none [] :=
  ⟨List.nodup_nil, rfl, by simp, by simp, by simp⟩

/-- The links of the list's own nodes are all that counts. -/
theorem IsList.congr (h : IsList prev next head xs) (hprev : ∀ a ∈ xs, prev' a = prev a)
    (hnext : ∀ a ∈ xs, next' a = next a) : IsList prev' next' head xs where
  nodup := h.nodup
  head_eq := h.head_eq
  next_eq i a ha := (hnext a (List.mem_of_getElem? ha)).trans (h.next_eq i a ha)
  prev_eq i b hb := (hprev b (List.mem_of_getElem? hb)).trans (h.prev_eq i b hb)
  prev_head a ha := (hprev a (List.mem_of_head? ha)).trans (h.prev_head a ha)

/-- The first cell points to the second one. -/
theorem IsList.next_head {a : α} (h : IsList prev next head (a :: xs)) : next a = xs.head? := by
  rw [h.next_eq 0 a rfl, List.head?_eq_getElem?]
  rfl

variable [DecidableEq α]

/-- Unlinking a head that has a successor: the successor takes over the link to the last node. -/
theorem IsList.removeHead {a b : α} (h : IsList prev next head (a :: b :: xs)) :
    IsList (Function.update prev b (prev a)) next (some b) (b :: xs) := by
  have hb : b ∉ xs := (List.nodup_cons.mp (List.nodup_cons.mp h.nodup).2).1
  refine ⟨(List.nodup_cons.mp h.nodup).2, rfl, fun i => h.next_eq (i + 1), ?_, ?_⟩
  · intro i c hc
    have hne : c ≠ b := by
      rintro rfl
      exact hb (List.mem_of_getElem? (by simpa using hc))
    rw [Function.update_of_ne hne, h.prev_eq (i + 1) c hc]
    rfl
  · intro c hc
    obtain rfl : b = c := Option.some.inj hc
    rw [Function.update_self, h.prev_head a rfl, List.getLast?_cons_cons]

/-- The first node is its own last one. -/
theorem IsList.addEmpty (prev next : α → Option α) (a : α) :
    IsList (Function.update prev a (some a)) (Function.update next a none) (some a) [a] where
  nodup := List.nodup_singleton a
  head_eq := rfl
  next_eq i b hb := by
    -- there is one place only
    obtain ⟨rfl, rfl⟩ : i = 0 ∧ a = b := by
      cases i with
      | zero => exact ⟨rfl, Option.some.inj hb⟩
      | succ i => exact absurd hb (by simp)
    rw [Function.update_self]
    rfl
  prev_eq i b hb := absurd hb (by simp)
  prev_head b hb := by
    obtain rfl : a = b := Option.some.inj hb
    rw [Function.update_self]
    rfl

/-- Linking a node behind the last one. The head's `prev` is written last, as the last node may
be the head. -/
theorem IsList.addTail {a c last : α} {cs : List α} (h : IsList prev next head (c :: cs))
    (ha : a ∉ c :: cs) (hlast : prev c = some last) :
    IsList (Function.update (Function.update prev a (prev c)) c (some a))
      (Function.update (Function.update next a none) last (some a)) (some c)
      (c :: cs ++ [a]) := by
  have hget : (c :: cs).getLast? = some last := (h.prev_head c rfl).symm.trans hlast
  have hac : a ≠ c := fun h' => ha (by rw [h']; exact List.mem_cons_self)
  have hal : a ≠ last := fun h' => ha (by rw [h']; exact List.mem_of_getLast? hget)
  rw [List.getLast?_eq_getElem?] at hget
  have hlen : (c :: cs).length - 1 + 1 = (c :: cs).length := by simp
  refine ⟨?_, rfl, ?_, ?_, ?_⟩
  · rw [List.nodup_append]
    refine ⟨h.nodup, List.nodup_singleton a, ?_⟩
    intro x hx y hy
    rw [List.mem_singleton.mp hy]
    exact fun h' => ha (h' ▸ hx)
  · intro i b hb
    rcases Nat.lt_trichotomy i (c :: cs).length with hi | hi | hi
    · rw [List.getElem?_append_left hi] at hb
      have hba : b ≠ a := fun h' => ha (h' ▸ List.mem_of_getElem? hb)
      by_cases hbl : b = last
      · -- the old last node: its position is the last but one now
        have hpos : i = (c :: cs).length - 1 :=
          (List.getElem?_inj hi h.nodup).mp (hb.trans (by rw [hbl, hget]))
        rw [hbl, Function.update_self, hpos, hlen, List.getElem?_concat_length]
      · rw [Function.update_of_ne hbl, Function.update_of_ne hba, h.next_eq i b hb]
        have hi' : i + 1 ≠ (c :: cs).length := fun h' => hbl <| by
          have hi'' : i = (c :: cs).length - 1 := by omega
          rw [hi'', hget] at hb
          exact (Option.some.inj hb).symm
        rw [List.getElem?_append_left (by omega)]
    · subst hi
      rw [List.getElem?_concat_length] at hb
      obtain rfl : a = b := Option.some.inj hb
      rw [Function.update_of_ne hal, Function.update_self, List.getElem?_eq_none (by simp)]
    · rw [List.getElem?_eq_none (by simp at hi ⊢; omega)] at hb
      exact absurd hb (by simp)
  · intro i b hb
    rcases Nat.lt_trichotomy (i + 1) (c :: cs).length with hi | hi | hi
    · rw [List.getElem?_append_left hi] at hb
      rw [List.getElem?_append_left (by omega)]
      have hba : b ≠ a := fun h' => ha (h' ▸ List.mem_of_getElem? hb)
      have hbc : b ≠ c := fun h' => by
        have h0 : i + 1 = 0 := (List.getElem?_inj hi h.nodup).mp (hb.trans (by rw [h']; rfl))
        omega
      rw [Function.update_of_ne hbc, Function.update_of_ne hba, h.prev_eq i b hb]
    · rw [hi, List.getElem?_concat_length] at hb
      obtain rfl : a = b := Option.some.inj hb
      rw [Function.update_of_ne hac, Function.update_self, hlast, ← hget,
        List.getElem?_append_left (by omega)]
      congr 1
      omega
    · rw [List.getElem?_eq_none (by simp at hi ⊢; omega)] at hb
      exact absurd hb (by simp)
  · intro b hb
    obtain rfl : c = b := Option.some.inj hb
    rw [Function.update_self, List.getLast?_concat]

end HalfCircular
