import Mathlib.Data.Nat.ModEq
import PgClient.Lib.RingBuffer

/-!
# The loop list

`loop.c`: a ring of pointers with a head and a tail, in which one place stays
free. A push on a full list drops what is at the other end.

* `Holds` — the list holds these elements, from the head on.
* `holds_push_room`, `holds_push_full`, `search_eq`, `holds_setFound`,
  `holds_remove`, `holds_clear` — the operations on the elements.
-/

namespace PgClient.Loop

/-- `loop_list_t`. A place that was never written is `none`. -/
structure LoopList (α : Type) where
  size : Nat
  head : Nat
  tail : Nat
  items : List (Option α)

namespace LoopList

variable {α : Type}

/-! ## The code -/

/-- `loop_create`. -/
def create (size : Nat) : LoopList α := ⟨size, 0, 0, List.replicate size none⟩

/-- `loop_is_full`, as `loop_push_to_tail` tests it. -/
def Full (l : LoopList α) : Prop := (l.tail + 1) % l.size = l.head

instance (l : LoopList α) : Decidable l.Full := inferInstanceAs (Decidable (_ = _))

/-- What `loop_push_to_tail` passes to `del_func`. -/
def evicted (l : LoopList α) : Option α := if l.Full then l.items[l.head]?.join else none

/-- `loop_push_to_tail`. -/
def pushToTail (l : LoopList α) (data : α) : LoopList α :=
  let l := if l.Full then { l with head := (l.head + 1) % l.size } else l
  { l with items := l.items.set l.tail (some data), tail := (l.tail + 1) % l.size }

/-- The loop of `loop_search` and `loop_remove`: the index it stops at. -/
def searchFrom (l : LoopList α) (search : α → Bool) : Nat → Nat → Nat
  | 0, i => i
  | fuel + 1, i =>
    if i = l.tail then i
    else if (l.items[i]?.join).any search then i
    else searchFrom l search fuel ((i + 1) % l.size)

/-- `loop_search`. -/
def search (l : LoopList α) (search : α → Bool) : Option α :=
  let i := l.searchFrom search l.size l.head
  if i ≠ l.tail then l.items[i]?.join else none

/-- Write through the pointer `loop_search` returns. -/
def setFound (l : LoopList α) (search : α → Bool) (f : α → α) : LoopList α :=
  let i := l.searchFrom search l.size l.head
  if i ≠ l.tail then { l with items := l.items.modify i (Option.map f) } else l

/-- The inner loop of `loop_remove`: the items after `i` move up by one. -/
def moveUp (size tail : Nat) : Nat → Nat → List (Option α) → List (Option α)
  | 0, _, items => items
  | fuel + 1, i, items =>
    if i = tail then items
    else
      moveUp size tail fuel ((i + 1) % size) (items.set i (items[(i + 1) % size]?.join))

/-- `loop_remove`. -/
def remove [BEq α] (l : LoopList α) (data : α) : LoopList α :=
  let i := l.searchFrom (· == data) l.size l.head
  if i = l.tail then l
  else
    let tail := (l.size + l.tail - 1) % l.size
    { l with tail := tail, items := moveUp l.size tail l.size i l.items }

/-- `loop_clear`. -/
def clear (l : LoopList α) : LoopList α := { l with head := 0, tail := 0 }

/-! ## The size -/

section Size

variable (l : LoopList α)

/-- No operation changes the size. -/
@[simp] theorem size_pushToTail (data : α) : (l.pushToTail data).size = l.size := by
  unfold pushToTail
  dsimp only
  split <;> rfl

/-- Setting an element leaves the size. -/
@[simp] theorem size_setFound (search : α → Bool) (f : α → α) :
    (l.setFound search f).size = l.size := by
  unfold setFound
  dsimp only
  split <;> rfl

/-- Removing an element leaves the size. -/
@[simp] theorem size_remove [BEq α] (data : α) : (l.remove data).size = l.size := by
  unfold remove
  dsimp only
  split <;> rfl

end Size

/-! ## What a list holds -/

/-- Two places of the ring are one only if they are as far from the head. -/
theorem place_inj {size head i j : Nat} (hi : i < size) (hj : j < size)
    (heq : (head + i) % size = (head + j) % size) : i = j := by
  have hmod : i ≡ j [MOD size] := Nat.ModEq.add_left_cancel' head heq
  rwa [Nat.ModEq, Nat.mod_eq_of_lt hi, Nat.mod_eq_of_lt hj] at hmod

/-- The list holds `q`, from its head on. -/
structure Holds (l : LoopList α) (q : List α) : Prop where
  len : l.items.length = l.size
  head : l.head < l.size
  tail : l.tail = (l.head + q.length) % l.size
  room : q.length < l.size
  contents : RingBuffer.contents l.items l.head q.length = q.map some

/-- A new list holds nothing. -/
theorem holds_create {size : Nat} (hsize : 0 < size) : (create size : LoopList α).Holds [] where
  len := List.length_replicate
  head := hsize
  tail := (Nat.mod_eq_of_lt hsize).symm
  room := hsize
  contents := RingBuffer.contents_zero _ _

namespace Holds

variable {l : LoopList α} {q : List α}

/-- The elements are in the places from the head on. -/
theorem getElem? (h : l.Holds q) {k : Nat} (hk : k < q.length) :
    l.items[(l.head + k) % l.size]? = some (some (q.get ⟨k, hk⟩)) := by
  have hroom : q.length ≤ l.items.length := by
    rw [h.len]
    exact h.room.le
  rw [Nat.add_comm, ← h.len, ← RingBuffer.getElem?_contents hroom hk, h.contents]
  simp [hk]

/-- Behind the last element is the tail. -/
theorem place_eq_tail_iff (h : l.Holds q) {k : Nat} (hk : k ≤ q.length) :
    (l.head + k) % l.size = l.tail ↔ k = q.length := by
  have hroom := h.room
  rw [h.tail]
  constructor
  · exact place_inj (by omega) hroom
  · rintro rfl
    rfl

/-- The place before the tail is that of the last element. -/
theorem prev_tail (h : l.Holds q) (hpos : 0 < q.length) :
    (l.size + l.tail - 1) % l.size = (l.head + (q.length - 1)) % l.size := by
  have hhead := h.head
  have hroom := h.room
  rw [h.tail]
  -- the tail has turned round the end, or it has not
  rcases RingBuffer.mod_cases (show l.head + q.length < 2 * l.size by omega) with
    ⟨-, heq⟩ | ⟨hge, heq⟩
  · rw [heq, ← Nat.add_mod_right (l.head + (q.length - 1))]
    congr 1
    omega
  · rw [heq]
    congr 1
    omega

/-- A list is full with one place less than it has. -/
theorem full_iff (h : l.Holds q) : l.Full ↔ q.length + 1 = l.size := by
  have hroom := h.room
  have hhead := h.head
  -- the place behind the tail is the head exactly after a full turn
  have htail : (l.tail + 1) % l.size = (l.head + (q.length + 1)) % l.size := by
    rw [h.tail, Nat.mod_add_mod, Nat.add_assoc]
  unfold Full
  rw [htail]
  constructor
  · -- fewer elements leave a place free, and no two places of a turn are one
    intro hfull
    by_contra hne
    have hzero : (l.head + (q.length + 1)) % l.size = (l.head + 0) % l.size := by
      rw [hfull, Nat.add_zero, Nat.mod_eq_of_lt hhead]
    have := place_inj (by omega) (by omega) hzero
    omega
  · intro hfull
    rw [hfull, Nat.add_mod_right, Nat.mod_eq_of_lt hhead]

end Holds

/-! ## The operations -/

section Operations

variable {l : LoopList α} {q : List α}

/-- The search stops at the first element that is looked for, or at the tail. -/
theorem searchFrom_eq (h : l.Holds q) (search : α → Bool) :
    l.searchFrom search l.size l.head = (l.head + q.findIdx search) % l.size := by
  -- from the `k`-th element on, with enough fuel for the rest
  have hfrom : ∀ fuel k, k ≤ q.length → q.length - k ≤ fuel →
      l.searchFrom search fuel ((l.head + k) % l.size) =
        (l.head + k + (q.drop k).findIdx search) % l.size := by
    intro fuel
    induction fuel with
    | zero =>
      intro k hk hfuel
      rw [List.drop_of_length_le (by omega)]
      simp [searchFrom]
    | succ fuel ih =>
      intro k hk hfuel
      unfold searchFrom
      rcases Nat.eq_or_lt_of_le hk with rfl | hlt
      · -- at the tail
        rw [if_pos ((h.place_eq_tail_iff (Nat.le_refl _)).mpr rfl), List.drop_length]
        simp
      · rw [if_neg (fun heq => hlt.ne ((h.place_eq_tail_iff hk).mp heq)), h.getElem? hlt,
          List.drop_eq_getElem_cons hlt, List.findIdx_cons]
        simp only [Option.join_some, Option.any_some, List.get_eq_getElem]
        by_cases hfound : search q[k] = true
        · simp [hfound]
        · rw [if_neg hfound, Nat.mod_add_mod, Nat.add_assoc, ih (k + 1) hlt (by omega)]
          simp only [hfound, cond_false]
          congr 1
          omega
  have hstart := hfrom l.size 0 (Nat.zero_le _) (by have := h.room; omega)
  rwa [Nat.add_zero, Nat.mod_eq_of_lt h.head, List.drop_zero] at hstart

/-- `loop_search` finds the first match from the head. -/
theorem search_eq (h : l.Holds q) (search : α → Bool) : l.search search = q.find? search := by
  have hle : q.findIdx search ≤ q.length := List.findIdx_le_length
  unfold LoopList.search
  rw [searchFrom_eq h, List.find?_eq_getElem?_findIdx]
  -- the search ran to the tail, or stopped at an element
  rcases Nat.eq_or_lt_of_le hle with heq | hlt
  · rw [if_neg (not_not.mpr ((h.place_eq_tail_iff hle).mpr heq)), heq]
    simp
  · have hne : (l.head + q.findIdx search) % l.size ≠ l.tail := fun hend =>
      hlt.ne ((h.place_eq_tail_iff hle).mp hend)
    simp only [if_pos hne, h.getElem? hlt]
    simp [hlt]

/-- What is pushed out is the element at the head. -/
theorem evicted_eq (h : l.Holds q) (hsize : 2 ≤ l.size) :
    l.evicted = if q.length + 1 = l.size then q.head? else none := by
  unfold evicted
  simp only [h.full_iff]
  split_ifs with hfull
  · have hpos : 0 < q.length := by omega
    have hzero := h.getElem? hpos
    rw [Nat.add_zero, Nat.mod_eq_of_lt h.head] at hzero
    rw [hzero]
    simp [List.head?_eq_getElem?, hpos]
  · rfl

/-- With room left, a push appends. -/
theorem holds_push_room (h : l.Holds q) (hroom : q.length + 1 < l.size) (data : α) :
    (l.pushToTail data).Holds (q ++ [data]) := by
  have hnotfull : ¬ l.Full := fun hfull => by
    have := h.full_iff.mp hfull
    omega
  have htail : l.tail < l.size := by
    rw [h.tail]
    exact Nat.mod_lt _ (by omega)
  -- writing one place is copying in a chunk of one element
  have hset : l.items.set l.tail (some data) = RingBuffer.blit l.items l.tail [some data] := by
    rw [List.set_eq_take_append_cons_drop, if_pos (by rw [h.len]; exact htail), RingBuffer.blit]
    simp
  unfold pushToTail
  -- the place at the tail is free, so the others stay
  simp only [if_neg hnotfull]
  refine ⟨by simpa using h.len, h.head, ?_, by simpa using hroom, ?_⟩
  · simp only [List.length_append, List.length_singleton, h.tail, Nat.mod_add_mod, Nat.add_assoc]
  · simp only [hset, List.map_append, List.map_cons, List.map_nil, List.length_append,
      List.length_singleton]
    rw [← h.contents]
    refine RingBuffer.contents_blit (by rw [h.len]; exact h.head) (by rw [h.len]; exact h.tail) ?_ ?_
    · simp only [List.length_singleton, h.len]
      omega
    · simp only [List.length_singleton, h.len]
      omega

/-- A full list, its head moved on. -/
theorem holds_tail (h : l.Holds q) (hpos : 0 < q.length) :
    ({ l with head := (l.head + 1) % l.size } : LoopList α).Holds q.tail := by
  have hroom := h.room
  refine ⟨h.len, Nat.mod_lt _ (by omega), ?_, ?_, ?_⟩
  · simp only [List.length_tail, Nat.mod_add_mod, h.tail]
    congr 1
    omega
  · simp only [List.length_tail]
    omega
  · have hadvance := @RingBuffer.contents_advance _ l.items l.head q.length 1 hpos
      (by rw [h.len]; exact hroom.le)
    rw [h.len, h.contents, List.drop_one, ← List.map_tail] at hadvance
    simpa only [List.length_tail] using hadvance

/-- On a full list, a push drops the head and appends. -/
theorem holds_push_full (h : l.Holds q) (hsize : 2 ≤ l.size) (hfull : q.length + 1 = l.size)
    (data : α) : (l.pushToTail data).Holds (q.tail ++ [data]) := by
  have htail := holds_tail h (by omega)
  -- the push moves the head on first, and then there is room
  have hpush : l.pushToTail data =
      ({ l with head := (l.head + 1) % l.size } : LoopList α).pushToTail data := by
    have hnotfull : ¬ ({ l with head := (l.head + 1) % l.size } : LoopList α).Full := by
      rw [htail.full_iff, List.length_tail]
      simp only
      omega
    unfold pushToTail
    simp only [if_pos (h.full_iff.mpr hfull), if_neg hnotfull]
  rw [hpush]
  refine holds_push_room htail ?_ data
  simp only [List.length_tail]
  omega

/-- Setting the `k`-th element. -/
theorem holds_modify (h : l.Holds q) {k : Nat} (hk : k < q.length) (f : α → α) :
    ({ l with items := l.items.modify ((l.head + k) % l.size) (Option.map f) } :
      LoopList α).Holds (q.modify k f) := by
  have hroom := h.room
  refine ⟨by simpa using h.len, h.head, by simpa using h.tail, by simpa using hroom, ?_⟩
  simp only [List.length_modify]
  apply List.ext_getElem?
  intro i
  -- inside the queue place by place, behind it nothing on either side
  by_cases hi : i < q.length
  · rw [RingBuffer.getElem?_contents (by simp only [List.length_modify, h.len]; omega) hi,
      List.length_modify, h.len, Nat.add_comm i, List.getElem?_modify, h.getElem? hi,
      List.getElem?_map, List.getElem?_modify]
    by_cases hik : k = i
    · subst hik
      simp [hk]
    · have hne : (l.head + k) % l.size ≠ (l.head + i) % l.size := fun heq =>
        hik (place_inj (by omega) (by omega) heq)
      simp [hik, hne, hi]
  · rw [List.getElem?_eq_none, List.getElem?_eq_none]
    · simpa using hi
    · rw [RingBuffer.contents_length (by simp only [List.length_modify, h.len]; omega)]
      omega

/-- Writing through the pointer found sets the first match. -/
theorem holds_setFound (h : l.Holds q) (search : α → Bool) (f : α → α) :
    (l.setFound search f).Holds (q.modify (q.findIdx search) f) := by
  have hle : q.findIdx search ≤ q.length := List.findIdx_le_length
  unfold setFound
  rw [searchFrom_eq h]
  rcases Nat.eq_or_lt_of_le hle with heq | hlt
  · rw [if_neg (not_not.mpr ((h.place_eq_tail_iff hle).mpr heq)), List.modify_eq_self (by omega)]
    exact h
  · have hne : (l.head + q.findIdx search) % l.size ≠ l.tail := fun hend =>
      hlt.ne ((h.place_eq_tail_iff hle).mp hend)
    simp only [if_pos hne]
    exact holds_modify h hlt f

/-- The places are kept when elements move up. -/
theorem length_moveUp (size tail : Nat) : ∀ fuel i (items : List (Option α)),
    (moveUp size tail fuel i items).length = items.length := by
  intro fuel
  induction fuel with
  | zero => intro i items; rfl
  | succ fuel ih =>
    intro i items
    unfold moveUp
    split
    · rfl
    · rw [ih, List.length_set]

/-- The items after the `k`-th move up, as far as the new tail. -/
theorem getElem?_moveUp {size head n : Nat} (hn : n < size) :
    ∀ fuel k (items : List (Option α)), items.length = size → k ≤ n → n - k ≤ fuel → ∀ j < size,
      (moveUp size ((head + n) % size) fuel ((head + k) % size) items)[(head + j) % size]? =
        if k ≤ j ∧ j < n then items[(head + (j + 1)) % size]? else items[(head + j) % size]? := by
  intro fuel
  induction fuel with
  -- no turn is left, so the hole is at the tail already
  | zero =>
    intro k items hlen hk hfuel j hj
    rw [moveUp, if_neg (by omega)]
  | succ fuel ih =>
    intro k items hlen hk hfuel j hj
    unfold moveUp
    -- at the tail the loop stops; before it one element moves up
    rcases Nat.eq_or_lt_of_le hk with rfl | hlt
    · rw [if_pos rfl, if_neg (by omega)]
    · have hsize : 0 < size := by omega
      rw [if_neg (fun heq => hlt.ne (place_inj (by omega) hn heq)), Nat.mod_add_mod, Nat.add_assoc,
        ih (k + 1) _ (by simpa using hlen) hlt (by omega) j hj]
      -- the place `k` is set to what stands at `k + 1`, and not touched again
      have hset : ∀ m < size, (items.set ((head + k) % size)
          (items[(head + (k + 1)) % size]?.join))[(head + m) % size]? =
          if m = k then items[(head + (k + 1)) % size]? else items[(head + m) % size]? := by
        intro m hm
        have hin : ∀ x, x % size < items.length := fun x => by
          rw [hlen]
          exact Nat.mod_lt _ hsize
        split_ifs with hmk
        · subst hmk
          rw [List.getElem?_set_self (hin _), List.getElem?_eq_getElem (hin _)]
          rfl
        · exact List.getElem?_set_ne fun heq => hmk (place_inj (by omega) (by omega) heq).symm
      by_cases hjn : j + 1 < size
      · rw [hset j hj, hset (j + 1) hjn]
        split_ifs <;> first | rfl | omega | (subst_vars; rfl)
      · rw [if_neg (by omega), hset j hj, if_neg (by omega), if_neg (by omega)]

/-- `loop_remove` takes out the first match from the head. -/
theorem holds_remove [BEq α] [LawfulBEq α] (h : l.Holds q) (data : α) :
    (l.remove data).Holds (q.erase data) := by
  have hroom := h.room
  have hle : q.findIdx (· == data) ≤ q.length := List.findIdx_le_length
  rw [List.erase_eq_eraseIdx_of_idxOf rfl]
  unfold remove
  rw [searchFrom_eq h]
  show Holds _ (q.eraseIdx (q.findIdx (· == data)))
  rcases Nat.eq_or_lt_of_le hle with heq | hlt
  · rw [if_pos ((h.place_eq_tail_iff hle).mpr heq), List.eraseIdx_of_length_le heq.ge]
    exact h
  · rw [if_neg (fun hend => hlt.ne ((h.place_eq_tail_iff hle).mp hend))]
    generalize q.findIdx (· == data) = k at hlt
    have hlen : (q.eraseIdx k).length = q.length - 1 := List.length_eraseIdx_of_lt hlt
    have htail := h.prev_tail (show 0 < q.length by omega)
    simp only [htail]
    refine ⟨?_, h.head, ?_, ?_, ?_⟩
    · rw [length_moveUp, h.len]
    · simp only [hlen]
    · simp only [hlen]
      omega
    · rw [hlen]
      apply List.ext_getElem?
      intro j
      rcases Nat.lt_or_ge j (q.length - 1) with hj | hj
      · -- before the match as it was, after it from one place on
        have hmove := @getElem?_moveUp _ l.size l.head (q.length - 1) (by omega) l.size k l.items
          h.len (by omega) (by omega) j (by omega)
        rw [RingBuffer.getElem?_contents (by rw [length_moveUp, h.len]; omega) hj, length_moveUp,
          h.len, Nat.add_comm j, hmove, List.getElem?_map, List.getElem?_eraseIdx,
          h.getElem? (show j + 1 < q.length by omega), h.getElem? (show j < q.length by omega)]
        split_ifs with hkj hjk
        · omega
        · simp [show j + 1 < q.length by omega]
        · simp [show j < q.length by omega]
        · omega
      · rw [List.getElem?_eq_none, List.getElem?_eq_none]
        · rw [List.length_map, hlen]
          exact hj
        · rw [RingBuffer.contents_length (by rw [length_moveUp, h.len]; omega)]
          exact hj

/-- A cleared list holds nothing. -/
theorem holds_clear (h : l.Holds q) : l.clear.Holds [] := by
  have hpos : 0 < l.size := by
    have := h.room
    omega
  exact ⟨h.len, hpos, (Nat.mod_eq_of_lt hpos).symm, hpos, RingBuffer.contents_zero _ _⟩

end Operations

end LoopList

end PgClient.Loop
