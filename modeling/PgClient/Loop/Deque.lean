import PgClient.Loop.LoopList

/-!
# The loop list as a deque

All operations of `loop.c` on one list, one after the other, against a deque of `size - 1`
elements. `items` is an array of `size` pointers, so that no sum of two indices overflows an `int`.

* `step_deque` — one operation does what the deque does.
* `run_deque` — any sequence of them, from `loop_create` on.
* `getFromHead_eq_iff` — when `loop_get_from_head` gives the element at its position.
-/

namespace PgClient.Loop

namespace LoopList

variable {α : Type}

/-! ## The code -/

/-- `loop_is_empty`. -/
def isEmpty (l : LoopList α) : Bool := l.head = l.tail

/-- `loop_is_full`, as `loop_push_to_head` tests it, too. -/
def isFull (l : LoopList α) : Bool := (l.size + l.head - 1) % l.size = l.tail

/-- What `loop_push_to_head` passes to `del_func`. -/
def evictedTail (l : LoopList α) : Option α :=
  if l.isFull then l.items[(l.size + l.tail - 1) % l.size]?.join else none

/-- `loop_push_to_head`. -/
def pushToHead (l : LoopList α) (data : α) : LoopList α :=
  let l := if l.isFull then { l with tail := (l.size + l.tail - 1) % l.size } else l
  let head := (l.size + l.head - 1) % l.size
  { l with head := head, items := l.items.set head (some data) }

/-- `loop_pop_from_head`; `none` is NULL. -/
def popFromHead (l : LoopList α) : LoopList α × Option α :=
  if l.tail ≠ l.head then
    ({ l with head := (l.head + 1) % l.size }, l.items[l.head]?.join)
  else (l, none)

/-- `loop_pop_from_tail`. -/
def popFromTail (l : LoopList α) : LoopList α × Option α :=
  if l.tail ≠ l.head then
    let tail := (l.size + l.tail - 1) % l.size
    ({ l with tail := tail }, l.items[tail]?.join)
  else (l, none)

/-- `loop_get_from_head`; `none` is a read behind `items`. -/
def getFromHead (l : LoopList α) (offset : Nat) : Option (Option α) := l.items[l.head + offset]?

/-- The loop of `loop_clear` over `del_func`. -/
def deletedFrom (l : LoopList α) : Nat → Nat → List α
  | 0, _ => []
  | fuel + 1, i =>
    if i = l.tail then []
    else (l.items[i]?.join).toList ++ deletedFrom l fuel ((i + 1) % l.size)

/-- A call on a loop list. -/
inductive Op (α : Type)
  | pushToTail (data : α)
  | pushToHead (data : α)
  | popFromHead
  | popFromTail
  | remove (data : α)
  | search (search : α → Bool)
  | clear

/-- What a call returns, and what it passes to `del_func`. -/
structure Outcome (α : Type) where
  returned : Option α
  deleted : List α
  deriving DecidableEq

/-- The result of a call that passes `deleted` to `del_func` where there is one. -/
def Outcome.of (delFunc : Bool) (returned : Option α) (deleted : List α) : Outcome α :=
  ⟨returned, if delFunc then deleted else []⟩

/-- One call; `delFunc` says that the list has a `del_func`. -/
def step [BEq α] (delFunc : Bool) (l : LoopList α) : Op α → LoopList α × Outcome α
  | .pushToTail data => (l.pushToTail data, .of delFunc none l.evicted.toList)
  | .pushToHead data => (l.pushToHead data, .of delFunc none l.evictedTail.toList)
  | .popFromHead => (l.popFromHead.1, .of delFunc l.popFromHead.2 [])
  | .popFromTail => (l.popFromTail.1, .of delFunc l.popFromTail.2 [])
  | .remove data => (l.remove data, .of delFunc none [])
  | .search search => (l, .of delFunc (l.search search) [])
  | .clear => (l.clear, .of delFunc none (l.deletedFrom l.size l.head))

/-- Calls one after the other. -/
def run [BEq α] (delFunc : Bool) : LoopList α → List (Op α) → LoopList α × List (Outcome α)
  | l, [] => (l, [])
  | l, op :: ops =>
    let (l, out) := l.step delFunc op
    let (l, outs) := run delFunc l ops
    (l, out :: outs)

end LoopList

/-! ## A deque -/

namespace Deque

open LoopList (Op Outcome)

variable {α : Type} [BEq α]

/-- A deque of at most `capacity` elements; when it is full, what is pushed at one end pushes
out what is at the other. -/
def step (delFunc : Bool) (capacity : Nat) (q : List α) : Op α → List α × Outcome α
  | .pushToTail data =>
    if q.length = capacity then (q.tail ++ [data], .of delFunc none q.head?.toList)
    else (q ++ [data], .of delFunc none [])
  | .pushToHead data =>
    if q.length = capacity then (data :: q.dropLast, .of delFunc none q.getLast?.toList)
    else (data :: q, .of delFunc none [])
  | .popFromHead => (q.tail, .of delFunc q.head? [])
  | .popFromTail => (q.dropLast, .of delFunc q.getLast? [])
  | .remove data => (q.erase data, .of delFunc none [])
  | .search search => (q, .of delFunc (q.find? search) [])
  | .clear => ([], .of delFunc none q)

/-- Operations one after the other. -/
def run (delFunc : Bool) (capacity : Nat) : List α → List (Op α) → List α × List (Outcome α)
  | q, [] => (q, [])
  | q, op :: ops =>
    let (q, out) := step delFunc capacity q op
    let (q, outs) := run delFunc capacity q ops
    (q, out :: outs)

end Deque

namespace LoopList

variable {α : Type} {l : LoopList α} {q : List α}

/-! ## The two ends -/

namespace Holds

/-- `k + 1` places behind the place before the head. -/
theorem prev_head (h : l.Holds q) (k : Nat) :
    ((l.size + l.head - 1) % l.size + (k + 1)) % l.size = (l.head + k) % l.size := by
  have hhead := h.head
  rw [Nat.mod_add_mod, show l.size + l.head - 1 + (k + 1) = l.head + k + l.size by omega,
    Nat.add_mod_right]

/-- The macro for a full list is right. -/
theorem isFull_iff (h : l.Holds q) : l.isFull = true ↔ q.length + 1 = l.size := by
  have hhead := h.head
  have hroom := h.room
  have hprev : (l.size + l.head - 1) % l.size = (l.head + (l.size - 1)) % l.size := by
    congr 1
    omega
  rw [isFull, decide_eq_true_iff, hprev, h.tail]
  constructor
  · intro heq
    have := place_inj (by omega) hroom heq
    omega
  · intro heq
    rw [show q.length = l.size - 1 by omega]

/-- So is that for an empty one. -/
theorem isEmpty_iff (h : l.Holds q) : l.isEmpty = true ↔ q = [] := by
  have hzero := @place_eq_tail_iff _ _ _ h 0 (Nat.zero_le _)
  rw [Nat.add_zero, Nat.mod_eq_of_lt h.head] at hzero
  rw [isEmpty, decide_eq_true_iff, hzero, eq_comm, List.length_eq_zero_iff]

/-- The element at the head. -/
theorem item_head (h : l.Holds q) :
    q.head? = if l.tail ≠ l.head then l.items[l.head]?.join else none := by
  have hempty := h.isEmpty_iff
  rw [isEmpty, decide_eq_true_iff] at hempty
  split_ifs with hne
  · have hpos : 0 < q.length := List.length_pos_iff.mpr fun hnil => hne (hempty.mpr hnil).symm
    have hzero := h.getElem? hpos
    rw [Nat.add_zero, Nat.mod_eq_of_lt h.head] at hzero
    rw [hzero, List.head?_eq_getElem?]
    simp [hpos]
  · rw [hempty.mp (not_not.mp hne).symm]
    rfl

/-- The element before the tail. -/
theorem item_last (h : l.Holds q) (hpos : 0 < q.length) :
    l.items[(l.size + l.tail - 1) % l.size]?.join = q.getLast? := by
  rw [h.prev_tail hpos, h.getElem? (show q.length - 1 < q.length by omega),
    List.getLast?_eq_getElem?]
  simp

/-- Without its last element. -/
theorem dropLast (h : l.Holds q) (hpos : 0 < q.length) :
    ({ l with tail := (l.size + l.tail - 1) % l.size } : LoopList α).Holds q.dropLast := by
  have hroom := h.room
  refine ⟨h.len, h.head, ?_, ?_, ?_⟩
  · rw [List.length_dropLast]
    exact h.prev_tail hpos
  · rw [List.length_dropLast]
    show q.length - 1 < l.size
    omega
  -- the places behind the new tail are not looked at any more
  · have hcontents := congrArg (List.take (q.length - 1)) h.contents
    rw [RingBuffer.contents, List.take_take, min_eq_left (by omega), ← List.map_take,
      ← List.dropLast_eq_take] at hcontents
    rw [List.length_dropLast]
    exact hcontents

end Holds

/-! ## The operations -/

section Operations

variable {data : α}

/-- With room left, a push at the head is in front of the others. -/
theorem holds_pushToHead_room (h : l.Holds q) (hroom : q.length + 1 < l.size) :
    (l.pushToHead data).Holds (data :: q) := by
  have hhead := h.head
  have hnotfull : ¬l.isFull = true := fun hfull => by
    have := h.isFull_iff.mp hfull
    omega
  have hprev : (l.size + l.head - 1) % l.size < l.size := Nat.mod_lt _ (by omega)
  unfold pushToHead
  rw [if_neg hnotfull]
  have htail := h.prev_head q.length
  refine ⟨by simpa using h.len, hprev, ?_, by simpa using hroom, ?_⟩
  · rw [List.length_cons]
    exact h.tail.trans htail.symm
  · apply List.ext_getElem?
    intro i
    rw [List.length_cons]
    rcases Nat.lt_or_ge i (q.length + 1) with hi | hi
    · rw [RingBuffer.getElem?_contents (by rw [List.length_set, h.len]; omega) hi,
        List.length_set, h.len, Nat.add_comm i]
      cases i with
      | zero =>
        -- the place that was written
        rw [Nat.add_zero, Nat.mod_mod, List.getElem?_set_self (by rw [h.len]; exact hprev)]
        rfl
      | succ i =>
        rw [List.getElem?_set_ne, h.prev_head i, h.getElem? (show i < q.length by omega)]
        · simp [show i < q.length by omega]
        · intro heq
          have hzero := heq.symm.trans (Nat.mod_eq_of_lt hprev).symm
          have := @place_inj l.size ((l.size + l.head - 1) % l.size) (i + 1) 0 (by omega) (by omega)
            (by rw [Nat.add_zero]; exact hzero)
          omega
    · rw [List.getElem?_eq_none, List.getElem?_eq_none]
      · simpa using hi
      · rw [RingBuffer.contents_length (by rw [List.length_set, h.len]; omega)]
        exact hi

/-- On a full list, a push at the head drops the last element. -/
theorem holds_pushToHead_full (h : l.Holds q) (hsize : 2 ≤ l.size)
    (hfull : q.length + 1 = l.size) : (l.pushToHead data).Holds (data :: q.dropLast) := by
  have hdrop := h.dropLast (by omega)
  -- the push moves the tail back first, and then there is room
  have hpush : l.pushToHead data =
      ({ l with tail := (l.size + l.tail - 1) % l.size } : LoopList α).pushToHead data := by
    have hnotfull :
        ¬({ l with tail := (l.size + l.tail - 1) % l.size } : LoopList α).isFull = true := by
      rw [hdrop.isFull_iff, List.length_dropLast]
      show ¬q.length - 1 + 1 = l.size
      omega
    unfold pushToHead
    rw [if_pos (h.isFull_iff.mpr hfull), if_neg hnotfull]
  rw [hpush]
  refine holds_pushToHead_room hdrop ?_
  rw [List.length_dropLast]
  show q.length - 1 + 1 < l.size
  omega

/-- What is pushed out at the tail is the last element. -/
theorem evictedTail_eq (h : l.Holds q) (hsize : 2 ≤ l.size) :
    l.evictedTail = if q.length + 1 = l.size then q.getLast? else none := by
  unfold evictedTail
  by_cases hfull : q.length + 1 = l.size
  · rw [if_pos (h.isFull_iff.mpr hfull), if_pos hfull, h.item_last (by omega)]
  · rw [if_neg fun hisfull => hfull (h.isFull_iff.mp hisfull), if_neg hfull]

/-- A pop at the head is one of the deque. -/
theorem popFromHead_deque (h : l.Holds q) :
    l.popFromHead.2 = q.head? ∧ l.popFromHead.1.Holds q.tail ∧ l.popFromHead.1.size = l.size := by
  have hitem := h.item_head
  have hempty := h.isEmpty_iff
  rw [isEmpty, decide_eq_true_iff] at hempty
  unfold popFromHead
  split_ifs at hitem ⊢ with hne
  · have hpos : 0 < q.length := List.length_pos_iff.mpr fun hnil => hne (hempty.mpr hnil).symm
    exact ⟨hitem.symm, holds_tail h hpos, rfl⟩
  · rw [hempty.mp (not_not.mp hne).symm] at h ⊢
    exact ⟨rfl, h, rfl⟩

/-- So is a pop at the tail. -/
theorem popFromTail_deque (h : l.Holds q) :
    l.popFromTail.2 = q.getLast? ∧ l.popFromTail.1.Holds q.dropLast ∧
      l.popFromTail.1.size = l.size := by
  have hempty := h.isEmpty_iff
  rw [isEmpty, decide_eq_true_iff] at hempty
  unfold popFromTail
  split_ifs with hne
  · have hpos : 0 < q.length := List.length_pos_iff.mpr fun hnil => hne (hempty.mpr hnil).symm
    exact ⟨h.item_last hpos, h.dropLast hpos, rfl⟩
  · rw [hempty.mp (not_not.mp hne).symm] at h ⊢
    exact ⟨rfl, h, rfl⟩

/-- `loop_clear` passes every element to `del_func`, from the head on. -/
theorem deletedFrom_eq (h : l.Holds q) : l.deletedFrom l.size l.head = q := by
  -- from the `k`-th element on, with enough fuel for the rest
  have hfrom : ∀ fuel k, k ≤ q.length → q.length - k ≤ fuel →
      l.deletedFrom fuel ((l.head + k) % l.size) = q.drop k := by
    intro fuel
    induction fuel with
    | zero =>
      intro k hk hfuel
      rw [List.drop_eq_nil_of_le (by omega)]
      rfl
    | succ fuel ih =>
      intro k hk hfuel
      rw [deletedFrom]
      rcases Nat.eq_or_lt_of_le hk with rfl | hlt
      · rw [if_pos ((h.place_eq_tail_iff hk).mpr rfl), List.drop_length]
      · rw [if_neg fun heq => hlt.ne ((h.place_eq_tail_iff hk).mp heq), h.getElem? hlt,
          Nat.mod_add_mod, Nat.add_assoc, ih (k + 1) hlt (by omega),
          List.drop_eq_getElem_cons hlt]
        rfl
  have hstart := hfrom l.size 0 (Nat.zero_le _) (by have := h.room; omega)
  rwa [Nat.add_zero, Nat.mod_eq_of_lt h.head, List.drop_zero] at hstart

/-- A push keeps the size. -/
@[simp] theorem size_pushToHead : (l.pushToHead data).size = l.size := by
  unfold pushToHead
  dsimp only
  split <;> rfl

end Operations

/-! ## The element at a position -/

/-- The places are not taken round the end of the array. -/
theorem Holds.getFromHead_inside (h : l.Holds q) {k : Nat}
    (hk : k < q.length) :
    l.getFromHead k = some (some (q.get ⟨k, hk⟩)) ↔ l.head + k < l.size := by
  constructor
  · intro hget
    rw [← h.len]
    exact (List.getElem?_eq_some_iff.mp hget).1
  · intro hlt
    have hget := h.getElem? hk
    rwa [Nat.mod_eq_of_lt hlt] at hget

/-- The places of a list of size 1 are all at 0. -/
theorem holds_nil_iff_of_one (hsize : l.size = 1) :
    l.Holds [] ↔ l.items.length = 1 ∧ l.head = 0 ∧ l.tail = 0 := by
  constructor
  · intro h
    have hhead := h.head
    rw [hsize] at hhead
    exact ⟨h.len.trans hsize, by omega, by rw [h.tail, hsize, Nat.mod_one]⟩
  · rintro ⟨hlen, hhead, htail⟩
    refine ⟨hlen.trans hsize.symm, by omega, ?_, ?_, RingBuffer.contents_zero _ _⟩
    · rw [htail, hsize, Nat.mod_one]
    · rw [hsize]
      exact Nat.one_pos

/-! ## Any sequence of calls -/

variable [BEq α] [LawfulBEq α]

/-- **A call does what the deque does.** -/
theorem step_deque (h : l.Holds q) (hsize : 2 ≤ l.size) (delFunc : Bool) (op : Op α) :
    (l.step delFunc op).2 = (Deque.step delFunc (l.size - 1) q op).2 ∧
      (l.step delFunc op).1.Holds (Deque.step delFunc (l.size - 1) q op).1 ∧
      (l.step delFunc op).1.size = l.size := by
  have hcapacity : q.length = l.size - 1 ↔ q.length + 1 = l.size := by omega
  have hroom := h.room
  cases op with
  | pushToTail data =>
    simp only [step, Deque.step, evicted_eq h hsize, hcapacity, size_pushToTail, and_true]
    -- a full loop drops the item at the other end first
    split_ifs with hfull
    · exact ⟨rfl, holds_push_full h hsize hfull data⟩
    · exact ⟨rfl, holds_push_room h (by omega) data⟩
  | pushToHead data =>
    simp only [step, Deque.step, evictedTail_eq h hsize, hcapacity, size_pushToHead, and_true]
    split_ifs with hfull
    · exact ⟨rfl, holds_pushToHead_full h hsize hfull⟩
    · exact ⟨rfl, holds_pushToHead_room h (by omega)⟩
  | popFromHead =>
    obtain ⟨hreturned, hrest⟩ := popFromHead_deque h
    exact ⟨by rw [step, hreturned, Deque.step], hrest⟩
  | popFromTail =>
    obtain ⟨hreturned, hrest⟩ := popFromTail_deque h
    exact ⟨by rw [step, hreturned, Deque.step], hrest⟩
  | remove data => exact ⟨rfl, holds_remove h data, size_remove l data⟩
  | search search => exact ⟨by rw [step, search_eq h, Deque.step], h, rfl⟩
  | clear => exact ⟨by rw [step, deletedFrom_eq h, Deque.step], holds_clear h, rfl⟩

/-- **A run of the list is one of the deque**, from any deque that it holds. -/
theorem run_holds (h : l.Holds q) (hsize : 2 ≤ l.size) (delFunc : Bool) (ops : List (Op α)) :
    (l.run delFunc ops).2 = (Deque.run delFunc (l.size - 1) q ops).2 ∧
      (l.run delFunc ops).1.Holds (Deque.run delFunc (l.size - 1) q ops).1 ∧
      (l.run delFunc ops).1.size = l.size := by
  induction ops generalizing l q with
  | nil => exact ⟨rfl, h, rfl⟩
  | cons op ops ih =>
    obtain ⟨hout, hholds, hsize'⟩ := step_deque h hsize delFunc op
    obtain ⟨houts, hholds', hsize''⟩ := ih hholds (by omega)
    rw [hsize'] at houts hholds' hsize''
    exact ⟨by rw [run, Deque.run]; exact congrArg₂ _ hout houts, hholds', hsize''⟩

/-- **The loop list is a deque** of `size - 1` elements, from `loop_create` on. -/
theorem run_deque {size : Nat} (hsize : 2 ≤ size) (delFunc : Bool) (ops : List (Op α)) :
    let l := (create size : LoopList α).run delFunc ops
    let q := Deque.run delFunc (size - 1) [] ops
    l.2 = q.2 ∧ l.1.Holds q.1 ∧ l.1.size = size ∧ l.1.head < size ∧ l.1.tail < size ∧
      q.1.length ≤ size - 1 ∧ (l.1.isEmpty = true ↔ q.1 = []) ∧
      (l.1.isFull = true ↔ q.1.length = size - 1) := by
  -- from the empty list on every state holds what the deque does
  have hcreate : (create size : LoopList α).Holds [] := holds_create (by omega)
  obtain ⟨houts, hholds, hsize'⟩ := run_holds hcreate hsize delFunc ops
  rw [show (create size : LoopList α).size = size from rfl] at houts hholds hsize'
  have hhead := hholds.head
  have hroom := hholds.room
  have hfull := hholds.isFull_iff
  -- the tail is reduced modulo the size
  have htail : ((create size : LoopList α).run delFunc ops).1.tail < size := by
    rw [hholds.tail, hsize']
    exact Nat.mod_lt _ (by omega)
  rw [hsize'] at hhead hroom hfull
  refine ⟨houts, hholds, hsize', hhead, htail, Nat.le_sub_one_of_lt hroom, hholds.isEmpty_iff, ?_⟩
  rw [hfull]
  omega

/-- Three pushes on a list of two: the first is pushed out, and the second popped. -/
theorem run_deque_threePushes :
    let ops : List (Op Nat) := [.pushToTail 1, .pushToTail 2, .pushToTail 3, .popFromHead]
    let l := (create 3 : LoopList Nat).run true ops
    let q := Deque.run true 2 [] ops
    l.2 = q.2 ∧ l.1.Holds q.1 ∧ l.1.size = 3 ∧ l.1.head < 3 ∧ l.1.tail < 3 ∧
      q.1.length ≤ 2 ∧ (l.1.isEmpty = true ↔ q.1 = []) ∧ (l.1.isFull = true ↔ q.1.length = 2) :=
  run_deque (by decide) _ _

/-! ## The element at a position, after any calls -/

omit [LawfulBEq α] in
/-- A list of size 1 holds nothing: a push pushes out what it writes. -/
theorem step_one {l : LoopList α} (h : l.Holds []) (hsize : l.size = 1) (delFunc : Bool)
    (op : Op α) : (l.step delFunc op).1.Holds [] ∧ (l.step delFunc op).1.size = 1 := by
  obtain ⟨hlen, hhead, htail⟩ := (holds_nil_iff_of_one hsize).mp h
  cases op with
  -- head and tail are the same place, before and after
  | pushToTail data =>
    have hsize' : (l.pushToTail data).size = 1 := (size_pushToTail l data).trans hsize
    refine ⟨(holds_nil_iff_of_one hsize').mpr ?_, hsize'⟩
    have hfull : l.Full := by rw [Full, hhead, hsize, Nat.mod_one]
    simp [pushToTail, hfull, hsize, hlen, Nat.mod_one]
  | pushToHead data =>
    have hsize' : (l.pushToHead data).size = 1 := size_pushToHead.trans hsize
    refine ⟨(holds_nil_iff_of_one hsize').mpr ?_, hsize'⟩
    have hfull : l.isFull = true := by simp [isFull, htail, hsize, Nat.mod_one]
    simp [pushToHead, hfull, hsize, hlen, Nat.mod_one]
  | popFromHead =>
    simp only [step, popFromHead, hhead, htail, ne_eq, not_true_eq_false, if_false]
    exact ⟨h, hsize⟩
  | popFromTail =>
    simp only [step, popFromTail, hhead, htail, ne_eq, not_true_eq_false, if_false]
    exact ⟨h, hsize⟩
  -- there is no element to find
  | remove data =>
    have hempty : l.remove data = l := by
      simp [remove, searchFrom, hsize, hhead, htail]
    exact ⟨by rw [step, hempty]; exact h, by rw [step, hempty]; exact hsize⟩
  | search search => exact ⟨h, hsize⟩
  | clear => exact ⟨holds_clear h, hsize⟩

omit [LawfulBEq α] in
/-- So it is after any calls. -/
theorem run_one {l : LoopList α} (h : l.Holds []) (hsize : l.size = 1) (delFunc : Bool)
    (ops : List (Op α)) : (l.run delFunc ops).1.Holds [] ∧ (l.run delFunc ops).1.size = 1 := by
  induction ops generalizing l with
  | nil => exact ⟨h, hsize⟩
  | cons op ops ih =>
    obtain ⟨h', hsize'⟩ := step_one h hsize delFunc op
    exact ih h' hsize'

/-- What a list holds after these calls. -/
def elements (size : Nat) (delFunc : Bool) (ops : List (Op α)) : List α :=
  if size = 1 then [] else (Deque.run delFunc (size - 1) [] ops).1

/-- After any calls the list holds what the deque of its size does; one of size 1 holds nothing. -/
theorem holds_elements {size : Nat} (hsize : 0 < size) (delFunc : Bool) (ops : List (Op α)) :
    ((create size : LoopList α).run delFunc ops).1.Holds (elements size delFunc ops) ∧
      ((create size : LoopList α).run delFunc ops).1.size = size := by
  have hcreate : (create size : LoopList α).Holds [] := holds_create hsize
  unfold elements
  split_ifs with hone
  · subst hone
    exact run_one hcreate rfl delFunc ops
  · exact (run_holds hcreate (show 2 ≤ size by omega) delFunc ops).2

/-- **The element at a position** is found if and only if the positions up to it do not go round
the end of the array. -/
theorem getFromHead_eq_iff {size : Nat} (hsize : 0 < size) (delFunc : Bool) (ops : List (Op α))
    {k : Nat} (hk : k < (elements size delFunc ops).length) :
    ((create size : LoopList α).run delFunc ops).1.getFromHead k =
        some (some ((elements size delFunc ops).get ⟨k, hk⟩)) ↔
      ((create size : LoopList α).run delFunc ops).1.head + k < size := by
  obtain ⟨hholds, hsize'⟩ := holds_elements hsize delFunc ops
  rw [hholds.getFromHead_inside hk, hsize']

/-- The second of two elements. -/
theorem getFromHead_eq_iff_second :
    let ops : List (Op Nat) := [.pushToTail 1, .pushToTail 2]
    ((create 3 : LoopList Nat).run true ops).1.getFromHead 1 = some (some 2) ↔
      ((create 3 : LoopList Nat).run true ops).1.head + 1 < 3 :=
  getFromHead_eq_iff (by decide) _ _ (by decide)

/-- The second of two elements after two were pushed out: it is at the front of the array. -/
theorem getFromHead_round :
    let ops : List (Op Nat) := [.pushToTail 1, .pushToTail 2, .pushToTail 3, .pushToTail 4]
    elements 3 true ops = [3, 4] ∧
      ((create 3 : LoopList Nat).run true ops).1.getFromHead 1 = none := by
  decide

end LoopList

end PgClient.Loop
