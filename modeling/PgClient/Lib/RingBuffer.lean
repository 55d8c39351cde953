import Mathlib.Data.List.Rotate

/-!
# Ring buffers — a queue laid out round an array

The live contents of a ring are the first `n` elements of the array
rotated to the read index `r`. The rules below say what the two kinds of
block copy used by ring code do to that view:

* `contents_blit` / `contents_blit_wrap` — a block stored at the write index,
  in one piece or in two round the end, is appended to the contents.
* `slice_eq_take` / `slice_wrap_eq_take` — a block read at the read index,
  in one piece or in two round the end, is the front of the contents.
* `contents_advance` — moving the read index drops the front.
-/

namespace RingBuffer

variable {α : Type*}

/-- Overwrite a block of the array (`memcpy` into it at `off`). -/
def blit (buf : List α) (off : Nat) (data : List α) : List α :=
  buf.take off ++ data ++ buf.drop (off + data.length)

/-- A block of the array (`memcpy` out of it at `off`). -/
def slice (buf : List α) (off n : Nat) : List α := (buf.drop off).take n

/-- The live elements: `n` of them from index `r`, round the end. -/
def contents (buf : List α) (r n : Nat) : List α := (buf.rotate r).take n

/-- A write inside the buffer keeps its length. -/
theorem blit_length {buf : List α} {off : Nat} {data : List α}
    (h : off + data.length ≤ buf.length) : (blit buf off data).length = buf.length := by
  simp only [blit, List.length_append, List.length_take, List.length_drop]
  omega

/-- An element of an overwritten array. -/
theorem getElem?_blit {buf : List α} {off : Nat} {data : List α}
    (h : off + data.length ≤ buf.length) (i : Nat) :
    (blit buf off data)[i]? =
      if off ≤ i ∧ i < off + data.length then data[i - off]? else buf[i]? := by
  have hoff : (buf.take off).length = off := by
    rw [List.length_take]
    omega
  simp only [blit, List.append_assoc]
  -- in front of the block, inside it, or behind it
  rcases Nat.lt_or_ge i off with hlt | hge
  · rw [if_neg (by omega), List.getElem?_append_left (by omega), List.getElem?_take,
      if_pos hlt]
  · rw [List.getElem?_append_right (by omega), hoff]
    rcases Nat.lt_or_ge (i - off) data.length with hin | hout
    · rw [if_pos ⟨hge, by omega⟩, List.getElem?_append_left hin]
    · rw [if_neg (by omega), List.getElem?_append_right hout, List.getElem?_drop]
      congr 1
      omega

/-- The block itself. -/
theorem slice_blit {buf : List α} {off : Nat} {data : List α}
    (h : off + data.length ≤ buf.length) : slice (blit buf off data) off data.length = data := by
  have htake : (buf.take off).length = off := by
    rw [List.length_take]
    omega
  rw [slice, blit, List.append_assoc, List.drop_left' htake, List.take_left]

/-- The array up to the end of the block. -/
theorem take_blit {buf : List α} {off : Nat} {data : List α} (hoff : off ≤ buf.length) :
    (blit buf off data).take (off + data.length) = buf.take off ++ data := by
  have hlen : (buf.take off ++ data).length = off + data.length := by
    rw [List.length_append, List.length_take, Nat.min_eq_left hoff]
  rw [blit, ← hlen, List.take_left]

/-- A block beside it. -/
theorem slice_blit_of_disjoint {buf : List α} {off : Nat} {data : List α}
    (h : off + data.length ≤ buf.length) {pos n : Nat}
    (hdisjoint : pos + n ≤ off ∨ off + data.length ≤ pos) :
    slice (blit buf off data) pos n = slice buf pos n := by
  apply List.ext_getElem?
  intro i
  rw [slice, slice, List.getElem?_take, List.getElem?_take, List.getElem?_drop, List.getElem?_drop]
  by_cases hi : i < n
  · rw [if_pos hi, if_pos hi, getElem?_blit h, if_neg (by omega)]
  · rw [if_neg hi, if_neg hi]

@[simp] theorem contents_zero (buf : List α) (r : Nat) : contents buf r 0 = [] := by
  simp [contents]

/-- As many elements are in it as are counted, up to its size. -/
theorem contents_length {buf : List α} {r n : Nat} (hn : n ≤ buf.length) :
    (contents buf r n).length = n := by
  simp [contents, hn]

/-- The elements follow each other around the end of the buffer. -/
theorem getElem?_contents {buf : List α} {r n i : Nat} (hn : n ≤ buf.length) (hi : i < n) :
    (contents buf r n)[i]? = buf[(i + r) % buf.length]? := by
  rw [contents, List.getElem?_take, if_pos hi, List.getElem?_rotate (by omega)]

/-- One turn round the array: an index below twice its length. -/
theorem mod_cases {x len : Nat} (hx : x < 2 * len) :
    (x < len ∧ x % len = x) ∨ (len ≤ x ∧ x % len = x - len) := by
  rcases Nat.lt_or_ge x len with hlt | hge
  · exact Or.inl ⟨hlt, Nat.mod_eq_of_lt hlt⟩
  · exact Or.inr ⟨hge, by rw [Nat.mod_eq_sub_mod hge, Nat.mod_eq_of_lt (by omega)]⟩

/-- A block stored at the write index is appended to the contents. -/
theorem contents_blit {buf : List α} {r n w : Nat} {data : List α} (hr : r < buf.length)
    (hw : w = (r + n) % buf.length) (hroom : n + data.length ≤ buf.length)
    (hend : w + data.length ≤ buf.length) :
    contents (blit buf w data) r (n + data.length) = contents buf r n ++ data := by
  have hlen := blit_length hend
  apply List.ext_getElem?
  intro i
  -- an old element, a new one, or past both
  rcases Nat.lt_or_ge i (n + data.length) with hi | hi
  · rw [getElem?_contents (by omega) hi, hlen, getElem?_blit hend]
    have hwc := @mod_cases (r + n) buf.length (by omega)
    have hic := @mod_cases (i + r) buf.length (by omega)
    rw [← hw] at hwc
    generalize hj : (i + r) % buf.length = j at hic ⊢
    rcases Nat.lt_or_ge i n with hold | hnew
    · -- an old element: the block lies wholly outside its place
      rw [if_neg (by omega),
        List.getElem?_append_left (by rw [contents_length (by omega)]; exact hold),
        getElem?_contents (by omega) hold, hj]
    · -- a new element: its place is in the block
      rw [if_pos (by omega),
        List.getElem?_append_right (by rw [contents_length (by omega)]; exact hnew),
        contents_length (by omega)]
      congr 1
      omega
  · rw [List.getElem?_eq_none (by rw [contents_length (by omega)]; exact hi),
      List.getElem?_eq_none (by rw [List.length_append, contents_length (by omega)]; exact hi)]

/-- A block stored in two pieces round the end is appended, too. -/
theorem contents_blit_wrap {buf : List α} {r n w : Nat} {data : List α} (hr : r < buf.length)
    (hw : w = (r + n) % buf.length) (hroom : n + data.length ≤ buf.length)
    (hend : buf.length ≤ w + data.length) :
    contents (blit (blit buf w (data.take (buf.length - w))) 0 (data.drop (buf.length - w))) r
      (n + data.length) = contents buf r n ++ data := by
  have hwlt : w < buf.length := by
    rw [hw]
    exact Nat.mod_lt _ (by omega)
  have htake : (data.take (buf.length - w)).length = buf.length - w := by
    rw [List.length_take]
    omega
  have hdrop : (data.drop (buf.length - w)).length = data.length - (buf.length - w) :=
    List.length_drop ..
  have hblit : (blit buf w (data.take (buf.length - w))).length = buf.length :=
    blit_length (by omega)
  -- the first piece ends with the array, so the second goes where the contents end
  have hfirst := @contents_blit _ buf r n w (data.take (buf.length - w)) hr hw (by omega) (by omega)
  have hwrap : 0 = (r + (n + (buf.length - w))) % buf.length := by
    rw [← Nat.add_assoc, ← Nat.mod_add_mod, ← hw, show w + (buf.length - w) = buf.length by omega,
      Nat.mod_self]
  have hsecond := @contents_blit _ (blit buf w (data.take (buf.length - w))) r
    (n + (buf.length - w)) 0 (data.drop (buf.length - w)) (by omega)
    (by rw [hblit]; exact hwrap) (by omega) (by omega)
  rw [htake] at hfirst
  rwa [hfirst, List.append_assoc, List.take_append_drop, hdrop,
    show n + (buf.length - w) + (data.length - (buf.length - w)) = n + data.length by omega]
    at hsecond

/-- A block read at the read index without reaching past the end. -/
theorem slice_eq_take {buf : List α} {r n k : Nat} (hend : r + k ≤ buf.length) (hk : k ≤ n) :
    slice buf r k = (contents buf r n).take k := by
  rw [contents, List.take_take, Nat.min_eq_left hk,
    List.rotate_eq_drop_append_take (by omega),
    List.take_append_of_le_length (by rw [List.length_drop]; omega), slice]

/-- A block read in two pieces round the end. -/
theorem slice_wrap_eq_take {buf : List α} {r n k : Nat} (hr : r ≤ buf.length)
    (hwrap : buf.length ≤ r + k) (hk : k ≤ n) (hn : n ≤ buf.length) :
    slice buf r (buf.length - r) ++ slice buf 0 (k - (buf.length - r)) =
      (contents buf r n).take k := by
  have hdrop : (buf.drop r).length = buf.length - r := List.length_drop ..
  rw [contents, List.take_take, Nat.min_eq_left hk, List.rotate_eq_drop_append_take hr,
    List.take_append, List.take_of_length_le (by omega), hdrop, List.take_take,
    Nat.min_eq_left (by omega), slice, slice, List.take_of_length_le (by omega), List.drop_zero]

/-- Moving the read index over `k` elements drops them. -/
theorem contents_advance {buf : List α} {r n k : Nat} (hk : k ≤ n) (hn : n ≤ buf.length) :
    contents buf ((r + k) % buf.length) (n - k) = (contents buf r n).drop k := by
  rw [contents, List.rotate_mod, ← List.rotate_rotate,
    List.rotate_eq_drop_append_take (l := buf.rotate r) (n := k) (by simp; omega),
    List.take_append_of_le_length (by simp; omega), contents, List.drop_take]

end RingBuffer
