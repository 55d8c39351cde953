import PgClient.Lib.PartialRun
import PgClient.Lib.RingBuffer

/-!
# Blocks — memory from the heap

A block is its cells; one that was never written is `none`. A store must lie
inside the block, and a load must read written cells of it.

A block that is written from its start on is `Filled` with what was stored.

* `store_filled` — a store where the data ends appends to it, if it fits.
* `store_starts`, `store_layout`, `load_starts` — so it does whatever is behind the data.
* `load_filled`, `load_beyond` — a load reads the data, and nothing beyond it.
-/

namespace Block

variable {α : Type*}

/-- `malloc`: nothing is written yet. -/
def alloc (n : Nat) : List (Option α) := List.replicate n none

/-- `memcpy` to the offset; `none` when it does not lie inside the block. -/
def store (b : List (Option α)) (off : Nat) (data : List α) : Option (List (Option α)) :=
  if off + data.length ≤ b.length then some (RingBuffer.blit b off (data.map some)) else none

/-- Read `n` cells from the offset; `none` outside the block, or where nothing
was written. -/
def load (b : List (Option α)) (off n : Nat) : Option (List α) :=
  if off + n ≤ b.length ∧ (RingBuffer.slice b off n).all Option.isSome then
    some ((RingBuffer.slice b off n).filterMap id)
  else none

/-- The data is written, and nothing after it. -/
def Filled (b : List (Option α)) (data : List α) : Prop :=
  ∃ k, b = data.map some ++ List.replicate k none

variable {b : List (Option α)} {data : List α}

/-- A new block is filled with nothing. -/
theorem filled_alloc (n : Nat) : Filled (alloc n : List (Option α)) [] := ⟨n, rfl⟩

/-- No more than the block is filled. -/
theorem Filled.length_le (h : Filled b data) : data.length ≤ b.length := by
  obtain ⟨k, rfl⟩ := h
  simp

/-- A store is undefined only where the data goes behind the end. -/
theorem store_eq_none_iff {off : Nat} {d : List α} :
    store b off d = none ↔ b.length < off + d.length := by
  unfold store
  split_ifs with h
  · simp [h]
  · simpa using h

/-- A store where the data of a block ends. -/
theorem store_append {rest : List (Option α)} {d : List α} (hroom : d.length ≤ rest.length) :
    store (data.map some ++ rest) data.length d =
      some ((data ++ d).map some ++ rest.drop d.length) := by
  have hlen : (data.map some).length = data.length := List.length_map _
  rw [store, if_pos (by rw [List.length_append, hlen]; omega), RingBuffer.blit, ← hlen,
    List.take_left, List.drop_append, List.map_append, List.length_map,
    List.drop_of_length_le (by omega)]
  simp

/-- The block begins with the data. -/
def Starts (b : List (Option α)) (data : List α) : Prop := ∃ rest, b = data.map some ++ rest

theorem starts_nil (b : List (Option α)) : Starts b [] := ⟨b, rfl⟩

/-- Data stored behind what a block starts with prolongs that, as long as there is room. -/
theorem store_starts (h : Starts b data) {d : List α} (hroom : data.length + d.length ≤ b.length) :
    ∃ b', store b data.length d = some b' ∧ Starts b' (data ++ d) ∧ b'.length = b.length := by
  obtain ⟨rest, rfl⟩ := h
  rw [List.length_append, List.length_map] at hroom
  refine ⟨_, store_append (by omega), ⟨_, rfl⟩, ?_⟩
  simp only [List.length_append, List.length_map, List.length_drop]
  omega

/-- What a block starts with can be read back. -/
theorem load_starts (h : Starts b data) : load b 0 data.length = some data := by
  obtain ⟨rest, rfl⟩ := h
  have hslice : RingBuffer.slice (data.map some ++ rest) 0 data.length = data.map some := by
    rw [RingBuffer.slice, List.drop_zero, List.take_left' (List.length_map _)]
  rw [load, hslice, if_pos ⟨by simp, by simp⟩]
  simp [List.filterMap_map]

/-- Data one behind the other, with their offsets. -/
def layout : Nat → List (List α) → List (Nat × List α)
  | _, [] => []
  | off, d :: ds => (off, d) :: layout (off + d.length) ds

/-- Stores one behind the other. -/
theorem store_layout {fields : List (List α)} (h : Starts b data)
    (hroom : data.length + fields.flatten.length ≤ b.length) :
    ∃ b', PartialRun.runAll (fun f b => store b f.1 f.2) (layout data.length fields) b = some b' ∧
      Starts b' (data ++ fields.flatten) ∧ b'.length = b.length := by
  induction fields generalizing b data with
  | nil => exact ⟨b, rfl, by rwa [List.flatten_nil, List.append_nil], rfl⟩
  | cons d ds ih =>
    rw [List.flatten_cons, List.length_append] at hroom
    -- the first field, and the others behind it
    obtain ⟨b₁, hstore, hstarts, hlen⟩ := store_starts h (d := d) (by omega)
    obtain ⟨b', hrun, hstarts', hlen'⟩ := ih hstarts (by rw [List.length_append, hlen]; omega)
    rw [List.length_append] at hrun
    refine ⟨b', ?_, by rwa [List.flatten_cons, ← List.append_assoc], hlen'.trans hlen⟩
    rw [layout, PartialRun.runAll, hstore]
    exact hrun

/-- A store where the data ends. -/
theorem store_filled (h : Filled b data) {d : List α} (hroom : data.length + d.length ≤ b.length) :
    ∃ b', store b data.length d = some b' ∧ Filled b' (data ++ d) ∧ b'.length = b.length := by
  obtain ⟨k, rfl⟩ := h
  rw [List.length_append, List.length_map, List.length_replicate] at hroom
  -- what is written starts at the first cell that was not
  refine ⟨_, store_append (by rw [List.length_replicate]; omega), ⟨k - d.length, ?_⟩, ?_⟩
  · rw [List.drop_replicate]
  · simp only [List.length_append, List.length_map, List.length_drop, List.length_replicate]
    omega

/-- A part of the filled bytes is the part of the data. -/
theorem slice_filled (h : Filled b data) {off n : Nat} (hin : off + n ≤ data.length) :
    RingBuffer.slice b off n = (RingBuffer.slice data off n).map some := by
  obtain ⟨k, rfl⟩ := h
  unfold RingBuffer.slice
  rw [List.drop_append_of_le_length (by simp; omega), List.take_append_of_le_length (by simp; omega),
    List.map_take, List.map_drop]

/-- A load of what was stored. -/
theorem load_filled (h : Filled b data) {off n : Nat} (hin : off + n ≤ data.length) :
    load b off n = some (RingBuffer.slice data off n) := by
  have hle := h.length_le
  unfold load
  rw [slice_filled h hin, if_pos ⟨by omega, by simp⟩]
  simp [List.filterMap_map]

/-- A load that reaches beyond it. -/
theorem load_beyond (h : Filled b data) {off n : Nat} (hn : 0 < n) (hout : data.length < off + n) :
    load b off n = none := by
  unfold load
  refine if_neg ?_
  rintro ⟨hin, hall⟩
  obtain ⟨k, rfl⟩ := h
  -- the last cell of the slice was never written
  have hlast : (RingBuffer.slice (data.map some ++ List.replicate k none) off n)[n - 1]? =
      some none := by
    have hge : (data.map some).length ≤ off + (n - 1) := by
      simp only [List.length_map]
      omega
    simp only [List.length_append, List.length_map, List.length_replicate] at hin
    rw [RingBuffer.slice, List.getElem?_take, if_pos (by omega), List.getElem?_drop,
      List.getElem?_append_right hge, List.getElem?_replicate, if_pos]
    simp only [List.length_map]
    omega
  have hsome := List.all_eq_true.mp hall none (List.mem_of_getElem? hlast)
  cases hsome

end Block
