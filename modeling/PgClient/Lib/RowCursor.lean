import Mathlib.Data.List.Basic

/-!
# Row cursors — statements that look at one cell after the other

An array of cells, some of them empty, and a statement for each column that looks at the cell under
a cursor. It moves the cursor on; some statements do so only if there is something in the cell.

* `load` — what the statements store.
* `taken` — the cells that it comes from.
* `taken_eq_own_iff` — they are the own ones exactly if behind an empty cell that does not move the
  cursor on there are empty cells only.
* `load_of_taken` — then the statements store what is in them.
-/

namespace RowCursor

variable {κ ρ : Type*}

/-- The statement for a column. -/
structure Column (κ ρ : Type*) where
  /-- It moves the cursor on only if there is something in the cell. -/
  inside : Bool
  /-- What there is room for. -/
  fits : κ → Bool
  put : Option κ → ρ → ρ

/-- Where the cursor is afterwards. -/
def Column.next (c : Column κ ρ) (cell : Option κ) (index : Nat) : Nat :=
  if c.inside ∧ cell.isNone then index else index + 1

section

variable (cells : List (Option κ))

/-- What is in a cell. -/
def cellAt (i : Nat) : Option κ := cells[i]?.join

/-- One statement after the other; `none` is a read behind the cells, or no room. -/
def load : List (Column κ ρ) → Nat → ρ → Option ρ
  | [], _, r => some r
  | c :: cs, index, r =>
    match cells[index]? with
    | none => none
    | some cell =>
      if cell.all c.fits then load cs (c.next cell index) (c.put cell r) else none

/-- The cell, if there is something in it. -/
def source (i : Nat) : Option Nat := (cellAt cells i).map fun _ => i

/-- The cell that each statement takes. -/
def taken : List (Column κ ρ) → Nat → List (Option Nat)
  | [], _ => []
  | c :: cs, index => source cells index :: taken cs (c.next (cellAt cells index) index)

/-- The own cells of `n` columns. -/
def own (start n : Nat) : List (Option Nat) := (List.range' start n).map (source cells)

/-- What is put if each column puts its own cell. -/
def putOwn (cs : List (Column κ ρ)) (start : Nat) (r : ρ) : ρ :=
  (cs.zipIdx start).foldl (fun r p => p.1.put (cellAt cells p.2) r) r

/-- There is room for what is in the own cells. -/
def FitsOwn (cs : List (Column κ ρ)) (start : Nat) : Prop :=
  ∀ p ∈ cs.zipIdx start, (cellAt cells p.2).all p.1.fits

/-- Behind an empty cell that does not move the cursor on, there are empty cells only. -/
def Aligned (cs : List (Column κ ρ)) (start : Nat) : Prop :=
  ∀ (i j : Nat) (c : Column κ ρ), cs[i]? = some c → c.inside → cellAt cells (start + i) = none →
    i < j → j < cs.length → cellAt cells (start + j) = none

end

variable {cells : List (Option κ)} {c : Column κ ρ} {cs : List (Column κ ρ)} {index i : Nat}

/-- A column moves the cursor by one cell at most. -/
theorem next_le (c : Column κ ρ) (cell : Option κ) (index : Nat) : c.next cell index ≤ index + 1 := by
  unfold Column.next
  split_ifs
  · exact Nat.le_succ index
  · exact Nat.le_refl _

/-- It never moves it back. -/
theorem le_next (c : Column κ ρ) (cell : Option κ) (index : Nat) : index ≤ c.next cell index := by
  unfold Column.next
  split_ifs
  · exact Nat.le_refl index
  · exact Nat.le_succ index

theorem own_succ (cells : List (Option κ)) (start n : Nat) :
    own cells start (n + 1) = source cells start :: own cells (start + 1) n := rfl

/-- A cell that is taken from another place is empty. -/
theorem source_eq_iff {index i : Nat} (h : index ≠ i) :
    source cells index = source cells i ↔ cellAt cells index = none ∧ cellAt cells i = none := by
  unfold source
  cases cellAt cells index <;> cases cellAt cells i <;> simp [h]

/-! ## A cursor that is behind -/

/-- Before empty cells it takes nothing. -/
theorem taken_of_empty (hle : index ≤ i)
    (hempty : ∀ j, index ≤ j → j < i + cs.length → cellAt cells j = none) :
    taken cells cs index = own cells i cs.length := by
  induction cs generalizing index i with
  | nil => rfl
  | cons c cs ih =>
    -- both cells are among the empty ones
    have hsource : source cells index = source cells i := by
      rw [source, source, hempty index (Nat.le_refl index) (by simp; omega),
        hempty i hle (by simp)]
      rfl
    have hnext := next_le c (cellAt cells index) index
    have hnext' := le_next c (cellAt cells index) index
    have hrest : ∀ j, c.next (cellAt cells index) index ≤ j → j < i + 1 + cs.length →
        cellAt cells j = none :=
      fun j hj hlt => hempty j (by omega) (by rw [List.length_cons]; omega)
    rw [taken, List.length_cons, own_succ, hsource, ih (by omega) hrest]

/-- A cursor that is behind finds the own cells only if they are empty. -/
theorem empty_of_taken (hlt : index < i) (h : taken cells cs index = own cells i cs.length) :
    ∀ j, i ≤ j → j < i + cs.length → cellAt cells j = none := by
  induction cs generalizing index i with
  | nil =>
    intro j hj hlt
    exact absurd hlt (by simp; omega)
  | cons c cs ih =>
    rw [taken, List.length_cons, own_succ, List.cons.injEq] at h
    -- the cursor falls no further behind, and does not catch up
    have hnext := next_le c (cellAt cells index) index
    intro j hj hjlt
    rcases Nat.eq_or_lt_of_le hj with rfl | hj
    · exact ((source_eq_iff (by omega)).mp h.1).2
    · exact ih (by omega) h.2 j hj (by rw [List.length_cons] at hjlt; omega)

/-! ## The own cells -/

/-- From a column on: behind its cell there are empty ones only, if that is empty and does not move
the cursor on; and so from the next column. -/
theorem aligned_cons : Aligned cells (c :: cs) i ↔
    (c.inside → cellAt cells i = none →
      ∀ j, i + 1 ≤ j → j < i + 1 + cs.length → cellAt cells j = none) ∧
      Aligned cells cs (i + 1) := by
  constructor
  · intro h
    -- the first column is at 0, the others one further
    refine ⟨fun hinside hempty j hj hlt => ?_, fun k j c' hk hinside hempty hkj hj => ?_⟩
    · have hcell := h 0 (j - i) c rfl hinside hempty (by omega) (by rw [List.length_cons]; omega)
      rwa [Nat.add_sub_cancel' (by omega)] at hcell
    · have hcell := h (k + 1) (j + 1) c' hk hinside
      rw [show i + (k + 1) = i + 1 + k by omega, show i + (j + 1) = i + 1 + j by omega] at hcell
      exact hcell hempty (by omega) (by rw [List.length_cons]; omega)
  · rintro ⟨hfirst, hrest⟩ k j c' hk hinside hempty hkj hj
    rw [List.length_cons] at hj
    obtain ⟨j, rfl⟩ : ∃ j', j = j' + 1 := ⟨j - 1, by omega⟩
    cases k with
    | zero =>
      obtain rfl := Option.some.inj hk
      exact hfirst hinside hempty _ (by omega) (by omega)
    | succ k =>
      rw [show i + (j + 1) = i + 1 + j by omega]
      rw [show i + (k + 1) = i + 1 + k by omega] at hempty
      exact hrest k j c' hk hinside hempty (by omega) (by omega)

/-- **When the statements take their own cells.** -/
theorem taken_eq_own_iff : taken cells cs i = own cells i cs.length ↔ Aligned cells cs i := by
  induction cs generalizing i with
  | nil => exact iff_of_true rfl nofun
  | cons c cs ih =>
    rw [aligned_cons, ← ih, taken, List.length_cons, own_succ, List.cons.injEq, and_iff_right rfl]
    by_cases hstay : c.inside = true ∧ cellAt cells i = none
    · -- the cursor stays, and is behind
      have hnext : c.next (cellAt cells i) i = i := if_pos ⟨hstay.1, by rw [hstay.2]; rfl⟩
      rw [hnext]
      constructor
      · intro h
        have hempty := empty_of_taken (Nat.lt_succ_self i) h
        refine ⟨fun _ _ => hempty, taken_of_empty (Nat.le_refl _) hempty⟩
      · rintro ⟨hempty, -⟩
        refine taken_of_empty (Nat.le_succ i) fun j hj hlt => ?_
        rcases Nat.eq_or_lt_of_le hj with rfl | hj
        · exact hstay.2
        · exact hempty hstay.1 hstay.2 j hj hlt
    · -- the cursor goes on with the columns
      have hnext : c.next (cellAt cells i) i = i + 1 := if_neg fun h =>
        hstay ⟨h.1, Option.isNone_iff_eq_none.mp h.2⟩
      rw [hnext]
      exact ⟨fun h => ⟨fun hinside hempty => absurd ⟨hinside, hempty⟩ hstay, h⟩, And.right⟩

/-! ## What is stored -/

/-- Column by column, each looks at its own cell. -/
theorem fitsOwn_cons : FitsOwn cells (c :: cs) i ↔
    (cellAt cells i).all c.fits ∧ FitsOwn cells cs (i + 1) := by
  unfold FitsOwn
  rw [List.zipIdx_cons, List.forall_mem_cons]

/-- The next statement, where there is a cell. -/
theorem load_cons (hindex : index < cells.length) (r : ρ) :
    load cells (c :: cs) index r =
      if (cellAt cells index).all c.fits then
        load cells cs (c.next (cellAt cells index) index) (c.put (cellAt cells index) r)
      else none := by
  rw [load, cellAt, List.getElem?_eq_getElem hindex]
  rfl

/-- **What the statements store**, if they take their own cells. -/
theorem load_of_taken (hle : index ≤ i) (hlen : i + cs.length ≤ cells.length)
    (h : taken cells cs index = own cells i cs.length) (r r' : ρ) :
    load cells cs index r = some r' ↔ FitsOwn cells cs i ∧ r' = putOwn cells cs i r := by
  induction cs generalizing index i r with
  | nil =>
    rw [load, Option.some.injEq, and_iff_right nofun, eq_comm]
    rfl
  | cons c cs ih =>
    rw [List.length_cons] at hlen
    rw [taken, List.length_cons, own_succ, List.cons.injEq] at h
    -- a cursor that is behind takes the own cell all the same: there is nothing in either
    have hcell : cellAt cells index = cellAt cells i := by
      by_cases heq : index = i
      · rw [heq]
      · obtain ⟨hempty, hempty'⟩ := (source_eq_iff heq).mp h.1
        rw [hempty, hempty']
    have hnext := next_le c (cellAt cells index) index
    rw [load_cons (by omega), fitsOwn_cons, ← hcell, and_assoc]
    split_ifs with hfits
    · have hput : putOwn cells (c :: cs) i r =
          putOwn cells cs (i + 1) (c.put (cellAt cells index) r) := by
        rw [hcell]
        rfl
      rw [ih (by omega) (by omega) h.2, and_iff_right hfits, hput]
    · exact iff_of_false nofun fun h => hfits h.1

/-- What no statement puts anything into stays as it is. -/
theorem load_frame {σ : Type*} {f : ρ → σ} {r r' : ρ}
    (h : ∀ c ∈ cs, ∀ cell r, f (c.put cell r) = f r) (hload : load cells cs index r = some r') :
    f r' = f r := by
  induction cs generalizing index r with
  | nil =>
    obtain rfl := Option.some.inj hload
    rfl
  | cons c cs ih =>
    rw [load] at hload
    -- a cell that is not there or does not fit ends the loading
    split at hload
    · cases hload
    · next cell _ =>
      split_ifs at hload
      rw [ih (fun c hc => h c (List.mem_cons_of_mem _ hc)) hload, h c List.mem_cons_self]

/-- A cursor that starts in a row stays in it. -/
theorem load_isSome_iff (hlen : index + cs.length ≤ cells.length) (r : ρ) :
    (load cells cs index r).isSome ↔
      ∀ p ∈ cs.zip (taken cells cs index), ∀ j ∈ p.2, (cellAt cells j).all p.1.fits := by
  induction cs generalizing index r with
  | nil => exact iff_of_true rfl nofun
  | cons c cs ih =>
    rw [List.length_cons] at hlen
    have hnext := next_le c (cellAt cells index) index
    -- a NULL is passed over, any other cell has to fit
    have hfirst : (∀ j ∈ source cells index, (cellAt cells j).all c.fits = true) ↔
        (cellAt cells index).all c.fits = true := by
      unfold source
      cases hcell : cellAt cells index with
      | none => simp
      | some x => simp [hcell]
    rw [load_cons (by omega), taken, List.zip_cons_cons, List.forall_mem_cons, hfirst]
    split_ifs with hfits
    · rw [ih (by omega), and_iff_right hfits]
    · exact iff_of_false nofun fun h => hfits h.1

/-! ## Cells elsewhere -/

section

variable {cells' : List (Option κ)} {i' : Nat}

/-- Only the cells of the columns matter. -/
theorem aligned_congr (h : ∀ k < cs.length, cellAt cells (i + k) = cellAt cells' (i' + k)) :
    Aligned cells cs i ↔ Aligned cells' cs i' := by
  refine forall₃_congr fun k j c => forall_congr' fun hk => forall_congr' fun _ => ?_
  have hlt : k < cs.length := (List.getElem?_eq_some_iff.mp hk).1
  rw [h k hlt]
  refine forall_congr' fun _ => forall_congr' fun _ => forall_congr' fun hj => ?_
  rw [h j hj]

/-- The same holds of what fits them and of what is put. -/
theorem cells_congr (h : ∀ k < cs.length, cellAt cells (i + k) = cellAt cells' (i' + k)) (r : ρ) :
    (FitsOwn cells cs i ↔ FitsOwn cells' cs i') ∧ putOwn cells cs i r = putOwn cells' cs i' r := by
  induction cs generalizing i i' r with
  | nil => exact ⟨iff_of_true nofun nofun, rfl⟩
  | cons c cs ih =>
    have hfirst : cellAt cells i = cellAt cells' i' := h 0 (Nat.succ_pos cs.length)
    -- behind the first column the cells still agree
    have hrest : ∀ k < cs.length, cellAt cells (i + 1 + k) = cellAt cells' (i' + 1 + k) := by
      intro k hk
      have hcell := h (k + 1) (Nat.succ_lt_succ hk)
      rwa [← Nat.add_assoc, ← Nat.add_assoc, Nat.add_right_comm i, Nat.add_right_comm i'] at hcell
    rw [fitsOwn_cons, fitsOwn_cons, hfirst, (ih hrest r).1]
    refine ⟨Iff.rfl, ?_⟩
    calc putOwn cells (c :: cs) i r = putOwn cells cs (i + 1) (c.put (cellAt cells i) r) := rfl
      _ = putOwn cells' cs (i' + 1) (c.put (cellAt cells' i') r) := by
        rw [hfirst, (ih hrest _).2]

end

end RowCursor
