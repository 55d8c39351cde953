import Mathlib.Data.List.Nodup
import Mathlib.Data.List.Perm.Basic

/-!
# Handles that several threads write

A thread opens resources one after the other. A handle, which other threads can see, names the one
that it holds, and it closes what the handle names. The others cannot close it: they write that
there is none.

* `Kept` — what the owner can rely on, while it holds a resource and while it does not.
* `abandoned` — the open resources that the handle does not name.
* `Move` — what can happen. `Move.drop` is the only way to abandon a resource, and nothing that is
  abandoned is closed.
-/

namespace SharedHandle

/-- Whether the owner is where it holds a resource, the handle, and the resources that it opened
and did not close. -/
structure Cell (ρ : Type*) where
  holding : Bool
  handle : ρ
  pool : List ρ

variable {ρ : Type*} [DecidableEq ρ]

/-- `nil` is no resource. While the owner holds one, the handle names it or is `nil`; otherwise the
handle names nothing that is open. -/
structure Cell.Kept (nil : ρ) (c : Cell ρ) : Prop where
  nodup : c.pool.Nodup
  nil_notMem : nil ∉ c.pool
  of_holding : c.holding = true → c.handle = nil ∨ c.handle ∈ c.pool
  of_free : c.holding = false → c.handle ∉ c.pool

/-- The open resources that the handle does not name. -/
def Cell.abandoned (c : Cell ρ) : List ρ := c.pool.filter (· ≠ c.handle)

/-- What is abandoned where the handle is overwritten. -/
def Cell.dropped (c : Cell ρ) : List ρ := if c.handle ∈ c.pool then [c.handle] else []

/-- The owner can rely on the same as before, and `gone` is abandoned besides what was. -/
structure Move (nil : ρ) (c c' : Cell ρ) (gone : List ρ) : Prop where
  kept : c'.Kept nil
  perm : c'.abandoned.Perm (gone ++ c.abandoned)

variable {nil new : ρ} {c : Cell ρ}

/-- A handle outside the pool protects nothing. -/
theorem Cell.abandoned_of_notMem (h : c.handle ∉ c.pool) : c.abandoned = c.pool :=
  List.filter_eq_self.mpr fun _ hr => decide_eq_true fun heq => h (heq ▸ hr)

/-- And nothing is lost when it is overwritten. -/
theorem Cell.dropped_of_notMem (h : c.handle ∉ c.pool) : c.dropped = [] := if_neg h

/-- What the handle does not name is the pool without it. -/
theorem Cell.erase_eq_abandoned (h : c.pool.Nodup) : c.pool.erase c.handle = c.abandoned := by
  rw [h.erase_eq_filter, Cell.abandoned]
  exact List.filter_congr fun r _ => by rw [bne, beq_eq_decide, decide_not]

omit [DecidableEq ρ] in
/-- Nothing is open. -/
theorem Cell.Kept.start (nil handle : ρ) : (⟨false, handle, []⟩ : Cell ρ).Kept nil where
  nodup := List.nodup_nil
  nil_notMem := List.not_mem_nil
  of_holding h := absurd h Bool.false_ne_true
  of_free _ := List.not_mem_nil

/-- Nothing happens to the resources. -/
theorem Move.refl (h : c.Kept nil) : Move nil c c [] := ⟨h, .refl _⟩

/-- The owner opens a resource. -/
theorem Move.acquire (h : c.Kept nil) (hc : c.holding = false) (hnew : new ∉ c.pool)
    (hnil : new ≠ nil) : Move nil c ⟨true, new, new :: c.pool⟩ [] where
  kept := {
    nodup := List.nodup_cons.mpr ⟨hnew, h.nodup⟩
    nil_notMem := List.not_mem_cons_of_ne_of_not_mem hnil.symm h.nil_notMem
    of_holding := fun _ => .inr List.mem_cons_self
    of_free := fun h => absurd h.symm Bool.false_ne_true }
  perm := by
    -- the new one is named by the handle, so that it is not abandoned
    have hfilter : (⟨true, new, new :: c.pool⟩ : Cell ρ).abandoned =
        (⟨true, new, c.pool⟩ : Cell ρ).abandoned := List.filter_cons_of_neg (by simp)
    rw [hfilter, Cell.abandoned_of_notMem hnew, Cell.abandoned_of_notMem (h.of_free hc)]
    exact .refl _

/-- The owner closes what the handle names. -/
theorem Move.release (h : c.Kept nil) : Move nil c ⟨false, c.handle, c.pool.erase c.handle⟩ [] where
  kept := {
    nodup := h.nodup.erase c.handle
    nil_notMem := fun hmem => h.nil_notMem (List.mem_of_mem_erase hmem)
    of_holding := fun h => absurd h Bool.false_ne_true
    of_free := fun _ hmem => (h.nodup.mem_erase_iff.mp hmem).1 rfl }
  perm := by
    -- what was closed is open no more
    have hnot : c.handle ∉ c.pool.erase c.handle := fun hmem =>
      (h.nodup.mem_erase_iff.mp hmem).1 rfl
    rw [Cell.abandoned_of_notMem hnot]
    exact .of_eq (Cell.erase_eq_abandoned h.nodup)

/-- The handle is overwritten, wherever the owner is then. What it named is abandoned, if it is
still open. -/
theorem Move.drop (h : c.Kept nil) (b : Bool) : Move nil c ⟨b, nil, c.pool⟩ c.dropped where
  kept := {
    nodup := h.nodup
    nil_notMem := h.nil_notMem
    of_holding := fun _ => .inl rfl
    of_free := fun _ => h.nil_notMem }
  perm := by
    -- what the handle named is in the pool still, and nothing names it
    rw [Cell.abandoned_of_notMem h.nil_notMem, Cell.dropped]
    split
    · next hmem =>
      rw [← Cell.erase_eq_abandoned h.nodup]
      exact List.perm_cons_erase hmem
    · next hmem => exact .of_eq (Cell.abandoned_of_notMem hmem).symm

/-- The owner writes that it has none, where the handle names nothing that is open. -/
theorem Move.forget (h : c.Kept nil) (hc : c.handle ∉ c.pool) (b : Bool) :
    Move nil c ⟨b, nil, c.pool⟩ [] := Cell.dropped_of_notMem hc ▸ Move.drop h b

/-- The owner goes on without a resource, where the handle was overwritten. -/
theorem Move.lost (h : c.Kept nil) (hnone : c.handle = nil) (b : Bool) :
    Move nil c ⟨b, c.handle, c.pool⟩ [] := by
  subst hnone
  exact Move.forget h h.nil_notMem b

end SharedHandle
