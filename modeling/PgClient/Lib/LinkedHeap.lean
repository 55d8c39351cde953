import Mathlib.Data.List.Nodup
import Mathlib.Data.List.Perm.Subperm
import Mathlib.Logic.Function.Basic

/-!
# Singly linked lists on a heap

A heap of list cells with explicit allocation and release. Reading,
relinking or releasing a cell that is not allocated is undefined behaviour
and yields `none`. Addresses are never given out twice, so a pointer to a
released cell stays recognisable as dangling.

`Linked h p xs q` says that following `next` from `p` visits exactly the
cells `xs` (address and value) and then arrives at `q`. A list is well
formed when `q` is null; a list whose `q` is a released address is one
that dangles after `xs`.

`walk` is the loop `while (p) { body; p = p->next; }` with an early exit.
Its rules reduce it to `scan`, the same loop over the list of values:

* `walk_linked`   — a null-terminated list is scanned to its end.
* `walk_dangling` — a scan that runs off a dangling list is undefined.
-/

namespace LinkedHeap

/-- A cell: its value and its `next` pointer. -/
structure Cell (α : Type*) where
  val : α
  next : Option Nat

/-- A heap of cells; no address from `brk` on was ever given out. -/
structure Heap (α : Type*) where
  cells : Nat → Option (Cell α)
  brk : Nat
  unused : ∀ a, brk ≤ a → cells a = none

variable {α : Type*}

namespace Heap

/-- The heap with nothing allocated. -/
def empty : Heap α := ⟨fun _ => none, 0, fun _ _ => rfl⟩

/-- Allocate a cell whose `next` is null. -/
def alloc (h : Heap α) (v : α) : Heap α × Nat :=
  (⟨Function.update h.cells h.brk (some ⟨v, none⟩), h.brk + 1, fun a ha => by
    rw [Function.update_of_ne (by omega)]
    exact h.unused a (by omega)⟩, h.brk)

/-- Overwrite the `next` pointer of an allocated cell. -/
def setNext (h : Heap α) (a : Nat) (n : Option Nat) : Option (Heap α) :=
  match hc : h.cells a with
  | none => none
  | some c => some ⟨Function.update h.cells a (some ⟨c.val, n⟩), h.brk, fun b hb => by
      have hne : b ≠ a := fun h' => by
        rw [← h', h.unused b hb] at hc
        exact absurd hc (by simp)
      rw [Function.update_of_ne hne]
      exact h.unused b hb⟩

/-- Release an allocated cell. -/
def free (h : Heap α) (a : Nat) : Option (Heap α) :=
  match h.cells a with
  | none => none
  | some _ => some ⟨Function.update h.cells a none, h.brk, fun b hb => by
      by_cases hne : b = a
      · rw [hne, Function.update_self]
      · rw [Function.update_of_ne hne]
        exact h.unused b hb⟩

/-- Live cells are below the break. -/
theorem lt_brk_of_live {h : Heap α} {a : Nat} {c : Cell α} (hc : h.cells a = some c) :
    a < h.brk := by
  by_contra hge
  rw [h.unused a (by omega)] at hc
  exact absurd hc (by simp)

@[simp] theorem alloc_addr (h : Heap α) (v : α) : (h.alloc v).2 = h.brk := rfl

/-- The new cell holds the value and points nowhere. -/
@[simp] theorem alloc_cells_self (h : Heap α) (v : α) :
    (h.alloc v).1.cells h.brk = some ⟨v, none⟩ := by
  simp [alloc]

/-- The others are as they were. -/
theorem alloc_cells_of_ne (h : Heap α) (v : α) {a : Nat} (ha : a ≠ h.brk) :
    (h.alloc v).1.cells a = h.cells a := by
  simp [alloc, ha]

/-- Relinking an allocated cell succeeds and changes that cell only. -/
theorem setNext_live {h : Heap α} {a : Nat} {c : Cell α} (n : Option Nat)
    (hc : h.cells a = some c) :
    ∃ h', h.setNext a n = some h' ∧ h'.cells a = some ⟨c.val, n⟩ ∧
      (∀ b, b ≠ a → h'.cells b = h.cells b) ∧ h'.brk = h.brk := by
  unfold setNext
  split
  · next hnone => rw [hc] at hnone; exact absurd hnone (by simp)
  · next c' hsome =>
    obtain rfl : c' = c := Option.some.inj (hsome.symm.trans hc)
    exact ⟨_, rfl, by simp, fun b hb => by simp [hb], rfl⟩

/-- Releasing an allocated cell succeeds and changes that cell only. -/
theorem free_live {h : Heap α} {a : Nat} {c : Cell α} (hc : h.cells a = some c) :
    ∃ h', h.free a = some h' ∧ h'.cells a = none ∧
      (∀ b, b ≠ a → h'.cells b = h.cells b) ∧ h'.brk = h.brk := by
  unfold free
  rw [hc]
  exact ⟨_, rfl, by simp, fun b hb => by simp [hb], rfl⟩

end Heap

/-! ## List segments -/

/-- Following `next` from `p` visits exactly `xs` and arrives at `q`. -/
def Linked (h : Heap α) : Option Nat → List (Nat × α) → Option Nat → Prop
  | p, [], q => p = q
  | p, (a, v) :: xs, q => p = some a ∧ ∃ n, h.cells a = some ⟨v, n⟩ ∧ Linked h n xs q

@[simp] theorem linked_nil (h : Heap α) (p q : Option Nat) :
    Linked h p [] q ↔ p = q := Iff.rfl

@[simp] theorem linked_cons (h : Heap α) (p q : Option Nat) (a : Nat) (v : α)
    (xs : List (Nat × α)) :
    Linked h p ((a, v) :: xs) q ↔
      p = some a ∧ ∃ n, h.cells a = some ⟨v, n⟩ ∧ Linked h n xs q := Iff.rfl

/-- A segment splits wherever its list does. -/
theorem linked_append {h : Heap α} {p q : Option Nat} {xs ys : List (Nat × α)} :
    Linked h p (xs ++ ys) q ↔ ∃ r, Linked h p xs r ∧ Linked h r ys q := by
  induction xs generalizing p with
  | nil => simp
  | cons x xs ih =>
    obtain ⟨a, v⟩ := x
    simp only [List.cons_append, linked_cons, ih]
    constructor
    · rintro ⟨hp, n, hc, r, hxs, hys⟩
      exact ⟨r, ⟨hp, n, hc, hxs⟩, hys⟩
    · rintro ⟨r, ⟨hp, n, hc, hxs⟩, hys⟩
      exact ⟨hp, n, hc, r, hxs, hys⟩

/-- A segment depends on its own cells only. -/
theorem Linked.congr {h h' : Heap α} {p q : Option Nat} {xs : List (Nat × α)}
    (hl : Linked h p xs q) (hsame : ∀ x ∈ xs, h'.cells x.1 = h.cells x.1) :
    Linked h' p xs q := by
  induction xs generalizing p with
  | nil => exact hl
  | cons x xs ih =>
    obtain ⟨a, v⟩ := x
    obtain ⟨hp, n, hc, hxs⟩ := hl
    refine ⟨hp, n, ?_, ih hxs fun y hy => hsame y (List.mem_cons_of_mem _ hy)⟩
    rw [hsame (a, v) (List.mem_cons_self ..), hc]

/-- Every cell of a segment is allocated and holds its value. -/
theorem Linked.live {h : Heap α} {p q : Option Nat} {xs : List (Nat × α)}
    (hl : Linked h p xs q) {x : Nat × α} (hx : x ∈ xs) :
    ∃ n, h.cells x.1 = some ⟨x.2, n⟩ := by
  induction xs generalizing p with
  | nil => simp at hx
  | cons y xs ih =>
    obtain ⟨a, v⟩ := y
    obtain ⟨-, n, hc, hxs⟩ := hl
    rcases List.mem_cons.mp hx with rfl | hx
    · exact ⟨n, hc⟩
    · exact ih hxs hx

/-- No allocated cell sits at `q`. -/
def Dead (h : Heap α) (q : Option Nat) : Prop := ∀ a, q = some a → h.cells a = none

/-- The null pointer is in no heap. -/
theorem dead_none (h : Heap α) : Dead h none := fun _ ha => absurd ha (by simp)

/-- Following a pointer leads to one dead end along one segment: `next` is a
function. -/
theorem Linked.unique {h : Heap α} {p q r : Option Nat} {xs ys : List (Nat × α)}
    (hq : Dead h q) (hr : Dead h r) (hx : Linked h p xs q) (hy : Linked h p ys r) :
    xs = ys ∧ q = r := by
  induction xs generalizing p ys with
  | nil =>
    obtain rfl : p = q := hx
    cases ys with
    | nil => exact ⟨rfl, hy⟩
    | cons y ys =>
      obtain ⟨hp, n, hc, -⟩ := hy
      -- the first list ends at a dead address, the second has a cell there
      rw [hq _ hp] at hc
      exact absurd hc (by simp)
  | cons x xs ih =>
    obtain ⟨hpx, n, hcx, hxs⟩ := hx
    cases ys with
    | nil =>
      obtain rfl : p = r := hy
      rw [hr _ hpx] at hcx
      exact absurd hcx (by simp)
    | cons y ys =>
      obtain ⟨hpy, m, hcy, hys⟩ := hy
      -- one cell at the address, so the same value and the same rest
      have haddr : x.1 = y.1 := Option.some.inj (hpx.symm.trans hpy)
      rw [haddr, hcy, Option.some.injEq, Cell.mk.injEq] at hcx
      obtain ⟨hval, rfl⟩ := hcx
      obtain ⟨htail, hend⟩ := ih hxs hys
      exact ⟨by rw [htail, Prod.ext haddr hval.symm], hend⟩

/-- A segment with a dead end visits no cell twice. -/
theorem Linked.nodup {h : Heap α} {p q : Option Nat} {xs : List (Nat × α)}
    (hq : Dead h q) (hl : Linked h p xs q) : (xs.map Prod.fst).Nodup := by
  induction xs generalizing p with
  | nil => simp
  | cons x xs ih =>
    obtain ⟨a, v⟩ := x
    obtain ⟨hp, n, hc, hxs⟩ := hl
    rw [List.map_cons, List.nodup_cons]
    refine ⟨fun hmem => ?_, ih hxs⟩
    -- a second visit of `a` would give two segments of different length from it
    obtain ⟨⟨a', v'⟩, hin, haddr⟩ := List.mem_map.mp hmem
    simp only at haddr
    subst haddr
    obtain ⟨us, vs, rfl⟩ := List.append_of_mem hin
    obtain ⟨r, -, htail⟩ := linked_append.mp hxs
    have hhead : Linked h (some a') ((a', v) :: (us ++ (a', v') :: vs)) q := ⟨rfl, n, hc, hxs⟩
    have hlen := congrArg List.length (hhead.unique hq hq (htail.1 ▸ htail)).1
    simp at hlen
    omega

/-- A segment with a dead end is no longer than the heap. -/
theorem Linked.length_le {h : Heap α} {p q : Option Nat} {xs : List (Nat × α)}
    (hq : Dead h q) (hl : Linked h p xs q) : xs.length ≤ h.brk := by
  have hsub : xs.map Prod.fst ⊆ List.range h.brk := by
    intro a ha
    obtain ⟨x, hx, rfl⟩ := List.mem_map.mp ha
    obtain ⟨n, hc⟩ := hl.live hx
    exact List.mem_range.mpr (Heap.lt_brk_of_live hc)
  have hle := (List.subperm_of_subset (hl.nodup hq) hsub).length_le
  simpa using hle

/-- Allocation keeps every segment and gives an address outside it. -/
theorem Linked.alloc {h : Heap α} {p q : Option Nat} {xs : List (Nat × α)}
    (hl : Linked h p xs q) (v : α) : Linked (h.alloc v).1 p xs q :=
  hl.congr fun x hx => by
    obtain ⟨n, hc⟩ := hl.live hx
    exact h.alloc_cells_of_ne v (Nat.ne_of_lt (Heap.lt_brk_of_live hc))

/-- Relinking the last cell of a segment moves the segment's end. -/
theorem Linked.setNext_last {h h' : Heap α} {p q : Option Nat} {xs : List (Nat × α)}
    {a : Nat} {v : α} (n : Option Nat) (hq : Dead h q)
    (hl : Linked h p (xs ++ [(a, v)]) q) (hset : h.setNext a n = some h') :
    Linked h' p (xs ++ [(a, v)]) n := by
  obtain ⟨m, hc⟩ := hl.live (x := (a, v)) (by simp)
  obtain ⟨h'', hset', hself, hother, -⟩ := Heap.setNext_live n hc
  obtain rfl : h'' = h' := Option.some.inj (hset'.symm.trans hset)
  have hnd := hl.nodup hq
  rw [List.map_append, List.nodup_append] at hnd
  obtain ⟨r, hxs, hr, -⟩ := linked_append.mp hl
  -- no earlier node is the last one, so their links stay
  refine linked_append.mpr ⟨r, hxs.congr fun x hx => hother _ ?_, hr, n, hself, rfl⟩
  exact hnd.2.2 _ (List.mem_map_of_mem hx) _ (by simp)

/-! ## The loop over a list -/

section Walk

variable {σ β : Type*}

/-- `while (p) { body; p = p->next; }`, where the body updates the loop
state or leaves with a result. The fuel bounds the number of turns; the
number of allocated cells is always enough (`walk_linked`). -/
def walk (h : Heap α) (body : σ → Nat → α → σ ⊕ β) :
    Nat → Option Nat → σ → Option (σ ⊕ β)
  | _, none, s => some (.inl s)
  | 0, some _, _ => none
  | fuel + 1, some a, s =>
    match h.cells a with
    | none => none
    | some c =>
      match body s a c.val with
      | .inr b => some (.inr b)
      | .inl s' => walk h body fuel c.next s'

/-- The same loop over the list of cells. -/
def scan (body : σ → Nat → α → σ ⊕ β) : List (Nat × α) → σ → σ ⊕ β
  | [], s => .inl s
  | (a, v) :: xs, s =>
    match body s a v with
    | .inr b => .inr b
    | .inl s' => scan body xs s'

/-- The loop goes on with the state its body leaves. -/
theorem scan_cons_inl {body : σ → Nat → α → σ ⊕ β} {s s' : σ} {a : Nat} {v : α}
    (hb : body s a v = .inl s') (xs : List (Nat × α)) :
    scan body ((a, v) :: xs) s = scan body xs s' := by
  rw [scan, hb]

/-- It ends at the first cell whose body has a result. -/
theorem scan_cons_inr {body : σ → Nat → α → σ ⊕ β} {s : σ} {a : Nat} {v : α} {b : β}
    (hb : body s a v = .inr b) (xs : List (Nat × α)) :
    scan body ((a, v) :: xs) s = .inr b := by
  rw [scan, hb]

/-- A null-terminated list is scanned to its end, with fuel to spare. -/
theorem walk_linked {h : Heap α} {p : Option Nat} {xs : List (Nat × α)}
    (body : σ → Nat → α → σ ⊕ β) (hl : Linked h p xs none) (fuel : Nat)
    (hfuel : xs.length ≤ fuel) (s : σ) :
    walk h body fuel p s = some (scan body xs s) := by
  induction xs generalizing p fuel s with
  | nil =>
    obtain rfl : p = none := hl
    cases fuel <;> rfl
  | cons x xs ih =>
    obtain ⟨a, v⟩ := x
    obtain ⟨rfl, n, hc, hxs⟩ := hl
    obtain ⟨fuel, rfl⟩ : ∃ k, fuel = k + 1 := ⟨fuel - 1, by simp at hfuel; omega⟩
    simp only [walk, hc, scan]
    -- the body leaves the loop here, or the walk goes on to the next node
    cases body s a v with
    | inr b => rfl
    | inl s' => exact ih hxs fuel (by simpa using hfuel) s'

/-- A scan that runs off the end of a dangling list is undefined. -/
theorem walk_dangling {h : Heap α} {p : Option Nat} {xs : List (Nat × α)} {q : Nat}
    (body : σ → Nat → α → σ ⊕ β) (hq : h.cells q = none) (hl : Linked h p xs (some q))
    (fuel : Nat) (s s' : σ) (hscan : scan body xs s = .inl s') :
    walk h body fuel p s = none := by
  induction xs generalizing p fuel s with
  | nil =>
    obtain rfl : p = some q := hl
    cases fuel with
    | zero => rfl
    -- the walk arrives at the released node and reads it
    | succ fuel => simp [walk, hq]
  | cons x xs ih =>
    obtain ⟨a, v⟩ := x
    obtain ⟨rfl, n, hc, hxs⟩ := hl
    cases fuel with
    | zero => rfl
    | succ fuel =>
      simp only [walk, hc]
      simp only [scan] at hscan
      cases hb : body s a v with
      | inr b => simp [hb] at hscan
      | inl t =>
        rw [hb] at hscan
        exact ih hxs fuel t hscan

end Walk

end LinkedHeap
