import Mathlib.Data.List.Chain
import Mathlib.Data.List.Nodup
import Mathlib.Logic.Function.Basic

/-!
# Rings of linked cells

Cells with a link to the next and one to the previous cell. In `Ring g p ns` the links lead from
`p` through `ns` and back to `p`, and the same way backwards. Where a ring is cut in front of `bs`,
its two ends are `as.getLastD p` and `bs.headD p`; both are `p` if nothing else is in it.

* `chain_cons_iff` — the walk along a ring, cell by cell.
* `ring_append` — a ring, cut at a place.
* `Ring.insert`, `Ring.remove` — the two splices.
* `Ring.congr` — a ring reads the links of its own cells only.
* `Ring.inverse` — the links of a ring are inverse to each other.
* `Ring.next_eq_self_iff` — the ring with nothing in it.
-/

namespace LinkedRing

/-- The links of all cells. -/
structure Links (α : Type*) where
  next : α → α
  prev : α → α

variable {α : Type*} {g g' : Links α} {p n : α} {as bs ns : List α}

/-- `y` is the cell behind `x`. -/
def Links.Joined (g : Links α) (x y : α) : Prop := g.next x = y ∧ g.prev y = x

/-- From `p` through `ns` and back to `p`. -/
def Ring (g : Links α) (p : α) (ns : List α) : Prop := (p :: (ns ++ [p])).IsChain g.Joined

/-! ## Chains -/

/-- A chain reads the forward links of all but its last cell, and the backward links of all but
its first. -/
theorem chain_congr {l : List α} (h : l.IsChain g.Joined)
    (hnext : ∀ x ∈ l.dropLast, g'.next x = g.next x)
    (hprev : ∀ x ∈ l.tail, g'.prev x = g.prev x) : l.IsChain g'.Joined := by
  induction h with
  | nil => exact .nil
  | singleton x => exact .singleton x
  | @cons_cons x y l hjoined _ ih =>
    -- the first link is read forward at `x` and backward at `y`
    refine .cons_cons ⟨?_, ?_⟩ (ih ?_ ?_)
    · rw [hnext x List.mem_cons_self, hjoined.1]
    · rw [hprev y List.mem_cons_self, hjoined.2]
    · exact fun a ha => hnext a (List.mem_cons_of_mem _ ha)
    · exact fun b hb => hprev b (List.mem_cons_of_mem _ hb)

/-- The last of different nodes is not one of those before it. -/
theorem getLastD_notMem_dropLast (hnd : (p :: as).Nodup) :
    as.getLastD p ∉ (p :: as).dropLast := by
  induction as generalizing p with
  | nil => simp
  | cons a as ih =>
    rw [List.getLastD_cons, List.dropLast_cons_of_ne_nil (List.cons_ne_nil a as), List.mem_cons]
    rintro (rfl | hmem)
    · exact (List.nodup_cons.mp hnd).1 List.getLastD_mem_cons
    · exact ih (List.nodup_cons.mp hnd).2 hmem

/-- The first of a chain, or where the chain leads, is on it. -/
theorem headD_mem (bs : List α) (p : α) : bs.headD p ∈ bs ++ [p] := by
  cases bs with
  | nil => exact List.mem_singleton_self p
  | cons b bs => exact List.mem_cons_self

/-- The ends of a cut are cells of the ring. -/
theorem ends_mem (p : α) (as bs : List α) :
    as.getLastD p ∈ p :: (as ++ bs) ∧ bs.headD p ∈ p :: (as ++ bs) := by
  constructor
  · rw [← List.cons_append]
    exact List.mem_append_left bs List.getLastD_mem_cons
  · rcases List.mem_append.mp (headD_mem bs p) with hmem | hmem
    · exact List.mem_cons_of_mem p (List.mem_append_right as hmem)
    · rw [List.mem_singleton.mp hmem]
      exact List.mem_cons_self

/-- The first of different nodes does not come again. -/
theorem headD_notMem_tail (hnd : (p :: bs).Nodup) : bs.headD p ∉ (bs ++ [p]).tail := by
  cases bs with
  | nil => exact List.not_mem_nil
  | cons b bs =>
    obtain ⟨hp, hbs⟩ := List.nodup_cons.mp hnd
    rw [List.headD_cons, List.cons_append, List.tail_cons, List.mem_append, List.mem_singleton]
    rintro (hb | rfl)
    · exact (List.nodup_cons.mp hbs).1 hb
    · exact hp List.mem_cons_self

/-- A chain that ends in `p` and starts with this cell. -/
theorem chain_cons_iff : (n :: (bs ++ [p])).IsChain g.Joined ↔
    g.Joined n (bs.headD p) ∧ (bs ++ [p]).IsChain g.Joined := by
  cases bs with
  | nil => simp
  | cons b bs => exact List.isChain_cons_cons

/-! ## Rings -/

/-- **A ring, cut at a place**: two chains, and the link between them. -/
theorem ring_append : Ring g p (as ++ bs) ↔ (p :: as).IsChain g.Joined ∧
    g.Joined (as.getLastD p) (bs.headD p) ∧ (bs ++ [p]).IsChain g.Joined := by
  -- as).getLast? :: the two nodes at the cut, if need be the head itself
  have hlast : (p :: as).getLast? = some (as.getLastD p) := by
    rw [List.getLast?_cons, List.getLastD_eq_getLast?]
  have hhead : (bs ++ [p]).head? = some (bs.headD p) := by cases bs <;> rfl
  rw [Ring, List.append_assoc, ← List.cons_append, List.isChain_append, hlast, hhead]
  constructor
  · rintro ⟨hfront, hback, hseam⟩
    exact ⟨hfront, hseam _ rfl _ rfl, hback⟩
  · rintro ⟨hfront, hseam, hback⟩
    refine ⟨hfront, hback, ?_⟩
    intro x hx y hy
    rw [← Option.some.inj hx, ← Option.some.inj hy]
    exact hseam

/-- Two parts of a ring are joined where they meet. -/
theorem Ring.seam (as bs : List α) (h : Ring g p (as ++ bs)) :
    g.Joined (as.getLastD p) (bs.headD p) :=
  (ring_append.mp h).2.1

/-- The head is joined to both ends. -/
theorem Ring.around_head (h : Ring g p ns) :
    g.Joined (ns.getLastD p) p ∧ g.Joined p (ns.headD p) :=
  ⟨Ring.seam ns [] ((List.append_nil ns).symm ▸ h), Ring.seam [] ns h⟩

/-- The neighbours of a cell. -/
theorem Ring.around (h : Ring g p (as ++ n :: bs)) :
    g.Joined (as.getLastD p) n ∧ g.Joined n (bs.headD p) := by
  refine ⟨Ring.seam as (n :: bs) h, ?_⟩
  -- the same place, cut behind the cell
  have hseam : g.Joined ((as ++ [n]).getLastD p) (bs.headD p) := by
    refine Ring.seam (as ++ [n]) bs ?_
    rwa [List.append_assoc]
  rwa [List.getLastD_concat] at hseam

/-- A head on its own points to itself. -/
theorem ring_nil : Ring g p [] ↔ g.next p = p ∧ g.prev p = p := by
  simp [Ring, Links.Joined]

/-- **A ring reads the links of its own cells only.** -/
theorem Ring.congr (h : Ring g p ns)
    (heq : ∀ x ∈ p :: ns, g'.next x = g.next x ∧ g'.prev x = g.prev x) : Ring g' p ns := by
  refine chain_congr h (fun x hx => (heq x ?_).1) fun x hx => (heq x ?_).2
  · rwa [← List.cons_append, List.dropLast_concat] at hx
  · rwa [List.tail_cons, List.mem_append, List.mem_singleton, or_comm, ← List.mem_cons] at hx

/-- Every cell of a ring has one in front of it and one behind it. -/
theorem Ring.neighbours (h : Ring g p ns) {x : α} (hx : x ∈ p :: ns) :
    ∃ y ∈ p :: ns, ∃ z ∈ p :: ns, g.Joined y x ∧ g.Joined x z := by
  rcases List.mem_cons.mp hx with rfl | hx
  · exact ⟨_, List.getLastD_mem_cons, _, (ends_mem x [] ns).2, h.around_head⟩
  · obtain ⟨as, bs, rfl⟩ := List.append_of_mem hx
    refine ⟨_, (ends_mem p as (x :: bs)).1, _, ?_, h.around⟩
    have hmem := (ends_mem p (as ++ [x]) bs).2
    rwa [List.append_assoc] at hmem

/-- **The links of a ring are inverse to each other**, and do not lead out of it. -/
theorem Ring.inverse (h : Ring g p ns) {x : α} (hx : x ∈ p :: ns) :
    g.prev (g.next x) = x ∧ g.next (g.prev x) = x ∧ g.next x ∈ p :: ns ∧ g.prev x ∈ p :: ns := by
  obtain ⟨y, hy, z, hz, hyx, hxz⟩ := h.neighbours hx
  refine ⟨?_, ?_, hxz.1 ▸ hz, hyx.2 ▸ hy⟩
  · rw [hxz.1, hxz.2]
  · rw [hyx.2, hyx.1]

/-- **The ring with nothing in it.** -/
theorem Ring.next_eq_self_iff (h : Ring g p ns) (hp : p ∉ ns) : g.next p = p ↔ ns = [] := by
  rw [h.around_head.2.1]
  cases ns with
  | nil => simp
  | cons a ns =>
    rw [List.headD_cons]
    refine ⟨?_, fun h' => nomatch h'⟩
    rintro rfl
    exact absurd List.mem_cons_self hp

/-! ## Splices -/

/-- Where a ring is cut, the forward link of the front end and the backward link of the back end
are the only ones that the two chains do not read. -/
theorem cut_ends (hnd : (p :: (as ++ bs)).Nodup) :
    (∀ x ∈ (p :: as).dropLast, x ≠ as.getLastD p) ∧ (∀ x ∈ as, x ≠ bs.headD p) ∧
      (∀ x ∈ bs, x ≠ as.getLastD p) ∧ ∀ x ∈ (bs ++ [p]).tail, x ≠ bs.headD p := by
  rw [← List.cons_append] at hnd
  obtain ⟨hfront, hbs, hdisj⟩ := List.nodup_append.mp hnd
  obtain ⟨hp, -⟩ := List.nodup_cons.mp hfront
  have hback : (p :: bs).Nodup := by
    refine List.nodup_cons.mpr ⟨fun h => hdisj p List.mem_cons_self p h rfl, hbs⟩
  refine ⟨?_, ?_, ?_, ?_⟩
  · -- the front end is the last cell of its chain
    rintro x hx rfl
    exact getLastD_notMem_dropLast hfront hx
  · rintro x hx rfl
    -- the back end is in `bs`, or it is `p`
    rcases List.mem_append.mp (headD_mem bs p) with hb | hb
    · exact hdisj _ (List.mem_cons_of_mem _ hx) _ hb rfl
    · exact hp (List.mem_singleton.mp hb ▸ hx)
  · rintro x hx rfl
    exact hdisj _ List.getLastD_mem_cons _ hx rfl
  · rintro x hx rfl
    exact headD_notMem_tail hback hx

section Splices

variable [DecidableEq α]

/-- `n` between `x` and `z`. -/
def Links.insert (g : Links α) (n x z : α) : Links α :=
  ⟨Function.update (Function.update g.next n z) x n,
    Function.update (Function.update g.prev z n) n x⟩

/-- `z` behind `x`. -/
def Links.join (g : Links α) (x z : α) : Links α :=
  ⟨Function.update g.next x z, Function.update g.prev z x⟩

variable {x y z : α}

/-- The node in front points to the new one. -/
theorem Links.insert_next_self : (g.insert n x z).next x = n := Function.update_self ..

/-- The new one points to the node behind. -/
theorem Links.insert_next_new (hx : n ≠ x) : (g.insert n x z).next n = z :=
  (Function.update_of_ne hx ..).trans (Function.update_self ..)

/-- No other node has a new successor. -/
theorem Links.insert_next_of_ne (hn : y ≠ n) (hx : y ≠ x) :
    (g.insert n x z).next y = g.next y :=
  (Function.update_of_ne hx ..).trans (Function.update_of_ne hn ..)

/-- The new node points back to the one in front. -/
theorem Links.insert_prev_new : (g.insert n x z).prev n = x := Function.update_self ..

/-- The node behind points back to the new one. -/
theorem Links.insert_prev_self (hz : z ≠ n) : (g.insert n x z).prev z = n :=
  (Function.update_of_ne hz ..).trans (Function.update_self ..)

/-- No other node has a new predecessor. -/
theorem Links.insert_prev_of_ne (hn : y ≠ n) (hz : y ≠ z) :
    (g.insert n x z).prev y = g.prev y :=
  (Function.update_of_ne hn ..).trans (Function.update_of_ne hz ..)

/-- **A new cell between the two ends.** -/
theorem Ring.insert (h : Ring g p (as ++ bs)) (hnd : (p :: (as ++ bs)).Nodup)
    (hn : n ∉ p :: (as ++ bs)) :
    Ring (g.insert n (as.getLastD p) (bs.headD p)) p (as ++ n :: bs) := by
  obtain ⟨hfront, -, hback⟩ := ring_append.mp h
  obtain ⟨hnext, hprev, hnext', hprev'⟩ := cut_ends hnd
  -- the new cell is in neither chain
  have hnp : ∀ y ∈ p :: as, y ≠ n := by
    rintro y hy rfl
    exact hn (List.mem_append_left bs hy)
  have hnb : ∀ y ∈ bs ++ [p], y ≠ n := by
    rintro y hy rfl
    rw [List.mem_append, List.mem_singleton] at hy
    rw [List.mem_cons, List.mem_append] at hn
    tauto
  have hlast := hnp _ (List.getLastD_mem_cons (l := as))
  have hhead := hnb _ (headD_mem bs p)
  refine ring_append.mpr ⟨chain_congr hfront ?_ ?_, ⟨?_, ?_⟩, chain_cons_iff.mpr ⟨⟨?_, ?_⟩, ?_⟩⟩
  · -- the front chain
    intro x hx
    exact Links.insert_next_of_ne (hnp x (List.dropLast_subset _ hx)) (hnext x hx)
  · intro x hx
    exact Links.insert_prev_of_ne (hnp x (List.mem_cons_of_mem p hx)) (hprev x hx)
  · -- the four links that are set
    exact Links.insert_next_self
  · exact Links.insert_prev_new
  · exact Links.insert_next_new hlast.symm
  · exact Links.insert_prev_self hhead
  · -- the back chain
    refine chain_congr hback (fun x hx => ?_) fun x hx => ?_
    · have hx : x ∈ bs := (List.dropLast_concat : (bs ++ [p]).dropLast = bs) ▸ hx
      exact Links.insert_next_of_ne (hnb x (List.mem_append_left _ hx)) (hnext' x hx)
    · exact Links.insert_prev_of_ne (hnb x (List.mem_of_mem_tail hx)) (hprev' x hx)

/-- **A cell taken out**: its two neighbours are joined. -/
theorem Ring.remove (h : Ring g p (as ++ n :: bs)) (hnd : (p :: (as ++ n :: bs)).Nodup) :
    Ring (g.join (as.getLastD p) (bs.headD p)) p (as ++ bs) := by
  obtain ⟨hfront, -, hback⟩ := ring_append.mp h
  -- without the cell the ring is cut at the same place
  have hnd' : (p :: (as ++ bs)).Nodup := by
    refine hnd.sublist (List.Sublist.cons_cons p ?_)
    exact List.Sublist.append_left (List.sublist_cons_self n bs) as
  obtain ⟨hnext, hprev, hnext', hprev'⟩ := cut_ends hnd'
  refine ring_append.mpr ⟨chain_congr hfront ?_ ?_, ⟨?_, ?_⟩, chain_congr hback.tail ?_ ?_⟩
  · exact fun x hx => Function.update_of_ne (hnext x hx) ..
  · exact fun x hx => Function.update_of_ne (hprev x hx) ..
  · exact Function.update_self ..
  · exact Function.update_self ..
  · intro x hx
    rw [List.dropLast_concat] at hx
    exact Function.update_of_ne (hnext' x hx) ..
  · exact fun x hx => Function.update_of_ne (hprev' x hx) ..

end Splices

end LinkedRing
