import Mathlib.Data.List.Nodup
import Mathlib.Tactic.Common

/-!
# Keyed lists — rows found by a key

* `getElem?_key_inj` — distinct keys are at distinct places.
* `find?_update` — what is found after an update.
* `update_eq_self` — an update that finds its row as it should be.
* `modify_eq_update` — with distinct keys, updating the first row of a key is
  updating all of them.
-/

namespace KeyedList

variable {α κ : Type*} {key : α → κ}

/-- With distinct keys a key is at one place. -/
theorem getElem?_key_inj {rows : List α} (h : (rows.map key).Nodup) {k k' : Nat} {r r' : α}
    (hk : rows[k]? = some r) (hk' : rows[k']? = some r') (heq : key r = key r') : k = k' := by
  have hmap : ∀ {k : Nat} {r : α}, rows[k]? = some r → (rows.map key)[k]? = some (key r) := by
    intro k r hk
    rw [List.getElem?_map, hk]
    rfl
  have hlt := (List.getElem?_eq_some_iff.mp (hmap hk)).1
  refine (List.getElem?_inj hlt h).mp ?_
  rw [hmap hk, hmap hk', heq]

variable [DecidableEq κ]

/-- Update the rows of a key. -/
def update (key : α → κ) (k : κ) (f : α → α) (rows : List α) : List α :=
  rows.map fun r => if key r = k then f r else r

/-- The first row of a key. -/
def find (key : α → κ) (k : κ) (rows : List α) : Option α := rows.find? fun r => key r = k

/-- An update keeps the keys. -/
theorem map_key_update {k : κ} {f : α → α} (hf : ∀ r, key (f r) = key r) (rows : List α) :
    (update key k f rows).map key = rows.map key := by
  unfold update
  rw [List.map_map]
  refine List.map_congr_left fun r _ => ?_
  simp only [Function.comp_apply]
  split
  · exact hf r
  · rfl

/-- It is seen under its own key only. -/
theorem find?_update {k : κ} {f : α → α} (hf : ∀ r, key (f r) = key r) (rows : List α) (k' : κ) :
    find key k' (update key k f rows) =
      if k' = k then (find key k' rows).map f else find key k' rows := by
  unfold find update
  induction rows with
  | nil => simp
  | cons r rows ih =>
    -- an update changes no key
    have hkey : key (if key r = k then f r else r) = key r := by
      split
      · exact hf r
      · rfl
    rw [List.map_cons, List.find?_cons, List.find?_cons, hkey, ih]
    by_cases hr : key r = k'
    · subst hr
      by_cases hk : key r = k <;> simp [hk]
    · simp [hr]

/-- A key is not found if no row has it. -/
theorem find_eq_none_iff {k : κ} {rows : List α} : find key k rows = none ↔ k ∉ rows.map key := by
  simp [find, List.find?_eq_none]

/-- The rows in front are searched first. -/
theorem find_append (k : κ) (rows rows' : List α) :
    find key k (rows ++ rows') = (find key k rows).or (find key k rows') := List.find?_append ..

/-- An update that changes nothing of the row it finds changes nothing. -/
theorem update_eq_self {rows : List α} (h : (rows.map key).Nodup) {k : κ} {f : α → α}
    (hf : ∀ r, find key k rows = some r → f r = r) : update key k f rows = rows := by
  unfold update find at *
  induction rows with
  | nil => rfl
  | cons r rows ih =>
    rw [List.map_cons, List.nodup_cons] at h
    rw [List.map_cons]
    by_cases hr : key r = k
    · -- the row found is the only one of the key
      have hrest : ∀ r' ∈ rows, key r' ≠ k := fun r' hr' heq =>
        h.1 (List.mem_map.mpr ⟨r', hr', heq.trans hr.symm⟩)
      rw [if_pos hr, hf r (by simp [hr]), List.map_congr_left fun r' hr' => if_neg (hrest r' hr'),
        List.map_id']
    · rw [if_neg hr, ih h.2 fun r' hr' => hf r' (by simpa [hr] using hr')]

/-- With distinct keys the first row of a key is the only one. -/
theorem modify_eq_update {rows : List α} (h : (rows.map key).Nodup) (k : κ) (f : α → α) :
    rows.modify (rows.findIdx fun r => key r = k) f = update key k f rows := by
  unfold update
  induction rows with
  | nil => rfl
  | cons r rows ih =>
    rw [List.map_cons, List.nodup_cons] at h
    rw [List.findIdx_cons, List.map_cons]
    by_cases hr : key r = k
    · -- the keys are distinct, so the rest has none to be changed
      have hrest : ∀ r' ∈ rows, key r' ≠ k := fun r' hr' heq =>
        h.1 (List.mem_map.mpr ⟨r', hr', heq.trans hr.symm⟩)
      rw [List.map_congr_left fun r' hr' => if_neg (hrest r' hr')]
      simp [hr]
    · simp only [hr, decide_false, cond_false, if_false, List.modify_succ_cons]
      rw [ih h.2]

end KeyedList
