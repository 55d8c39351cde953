import Mathlib.Data.List.Nodup
import Mathlib.Tactic.Common

/-!
# Slot tables — an array of slots, each of them free or with a key

* `Distinct` — no key is in two slots.
* `at?` — the first slot of a key.
* `at?_set_key`, `at?_set_free` — what is found after a slot is filled, overwritten or freed.
* `distinct_set_key`, `distinct_set_free` — the keys stay distinct.
* `keys_set_fresh`, `keys_set_same`, `keys_set_free` — the keys, counted.
* `exists_free` — where there are fewer keys than slots, the first free slot is one.
-/

namespace SlotTable

variable {α κ : Type*} {key? : α → Option κ}

/-- The keys, by their slots. -/
def keys (key? : α → Option κ) (t : List α) : List κ := t.filterMap key?

/-- No key is in two slots. -/
def Distinct (key? : α → Option κ) (t : List α) : Prop := (keys key? t).Nodup

/-- The keys of two tables, one behind the other. -/
theorem keys_append (t t' : List α) : keys key? (t ++ t') = keys key? t ++ keys key? t' :=
  List.filterMap_append

theorem keys_cons (s : α) (t : List α) : keys key? (s :: t) = (key? s).toList ++ keys key? t := by
  rw [keys, List.filterMap_cons]
  cases key? s <;> rfl

/-- A key is one of a slot. -/
theorem mem_keys {k : κ} {t : List α} : k ∈ keys key? t ↔ ∃ s ∈ t, key? s = some k :=
  List.mem_filterMap

/-- A slot, with what is in front of it and behind. -/
theorem exists_split {t : List α} {i : Nat} {s : α} (h : t[i]? = some s) :
    ∃ a b, t = a ++ s :: b ∧ ∀ s', t.set i s' = a ++ s' :: b := by
  obtain ⟨hi, rfl⟩ := List.getElem?_eq_some_iff.mp h
  refine ⟨t.take i, t.drop (i + 1), ?_, fun s' => List.set_eq_take_append_cons_drop.trans (if_pos hi)⟩
  rw [List.getElem_cons_drop, List.take_append_drop]

/-- Overwriting the slot of a key leaves the keys. -/
theorem keys_set_same {t : List α} {i : Nat} {s s' : α} (h : t[i]? = some s)
    (hkey : key? s' = key? s) : keys key? (t.set i s') = keys key? t := by
  obtain ⟨a, b, rfl, hset⟩ := exists_split h
  rw [hset, keys_append, keys_append, keys_cons, keys_cons, hkey]

/-- Filling a free slot adds its key. -/
theorem keys_set_fresh {t : List α} {i : Nat} {s s' : α} {k : κ} (h : t[i]? = some s)
    (hs : key? s = none) (hs' : key? s' = some k) :
    (keys key? (t.set i s')).Perm (k :: keys key? t) := by
  obtain ⟨a, b, rfl, hset⟩ := exists_split h
  rw [hset, keys_append, keys_append, keys_cons, keys_cons, hs, hs']
  exact List.perm_middle

/-- Freeing a slot takes its key away. -/
theorem keys_set_free {t : List α} {i : Nat} {s s' : α} {k : κ} (h : t[i]? = some s)
    (hs : key? s = some k) (hs' : key? s' = none) :
    (keys key? t).Perm (k :: keys key? (t.set i s')) := by
  obtain ⟨a, b, rfl, hset⟩ := exists_split h
  rw [hset, keys_append, keys_append, keys_cons, keys_cons, hs, hs']
  exact List.perm_middle

/-- Free slots have no keys. -/
theorem keys_append_free {t f : List α} (hf : ∀ s ∈ f, key? s = none) :
    keys key? (t ++ f) = keys key? t := by
  have hnone : keys key? f = [] := List.filterMap_eq_nil_iff.mpr hf
  rw [keys_append, hnone, List.append_nil]

/-- A slot may get another content with the same key. -/
theorem distinct_set_same {t : List α} (ht : Distinct key? t) {i : Nat} {s s' : α}
    (h : t[i]? = some s) (hkey : key? s' = key? s) : Distinct key? (t.set i s') := by
  rw [Distinct, keys_set_same h hkey]
  exact ht

/-- A free slot may get a key that no slot has. -/
theorem distinct_set_fresh {t : List α} (ht : Distinct key? t) {i : Nat} {s s' : α} {k : κ}
    (h : t[i]? = some s) (hs : key? s = none) (hs' : key? s' = some k) (hk : k ∉ keys key? t) :
    Distinct key? (t.set i s') :=
  (keys_set_fresh h hs hs').nodup_iff.mpr (List.nodup_cons.mpr ⟨hk, ht⟩)

/-- A slot may be freed. -/
theorem distinct_set_free {t : List α} (ht : Distinct key? t) {i : Nat} {s s' : α} {k : κ}
    (h : t[i]? = some s) (hs : key? s = some k) (hs' : key? s' = none) :
    Distinct key? (t.set i s') :=
  (List.nodup_cons.mp ((keys_set_free h hs hs').nodup_iff.mp ht)).2

/-- With fewer keys than slots a slot is free, and the first free one is. -/
theorem exists_free {t : List α} (h : (keys key? t).length < t.length) :
    ∃ s, t[t.findIdx fun s => (key? s).isNone]? = some s ∧ key? s = none := by
  -- else every slot has a key, and there are as many keys as slots
  by_contra hnone
  have hall : ∀ s ∈ t, (key? s).isSome := by
    intro s hs
    rw [← List.find?_eq_getElem?_findIdx] at hnone
    cases hfind : t.find? fun s => (key? s).isNone with
    | some s' =>
      have hfree := List.find?_some (p := fun s => (key? s).isNone) hfind
      exact absurd ⟨s', hfind, Option.isNone_iff_eq_none.mp hfree⟩ hnone
    | none =>
      have := List.find?_eq_none.mp hfind s hs
      rwa [Bool.not_eq_true, Option.isNone_eq_false_iff] at this
  exact absurd (List.filterMap_length_eq_length.mpr hall) (Nat.ne_of_lt h)

variable [DecidableEq κ]

/-- The first slot of a key. -/
def at? (key? : α → Option κ) (k : κ) (t : List α) : Option α := t.find? fun s => key? s = some k

/-- What is found under a key has it. -/
theorem at?_key {k : κ} {t : List α} {s : α} (h : at? key? k t = some s) : key? s = some k :=
  of_decide_eq_true (List.find?_some (p := fun s => decide (key? s = some k)) h)

/-- Nothing is found if no slot has the key. -/
theorem at?_eq_none_iff {k : κ} {t : List α} : at? key? k t = none ↔ k ∉ keys key? t := by
  rw [at?, List.find?_eq_none, mem_keys]
  simp

/-- A free slot or one of another key is passed over. -/
theorem at?_append_cons (k : κ) (a b : List α) (s : α) :
    at? key? k (a ++ s :: b) =
      (at? key? k a).or (if key? s = some k then some s else at? key? k b) := by
  rw [at?, List.find?_append, List.find?_cons]
  by_cases hs : key? s = some k <;> simp [hs, at?]

/-- With distinct keys a key leads to every slot that has it. -/
theorem at?_of_mem {t : List α} (ht : Distinct key? t) {s : α} {k : κ} (hs : s ∈ t)
    (hk : key? s = some k) : at? key? k t = some s := by
  obtain ⟨a, b, rfl⟩ := List.append_of_mem hs
  have ha : at? key? k a = none := by
    rw [at?_eq_none_iff]
    intro hmem
    rw [Distinct, keys_append, keys_cons, hk] at ht
    exact (List.nodup_append.mp ht).2.2 k hmem k (List.mem_append_left _ List.mem_cons_self) rfl
  rw [at?_append_cons, ha, if_pos hk]
  rfl

/-- Free slots behind the table are not found. -/
theorem at?_append_free {t f : List α} (hf : ∀ s ∈ f, key? s = none) (k : κ) :
    at? key? k (t ++ f) = at? key? k t := by
  have hnone : at? key? k f = none := by
    rw [at?_eq_none_iff, mem_keys]
    rintro ⟨s, hs, hk⟩
    rw [hf s hs] at hk
    cases hk
  rw [at?, List.find?_append]
  exact (congrArg (Option.or _) hnone).trans (Option.or_none ..)

/-- What is found after the slot of a key is overwritten, or a free one is filled. -/
theorem at?_set_key {t : List α} (ht : Distinct key? t) {i : Nat} {s s' : α} {k : κ}
    (h : t[i]? = some s) (hs : key? s = some k ∨ key? s = none ∧ k ∉ keys key? t)
    (hs' : key? s' = some k) (k' : κ) :
    at? key? k' (t.set i s') = if k' = k then some s' else at? key? k' t := by
  obtain ⟨a, b, rfl, hset⟩ := exists_split h
  -- no slot in front holds the key
  have ha : at? key? k a = none := by
    rw [at?_eq_none_iff]
    intro hmem
    rcases hs with hs | ⟨-, hk⟩
    · -- the key would be in two slots
      rw [Distinct, keys_append, keys_cons, hs] at ht
      exact (List.nodup_append.mp ht).2.2 k hmem k (List.mem_append_left _ List.mem_cons_self) rfl
    · exact hk (by rw [keys_append]; exact List.mem_append_left _ hmem)
  rw [hset, at?_append_cons, at?_append_cons, hs']
  by_cases hk : k' = k
  · rw [if_pos hk, hk, ha, if_pos rfl]
    rfl
  · -- another key is found where it was
    have hskip : key? s ≠ some k' := by
      rcases hs with hs | ⟨hs, -⟩ <;> rw [hs]
      · exact fun heq => hk (Option.some.inj heq).symm
      · exact fun heq => by cases heq
    rw [if_neg hk, if_neg hskip, if_neg fun heq => hk (Option.some.inj heq).symm]

/-- What is found after the slot of a key is freed. -/
theorem at?_set_free {t : List α} (ht : Distinct key? t) {i : Nat} {s s' : α} {k : κ}
    (h : t[i]? = some s) (hs : key? s = some k) (hs' : key? s' = none) (k' : κ) :
    at? key? k' (t.set i s') = if k' = k then none else at? key? k' t := by
  have hfree := (keys_set_free h hs hs').nodup_iff.mp ht
  obtain ⟨a, b, rfl, hset⟩ := exists_split h
  by_cases hk : k' = k
  · rw [if_pos hk, hk, at?_eq_none_iff]
    exact (List.nodup_cons.mp hfree).1
  · rw [if_neg hk, hset, at?_append_cons, at?_append_cons, hs, hs',
      if_neg fun heq => hk (Option.some.inj heq).symm, if_neg fun heq => by cases heq]

end SlotTable
