import Mathlib.Data.List.Find
import PgClient.Lib.PartialRun
import PgClient.Lib.SlotTable
import PgClient.Util.Text

/-!
# Dictionaries

`dictionary.c`: keys and values in slots, found by a walk that compares the hash first. A dictionary
that is full is doubled, and a key that is removed leaves a free slot behind. Memory does not run
out.

* `dictionary_refines` — along any run of calls it is a map from keys to values.
-/

namespace PgClient.Ini

open Text PartialRun SlotTable
open Function (update)

/-! ## The code -/

/-- What is at an index of `key`, `val` and `hash`; `none` is NULL. -/
structure Slot where
  key : Option (List Byte)
  val : Option (List Byte)
  hash : BitVec 32

/-- A slot as `calloc` leaves it. -/
def freeSlot : Slot := ⟨none, none, 0⟩

/-- `dictionary`. -/
structure Dictionary where
  n : Nat
  slots : List Slot

def Dictionary.size (d : Dictionary) : Nat := d.slots.length

/-- `dictionary_hash`, where a `char` is unsigned. -/
def dictionaryHash (key : List Byte) : BitVec 32 :=
  let hash := key.foldl (fun hash c =>
    let hash : BitVec 32 := hash + c.setWidth 32
    let hash := hash + hash <<< 10
    hash ^^^ hash >>> 6) 0
  let hash := hash + hash <<< 3
  let hash := hash ^^^ hash >>> 11
  hash + hash <<< 15

/-- The comparison in the loops. -/
def holds (key : List Byte) (hash : BitVec 32) (s : Slot) : Bool :=
  match s.key with
  | none => false
  | some key' => hash = s.hash && key = key'

/-- `dictionary_new`. -/
def dictionaryNew (size : Int) : Dictionary where
  n := 0
  slots := List.replicate (if size < 128 then 128 else size.toNat) freeSlot

/-- `dictionary_get`: what `val` is, or `none`, where the code returns `def`. -/
def dictionaryGet (d : Dictionary) (key : List Byte) : Option (Option (List Byte)) :=
  (d.slots.find? (holds key (dictionaryHash key))).map Slot.val

/-- `mem_double` of the three arrays, where there is no room for another key. -/
def grow (d : Dictionary) : Dictionary :=
  if d.n = d.size then { d with slots := d.slots ++ List.replicate d.size freeSlot } else d

/-- `dictionary_set`; `none` is a key that is copied behind the arrays. -/
def dictionarySet (d : Dictionary) (key : List Byte) (val : Option (List Byte)) :
    Option Dictionary :=
  let hash := dictionaryHash key
  let i := d.slots.findIdx (holds key hash)
  match if 0 < d.n then d.slots[i]? else none with
  | some s => some { d with slots := d.slots.set i { s with val := val } }
  | none =>
    let d := grow d
    let i := d.slots.findIdx fun s => s.key.isNone
    if i < d.size then some ⟨d.n + 1, d.slots.set i ⟨some key, val, hash⟩⟩ else none

/-- `dictionary_unset`. -/
def dictionaryUnset (d : Dictionary) (key : List Byte) : Dictionary :=
  let i := d.slots.findIdx (holds key (dictionaryHash key))
  if d.size ≤ i then d else ⟨d.n - 1, d.slots.set i freeSlot⟩

/-! ## Calls -/

inductive Call
  | set (key : List Byte) (val : Option (List Byte))
  | unset (key : List Byte)
  | get (key : List Byte)

/-- A call, and what `dictionary_get` finds. -/
def Call.step : Call → Dictionary → Option (Dictionary × Option (Option (List Byte)))
  | .set key val, d => (dictionarySet d key val).map fun d' => (d', none)
  | .unset key, d => some (dictionaryUnset d key, none)
  | .get key, d => some (d, dictionaryGet d key)

/-- A map from keys to values, each of which may be NULL. -/
abbrev Map := List Byte → Option (Option (List Byte))

/-- A call on a map. -/
def Call.onMap : Call → Map → Map × Option (Option (List Byte))
  | .set key val, m => (update m key (some val), none)
  | .unset key, m => (update m key none, none)
  | .get key, m => (m, m key)

/-! ## What the slots stand for -/

/-- No key is in two slots, every key is with its hash, and `n` counts the keys. -/
structure Valid (d : Dictionary) : Prop where
  distinct : Distinct Slot.key d.slots
  hashed : ∀ s ∈ d.slots, ∀ key, s.key = some key → s.hash = dictionaryHash key
  count : d.n = (keys Slot.key d.slots).length
  /-- There is a slot to double. -/
  pos : 0 < d.size

/-- The keys of a dictionary. -/
def Dictionary.keys (d : Dictionary) : List (List Byte) := SlotTable.keys Slot.key d.slots

namespace Valid

variable {d : Dictionary} (h : Valid d)
include h

/-- The hash only spares comparisons: a slot holds the key if its key is the same text. -/
theorem holds_eq (key : List Byte) : ∀ s ∈ d.slots,
    holds key (dictionaryHash key) s = decide (s.key = some key) := by
  intro s hs
  unfold holds
  cases hkey : s.key with
  | none => rfl
  | some key' =>
    -- equal keys have equal hashes, so that to compare these as well changes nothing
    rw [h.hashed s hs key' hkey]
    by_cases heq : key = key'
    · simp [heq]
    · simp [heq, Ne.symm heq]

/-- The walk finds the slot of the key: the hash keeps none of them out. -/
theorem find_eq (key : List Byte) :
    d.slots.find? (holds key (dictionaryHash key)) = at? Slot.key key d.slots :=
  List.find?_congr (h.holds_eq key)

/-- The value of the first slot with the key. -/
theorem get_eq (key : List Byte) :
    dictionaryGet d key = (at? Slot.key key d.slots).map Slot.val := by
  rw [dictionaryGet, h.find_eq]

/-- The slot of a key that is there. -/
theorem getElem?_findIdx (key : List Byte) :
    d.slots[d.slots.findIdx (holds key (dictionaryHash key))]? = at? Slot.key key d.slots := by
  rw [← List.find?_eq_getElem?_findIdx, h.find_eq]

/-- Writing a slot: the keys stay with their hashes. -/
theorem hashed_set {i : Nat} {s : Slot} (hs : ∀ key, s.key = some key → s.hash = dictionaryHash key) :
    ∀ s' ∈ d.slots.set i s, ∀ key, s'.key = some key → s'.hash = dictionaryHash key := by
  intro s' hs'
  rcases List.mem_or_eq_of_mem_set hs' with hold | rfl
  · exact h.hashed s' hold
  · exact hs

end Valid

/-! ## One call -/

/-- A new dictionary is in order. -/
theorem valid_new (size : Int) : Valid (dictionaryNew size) := by
  -- every slot of a new dictionary is free
  have hfree : ∀ s ∈ (dictionaryNew size).slots, s = freeSlot := fun s hs =>
    List.eq_of_mem_replicate hs
  have hkeys : keys Slot.key (dictionaryNew size).slots = [] := by
    refine List.filterMap_eq_nil_iff.mpr fun s hs => ?_
    rw [hfree s hs]
    rfl
  refine ⟨?_, ?_, ?_, ?_⟩
  · rw [Distinct, hkeys]
    exact List.nodup_nil
  · intro s hs key hkey
    rw [hfree s hs] at hkey
    cases hkey
  · rw [hkeys]
    rfl
  · rw [Dictionary.size, dictionaryNew, List.length_replicate]
    split <;> omega

/-- It holds no key. -/
theorem get_new (size : Int) (key : List Byte) : dictionaryGet (dictionaryNew size) key = none := by
  rw [(valid_new size).get_eq, Option.map_eq_none_iff, at?_eq_none_iff, mem_keys]
  rintro ⟨s, hs, hkey⟩
  rw [List.eq_of_mem_replicate hs] at hkey
  cases hkey

section OneCall

variable {d : Dictionary} (h : Valid d)
include h

/-- Growing makes room and keeps every key's slot. -/
theorem grow_spec : Valid (grow d) ∧ (grow d).n < (grow d).size ∧
    ∀ key, at? Slot.key key (grow d).slots = at? Slot.key key d.slots := by
  have hle : d.n ≤ d.size := h.count.trans_le (List.length_filterMap_le ..)
  unfold grow
  split
  · next hfull =>
    -- the table is doubled; the new half is free, so that no key is added
    have hfree : ∀ s ∈ List.replicate d.size freeSlot, s.key = none := by
      intro s hs
      rw [List.eq_of_mem_replicate hs]
      rfl
    have hlen : (d.slots ++ List.replicate d.size freeSlot).length = d.size + d.size := by
      rw [List.length_append, List.length_replicate, Dictionary.size]
    have hkeys := keys_append_free (t := d.slots) hfree
    have hpos := h.pos
    refine ⟨⟨?_, ?_, ?_, ?_⟩, ?_, at?_append_free hfree⟩
    · rw [Distinct, hkeys]
      exact h.distinct
    · intro s hs key hkey
      rcases List.mem_append.mp hs with hs | hs
      · exact h.hashed s hs key hkey
      · rw [hfree s hs] at hkey
        cases hkey
    · rw [hkeys]
      exact h.count
    · rw [Dictionary.size, hlen]
      omega
    · show d.n < (d.slots ++ List.replicate d.size freeSlot).length
      omega
  · -- there was room
    exact ⟨h, by omega, fun key => rfl⟩

/-- **A value is set**, in the slot of its key, in a free one or in a dictionary that is doubled. -/
theorem set_spec (key : List Byte) (val : Option (List Byte)) :
    ∃ d', dictionarySet d key val = some d' ∧ Valid d' ∧
      ∀ key', dictionaryGet d' key' = if key' = key then some val else dictionaryGet d key' := by
  -- a dictionary without keys is not searched, and there would be nothing to find
  have hsearch : (if 0 < d.n then d.slots[d.slots.findIdx (holds key (dictionaryHash key))]?
      else none) = at? Slot.key key d.slots := by
    split
    · exact h.getElem?_findIdx key
    · next hn =>
      have hnil : keys Slot.key d.slots = [] :=
        List.length_eq_zero_iff.mp (h.count.symm.trans (Nat.eq_zero_of_not_pos hn))
      refine (at?_eq_none_iff.mpr ?_).symm
      rw [hnil]
      exact List.not_mem_nil
  unfold dictionarySet
  dsimp only
  rw [hsearch]
  cases hat : at? Slot.key key d.slots with
  | some s =>
    have hi := (h.getElem?_findIdx key).trans hat
    have hkey := at?_key hat
    have hsame : ({ s with val := val } : Slot).key = s.key := rfl
    have hvalid : Valid ⟨d.n,
        d.slots.set (d.slots.findIdx (holds key (dictionaryHash key))) { s with val := val }⟩ := by
      refine ⟨distinct_set_same h.distinct hi hsame, h.hashed_set ?_, ?_, ?_⟩
      · exact h.hashed s (List.mem_of_getElem? hi)
      · exact h.count.trans (congrArg List.length (keys_set_same hi hsame)).symm
      · rw [Dictionary.size, List.length_set]
        exact h.pos
    refine ⟨_, rfl, hvalid, fun key' => ?_⟩
    rw [hvalid.get_eq, h.get_eq, at?_set_key h.distinct hi (.inl hkey) (hsame.trans hkey)]
    split <;> rfl
  | none =>
    obtain ⟨hgrown, hroom, hsame⟩ := grow_spec h
    obtain ⟨s, hi, hfree⟩ := exists_free (hgrown.count.symm.trans_lt hroom)
    have hlt := (List.getElem?_eq_some_iff.mp hi).1
    have hnew : key ∉ keys Slot.key (grow d).slots := by
      rw [← at?_eq_none_iff, hsame]
      exact hat
    have hvalid : Valid ⟨(grow d).n + 1, (grow d).slots.set
        ((grow d).slots.findIdx fun s => s.key.isNone) ⟨some key, val, dictionaryHash key⟩⟩ := by
      refine ⟨distinct_set_fresh hgrown.distinct hi hfree rfl hnew, hgrown.hashed_set ?_, ?_, ?_⟩
      · rintro key' hkey
        rw [← Option.some.inj hkey]
      · rw [(keys_set_fresh hi hfree rfl).length_eq, List.length_cons, hgrown.count]
      · rw [Dictionary.size, List.length_set]
        exact hgrown.pos
    refine ⟨_, if_pos hlt, hvalid, fun key' => ?_⟩
    rw [hvalid.get_eq, h.get_eq, at?_set_key hgrown.distinct hi (.inr ⟨hfree, hnew⟩) rfl, hsame]
    split <;> rfl

/-- **A key is removed.** -/
theorem unset_spec (key : List Byte) : Valid (dictionaryUnset d key) ∧
    ∀ key', dictionaryGet (dictionaryUnset d key) key' =
      if key' = key then none else dictionaryGet d key' := by
  have hi := h.getElem?_findIdx key
  unfold dictionaryUnset
  dsimp only
  split
  · next hend =>
    -- it is not there
    rw [List.getElem?_eq_none hend] at hi
    refine ⟨h, fun key' => ?_⟩
    split
    · next heq => rw [heq, h.get_eq, ← hi, Option.map_none]
    · rfl
  · next hin =>
    obtain ⟨s, hs⟩ : ∃ s, d.slots[d.slots.findIdx (holds key (dictionaryHash key))]? = some s :=
      ⟨_, List.getElem?_eq_getElem (Nat.lt_of_not_le hin)⟩
    have hkey := at?_key (hi.symm.trans hs)
    have hvalid : Valid ⟨d.n - 1,
        d.slots.set (d.slots.findIdx (holds key (dictionaryHash key))) freeSlot⟩ := by
      refine ⟨distinct_set_free h.distinct hs hkey rfl, h.hashed_set ?_, ?_, ?_⟩
      · intro key' hfree
        cases hfree
      · have hnone : freeSlot.key = none := rfl
        rw [h.count, (keys_set_free hs hkey hnone).length_eq, List.length_cons]
        rfl
      · rw [Dictionary.size, List.length_set]
        exact h.pos
    refine ⟨hvalid, fun key' => ?_⟩
    rw [hvalid.get_eq, h.get_eq, at?_set_free h.distinct hs hkey rfl]
    split <;> rfl

end OneCall

/-! ## Runs -/

/-- A call on a dictionary is the call on the map it stands for. -/
theorem onMap_step (c : Call) (d : Dictionary) (h : Valid d) :
    (c.step d).map (fun r => (dictionaryGet r.1, r.2)) = some (c.onMap (dictionaryGet d)) := by
  cases c with
  | set key val =>
    obtain ⟨d', hset, -, hget⟩ := set_spec h key val
    rw [Call.step, hset]
    refine congrArg (fun m => some (m, none)) (funext fun key' => ?_)
    rw [hget, Function.update_apply]
  | unset key =>
    refine congrArg (fun m => some (m, none)) (funext fun key' => ?_)
    rw [(unset_spec h key).2, Function.update_apply]
  | get key => rfl

/-- A call leaves the dictionary in order. -/
theorem valid_step (c : Call) (d d' : Dictionary) (out : Option (Option (List Byte)))
    (h : Valid d) (hstep : c.step d = some (d', out)) : Valid d' := by
  cases c with
  -- only these two change the slots
  | set key val =>
    obtain ⟨d₁, hset, hvalid, -⟩ := set_spec h key val
    rw [Call.step, hset] at hstep
    cases hstep
    exact hvalid
  | unset key =>
    cases hstep
    exact (unset_spec h key).1
  | get key =>
    cases hstep
    exact h

/-- The keys are those that are found. -/
theorem mem_dictionary_keys {d : Dictionary} (h : Valid d) (key : List Byte) :
    key ∈ d.keys ↔ dictionaryGet d key ≠ none := by
  rw [h.get_eq, Ne, Option.map_eq_none_iff, at?_eq_none_iff, not_not]
  rfl

/-- **A dictionary is a map**: any run of calls on a new dictionary finds what it finds on an empty
map, whatever keys have the same hash, and leaves what the map holds; `n` is the number of its keys,
and there is a slot for each. -/
theorem dictionary_refines (size : Int) (calls : List Call) :
    ∃ d outs, runOut Call.step calls (dictionaryNew size) = some (d, outs) ∧
      runOut (fun c m => some (c.onMap m)) calls (fun _ => none) = some (dictionaryGet d, outs) ∧
      d.keys.Nodup ∧ (∀ key, key ∈ d.keys ↔ dictionaryGet d key ≠ none) ∧
      d.n = d.keys.length ∧ d.n ≤ d.size := by
  -- the run of the dictionary and the run of the map go side by side
  obtain ⟨habs, hinv⟩ : (runOut Call.step calls (dictionaryNew size)).map
      (fun r => (dictionaryGet r.1, r.2)) =
        runOut (fun c m => some (c.onMap m)) calls (dictionaryGet (dictionaryNew size)) ∧
      ∀ d outs, runOut Call.step calls (dictionaryNew size) = some (d, outs) → Valid d :=
    runOut_abs onMap_step valid_step calls (valid_new size)
  obtain ⟨r, hr⟩ := exists_runOut_total Call.onMap calls (fun _ => none)
  rw [show dictionaryGet (dictionaryNew size) = fun _ => none from funext (get_new size)] at habs
  rw [hr, Option.map_eq_some_iff] at habs
  obtain ⟨⟨d, outs⟩, hrun, rfl⟩ := habs
  have hvalid := hinv d outs hrun
  exact ⟨d, outs, hrun, hr, hvalid.distinct, mem_dictionary_keys hvalid, hvalid.count,
    hvalid.count.trans_le (List.length_filterMap_le ..)⟩

end PgClient.Ini
