import Mathlib.Data.List.TakeWhile
import Mathlib.Data.Nat.Digits.Lemmas
import PgClient.Util.Crc32

/-!
# Texts in memory

A string is the list of its bytes in front of the NUL.

* `ascii` — the bytes of a text.
* `digits`, `formatD` — the digits of a number and what `%d` prints.
* `strcpy`, `strAt` — strings in a record.
-/

namespace PgClient.Text

/-- A character as a byte. -/
def ch (c : Char) : Byte := BitVec.ofNat 8 c.toNat

/-- The bytes of a text. -/
def ascii (s : String) : List Byte := s.toList.map ch

/-- The string at the start of a block. -/
def cstr (mem : List Byte) : List Byte := mem.takeWhile (· ≠ 0)

/-- `isdigit`. -/
def isDigit (c : Byte) : Bool := 0x30 ≤ c && c ≤ 0x39

/-- `tolower`. -/
def tolower (c : Byte) : Byte := if 0x41 ≤ c ∧ c ≤ 0x5a then c + 0x20 else c

/-- `strcasecmp`, and `cJSON_strcasecmp` of two strings: they are equal but for their case. -/
def sameName (s t : List Byte) : Bool := s.map tolower = t.map tolower

/-- The decimal digits of a number, the highest first. -/
def digits (n : Nat) : List Nat := if n = 0 then [0] else (Nat.digits 10 n).reverse

/-- A digit as a character. -/
def digitChar (d : Nat) : Byte := BitVec.ofNat 8 (0x30 + d)

/-- What `%d` prints. -/
def formatD (i : Int) : List Byte :=
  (if i < 0 then [ch '-'] else []) ++ (digits i.natAbs).map digitChar

/-! ## Strings -/

/-- No byte of it is a NUL. -/
def Plain (s : List Byte) : Prop := ∀ c ∈ s, c ≠ 0

-- through the list, and not through all the bytes
instance instDecidablePlain (s : List Byte) : Decidable (Plain s) :=
  List.decidableBAll (fun c => c ≠ 0) s

theorem plain_nil : Plain [] := fun _ h => absurd h List.not_mem_nil

/-- A text grows by a character that is not NUL. -/
theorem Plain.cons {c : Byte} {s : List Byte} (hc : c ≠ 0) (hs : Plain s) : Plain (c :: s) := by
  intro d hd
  rcases List.mem_cons.mp hd with rfl | hd
  · exact hc
  · exact hs d hd

/-- So do two texts put together. -/
theorem Plain.append {s t : List Byte} (hs : Plain s) (ht : Plain t) : Plain (s ++ t) := by
  intro c hc
  rcases List.mem_append.mp hc with hc | hc
  · exact hs c hc
  · exact ht c hc

/-- Characters of a plain text make a plain text. -/
theorem Plain.of_mem {s t : List Byte} (hs : Plain s) (ht : ∀ c ∈ t, c ∈ s) : Plain t :=
  fun c hc => hs c (ht c hc)

/-- The first NUL ends a string. -/
theorem cstr_append {s : List Byte} (hs : Plain s) (tail : List Byte) :
    cstr (s ++ 0 :: tail) = s := by
  rw [cstr, List.takeWhile_append_of_pos fun c hc => decide_eq_true (hs c hc)]
  exact List.append_nil s

/-- A text without one is a string as it is. -/
theorem cstr_of_plain {s : List Byte} (hs : Plain s) : cstr s = s :=
  List.takeWhile_eq_self_iff.mpr fun c hc => decide_eq_true (hs c hc)

/-- `strcpy` to an offset of a record; `none` is a NUL behind the end of it. -/
def strcpy (mem : List Byte) (off : Nat) (s : List Byte) : Option (List Byte) :=
  if off + s.length < mem.length then
    some (mem.take off ++ s ++ 0 :: mem.drop (off + s.length + 1))
  else none

/-- The string at an offset; `none` is one that has no NUL in the record. -/
def strAt (mem : List Byte) (off : Nat) : Option (List Byte) :=
  let s := cstr (mem.drop off)
  if s.length < (mem.drop off).length then some s else none

/-- A copy writes over the record, and does not make it longer. -/
theorem length_strcpy {mem mem' s : List Byte} {off : Nat} (h : strcpy mem off s = some mem') :
    mem'.length = mem.length := by
  unfold strcpy at h
  split at h
  · cases h
    simp
    omega
  · cases h

/-- What is in the record then. -/
theorem getElem?_strcpy {mem mem' s : List Byte} {off : Nat} (h : strcpy mem off s = some mem')
    (i : Nat) : mem'[i]? =
      if i < off then mem[i]? else if i < off + s.length then s[i - off]?
      else if i = off + s.length then some 0 else mem[i]? := by
  unfold strcpy at h
  split at h
  · next hroom =>
    cases h
    -- the record is what is in front, the string, its NUL, and what is behind
    have hfront : (mem.take off).length = off := List.length_take_of_le (by omega)
    split
    · next hi =>
      rw [List.append_assoc, List.getElem?_append_left (by omega), List.getElem?_take_of_lt hi]
    · next hi =>
      rw [List.append_assoc, List.getElem?_append_right (by omega), hfront]
      split
      · next hs => rw [List.getElem?_append_left (by omega)]
      · next hs =>
        rw [List.getElem?_append_right (by omega)]
        split
        · next heq =>
          -- the NUL
          have hzero : i - off - s.length = 0 := by omega
          rw [hzero, List.getElem?_cons_zero]
        · next hne =>
          -- behind the NUL the record is as it was
          obtain ⟨k, hk⟩ : ∃ k, i - off - s.length = k + 1 := ⟨i - off - s.length - 1, by omega⟩
          rw [hk, List.getElem?_cons_succ, List.getElem?_drop]
          congr 1
          omega
  · cases h

/-- A string with its NUL. -/
theorem strAt_of_getElem? {mem s : List Byte} {off : Nat} (hs : Plain s)
    (hchars : ∀ k < s.length, mem[off + k]? = s[k]?) (hnul : mem[off + s.length]? = some 0) :
    strAt mem off = some s := by
  have hsplit : mem.drop off = s ++ 0 :: mem.drop (off + s.length + 1) := by
    refine List.ext_getElem? fun k => ?_
    rw [List.getElem?_drop]
    -- in the string, at its NUL, or behind it
    rcases lt_trichotomy k s.length with hk | rfl | hk
    · rw [List.getElem?_append_left hk, hchars k hk]
    · rw [List.getElem?_append_right le_rfl, Nat.sub_self, hnul, List.getElem?_cons_zero]
    · obtain ⟨j, rfl⟩ : ∃ j, k = s.length + (j + 1) := ⟨k - s.length - 1, by omega⟩
      rw [List.getElem?_append_right (by omega), Nat.add_sub_cancel_left, List.getElem?_cons_succ,
        List.getElem?_drop]
      congr 1
      omega
  have hcstr : cstr (mem.drop off) = s := by rw [hsplit, cstr_append hs]
  rw [strAt, hcstr, if_pos]
  rw [hsplit, List.length_append, List.length_cons]
  omega

/-- A string that begins with so many characters is no shorter. -/
theorem le_length_of_strAt {mem s : List Byte} {off n : Nat} (h : strAt mem off = some s)
    (hchars : ∀ k < n, ∃ c, mem[off + k]? = some c ∧ c ≠ 0) : n ≤ s.length := by
  unfold strAt at h
  dsimp only at h
  split at h
  · cases h
    -- `strlen` does not stop in the first characters, as none of them is NUL
    have hplain : Plain ((mem.drop off).take n) := by
      intro c hc
      obtain ⟨k, hk⟩ := List.mem_iff_getElem?.mp hc
      rw [List.getElem?_take, Option.ite_none_right_eq_some, List.getElem?_drop] at hk
      obtain ⟨d, hd, hne⟩ := hchars k hk.1
      cases hd.symm.trans hk.2
      exact hne
    have hlen : ((mem.drop off).take n).length = n := by
      rcases Nat.eq_zero_or_pos n with rfl | hpos
      · rfl
      · obtain ⟨c, hc, -⟩ := hchars (n - 1) (by omega)
        have hin := (List.getElem?_eq_some_iff.mp hc).1
        rw [List.length_take, List.length_drop]
        omega
    have hsplit : cstr (mem.drop off) = (mem.drop off).take n ++ cstr ((mem.drop off).drop n) := by
      conv_lhs => rw [← List.take_append_drop n (mem.drop off)]
      exact List.takeWhile_append_of_pos fun c hc => decide_eq_true (hplain c hc)
    rw [hsplit, List.length_append, hlen]
    omega
  · cases h

/-! ## Decimal numbers -/

theorem digits_zero : digits 0 = [0] := rfl

/-- The most significant digit comes first. -/
theorem digits_of_pos {n : Nat} (hn : n ≠ 0) : digits n = (Nat.digits 10 n).reverse := if_neg hn

theorem digits_lt {n d : Nat} (hd : d ∈ digits n) : d < 10 := by
  by_cases hn : n = 0
  · rw [hn, digits_zero, List.mem_singleton] at hd
    omega
  · rw [digits_of_pos hn, List.mem_reverse] at hd
    exact Nat.digits_lt_base (by decide) hd

/-- A number begins with a digit, and with 0 only if it is 0. -/
theorem exists_digits_eq_cons (n : Nat) :
    ∃ d ds, digits n = d :: ds ∧ d < 10 ∧ (d = 0 → n = 0 ∧ ds = []) := by
  by_cases hn : n = 0
  · exact ⟨0, [], by rw [hn, digits_zero], by decide, fun _ => ⟨hn, rfl⟩⟩
  · -- the digits of Mathlib come with the lowest first
    have hne : Nat.digits 10 n ≠ [] := Nat.digits_ne_nil_iff_ne_zero.mpr hn
    obtain ⟨d, ds, hds⟩ := List.exists_cons_of_ne_nil (List.reverse_ne_nil_iff.mpr hne)
    refine ⟨d, ds, by rw [digits_of_pos hn, hds], digits_lt (n := n) ?_, fun hd => ?_⟩
    · rw [digits_of_pos hn, hds]
      exact List.mem_cons_self
    · -- the highest digit is the last one of Mathlib's
      have hlast := Nat.getLast_digit_ne_zero 10 hn
      have heq : (Nat.digits 10 n).getLast hne = d := by
        have hget := List.head_reverse (l := Nat.digits 10 n) (by rw [hds]; simp)
        rw [← hget]
        simp only [hds, List.head_cons]
      exact absurd (heq.trans hd) hlast

/-- The digits of a number make up the number. -/
theorem foldl_digits (n : Nat) : (digits n).foldl (fun v d => 10 * v + d) 0 = n := by
  by_cases hn : n = 0
  · rw [hn]
    rfl
  · -- the value of the digits is a fold from the other end
    have hof := Nat.ofDigits_digits 10 n
    rw [Nat.ofDigits_eq_foldr] at hof
    rw [digits_of_pos hn, List.foldl_reverse]
    conv_rhs => rw [← hof]
    congr 1
    funext d v
    exact Nat.add_comm _ _

theorem isDigit_digitChar : ∀ d < 10, isDigit (digitChar d) = true := by decide

/-- The characters of the digits are next to each other, from `0` on. -/
theorem digitChar_toNat : ∀ d < 10, (digitChar d).toNat = 0x30 + d := by decide

theorem digitChar_plain : ∀ d < 10, digitChar d ≠ 0 := by decide

/-- A number is printed without a NUL. -/
theorem plain_formatD (i : Int) : Plain (formatD i) := by
  refine Plain.append ?_ ?_
  · split
    · exact Plain.cons (by decide) plain_nil
    · exact plain_nil
  · intro c hc
    obtain ⟨d, hd, rfl⟩ := List.mem_map.mp hc
    exact digitChar_plain d (digits_lt hd)

end PgClient.Text
