import PgClient.Util.Crc32

/-!
# Numbers in memory

The ARM target stores the low byte first.
-/

namespace PgClient

/-- An `unsigned short`. -/
def le16Bytes (x : BitVec 16) : List Byte := [x.setWidth 8, (x >>> 8).setWidth 8]

/-- An `unsigned int`. -/
def le32Bytes (x : BitVec 32) : List Byte :=
  [x.setWidth 8, (x >>> 8).setWidth 8, (x >>> 16).setWidth 8, (x >>> 24).setWidth 8]

/-- The `unsigned short` at the front. -/
def le16 (bs : List Byte) : BitVec 16 := bs.getD 1 0 ++ bs.getD 0 0

/-- The `unsigned int` at the front. -/
def le32 (bs : List Byte) : BitVec 32 := bs.getD 3 0 ++ bs.getD 2 0 ++ bs.getD 1 0 ++ bs.getD 0 0

/-- A number that fits the width is kept. -/
theorem toNat_ofNat_of_lt {w n : Nat} (hn : n < 2 ^ w) : (BitVec.ofNat w n).toNat = n := by
  rw [BitVec.toNat_ofNat, Nat.mod_eq_of_lt hn]

/-- A number that is positive as an `int`, too. -/
theorem toInt_ofNat_of_lt {n : Nat} (hn : n < 2 ^ 31) : (BitVec.ofNat 32 n).toInt = (n : Int) := by
  have hnat : (BitVec.ofNat 32 n).toNat = n := toNat_ofNat_of_lt (by omega)
  rw [BitVec.toInt_eq_toNat_of_lt (by omega), hnat]

/-- Sixteen bits are read back from their bytes, whatever follows. -/
theorem le16_le16Bytes (x : BitVec 16) (bs : List Byte) : le16 (le16Bytes x ++ bs) = x := by
  unfold le16 le16Bytes
  simp only [List.cons_append, List.nil_append, List.getD_cons_succ, List.getD_cons_zero]
  apply BitVec.eq_of_getLsbD_eq
  intro i hi
  rw [BitVec.getLsbD_append]
  by_cases h8 : i < 8
  · simp [h8]
  · have h16 : i - 8 < 8 := by omega
    have hadd : 8 + (i - 8) = i := by omega
    simp [h8, h16, hadd]

/-- Two bytes are looked at. -/
theorem le16_take_two (bs : List Byte) : le16 (bs.take 2) = le16 bs := by
  match bs with
  | [] => rfl
  | [_] => rfl
  | _ :: _ :: _ => rfl

/-- The bytes of a word, one behind the other. -/
theorem getLsbD_le32 (a b c d : Byte) {i : Nat} (hi : i < 8) :
    (le32 [a, b, c, d]).getLsbD i = a.getLsbD i ∧
      (le32 [a, b, c, d]).getLsbD (8 + i) = b.getLsbD i ∧
      (le32 [a, b, c, d]).getLsbD (16 + i) = c.getLsbD i ∧
      (le32 [a, b, c, d]).getLsbD (24 + i) = d.getLsbD i := by
  -- the bit of the word is in the byte that its place says
  have hword : ∀ j, (le32 [a, b, c, d]).getLsbD j =
      if j < 8 then a.getLsbD j
      else if j - 8 < 8 then b.getLsbD (j - 8)
      else if j - 8 - 8 < 8 then c.getLsbD (j - 8 - 8)
      else d.getLsbD (j - 8 - 8 - 8) := by
    intro j
    show (d ++ c ++ b ++ a : BitVec (8 + 8 + 8 + 8)).getLsbD j = _
    rw [BitVec.getLsbD_append, BitVec.getLsbD_append, BitVec.getLsbD_append]
  refine ⟨?_, ?_, ?_, ?_⟩ <;> rw [hword]
  · rw [if_pos hi]
  · rw [if_neg (by omega), if_pos (by omega), Nat.add_sub_cancel_left]
  · rw [if_neg (by omega), if_neg (by omega), if_pos (by omega), show 16 + i - 8 - 8 = i by omega]
  · rw [if_neg (by omega), if_neg (by omega), if_neg (by omega),
      show 24 + i - 8 - 8 - 8 = i by omega]

/-- A byte of a word, by its bits. -/
theorem setWidth_ushiftRight_eq {w : Nat} {x : BitVec w} {k : Nat} {b : Byte}
    (h : ∀ i < 8, x.getLsbD (k + i) = b.getLsbD i) : (x >>> k).setWidth 8 = b := by
  apply BitVec.eq_of_getLsbD_eq
  intro i hi
  rw [BitVec.getLsbD_setWidth, BitVec.getLsbD_ushiftRight, h i hi]
  simp [hi]

/-- Four bytes are written back as they were read. -/
theorem le32Bytes_le32 {bs : List Byte} (h : bs.length = 4) : le32Bytes (le32 bs) = bs := by
  match bs, h with
  | [a, b, c, d], _ =>
    have h0 : (le32 [a, b, c, d] >>> 0).setWidth 8 = a :=
      setWidth_ushiftRight_eq fun i hi => by rw [Nat.zero_add]; exact (getLsbD_le32 a b c d hi).1
    rw [BitVec.ushiftRight_zero] at h0
    unfold le32Bytes
    rw [h0, setWidth_ushiftRight_eq fun i hi => (getLsbD_le32 a b c d hi).2.1,
      setWidth_ushiftRight_eq fun i hi => (getLsbD_le32 a b c d hi).2.2.1,
      setWidth_ushiftRight_eq fun i hi => (getLsbD_le32 a b c d hi).2.2.2]

/-- The lower byte comes first. -/
theorem le16Bytes_append (lo hi : Byte) : le16Bytes (hi ++ lo) = [lo, hi] := by
  have hlo : ((hi ++ lo) >>> 0).setWidth 8 = lo :=
    setWidth_ushiftRight_eq fun i hi => by rw [BitVec.getLsbD_append]; simp [hi]
  have hhi : ((hi ++ lo) >>> 8).setWidth 8 = hi :=
    setWidth_ushiftRight_eq fun i hi => by rw [BitVec.getLsbD_append]; simp
  rw [BitVec.ushiftRight_zero] at hlo
  unfold le16Bytes
  rw [hlo, hhi]

/-- Thirty-two bits are read back from their bytes. -/
theorem le32_le32Bytes (x : BitVec 32) : le32 (le32Bytes x) = x := by
  have hbyte : ∀ (k i : Nat), i < 8 → ((x >>> k).setWidth 8).getLsbD i = x.getLsbD (k + i) := by
    intro k i hi
    rw [BitVec.getLsbD_setWidth, BitVec.getLsbD_ushiftRight]
    simp [hi]
  have hbits := fun {i : Nat} (hi : i < 8) =>
    getLsbD_le32 (x.setWidth 8) ((x >>> 8).setWidth 8) ((x >>> 16).setWidth 8) ((x >>> 24).setWidth 8) hi
  apply BitVec.eq_of_getLsbD_eq
  intro j hj
  -- the byte of the bit
  rcases Nat.lt_or_ge j 8 with h8 | h8
  · exact (hbits h8).1.trans (by simp [h8])
  · rcases Nat.lt_or_ge j 16 with h16 | h16
    · obtain ⟨i, rfl⟩ := Nat.exists_eq_add_of_le h8
      exact (hbits (by omega)).2.1.trans (hbyte 8 i (by omega))
    · rcases Nat.lt_or_ge j 24 with h24 | h24
      · obtain ⟨i, rfl⟩ := Nat.exists_eq_add_of_le h16
        exact (hbits (by omega)).2.2.1.trans (hbyte 16 i (by omega))
      · obtain ⟨i, rfl⟩ := Nat.exists_eq_add_of_le h24
        exact (hbits (by omega)).2.2.2.trans (hbyte 24 i (by omega))

end PgClient
