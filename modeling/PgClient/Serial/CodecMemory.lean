import PgClient.Serial.Uart

/-!
# What `doCom2H` and `uartWriteData` touch

* `doCom2HChecked_eq` — the reads and writes of `doCom2H` up to the CRC are in range.
* `com2HSafe_iff` — the CRC is, unless escape pairs take its bytes.
* `uartWriteData_fits_iff` — which payloads fit `outBuf` when they are escaped.
-/

namespace PgClient.Serial

/-! ## `doCom2H` -/

/-- `*pTemp++ = byte`, which is undefined behind the `primLen` bytes of the block. -/
def com2HPut (primLen : Nat) (byte : Byte) (pOut : List Byte) : Option (List Byte) :=
  if pOut.length < primLen then some (pOut ++ [byte]) else none

/-- The loop of `doCom2H` from index `i` on; no read of `pIn` is defined behind its end, and
not more than `fuel` turns. -/
def com2HTurns (pIn : List Byte) (primLen : Nat) : Nat → Nat → List Byte → Option (List Byte)
  | 0, _, _ => none
  | fuel + 1, i, pOut =>
    if i < primLen then
      if i + 1 < primLen then do
        let b ← pIn[6 + i]?
        if b = 0x7d then do
          let c ← pIn[6 + (i + 1)]?
          if c = 0x5e then do
            let pOut ← com2HPut primLen 0x7e pOut
            com2HTurns pIn primLen fuel (i + 2) pOut
          else if c = 0x5d then do
            let pOut ← com2HPut primLen 0x7d pOut
            com2HTurns pIn primLen fuel (i + 2) pOut
          else do
            let pOut ← com2HPut primLen 0x7d pOut
            com2HTurns pIn primLen fuel (i + 1) pOut
        else do
          let pOut ← com2HPut primLen b pOut
          com2HTurns pIn primLen fuel (i + 1) pOut
      else do
        let b ← pIn[6 + i]?
        let pOut ← com2HPut primLen b pOut
        com2HTurns pIn primLen fuel (i + 1) pOut
    else some pOut

/-- `doCom2H` with every access checked: `none` if one is out of range, or if the length
passed to `doCrc32` is negative. -/
def doCom2HChecked (pIn : List Byte) : Option (Nat × Option (List Byte)) :=
  if pIn.length < pktSerialHeaderLen then some (0, none)
  else do
    let b0 ← pIn[0]?
    let b1 ← pIn[1]?
    if b0 ≠ 0x55 ∨ b1 ≠ 0xaa then some (0, none)
    else do
      let lo ← pIn[2]?
      let hi ← pIn[3]?
      let payloadLen := (le16 [lo, hi]).toNat
      if payloadLen + 4 ≠ pIn.length then some (0, none)
      else do
        let primLen := payloadLen - 4
        let pOut ← com2HTurns pIn primLen (primLen + 1) 0 []
        com2HCheck pOut

/-- Every access is in range, and a value that is not zero is the number of bytes of a
block that has them, and not more than there were. -/
def Com2HSafe (pIn : List Byte) : Prop :=
  ∃ n pOut, doCom2HChecked pIn = some (n, pOut) ∧
    (n ≠ 0 → n ≤ pIn.length ∧ ∃ block, pOut = some block ∧ n ≤ block.length)

/-- The header that `doCom2H` looks for. -/
def Com2HHeader (pIn : List Byte) : Prop :=
  pktSerialHeaderLen ≤ pIn.length ∧ pIn.getD 0 0 = 0x55 ∧ pIn.getD 1 0 = 0xaa ∧
    (le16 (RingBuffer.slice pIn 2 2)).toNat + 4 = pIn.length

/-- The bytes between the places of the flags. -/
def com2HBody (pIn : List Byte) : List Byte := RingBuffer.slice pIn 6 (pIn.length - 8)

section Turns

variable {pIn : List Byte} {primLen : Nat}

/-- **The loop stays in range**: it never has stored more bytes than it has read, and it is
the loop over the bytes. -/
theorem com2HTurns_eq (hlen : 6 + primLen ≤ pIn.length) :
    ∀ fuel i pOut, primLen < fuel + i → i ≤ primLen → pOut.length ≤ i →
      com2HTurns pIn primLen fuel i pOut =
        some (pOut ++ com2HLoop (RingBuffer.slice pIn (6 + i) (primLen - i))) := by
  intro fuel
  induction fuel with
  | zero =>
    intro i pOut hfuel hi
    omega
  | succ fuel ih =>
    intro i pOut hfuel hi hout
    have hslice : ∀ k < primLen, RingBuffer.slice pIn (6 + k) (primLen - k) =
        pIn.getD (6 + k) 0 :: RingBuffer.slice pIn (6 + (k + 1)) (primLen - (k + 1)) := by
      intro k hk
      rw [RingBuffer.slice, List.drop_eq_getElem_cons (by omega),
        show primLen - k = primLen - (k + 1) + 1 by omega, List.take_succ_cons,
        List.getD_eq_getElem?_getD, List.getElem?_eq_getElem (by omega)]
      rfl
    have hget : ∀ k < primLen, pIn[6 + k]? = some (pIn.getD (6 + k) 0) := by
      intro k hk
      rw [List.getD_eq_getElem?_getD, List.getElem?_eq_getElem (by omega)]
      rfl
    -- the turn that follows, with one byte more stored
    have hlater : ∀ j byte, i < j → j ≤ primLen → com2HTurns pIn primLen fuel j (pOut ++ [byte]) =
        some (pOut ++ byte :: com2HLoop (RingBuffer.slice pIn (6 + j) (primLen - j))) := by
      intro j byte hj hle
      rw [ih j _ (by omega) hle (by rw [List.length_append, List.length_singleton]; omega),
        List.append_assoc]
      rfl
    rw [com2HTurns]
    by_cases hin : i < primLen
    · have hput : ∀ byte, com2HPut primLen byte pOut = some (pOut ++ [byte]) := fun _ =>
        if_pos (by omega)
      simp only [hput, if_pos hin, Option.bind_eq_bind, hget i hin, Option.bind_some]
      -- the byte behind is looked at only if it is one of the body
      by_cases hnext : i + 1 < primLen
      · rw [if_pos hnext, hslice i hin, hslice (i + 1) hnext, com2HLoop, ← hslice (i + 1) hnext,
          hget (i + 1) hnext, Option.bind_some, hlater (i + 1) _ (by omega) (by omega),
          hlater (i + 1) _ (by omega) (by omega), hlater (i + 2) _ (by omega) (by omega),
          hlater (i + 2) _ (by omega) (by omega)]
        -- an escape with each of the substitutes, one without, and any other byte
        by_cases hb : pIn.getD (6 + i) 0 = 0x7d
        · rw [if_pos hb, if_pos hb]
          by_cases h5e : pIn.getD (6 + (i + 1)) 0 = 0x5e
          · rw [if_pos h5e, if_pos h5e]
          · rw [if_neg h5e, if_neg h5e]
            split_ifs <;> rfl
        · rw [if_neg hb, if_neg hb]
      · have hnil : RingBuffer.slice pIn (6 + (i + 1)) (primLen - (i + 1)) = [] := by
          rw [RingBuffer.slice, show primLen - (i + 1) = 0 by omega, List.take_zero]
        rw [if_neg hnext, hlater (i + 1) _ (by omega) (by omega), hslice i hin, hnil]
        rfl
    · rw [if_neg hin, show primLen - i = 0 by omega, RingBuffer.slice, List.take_zero, com2HLoop,
        List.append_nil]

end Turns

/-- **The checks change nothing**: every access up to the CRC is in range. -/
theorem doCom2HChecked_eq (pIn : List Byte) : doCom2HChecked pIn = doCom2H pIn := by
  unfold doCom2HChecked doCom2H
  -- the checks of the header are those of the message's length
  by_cases hshort : pIn.length < pktSerialHeaderLen
  · rw [if_pos hshort, if_pos hshort]
  have hlen : 12 ≤ pIn.length := not_lt.mp hshort
  have hget : ∀ k < 12, pIn[k]? = some (pIn.getD k 0) := by
    intro k hk
    rw [List.getD_eq_getElem?_getD, List.getElem?_eq_getElem (by omega)]
    rfl
  have hfield : RingBuffer.slice pIn 2 2 = [pIn.getD 2 0, pIn.getD 3 0] := by
    rw [RingBuffer.slice, List.drop_eq_getElem_cons (by omega), List.drop_eq_getElem_cons (by omega),
      List.getD_eq_getElem?_getD, List.getD_eq_getElem?_getD, List.getElem?_eq_getElem (by omega),
      List.getElem?_eq_getElem (by omega)]
    rfl
  rw [if_neg hshort, if_neg hshort, hget 0 (by omega), hget 1 (by omega), hget 2 (by omega),
    hget 3 (by omega), hfield]
  simp only [Option.bind_eq_bind, Option.bind_some]
  by_cases hsign : pIn.getD 0 0 ≠ 0x55 ∨ pIn.getD 1 0 ≠ 0xaa
  · rw [if_pos hsign, if_pos hsign]
  rw [if_neg hsign, if_neg hsign]
  by_cases hpayload : (le16 [pIn.getD 2 0, pIn.getD 3 0]).toNat + 4 ≠ pIn.length
  · rw [if_pos hpayload, if_pos hpayload]
  · rw [if_neg hpayload, if_neg hpayload, com2HTurns_eq (by omega) _ _ _ (by omega) (Nat.zero_le _)
      (Nat.zero_le _)]
    rfl

/-- The check reads the last four bytes. -/
theorem com2HCheck_isSome_iff {pOut : List Byte} : (com2HCheck pOut).isSome ↔ 4 ≤ pOut.length := by
  unfold com2HCheck
  dsimp only
  split_ifs with hshort
  · exact iff_of_false nofun (by omega)
  · exact iff_of_true rfl (by omega)
  · exact iff_of_true rfl (by omega)

/-- A value that is not zero is less than the length of the block by that of the CRC. -/
theorem com2HCheck_block {pOut : List Byte} {n : Nat} {block : Option (List Byte)}
    (h : com2HCheck pOut = some (n, block)) (hn : n ≠ 0) :
    n + 4 = pOut.length ∧ block = some pOut := by
  unfold com2HCheck at h
  dsimp only at h
  split_ifs at h with hshort
  · obtain ⟨rfl, rfl⟩ := Prod.mk.inj (Option.some.inj h)
    exact ⟨by omega, rfl⟩
  · obtain ⟨rfl, -⟩ := Prod.mk.inj (Option.some.inj h)
    exact absurd rfl hn

/-- Behind a head that is accepted the body is unescaped and checked. -/
theorem doCom2H_of_header {pIn : List Byte} (h : Com2HHeader pIn) :
    doCom2H pIn = com2HCheck (serialStuffing.unescape (com2HBody pIn)) := by
  obtain ⟨hlen, h0, h1, hfield⟩ := h
  have hprim : (le16 (RingBuffer.slice pIn 2 2)).toNat - 4 = pIn.length - 8 := by omega
  unfold doCom2H
  rw [if_neg (by omega), if_neg (not_or.mpr ⟨not_not_intro h0, not_not_intro h1⟩)]
  dsimp only
  rw [if_neg (not_not_intro hfield), hprim, com2HLoop_eq_unescape, com2HBody]

/-- Otherwise nothing is. -/
theorem doCom2H_of_not_header {pIn : List Byte} (h : ¬Com2HHeader pIn) :
    doCom2H pIn = some (0, none) := by
  unfold doCom2H
  by_cases hlen : pIn.length < pktSerialHeaderLen
  · rw [if_pos hlen]
  by_cases hsign : pIn.getD 0 0 ≠ 0x55 ∨ pIn.getD 1 0 ≠ 0xaa
  · rw [if_neg hlen, if_pos hsign]
  have hfield : (le16 (RingBuffer.slice pIn 2 2)).toNat + 4 ≠ pIn.length := by
    intro heq
    rw [not_or, not_ne_iff, not_ne_iff] at hsign
    exact h ⟨not_lt.mp hlen, hsign.1, hsign.2, heq⟩
  rw [if_neg hlen, if_neg hsign]
  exact if_pos hfield

/-- **`doCom2H` is safe** on the messages that it refuses by their header, and those whose
escape pairs leave the four bytes of a CRC. -/
theorem com2HSafe_iff (pIn : List Byte) :
    Com2HSafe pIn ↔ (Com2HHeader pIn →
      4 + serialStuffing.pairs (com2HBody pIn) ≤ (com2HBody pIn).length) := by
  unfold Com2HSafe
  rw [doCom2HChecked_eq]
  by_cases hheader : Com2HHeader pIn
  · have hcount := serialStuffing.length_unescape_add rfl (com2HBody pIn)
    have hbody : (com2HBody pIn).length ≤ pIn.length := by
      rw [com2HBody, RingBuffer.slice, List.length_take, List.length_drop]
      omega
    rw [doCom2H_of_header hheader]
    constructor
    -- the CRC is read from the last four bytes that were stored
    · rintro ⟨n, pOut, h, -⟩ -
      have hlong := com2HCheck_isSome_iff.mp (by rw [h]; rfl)
      omega
    · intro hroom
      obtain ⟨⟨n, pOut⟩, h⟩ := Option.isSome_iff_exists.mp
        (com2HCheck_isSome_iff.mpr (show 4 ≤ (serialStuffing.unescape (com2HBody pIn)).length by
          have := hroom hheader
          omega))
      refine ⟨n, pOut, h, ?_⟩
      intro hn
      obtain ⟨hlen, rfl⟩ := com2HCheck_block h hn
      exact ⟨by omega, _, rfl, by omega⟩
  · rw [doCom2H_of_not_header hheader]
    exact iff_of_true ⟨0, none, rfl, fun h => absurd rfl h⟩ fun h => absurd h hheader

/-- Two escape pairs where the CRC should be: two bytes are left of it. -/
theorem twoPairs_not_com2HSafe :
    ¬Com2HSafe [0x55, 0xaa, 8, 0, 0x7e, 0x7e, 0x7d, 0x5e, 0x7d, 0x5e, 0x7e, 0x7e] := by
  have hrun : doCom2HChecked [0x55, 0xaa, 8, 0, 0x7e, 0x7e, 0x7d, 0x5e, 0x7d, 0x5e, 0x7e, 0x7e] =
      none := by decide
  rintro ⟨n, pOut, h, -⟩
  rw [hrun] at h
  cases h

/-! ## `uartWriteData` -/

/-- What `uartWriteData` uses of an `S_UART_INFO`. -/
structure UartInfo where
  fd : Int
  serial : Int

/-- What `uartWriteData` returns, and the frame that `datapack` has written into `outBuf`. -/
structure UartWrite where
  ret : Int
  outBuf : Option (List Byte)

/-- `uartWriteData`, with the memory from `pBuf` on. The `INT` is an `unsigned long` for
`datapack`, which writes the frame byte by byte, whatever the size of `outBuf` is. -/
def uartWriteData (gsUartInfo : List UartInfo) (serialNo : Int) (pBuf : Option (Nat → Byte))
    (writeLen : BitVec 32) : UartWrite :=
  if writeLen.toInt > 1080 then ⟨2, none⟩
  else
    match gsUartInfo.find? fun info => serialNo = info.serial with
    | none => ⟨3, none⟩
    | some info =>
      match pBuf with
      | none => ⟨4, none⟩
      | some mem =>
        ⟨if info.fd ≥ 0 then 0 else 1, some (datapack ((List.range writeLen.toNat).map mem))⟩

/-- No byte is written behind the end of `outBuf`. -/
def UartWrite.Fits (w : UartWrite) : Prop := ∀ frame, w.outBuf = some frame → frame.length ≤ uartBufSize

/-- The payload is accepted. -/
def AcceptedBy (gsUartInfo : List UartInfo) (serialNo : Int) (writeLen : BitVec 32) : Prop :=
  writeLen.toInt ≤ 1080 ∧ ∃ info ∈ gsUartInfo, serialNo = info.serial

/-- The bytes that are escaped, of a payload and its CRC. -/
def escapedBytes (p : List Byte) : Nat :=
  serialStuffing.specials p +
    serialStuffing.specials (le32Bytes (~~~jcrc32Le (BitVec.allOnes 32) p))

/-- A packed payload is twelve bytes longer, and one for every byte escaped. -/
theorem length_datapack_eq (p : List Byte) : (datapack p).length = p.length + 12 + escapedBytes p := by
  have hcrc : (le32Bytes (~~~jcrc32Le (BitVec.allOnes 32) p)).length = 4 := rfl
  rw [datapack_eq, length_frame, List.length_append, serialStuffing.length_escape,
    serialStuffing.length_escape, hcrc, escapedBytes]
  omega

/-- **The frame fits `outBuf`** if the length is not negative, and with 12 bytes and one for
each that is escaped not more than its size. -/
theorem uartWriteData_fits_iff (gsUartInfo : List UartInfo) (serialNo : Int) (mem : Nat → Byte)
    (writeLen : BitVec 32) :
    (uartWriteData gsUartInfo serialNo (some mem) writeLen).Fits ↔
      (AcceptedBy gsUartInfo serialNo writeLen → 0 ≤ writeLen.toInt ∧
        writeLen.toNat + 12 + escapedBytes ((List.range writeLen.toNat).map mem) ≤ uartBufSize) := by
  unfold UartWrite.Fits uartWriteData
  by_cases hlong : writeLen.toInt > 1080
  · rw [if_pos hlong]
    exact iff_of_true nofun fun h => absurd h.1 (by omega)
  rw [if_neg hlong]
  cases hfind : gsUartInfo.find? fun info => serialNo = info.serial with
  | none =>
    refine iff_of_true nofun ?_
    rintro ⟨-, info, hinfo, hserial⟩
    exact absurd hserial (by simpa using List.find?_eq_none.mp hfind info hinfo)
  | some info =>
    have haccepted : AcceptedBy gsUartInfo serialNo writeLen :=
      ⟨by omega, info, List.mem_of_find?_eq_some hfind, by simpa using List.find?_some hfind⟩
    simp only [Option.some.injEq, forall_eq', haccepted, true_imp_iff]
    rw [length_datapack_eq, List.length_map, List.length_range]
    refine ⟨fun hfits => ⟨?_, hfits⟩, fun h => h.2⟩
    -- a negative length wraps to one that is larger than the buffer
    have hint := BitVec.toInt_eq_toNat_cond writeLen
    have hsize : uartBufSize = 1100 := rfl
    split_ifs at hint <;> omega

/-- A payload of half the size always fits. -/
theorem uartWriteData_fits_of_le {gsUartInfo : List UartInfo} {serialNo : Int} {mem : Nat → Byte}
    {writeLen : BitVec 32} (hle : writeLen.toNat ≤ 542) :
    (uartWriteData gsUartInfo serialNo (some mem) writeLen).Fits := by
  intro frame hframe
  have hpacked : frame = datapack ((List.range writeLen.toNat).map mem) := by
    unfold uartWriteData at hframe
    split_ifs at hframe
    cases hfind : gsUartInfo.find? fun info => serialNo = info.serial with
    | none => simp only [hfind] at hframe; cases hframe
    | some info =>
      simp only [hfind, Option.some.injEq] at hframe
      exact hframe.symm
  -- every byte of the payload and the CRC might be escaped
  have hdouble := serialStuffing.length_escape_le ((List.range writeLen.toNat).map mem ++
    le32Bytes (~~~jcrc32Le (BitVec.allOnes 32) ((List.range writeLen.toNat).map mem)))
  have hcrc : (le32Bytes (~~~jcrc32Le (BitVec.allOnes 32)
    ((List.range writeLen.toNat).map mem))).length = 4 := rfl
  rw [List.length_append, List.length_map, List.length_range, hcrc] at hdouble
  rw [hpacked, length_datapack, packed]
  show _ ≤ 1100
  omega

/-- A block of an upgrade, all flags, of which the frame is longer than 2000 bytes. -/
theorem flagBlock_not_fits :
    AcceptedBy [⟨3, 0⟩] 0 1040 ∧ ¬(uartWriteData [⟨3, 0⟩] 0 (some fun _ => 0x7e) 1040).Fits := by
  refine ⟨⟨by decide, ⟨3, 0⟩, List.mem_singleton_self _, rfl⟩, ?_⟩
  intro hfits
  have hlen := hfits _ rfl
  have hflags : (List.range (1040 : BitVec 32).toNat).map (fun _ => (0x7e : Byte)) =
      List.replicate 1040 0x7e := by
    rw [List.map_const', List.length_range]
    rfl
  -- every one of the 1040 bytes is escaped
  have hspecials : serialStuffing.specials (List.replicate 1040 0x7e) = 1040 := by
    rw [Stuffing.specials, List.countP_replicate]
    rfl
  rw [hflags, length_datapack_eq, List.length_replicate, escapedBytes, hspecials] at hlen
  have hsize : uartBufSize = 1100 := rfl
  omega

end PgClient.Serial
