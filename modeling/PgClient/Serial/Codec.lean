import PgClient.Lib.RingBuffer
import PgClient.Lib.Stuffing
import PgClient.Util.LittleEndian

/-!
# The codec of the serial links

A frame is `55 AA`, a length, `7e 7e`, the payload and its CRC-32 with the bytes `7d`
and `7e` escaped, and `7e 7e`. `common.cpp` and `comUart.c` have an encoder and a decoder each.

* `h2Com_eq_escape`, `pack_eq_escape` — both encoders escape alike.
* `doCom2H_frame` — what the decoder of `common.cpp` makes of a frame.
* `not_roundTrips`, `doH2Com_ne_datapack` — the encoder of `common.cpp` leaves the CRC out.
-/

namespace PgClient.Serial

/-! ## `common.cpp` -/

/-- `PKT_SERIAL_HEADER_LEN`. -/
def pktSerialHeaderLen : Nat := 12

/-- `doCrc32`; without bytes it is the initial state, too. -/
def doCrc32 (pData : List Byte) : BitVec 32 := crc32Le 0xFFFFFFFF pData

/-- What is laid around a body, with its length in an `unsigned short`. -/
def frame (body : List Byte) : List Byte :=
  [0x55, 0xaa] ++ le16Bytes (BitVec.ofNat 16 (body.length + 4)) ++ [0x7e, 0x7e] ++ body ++ [0x7e, 0x7e]

/-- The loop body of `doH2Com`. -/
def h2ComByte (b : Byte) : List Byte :=
  if b = 0x7d ∨ b = 0x7e then [0x7d, 0x50 ||| (b &&& 0xf)] else [b]

/-- `doH2Com`, without bytes if it returns 0. The CRC stands behind the payload in
`pPayload`, and the loop goes over `length` bytes of it. -/
def doH2Com (pIn : List Byte) : List Byte :=
  if pIn = [] then []
  else
    let crc := ~~~doCrc32 pIn
    let pPayload := pIn ++ le32Bytes crc
    frame ((pPayload.take pIn.length).flatMap h2ComByte)

/-- The loop of `doCom2H`. -/
def com2HLoop : List Byte → List Byte
  | [] => []
  | [b] => [b]
  | b :: c :: pData =>
    if b = 0x7d then
      if c = 0x5e then 0x7e :: com2HLoop pData
      else if c = 0x5d then 0x7d :: com2HLoop pData
      -- no escape pair: the byte stands for itself, and the next one is looked at again
      else 0x7d :: com2HLoop (c :: pData)
    else b :: com2HLoop (c :: pData)

/-- The end of `doCom2H`. With less than four bytes the CRC lies before the block, and
the length passed to `doCrc32` is negative. -/
def com2HCheck (pOut : List Byte) : Option (Nat × Option (List Byte)) :=
  if pOut.length < 4 then none
  else
    let ret := pOut.length - 4
    if ~~~doCrc32 (pOut.take ret) = le32 (pOut.drop ret) then some (ret, some pOut) else some (0, none)

/-- `doCom2H`: what it returns, and the block it leaves in `*pOut`. -/
def doCom2H (pIn : List Byte) : Option (Nat × Option (List Byte)) :=
  if pIn.length < pktSerialHeaderLen then some (0, none)
  else if pIn.getD 0 0 ≠ 0x55 ∨ pIn.getD 1 0 ≠ 0xaa then some (0, none)
  else
    let payloadLen := (le16 (RingBuffer.slice pIn 2 2)).toNat
    if payloadLen + 4 ≠ pIn.length then some (0, none)
    else com2HCheck (com2HLoop (RingBuffer.slice pIn 6 (payloadLen - 4)))

/-! ## `comUart.c` -/

/-- `jcrc32_le`. -/
def jcrc32Le (crc : BitVec 32) (p : List Byte) : BitVec 32 := crc32Le crc p

/-- The two `switch` statements of `datapack`. -/
def packByte (b : Byte) : List Byte :=
  if b = 0x7d then [0x7d, 0x5d] else if b = 0x7e then [0x7d, 0x5e] else [b]

/-- `datapack`. -/
def datapack (inBuf : List Byte) : List Byte :=
  let fcs := ~~~jcrc32Le (BitVec.allOnes 32) inBuf
  frame (inBuf.flatMap packByte ++ (le32Bytes fcs).flatMap packByte)

/-! ## Escaping -/

/-- `7d` and `7e` are special; both encoders send them as `7d 5d` and `7d 5e`. -/
def serialStuffing : Stuffing Byte where
  esc := 0x7d
  enc b := if b = 0x7d then some 0x5d else if b = 0x7e then some 0x5e else none
  dec c := if c = 0x5e then some 0x7e else if c = 0x5d then some 0x7d else none
  dec_enc := by
    intro b c h
    split_ifs at h with h7d h7e <;> obtain rfl := Option.some.inj h
    · rw [h7d]; rfl
    · rw [h7e]; rfl
  enc_esc := nofun

/-- The two encoders escape a byte alike. -/
theorem h2ComByte_eq_packByte (b : Byte) : h2ComByte b = packByte b := by
  unfold h2ComByte packByte
  by_cases h7d : b = 0x7d
  · subst h7d
    -- 0x7d becomes 7d 5d, 0x7e becomes 7d 5e, in both packers
    rfl
  · by_cases h7e : b = 0x7e
    · subst h7e
      rfl
    · rw [if_neg (not_or.mpr ⟨h7d, h7e⟩), if_neg h7d, if_neg h7e]

/-- `datapack` escapes. -/
theorem pack_eq_escape (p : List Byte) : p.flatMap packByte = serialStuffing.escape p := by
  induction p with
  | nil => rfl
  | cons b p ih =>
    rw [List.flatMap_cons, ih, Stuffing.escape, packByte]
    -- the two bytes that are escaped, and all others
    by_cases h7d : b = 0x7d
    · subst h7d
      rfl
    · by_cases h7e : b = 0x7e
      · subst h7e
        rfl
      · have henc : serialStuffing.enc b = none := by
          show (if b = 0x7d then _ else _) = _
          rw [if_neg h7d, if_neg h7e]
        rw [if_neg h7d, if_neg h7e, henc]
        rfl

/-- `doH2Com` escapes. -/
theorem h2Com_eq_escape (p : List Byte) : p.flatMap h2ComByte = serialStuffing.escape p := by
  rw [← pack_eq_escape]
  exact List.flatMap_congr fun b _ => h2ComByte_eq_packByte b

/-- `doCom2H` undoes the escapes. -/
theorem com2HLoop_eq_unescape (pData : List Byte) :
    com2HLoop pData = serialStuffing.unescape pData := by
  induction pData using com2HLoop.induct with
  | case1 => rfl
  | case2 b => rfl
  | case3 pData ih =>
    rw [com2HLoop, if_pos rfl, if_pos rfl, ih]
    exact (serialStuffing.unescape_esc (c := 0x5e) (x := 0x7e) rfl pData).symm
  | case4 pData h5e ih =>
    rw [com2HLoop, if_pos rfl, if_neg h5e, if_pos rfl, ih]
    exact (serialStuffing.unescape_esc (c := 0x5d) (x := 0x7d) rfl pData).symm
  -- an escape before anything else is left as it is
  | case5 c pData h5e h5d ih =>
    have hdec : serialStuffing.dec c = none := by
      show (if c = 0x5e then _ else _) = _
      rw [if_neg h5e, if_neg h5d]
    rw [com2HLoop, if_pos rfl, if_neg h5e, if_neg h5d, ih]
    exact (serialStuffing.unescape_esc_none hdec pData).symm
  | case6 b c pData hb ih =>
    rw [com2HLoop, if_neg hb, ih, serialStuffing.unescape_cons hb]

/-! ## Frames -/

/-- A frame adds eight bytes to its body. -/
theorem length_frame (body : List Byte) : (frame body).length = body.length + 8 := by
  simp [frame, le16Bytes]

/-- `doH2Com` frames the payload, without a CRC. -/
theorem doH2Com_eq {p : List Byte} (hne : p ≠ []) : doH2Com p = frame (serialStuffing.escape p) := by
  unfold doH2Com
  rw [if_neg hne]
  simp only [List.take_left, h2Com_eq_escape]

/-- `datapack` frames the payload and its checksum. -/
theorem datapack_eq (p : List Byte) :
    datapack p = frame (serialStuffing.escape p ++
      serialStuffing.escape (le32Bytes (~~~jcrc32Le (BitVec.allOnes 32) p))) := by
  unfold datapack
  simp only [pack_eq_escape]

/-- A frame is decoded to its body, unescaped, if it is long enough and its length fits. -/
theorem doCom2H_frame (body : List Byte) :
    doCom2H (frame body) =
      if 4 ≤ body.length ∧ body.length + 4 < 65536 then com2HCheck (serialStuffing.unescape body)
      else some (0, none) := by
  -- the length field has 16 bits
  have hlen : (le16 (RingBuffer.slice (frame body) 2 2)).toNat = (body.length + 4) % 65536 := by
    have hslice : RingBuffer.slice (frame body) 2 2 =
        le16Bytes (BitVec.ofNat 16 (body.length + 4)) ++ [] := rfl
    rw [hslice, le16_le16Bytes, BitVec.toNat_ofNat]
  unfold doCom2H pktSerialHeaderLen
  rw [length_frame]
  by_cases hshort : body.length + 8 < 12
  · rw [if_pos hshort, if_neg (by omega)]
  · have hsign : ¬((frame body).getD 0 0 ≠ 0x55 ∨ (frame body).getD 1 0 ≠ 0xaa) := by simp [frame]
    rw [if_neg hshort, if_neg hsign]
    simp only [hlen]
    by_cases hfit : body.length + 4 < 65536
    · have hbody : RingBuffer.slice (frame body) 6 (body.length + 4 - 4) = body := by
        rw [Nat.add_sub_cancel]
        exact List.take_left
      rw [Nat.mod_eq_of_lt hfit, if_neg (by omega), if_pos (by omega), hbody, com2HLoop_eq_unescape]
    · -- the length field is less than the length
      have hmod := Nat.mod_lt (body.length + 4) (show 0 < 65536 by decide)
      rw [if_pos (by omega), if_neg (by omega)]

/-! ## The round trip -/

/-- Decoding what `doH2Com` made of the payload succeeds, and gives it back. -/
def RoundTrips (p : List Byte) : Prop :=
  ∃ pOut, doCom2H (doH2Com p) = some (p.length, some pOut) ∧ pOut.take p.length = p

/-- The CRC is not part of what is returned. -/
theorem com2HCheck_some {pOut block : List Byte} {ret : Nat}
    (h : com2HCheck pOut = some (ret, some block)) : ret + 4 = pOut.length := by
  unfold com2HCheck at h
  dsimp only at h
  split_ifs at h with hshort hcrc
  · obtain ⟨rfl, -⟩ := Prod.mk.inj (Option.some.inj h)
    omega
  · cases (Prod.mk.inj (Option.some.inj h)).2

/-- **The round trip fails** on every payload: its last four bytes are taken for the CRC. -/
theorem not_roundTrips (p : List Byte) : ¬RoundTrips p := by
  rintro ⟨pOut, hdecode, -⟩
  by_cases hne : p = []
  · subst hne
    cases hdecode
  · rw [doH2Com_eq hne, doCom2H_frame] at hdecode
    -- four of the decoded bytes are taken off as a CRC that was never added
    split_ifs at hdecode with hfit
    · rw [serialStuffing.unescape_escape] at hdecode
      have hlen := com2HCheck_some hdecode
      omega
    · cases (Prod.mk.inj (Option.some.inj hdecode)).2

/-- Five bytes, which are refused. -/
theorem fiveBytes_not_roundTrips : ¬RoundTrips [0x01, 0x02, 0x03, 0x04, 0x05] := by
  have hdecode : doCom2H (doH2Com [0x01, 0x02, 0x03, 0x04, 0x05]) = some (0, none) := by decide
  rintro ⟨pOut, h, -⟩
  rw [hdecode] at h
  cases h

/-- **The encoders never agree**: only `datapack` sends the CRC. -/
theorem doH2Com_ne_datapack (p : List Byte) : doH2Com p ≠ datapack p := by
  intro h
  -- the CRC adds at least its own four bytes
  have hcrc := serialStuffing.length_le_escape (le32Bytes (~~~jcrc32Le (BitVec.allOnes 32) p))
  have hfour : ∀ x, (le32Bytes x).length = 4 := fun _ => rfl
  have hlen := congrArg List.length h
  rw [hfour] at hcrc
  rw [datapack_eq, length_frame, List.length_append] at hlen
  by_cases hne : p = []
  · subst hne
    simp only [doH2Com, if_pos, List.length_nil] at hlen
    omega
  · rw [doH2Com_eq hne, length_frame] at hlen
    omega

/-- A payload of one byte. -/
theorem oneByte_ne : doH2Com [0x01] ≠ datapack [0x01] := by decide

end PgClient.Serial
