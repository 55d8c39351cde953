import PgClient.Util.Crc32

/-!
# Frames of the server link

A frame is a 16-byte big-endian header (`socket_cmd_head_info_t`), the
payload and its CRC-32. `sendSocketCmd` builds it from a fragment of a
message; `parseInfo` is the header decoding of `parseSocketCmd`.

* `IsFrame` — what the receiver takes for one frame: the sync word and a
  length field that agrees with the number of bytes.
* `SocketCmdInfo.Framed` — a record whose length field is true; its frame is
  decoded back to it (`Framed.parseInfo_bytes`).
* `Frag` — the arguments of one `sendSocketCmd` call. With a payload that the
  16-bit length field can hold, its frame passes the CRC check (`crcOk_info`).
-/

namespace PgClient.PackSocket

/-- `SYNC_HEAD`. -/
def syncHead : BitVec 16 := 0x4747#16

/-- `PACKAGE_MAX_LEN`. -/
def packageMaxLen : Nat := 1600

/-- `FIFO_MAX_LEN`. -/
def fifoMaxLen : Nat := 40960

/-- `sizeof(socket_cmd_head_info_t)`. -/
def headLen : Nat := 16

/-- `int2buffer`. -/
def int2buffer (data : BitVec 32) : List Byte :=
  [(data >>> 24).setWidth 8, (data >>> 16).setWidth 8, (data >>> 8).setWidth 8,
    data.setWidth 8]

/-- `short2buffer`. -/
def short2buffer (data : BitVec 16) : List Byte :=
  [(data >>> 8).setWidth 8, data.setWidth 8]

/-- `socket_cmd_info_t`; the block behind `pValid` is carried by value. -/
structure SocketCmdInfo where
  sync : BitVec 16
  cmd : BitVec 16
  ipnum : BitVec 32
  curNo : BitVec 16
  lastNo : BitVec 16
  type : BitVec 16
  length : BitVec 16
  pValid : List Byte
  crc : BitVec 32
  deriving DecidableEq

/-- The record `sendSocketCmd` fills in. `length` is an `unsigned short`, so
a payload of 65536 bytes or more is cut, and the CRC is taken over what is
left of it. -/
def fillSocketCmd (typeCmd ipnum : BitVec 32) (curNo lastNo : BitVec 16)
    (pData : List Byte) : SocketCmdInfo where
  sync := syncHead
  cmd := (typeCmd &&& 0xFFFF#32).setWidth 16
  ipnum := ipnum
  curNo := curNo
  lastNo := lastNo
  type := (typeCmd >>> 16).setWidth 16
  length := BitVec.ofNat 16 pData.length
  pValid := pData
  -- `if (len > 0)` guards the CRC, so an empty frame carries the zeroed field
  crc := if pData.length = 0 then 0
    else crc32Le crcPolyLe (pData.take (BitVec.ofNat 16 pData.length).toNat)

/-- The bytes `sendSocketCmd` lays out for a filled record. -/
def SocketCmdInfo.bytes (info : SocketCmdInfo) : List Byte :=
  short2buffer info.sync ++ short2buffer info.cmd ++ int2buffer info.ipnum ++
    short2buffer info.curNo ++ short2buffer info.lastNo ++ short2buffer info.type ++
    short2buffer info.length ++ info.pValid.take info.length.toNat ++ int2buffer info.crc

/-- `sendSocketCmd`: the bytes handed to `send`, none for an invalid socket. -/
def sendSocketCmd (sendFd : Int) (typeCmd ipnum : BitVec 32) (curNo lastNo : BitVec 16)
    (pData : List Byte) : Option (List Byte) :=
  if sendFd = -1 then none
  else some (fillSocketCmd typeCmd ipnum curNo lastNo pData).bytes

/-! ## Decoding -/

/-- `pBuffer[i]<<8 | pBuffer[i+1]` as an `unsigned short`. -/
def getShort (pBuffer : List Byte) (i : Nat) : BitVec 16 :=
  ((pBuffer.getD i 0).setWidth 16 <<< 8) ||| (pBuffer.getD (i + 1) 0).setWidth 16

/-- `pBuffer[i]<<24 | ... | pBuffer[i+3]` as an `unsigned int`. -/
def getInt (pBuffer : List Byte) (i : Nat) : BitVec 32 :=
  ((pBuffer.getD i 0).setWidth 32 <<< 24) ||| ((pBuffer.getD (i + 1) 0).setWidth 32 <<< 16) |||
    ((pBuffer.getD (i + 2) 0).setWidth 32 <<< 8) ||| (pBuffer.getD (i + 3) 0).setWidth 32

/-- The record `parseSocketCmd` fills from the bytes of one frame. -/
def parseInfo (pBuffer : List Byte) : SocketCmdInfo where
  sync := syncHead
  cmd := getShort pBuffer 2
  ipnum := getInt pBuffer 4
  curNo := getShort pBuffer 8
  lastNo := getShort pBuffer 10
  type := getShort pBuffer 12
  length := getShort pBuffer 14
  pValid := (pBuffer.drop headLen).take (getShort pBuffer 14).toNat
  -- the last four bytes, where the length field puts them
  crc := getInt pBuffer ((getShort pBuffer 14).toNat + 16)

/-- The acceptance test: a CRC field of 0 switches the check off. -/
def crcOk (info : SocketCmdInfo) : Bool :=
  info.crc == 0 || info.crc == crc32Le crcPolyLe info.pValid

/-- The bytes of one frame, as `read_cmd_try_read` delimits it. -/
structure IsFrame (fr : List Byte) : Prop where
  head : headLen + 4 ≤ fr.length
  sync : getShort fr 0 = syncHead
  length : fr.length = headLen + (getShort fr 14).toNat + 4

/-- The two bytes of a short make it up again. -/
theorem short_roundtrip (d : BitVec 16) :
    (((d >>> 8).setWidth 8).setWidth 16 <<< 8) ||| (d.setWidth 8).setWidth 16 = d := by
  apply BitVec.eq_of_getLsbD_eq
  intro i hi
  -- below bit 8 only the low byte contributes, above it only the high one
  rcases Nat.lt_or_ge i 8 with h | h
  · simp [h, hi]
  · simp [show ¬ i < 8 by omega, hi, show i - 8 < 8 by omega, show i - 8 < 16 by omega,
      show 8 + (i - 8) = i by omega]

/-- The four bytes of an int make it up again. -/
theorem int_roundtrip (d : BitVec 32) :
    (((d >>> 24).setWidth 8).setWidth 32 <<< 24) |||
      (((d >>> 16).setWidth 8).setWidth 32 <<< 16) |||
      (((d >>> 8).setWidth 8).setWidth 32 <<< 8) ||| (d.setWidth 8).setWidth 32 = d := by
  apply BitVec.eq_of_getLsbD_eq
  intro i hi
  simp only [BitVec.getLsbD_or, BitVec.getLsbD_shiftLeft, BitVec.getLsbD_setWidth,
    BitVec.getLsbD_ushiftRight]
  -- one byte contributes to each of the four ranges of bits
  rcases Nat.lt_or_ge i 8 with h | h
  · simp [h, show i < 16 by omega, show i < 24 by omega, hi]
  · rcases Nat.lt_or_ge i 16 with h16 | h16
    · simp [h16, show ¬ i < 8 by omega, show i < 24 by omega, hi, show i - 8 < 8 by omega,
        show i - 8 < 32 by omega, show 8 + (i - 8) = i by omega]
    · rcases Nat.lt_or_ge i 24 with h24 | h24
      · simp [h24, show ¬ i < 8 by omega, show ¬ i < 16 by omega, hi, show ¬ i - 8 < 8 by omega,
          show i - 16 < 8 by omega, show i - 16 < 32 by omega, show 16 + (i - 16) = i by omega]
      · simp [show ¬ i < 8 by omega, show ¬ i < 16 by omega, show ¬ i < 24 by omega, hi,
          show ¬ i - 8 < 8 by omega, show ¬ i - 16 < 8 by omega, show i - 24 < 8 by omega,
          show i - 24 < 32 by omega, show 24 + (i - 24) = i by omega]

/-- A short behind `k` dropped bytes. -/
theorem getShort_drop (bs : List Byte) (i k : Nat) :
    getShort (bs.drop k) i = getShort bs (k + i) := by
  simp [getShort, List.getD_eq_getElem?_getD, Nat.add_assoc]

/-- An int behind `k` dropped bytes. -/
theorem getInt_drop (bs : List Byte) (i k : Nat) :
    getInt (bs.drop k) i = getInt bs (k + i) := by
  simp [getInt, List.getD_eq_getElem?_getD, Nat.add_assoc]

/-- A field is read off the bytes it was read from in any longer string. -/
theorem getShort_append {bs : List Byte} (more : List Byte) {i : Nat}
    (hi : i + 1 < bs.length) : getShort (bs ++ more) i = getShort bs i := by
  simp only [getShort, List.getD_eq_getElem?_getD]
  rw [List.getElem?_append_left (by omega), List.getElem?_append_left (by omega)]

/-- `get_short` reads what `short_2_buffer` wrote. -/
@[simp] theorem getShort_short2buffer (d : BitVec 16) (rest : List Byte) :
    getShort (short2buffer d ++ rest) 0 = d := short_roundtrip d

/-- `get_int` reads what `int_2_buffer` wrote. -/
@[simp] theorem getInt_int2buffer (d : BitVec 32) (rest : List Byte) :
    getInt (int2buffer d ++ rest) 0 = d := int_roundtrip d

/-! ## Records and their frames -/

namespace SocketCmdInfo

/-- A record whose length field is true, as the sender lays it out. -/
structure Framed (i : SocketCmdInfo) : Prop where
  sync : i.sync = syncHead
  length : i.length.toNat = i.pValid.length

/-- The frame, cut at the points the receiver reads it at. -/
theorem Framed.bytes_eq {i : SocketCmdInfo} (h : i.Framed) :
    i.bytes = short2buffer syncHead ++ (short2buffer i.cmd ++ (int2buffer i.ipnum ++
      (short2buffer i.curNo ++ (short2buffer i.lastNo ++ (short2buffer i.type ++
        (short2buffer i.length ++ (i.pValid ++ int2buffer i.crc))))))) := by
  rw [bytes, h.sync, h.length, List.take_length]
  simp only [List.append_assoc]

/-- The frame of a record is its head, its payload and the checksum. -/
theorem Framed.bytes_length {i : SocketCmdInfo} (h : i.Framed) :
    i.bytes.length = headLen + i.pValid.length + 4 := by
  rw [h.bytes_eq]
  simp [short2buffer, int2buffer, headLen]
  omega

/-- A 16-bit field, read off the frame where the rest starts with it. -/
theorem Framed.getShort_field {i : SocketCmdInfo} {k : Nat} {d : BitVec 16}
    {rest : List Byte} (hk : i.bytes.drop k = short2buffer d ++ rest) :
    getShort i.bytes k = d := by
  have := getShort_drop i.bytes 0 k
  rw [hk, getShort_short2buffer] at this
  exact this.symm

/-- The length field stands at byte 14. -/
theorem Framed.getShort_length {i : SocketCmdInfo} (h : i.Framed) :
    getShort i.bytes 14 = i.length :=
  @getShort_field i 14 i.length (i.pValid ++ int2buffer i.crc) (by rw [h.bytes_eq]; rfl)

/-- The frame of a record is one frame. -/
theorem Framed.isFrame {i : SocketCmdInfo} (h : i.Framed) : IsFrame i.bytes where
  head := by rw [h.bytes_length]; omega
  sync := by rw [h.bytes_eq, getShort_short2buffer]
  length := by rw [h.getShort_length, h.length, h.bytes_length]

/-- **Decoding inverts framing.** -/
theorem Framed.parseInfo_bytes {i : SocketCmdInfo} (h : i.Framed) : parseInfo i.bytes = i := by
  have hbody : i.bytes.drop headLen = i.pValid ++ int2buffer i.crc := by
    rw [h.bytes_eq]
    rfl
  -- behind the header lie the payload and the CRC; both cuts depend on the length field
  have hcrc : getInt i.bytes ((getShort i.bytes 14).toNat + 16) = i.crc := by
    have := getInt_drop (i.bytes.drop headLen) 0 i.pValid.length
    rw [hbody, List.drop_left, ← List.append_nil (int2buffer _), getInt_int2buffer,
      List.append_nil, ← hbody, getInt_drop] at this
    rw [h.getShort_length, h.length, Nat.add_comm]
    exact this.symm
  have hvalid : (i.bytes.drop headLen).take (getShort i.bytes 14).toNat = i.pValid := by
    rw [h.getShort_length, h.length, hbody, List.take_left]
  -- the fields of the header lie at fixed places
  have hipnum : getInt i.bytes 4 = i.ipnum := by
    have := getInt_drop i.bytes 0 4
    rw [show i.bytes.drop 4 = int2buffer i.ipnum ++ _ by rw [h.bytes_eq]; rfl,
      getInt_int2buffer] at this
    exact this.symm
  have hcmd : getShort i.bytes 2 = i.cmd := getShort_field (by rw [h.bytes_eq]; rfl)
  have hcurNo : getShort i.bytes 8 = i.curNo := getShort_field (by rw [h.bytes_eq]; rfl)
  have hlastNo : getShort i.bytes 10 = i.lastNo := getShort_field (by rw [h.bytes_eq]; rfl)
  have htype : getShort i.bytes 12 = i.type := getShort_field (by rw [h.bytes_eq]; rfl)
  rw [parseInfo, hcrc, hvalid, h.getShort_length, hipnum, hcmd, hcurNo, hlastNo, htype, ← h.sync]

end SocketCmdInfo

/-! ## Fragments -/

/-- One call of `sendSocketCmd` on a valid socket. -/
structure Frag where
  typeCmd : BitVec 32
  ipnum : BitVec 32
  curNo : BitVec 16
  lastNo : BitVec 16
  payload : List Byte
  deriving DecidableEq

namespace Frag

/-- The record of the fragment's frame. -/
def info (f : Frag) : SocketCmdInfo :=
  fillSocketCmd f.typeCmd f.ipnum f.curNo f.lastNo f.payload

/-- The bytes of the fragment's frame. -/
def bytes (f : Frag) : List Byte := f.info.bytes

/-- The 16-bit command the receiver sorts fragments by. -/
def cmd (f : Frag) : BitVec 16 := f.info.cmd

/-- The payload fits the 16-bit length field. -/
def Fits (f : Frag) : Prop := f.payload.length < 65536

instance (f : Frag) : Decidable f.Fits := inferInstanceAs (Decidable (_ < _))

/-- With a descriptor, `send_socket_cmd` sends the frame of the fragment. -/
theorem sendSocketCmd_eq (f : Frag) {sendFd : Int} (hfd : sendFd ≠ -1) :
    sendSocketCmd sendFd f.typeCmd f.ipnum f.curNo f.lastNo f.payload = some f.bytes := by
  simp [sendSocketCmd, hfd, bytes, info]

/-- A payload that fits is as long as its length field says. -/
theorem length_toNat {f : Frag} (h : f.Fits) : f.info.length.toNat = f.payload.length := by
  simp only [info, fillSocketCmd, BitVec.toNat_ofNat]
  exact Nat.mod_eq_of_lt h

/-- The record of a fragment that fits is framed. -/
theorem framed {f : Frag} (h : f.Fits) : f.info.Framed := ⟨rfl, length_toNat h⟩

/-- A fragment's frame is its head, its payload and the checksum. -/
theorem bytes_length {f : Frag} (h : f.Fits) :
    f.bytes.length = headLen + f.payload.length + 4 := (framed h).bytes_length

/-- What is sent for a fragment that fits is a frame. -/
theorem isFrame_bytes {f : Frag} (h : f.Fits) : IsFrame f.bytes := (framed h).isFrame

/-- The frame of a fragment is parsed to the fragment's record. -/
theorem parseInfo_bytes {f : Frag} (h : f.Fits) : parseInfo f.bytes = f.info :=
  (framed h).parseInfo_bytes

/-- A fragment's CRC field is the checksum of its payload. -/
theorem crc_info {f : Frag} (h : f.Fits) (hne : f.payload ≠ []) :
    f.info.crc = crc32Le crcPolyLe f.payload := by
  have hlen := length_toNat h
  simp only [info, fillSocketCmd] at hlen ⊢
  rw [if_neg (by simpa using hne), hlen, List.take_length]

/-- A fragment's own frame passes the CRC check. -/
theorem crcOk_info {f : Frag} (h : f.Fits) : crcOk f.info = true := by
  by_cases hnil : f.payload = []
  · simp [crcOk, info, fillSocketCmd, hnil]
  · rw [crcOk, crc_info h hnil]
    simp [info, fillSocketCmd]

end Frag

end PgClient.PackSocket
