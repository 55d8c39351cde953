import PgClient.PackSocket.Transparency

/-!
# Sending

What `sendSocketCmd` returns, and a buffer that `client_rebackMipiCode` sends in parts.

* `sendSocketCmd_faithful_iff` — when a return value of 0 can be relied on.
* `clientRebackMipiCode_roundTrip` — the receiver puts the parts together again.
-/

namespace PgClient.PackSocket

open RingBuffer (slice)

/-! ## The return value -/

/-- The return value of `sendSocketCmd`; `send` tells how many of the bytes the socket takes. -/
def sendSocketCmdRet (send : List Byte → Int) (sendFd : Int) (typeCmd ipnum : BitVec 32)
    (curNo lastNo : BitVec 16) (pData : List Byte) : Int :=
  match sendSocketCmd sendFd typeCmd ipnum curNo lastNo pData with
  | none => -1
  | some pOrgSocketCmd => if send pOrgSocketCmd ≤ 0 then -1 else 0

/-- The payload `parseSocketCmd` obtains from the bytes of a frame. -/
def receivedPayload (frame : List Byte) : Option (List Byte) :=
  match frameLen frame with
  | none => none
  | some readLen =>
    let info := parseInfo (frame.take readLen)
    if crcOk info then some info.payload else none

/-- The return value 0 means that the socket took the whole frame and that the payload is
in it. -/
def FaithfulSend (send : List Byte → Int) (sendFd : Int) (typeCmd ipnum : BitVec 32)
    (curNo lastNo : BitVec 16) (pData : List Byte) : Prop :=
  sendSocketCmdRet send sendFd typeCmd ipnum curNo lastNo pData = 0 →
    ∃ frame, sendSocketCmd sendFd typeCmd ipnum curNo lastNo pData = some frame ∧
      send frame = frame.length ∧ receivedPayload frame = some pData

/-- The length field is of 16 bits. -/
theorem payload_length_lt (info : SocketCmdInfo) : info.payload.length < 65536 := by
  have hlt := info.length.isLt
  rw [SocketCmdInfo.payload, List.length_take]
  omega

/-- A payload that fits the length field is obtained from its frame. -/
theorem receivedPayload_bytes {f : Frag} (h : f.Fits) : receivedPayload f.bytes = some f.payload := by
  have hframe := frameLen_append (Frag.isFrame_bytes h) []
  rw [List.append_nil] at hframe
  rw [receivedPayload, hframe]
  simp only [List.take_length, Frag.parseInfo_bytes h, Frag.crcOk_info h, if_true,
    Msg.payload_info h]

/-- No longer one is. -/
theorem length_of_receivedPayload {frame pData : List Byte}
    (h : receivedPayload frame = some pData) : pData.length < 65536 := by
  unfold receivedPayload at h
  split at h
  · cases h
  · dsimp only at h
    split_ifs at h
    rw [← Option.some.inj h]
    exact payload_length_lt _

/-- **A send is faithful** exactly if it fails, or if the payload fits the 16-bit length field
and the socket takes the whole frame. -/
theorem sendSocketCmd_faithful_iff (send : List Byte → Int) (sendFd : Int)
    (typeCmd ipnum : BitVec 32) (curNo lastNo : BitVec 16) (pData : List Byte) :
    FaithfulSend send sendFd typeCmd ipnum curNo lastNo pData ↔
      sendFd = -1 ∨ send (fillSocketCmd typeCmd ipnum curNo lastNo pData).bytes ≤ 0 ∨
        (pData.length ≤ 65535 ∧
          send (fillSocketCmd typeCmd ipnum curNo lastNo pData).bytes = 20 + pData.length) := by
  have hbytes : pData.length ≤ 65535 →
      (fillSocketCmd typeCmd ipnum curNo lastNo pData).bytes.length = 20 + pData.length := by
    intro hlen
    have := @Frag.bytes_length ⟨typeCmd, ipnum, curNo, lastNo, pData⟩ (Nat.lt_succ_of_le hlen)
    have h16 : headLen = 16 := rfl
    dsimp only at this
    exact this.trans (by omega)
  unfold FaithfulSend sendSocketCmdRet sendSocketCmd
  by_cases hfd : sendFd = -1
  · simp [hfd]
  · simp only [hfd, if_false, false_or, Option.some.injEq, exists_eq_left']
    generalize hframe : (fillSocketCmd typeCmd ipnum curNo lastNo pData).bytes = frame at *
    by_cases hsent : send frame ≤ 0
    · simp [hsent]
    · rw [if_neg hsent]
      constructor
      · -- the return value is 0, so that all of the payload is received
        intro h
        obtain ⟨hall, hpayload⟩ := h rfl
        have hlen := Nat.le_of_lt_succ (length_of_receivedPayload hpayload)
        rw [hbytes hlen] at hall
        exact .inr ⟨hlen, by omega⟩
      · rintro (hfail | ⟨hlen, hall⟩) -
        · exact absurd hfail hsent
        · refine ⟨by rw [hbytes hlen]; omega, ?_⟩
          rw [← hframe]
          exact @receivedPayload_bytes ⟨typeCmd, ipnum, curNo, lastNo, pData⟩
            (Nat.lt_succ_of_le hlen)

/-- One byte of payload, and a socket that takes 5 bytes of the 21. -/
theorem shortSend_not_faithful : ¬FaithfulSend (fun _ => 5) 3 0xB#32 7 0 0 [1] := by
  intro h
  obtain ⟨frame, hsend, hall, -⟩ := h rfl
  obtain rfl := Option.some.inj hsend
  exact absurd hall (by decide)

/-! ## A buffer in parts -/

/-- `CLIENT_MSG_REBACK`. -/
def clientMsgReback : BitVec 16 := 0x2020

/-- `REBACK_MIPI_CODE`. -/
def rebackMipiCode : BitVec 16 := 2

/-- `(REBACK_MIPI_CODE<<16)|CLIENT_MSG_REBACK`. -/
def rebackTypeCmd : BitVec 32 := (rebackMipiCode.setWidth 32 <<< 16) ||| clientMsgReback.setWidth 32

/-- The loop of `client_rebackMipiCode` with `n` turns left: the calls of `sendSocketCmd`.
To read outside `pMipiCode` is undefined. -/
def rebackLoop (pMipiCode : List Byte) (packetLen lastNo : Nat) :
    Nat → Nat → Nat → Option (List Frag)
  | 0, _, _ => some []
  | n + 1, i, remainDataLen =>
    let sendLen := if remainDataLen ≥ packetLen then packetLen else remainDataLen
    if i * packetLen + sendLen ≤ pMipiCode.length then
      (rebackLoop pMipiCode packetLen lastNo n (i + 1) (remainDataLen - sendLen)).map fun frags =>
        ⟨rebackTypeCmd, 0, BitVec.ofNat 16 i, BitVec.ofNat 16 lastNo,
          slice pMipiCode (i * packetLen) sendLen⟩ :: frags
    else none

/-- `client_rebackMipiCode`. -/
def clientRebackMipiCode (pMipiCode : List Byte) (len : Nat) : Option (List Frag) :=
  if len > 0 then
    let packetLen := packageMaxLen
    let lastNo := len / packetLen
    rebackLoop pMipiCode packetLen lastNo (lastNo + 1) 0 len
  else some []

/-- Part `i` of a buffer. -/
def part (pMipiCode : List Byte) (i : Nat) : List Byte :=
  slice pMipiCode (i * packageMaxLen) packageMaxLen

/-- The parts tile the buffer. -/
theorem flatten_parts (pMipiCode : List Byte) (n : Nat) :
    ((List.range n).map (part pMipiCode)).flatten = pMipiCode.take (n * packageMaxLen) := by
  induction n with
  | zero => simp
  | succ n ih =>
    rw [List.range_succ, List.map_append, List.flatten_append, ih, Nat.succ_mul, List.take_add]
    simp [part, slice]

/-- The message the receiver is to deliver. -/
def rebackMsg (pMipiCode : List Byte) (hlen : pMipiCode.length / packageMaxLen ≤ 65535) : Msg where
  typeCmd := rebackTypeCmd
  ipnum := 0
  parts := (List.range (pMipiCode.length / packageMaxLen + 1)).map (part pMipiCode)
  nonempty := by simp
  count := by
    rw [List.length_map, List.length_range]
    omega

/-- Every part but the last is of `PACKAGE_MAX_LEN` bytes, the last is what is left. -/
theorem length_part (pMipiCode : List Byte) (i : Nat) :
    (part pMipiCode i).length = min packageMaxLen (pMipiCode.length - i * packageMaxLen) := by
  rw [part, slice, List.length_take, List.length_drop]

/-- No part is longer than a packet, and that with its head is short. -/
theorem short_rebackMsg (pMipiCode : List Byte)
    (hlen : pMipiCode.length / packageMaxLen ≤ 65535) : (rebackMsg pMipiCode hlen).Short := by
  intro p hp
  obtain ⟨i, -, rfl⟩ := List.mem_map.mp hp
  have hpart : (part pMipiCode i).length ≤ packageMaxLen := by
    rw [length_part]
    exact min_le_left _ _
  exact (Nat.add_le_add_right (Nat.add_le_add_left hpart _) _).trans (by decide)

/-- A turn of the loop sends part `i`, and the rest of the buffer is left. -/
theorem rebackLoop_parts {pMipiCode : List Byte} {lastNo n i : Nat}
    (hlast : lastNo = pMipiCode.length / packageMaxLen) (hi : i + n = lastNo + 1) :
    rebackLoop pMipiCode packageMaxLen lastNo n i (pMipiCode.length - i * packageMaxLen) =
      some ((List.range' i n).map fun i =>
        ⟨rebackTypeCmd, 0, BitVec.ofNat 16 i, BitVec.ofNat 16 lastNo, part pMipiCode i⟩) := by
  induction n generalizing i with
  | zero => rfl
  | succ n ih =>
    have hpos : 0 < packageMaxLen := by decide
    -- the part begins inside the buffer,
    have hin : i * packageMaxLen ≤ pMipiCode.length :=
      (Nat.le_div_iff_mul_le hpos).mp (by omega)
    have hsend : (if pMipiCode.length - i * packageMaxLen ≥ packageMaxLen then packageMaxLen
        else pMipiCode.length - i * packageMaxLen) =
        min packageMaxLen (pMipiCode.length - i * packageMaxLen) := by
      split_ifs <;> omega
    -- and is all of it that is left, or a whole package
    have hslice : slice pMipiCode (i * packageMaxLen)
        (min packageMaxLen (pMipiCode.length - i * packageMaxLen)) = part pMipiCode i := by
      rw [part, slice, slice, ← List.length_drop, ← List.take_eq_take_min]
    have hrest : pMipiCode.length - i * packageMaxLen -
        min packageMaxLen (pMipiCode.length - i * packageMaxLen) =
        pMipiCode.length - (i + 1) * packageMaxLen := by
      rw [Nat.succ_mul]
      omega
    rw [rebackLoop, hsend, if_pos (by omega), hslice, hrest, ih (by omega), List.range'_succ]
    rfl

/-- What `clientRebackMipiCode` sends is the fragments of one message. -/
theorem frags_rebackMsg (pMipiCode : List Byte)
    (hlen : pMipiCode.length / packageMaxLen ≤ 65535) (hpos : 0 < pMipiCode.length) :
    clientRebackMipiCode pMipiCode pMipiCode.length = some (rebackMsg pMipiCode hlen).frags := by
  have hloop := @rebackLoop_parts pMipiCode _ (pMipiCode.length / packageMaxLen + 1) 0 rfl
    (Nat.zero_add _)
  rw [Nat.zero_mul, Nat.sub_zero] at hloop
  rw [clientRebackMipiCode, if_pos hpos, hloop]
  congr 1
  -- both lists by their places
  apply List.ext_getElem?
  intro i
  rw [Msg.frags_getElem?, ← List.range_eq_range', List.getElem?_map]
  show _ = Option.map _ ((List.range _).map (part pMipiCode))[i]?
  rw [List.getElem?_map, Option.map_map]
  by_cases hi : i < pMipiCode.length / packageMaxLen + 1
  · simp [hi, Msg.frag, rebackMsg]
  · simp [hi]

/-- The parts are the buffer, cut. -/
theorem flatten_rebackMsg (pMipiCode : List Byte)
    (hlen : pMipiCode.length / packageMaxLen ≤ 65535) :
    (rebackMsg pMipiCode hlen).parts.flatten = pMipiCode := by
  have hall : pMipiCode.length ≤ (pMipiCode.length / packageMaxLen + 1) * packageMaxLen := by
    rw [Nat.mul_comm]
    exact (Nat.lt_mul_div_succ _ (by decide)).le
  exact (flatten_parts pMipiCode _).trans (List.take_of_length_le hall)

/-- The payloads of a message's fragments are its parts. -/
theorem map_payload_frags (m : Msg) : m.frags.map Frag.payload = m.parts := by
  apply List.ext_getElem?
  intro i
  rw [List.getElem?_map, Msg.frags_getElem?, Option.map_map]
  cases m.parts[i]? <;> rfl

/-- How long the parts are. -/
theorem lengths_rebackMsg (pMipiCode : List Byte)
    (hlen : pMipiCode.length / packageMaxLen ≤ 65535) :
    (rebackMsg pMipiCode hlen).frags.map (fun f => f.payload.length) =
      (List.range (pMipiCode.length / packageMaxLen + 1)).map fun i =>
        min packageMaxLen (pMipiCode.length - i * packageMaxLen) := by
  calc (rebackMsg pMipiCode hlen).frags.map (fun f => f.payload.length)
      = (rebackMsg pMipiCode hlen).parts.map List.length := by
        rw [← map_payload_frags, List.map_map]
        rfl
    _ = _ := by
        rw [rebackMsg, List.map_map]
        exact List.map_congr_left fun i _ => length_part pMipiCode i

/-- A frame adds its head and its CRC to the payload. -/
theorem length_streamBytes {fs : List Frag} (hfits : ∀ f ∈ fs, f.Fits) :
    (streamBytes fs).length = ((fs.map fun f => f.payload.length).map (headLen + · + 4)).sum := by
  induction fs with
  | nil => rfl
  | cons f fs ih =>
    obtain ⟨hf, hfs⟩ := List.forall_mem_cons.mp hfits
    rw [streamBytes_cons, List.length_append, Frag.bytes_length hf, ih hfs]
    rfl

/-- What the far end makes of that message is the buffer as a whole. -/
theorem delivery_rebackMsg (pMipiCode : List Byte)
    (hlen : pMipiCode.length / packageMaxLen ≤ 65535) :
    (rebackMsg pMipiCode hlen).delivery =
      ⟨clientMsgReback, rebackMipiCode, 0, BitVec.ofNat 32 pMipiCode.length, pMipiCode⟩ := by
  have hcmd : (rebackTypeCmd &&& 0xFFFF#32).setWidth 16 = clientMsgReback := by decide
  have htype : (rebackTypeCmd >>> 16).setWidth 16 = rebackMipiCode := by decide
  rw [Msg.delivery, flatten_rebackMsg, Msg.cmd, Msg.type]
  simp only [rebackMsg, hcmd, htype]

/-- **The parts come back as one buffer**: they are numbered up to one `lastNo` and tile the
buffer, and the receiver delivers one message with it, wherever the stream is cut. -/
theorem clientRebackMipiCode_roundTrip {pMipiCode : List Byte} (hpos : 0 < pMipiCode.length)
    (hlen : pMipiCode.length / packageMaxLen ≤ 65535) :
    ∃ frags, clientRebackMipiCode pMipiCode pMipiCode.length = some frags ∧
      frags.length = pMipiCode.length / packageMaxLen + 1 ∧
      (∀ i f, frags[i]? = some f → f.curNo.toNat = i ∧
        f.lastNo.toNat = pMipiCode.length / packageMaxLen ∧
        f.payload = slice pMipiCode (i * packageMaxLen) packageMaxLen) ∧
      (frags.map Frag.payload).flatten = pMipiCode ∧
      ∀ (s : SocketCmdClass) (sendFd : Int) (chunks : List (List Byte)), Idle s →
        (∀ c ∈ chunks, c.length ≤ 20480) →
        (frags.mapM fun f => sendSocketCmd sendFd f.typeCmd f.ipnum f.curNo f.lastNo f.payload).map
          List.flatten = some chunks.flatten →
        ∃ s', serverConnection s chunks =
          some ⟨s', [⟨clientMsgReback, rebackMipiCode, 0, BitVec.ofNat 32 pMipiCode.length, pMipiCode⟩], true⟩ := by
  have hshort : ∀ m ∈ [rebackMsg pMipiCode hlen], m.Short :=
    List.forall_mem_singleton.mpr (short_rebackMsg pMipiCode hlen)
  have hfits := (short_rebackMsg pMipiCode hlen).fits
  refine ⟨_, frags_rebackMsg pMipiCode hlen hpos, ?_, fun i f hf => ?_, ?_,
    fun s sendFd chunks hs hchunks hsent => ?_⟩
  · rw [Msg.frags_length]
    simp [rebackMsg]
  · rw [Msg.frags_getElem?, Option.map_eq_some_iff] at hf
    obtain ⟨payload, hpayload, rfl⟩ := hf
    have hpart : (List.range (pMipiCode.length / packageMaxLen + 1)).map (part pMipiCode) =
        (rebackMsg pMipiCode hlen).parts := rfl
    have hcount : (rebackMsg pMipiCode hlen).parts.length =
        pMipiCode.length / packageMaxLen + 1 := by simp [rebackMsg]
    have hi := (List.getElem?_eq_some_iff.mp hpayload).1
    rw [hcount] at hi
    rw [← hpart, List.getElem?_map, List.getElem?_range hi] at hpayload
    refine ⟨?_, ?_, (Option.some.inj hpayload).symm⟩
    · exact Nat.mod_eq_of_lt (by omega)
    · simp only [Msg.frag, hcount]
      exact Nat.mod_eq_of_lt (by omega)
  · rw [map_payload_frags]
    exact flatten_rebackMsg pMipiCode hlen
  · -- what the calls of `sendSocketCmd` hand over is the stream of the message
    have hbytes : chunks.flatten = streamBytes ([rebackMsg pMipiCode hlen].flatMap Msg.frags) :=
      @streamBytes_of_sentBytes sendFd _ _ (by
        rw [sentBytes, List.flatMap_cons, List.flatMap_nil, List.append_nil]
        exact hsent)
    obtain ⟨s', hconn⟩ := serverConnection_msgs hs hshort hchunks hbytes
    exact ⟨s', by rw [hconn, List.map_singleton, delivery_rebackMsg]⟩

/-- Twice the size of a part: a third one without bytes ends the message. The stream is cut inside
the first header. -/
theorem clientRebackMipiCode_roundTrip_three :
    ∃ frags s', clientRebackMipiCode (List.replicate 3200 7) 3200 = some frags ∧
      frags.map (fun f => f.payload.length) = [1600, 1600, 0] ∧
      serverConnection bootClass [(streamBytes frags).take 5, (streamBytes frags).drop 5] =
        some ⟨s', [⟨clientMsgReback, rebackMipiCode, 0, 3200, List.replicate 3200 7⟩], true⟩ := by
  have hcount : (List.replicate 3200 (7 : Byte)).length = 3200 := List.length_replicate
  have hlen : (List.replicate 3200 (7 : Byte)).length / packageMaxLen ≤ 65535 := by
    rw [hcount]
    decide
  have hpos : 0 < (List.replicate 3200 (7 : Byte)).length := by
    rw [hcount]
    decide
  have hround := clientRebackMipiCode_roundTrip hpos hlen
  rw [List.length_replicate] at hround
  obtain ⟨frags, hcall, -, -, -, hround⟩ := hround
  have hfrags := frags_rebackMsg (List.replicate 3200 7) hlen hpos
  rw [List.length_replicate] at hfrags
  obtain rfl := Option.some.inj (hfrags.symm.trans hcall)
  -- two parts and an empty one, behind their heads
  have hparts : (rebackMsg (List.replicate 3200 7) hlen).frags.map (fun f => f.payload.length) =
      [1600, 1600, 0] := by
    rw [lengths_rebackMsg, hcount]
    decide
  have hsize : (streamBytes (rebackMsg (List.replicate 3200 7) hlen).frags).length = 3260 := by
    rw [length_streamBytes fun f hf => Msg.fits_of_mem (short_rebackMsg _ hlen).fits hf, hparts]
    rfl
  have hsent := sentBytes_of_valid (by decide : (3 : Int) ≠ -1) [rebackMsg _ hlen]
  rw [sentBytes, List.flatMap_singleton] at hsent
  obtain ⟨s', hconn⟩ := hround bootClass 3
    [(streamBytes (rebackMsg (List.replicate 3200 7) hlen).frags).take 5,
      (streamBytes (rebackMsg (List.replicate 3200 7) hlen).frags).drop 5] idle_bootClass (by
    rw [List.forall_mem_cons, List.forall_mem_singleton, List.length_take, List.length_drop]
    omega) (by
    rw [hsent, List.flatten_cons, List.flatten_cons, List.flatten_nil, List.append_nil,
      List.take_append_drop])
  exact ⟨_, s', hcall, hparts, hconn⟩

end PgClient.PackSocket
