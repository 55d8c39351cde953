import PgClient.Lib.RingBuffer
import PgClient.PackSocket.Frame

/-!
# The command FIFO

`cmd_fifo_t` is a ring of `FIFO_MAX_LEN` bytes. The functions below follow
the source; the rest of the module shows that they implement a byte queue,
whose content is `CmdFifo.bytes`:

* `writeCmdFifo_spec`   — a chunk is appended, or refused when it does not fit.
* `readCmdTryRead_spec` — the length test sees the queue's front (`frameLen`).
* `readCmdFifo_spec`    — the front of the queue is taken off.
-/

namespace PgClient.PackSocket

/-- `cmd_fifo_t`. -/
structure CmdFifo where
  cmd : List Byte
  read : Nat
  write : Nat
  len : Nat
  maxLen : Nat
  bInit : Nat
  deriving DecidableEq

open RingBuffer (blit slice contents)

/-- `write_cmd_fifo`; `none` is the return value -1. -/
def writeCmdFifo (f : CmdFifo) (pData : List Byte) : Option CmdFifo :=
  let len := pData.length
  if f.len + len > f.maxLen then none
  else
    let f' :=
      if f.write ≥ f.read then
        if f.write + len < f.maxLen then
          { f with cmd := blit f.cmd f.write pData, write := f.write + len }
        else
          -- two memcpy calls: up to the end of the ring, then its start
          let len1 := f.maxLen - f.write
          { f with
            cmd := blit (blit f.cmd f.write (pData.take len1)) 0 (pData.drop len1)
            write := len - len1 }
      else { f with cmd := blit f.cmd f.write pData, write := f.write + len }
    some { f' with len := f.len + len, write := f'.write % f.maxLen }

/-- `read_cmd_try_read`; `none` is the return value -1. -/
def readCmdTryRead (f : CmdFifo) : Option Nat :=
  if f.len ≥ headLen + 4 then
    let len1 := f.maxLen - f.read
    let cmd :=
      -- the header is copied out first, in two pieces when it wraps
      if len1 > headLen then slice f.cmd f.read headLen
      else slice f.cmd f.read len1 ++ slice f.cmd 0 (headLen - len1)
    if getShort cmd 0 = syncHead then
      let validLen := (getShort cmd 14).toNat
      if f.len ≥ headLen + validLen + 4 then some (headLen + validLen + 4) else none
    else none
  else none

/-- `read_cmd_fifo`: the bytes copied out and the FIFO after it. -/
def readCmdFifo (f : CmdFifo) (len : Nat) : List Byte × CmdFifo :=
  let pBuffer :=
    if f.read + len > f.maxLen then
      let len1 := f.maxLen - f.read
      slice f.cmd f.read len1 ++ slice f.cmd 0 (len - len1)
    else slice f.cmd f.read len
  (pBuffer, { f with read := (f.read + len) % f.maxLen, len := f.len - len })

/-! ## The FIFO as a byte queue -/

namespace CmdFifo

/-- A FIFO that `init_cmd_fifo` has set up and the operations have kept. -/
structure Ok (f : CmdFifo) : Prop where
  init : f.bInit = 1
  maxLen : f.maxLen = fifoMaxLen
  cmd : f.cmd.length = fifoMaxLen
  read : f.read < fifoMaxLen
  len : f.len ≤ fifoMaxLen
  write : f.write = (f.read + f.len) % fifoMaxLen

/-- The bytes in the queue. -/
def bytes (f : CmdFifo) : List Byte := contents f.cmd f.read f.len

/-- `len` counts the bytes. -/
theorem bytes_length {f : CmdFifo} (h : f.Ok) : f.bytes.length = f.len :=
  RingBuffer.contents_length (by rw [h.cmd]; exact h.len)

/-- An accepted chunk is appended to the queue. -/
theorem Ok.append {f : CmdFifo} (h : f.Ok) {pData : List Byte}
    (hroom : f.len + pData.length ≤ fifoMaxLen) :
    ∃ f', writeCmdFifo f pData = some f' ∧ f'.Ok ∧ f'.bytes = f.bytes ++ pData := by
  obtain ⟨hinit, hmax, hcmd, hread, hlen, hwrite⟩ := h
  have hmod : fifoMaxLen = 40960 := rfl
  have hwlt : f.write < fifoMaxLen := by
    rw [hwrite]
    exact Nat.mod_lt _ (by omega)
  have hw := @RingBuffer.mod_cases (f.read + f.len) fifoMaxLen (by omega)
  rw [← hwrite] at hw
  -- a copy that stays inside the array
  have hone : f.write + pData.length ≤ fifoMaxLen →
      contents (blit f.cmd f.write pData) f.read (f.len + pData.length) =
        f.bytes ++ pData := fun hend =>
    RingBuffer.contents_blit (by omega) (by rw [hcmd]; exact hwrite) (by omega) (by omega)
  have hnext : (f.write + pData.length) % fifoMaxLen =
      (f.read + (f.len + pData.length)) % fifoMaxLen := by
    rw [hwrite, Nat.mod_add_mod, Nat.add_assoc]
  rw [writeCmdFifo, hmax, if_neg (by omega)]
  refine ⟨_, rfl, ?_⟩
  -- the three copies of the source: in one piece, round the end, in front of `read`
  by_cases hge : f.write ≥ f.read
  · by_cases hin : f.write + pData.length < fifoMaxLen
    · simp only [if_pos hge, if_pos hin]
      exact ⟨⟨hinit, rfl, (RingBuffer.blit_length (by omega)).trans hcmd, hread, hroom, hnext⟩,
        hone (by omega)⟩
    · -- the chunk is cut at the end of the array; its rest goes to the start
      simp only [if_pos hge, if_neg hin]
      have hcont := @RingBuffer.contents_blit_wrap _ f.cmd f.read f.len f.write pData (by omega)
        (by rw [hcmd]; exact hwrite) (by omega) (by omega)
      rw [hcmd] at hcont
      have htake : (pData.take (fifoMaxLen - f.write)).length = fifoMaxLen - f.write := by
        rw [List.length_take]
        omega
      have hdrop : (pData.drop (fifoMaxLen - f.write)).length =
          pData.length - (fifoMaxLen - f.write) := List.length_drop ..
      have hblit : (blit f.cmd f.write (pData.take (fifoMaxLen - f.write))).length = fifoMaxLen :=
        (RingBuffer.blit_length (by omega)).trans hcmd
      refine ⟨⟨hinit, rfl, ?_, hread, hroom, ?_⟩, hcont⟩
      · exact (RingBuffer.blit_length (by omega)).trans hblit
      · show (pData.length - (fifoMaxLen - f.write)) % fifoMaxLen = _
        rw [← hnext, show f.write + pData.length =
          (pData.length - (fifoMaxLen - f.write)) + fifoMaxLen by omega, Nat.add_mod_right]
  · simp only [if_neg hge]
    exact ⟨⟨hinit, rfl, (RingBuffer.blit_length (by omega)).trans hcmd, hread, hroom, hnext⟩,
      hone (by omega)⟩

/-- The front of the queue, read in one piece. -/
theorem Ok.slice_eq {f : CmdFifo} (h : f.Ok) {k : Nat} (hk : k ≤ f.len)
    (hend : f.read + k ≤ fifoMaxLen) : slice f.cmd f.read k = f.bytes.take k :=
  RingBuffer.slice_eq_take (by rw [h.cmd]; exact hend) hk

/-- The front of the queue, read in two pieces round the end. -/
theorem Ok.slice_wrap_eq {f : CmdFifo} (h : f.Ok) {k : Nat} (hk : k ≤ f.len)
    (hend : fifoMaxLen ≤ f.read + k) :
    slice f.cmd f.read (fifoMaxLen - f.read) ++ slice f.cmd 0 (k - (fifoMaxLen - f.read)) =
      f.bytes.take k := by
  have := @RingBuffer.slice_wrap_eq_take _ f.cmd f.read f.len k
    (by rw [h.cmd]; exact h.read.le) (by rw [h.cmd]; exact hend) hk (by rw [h.cmd]; exact h.len)
  rwa [h.cmd] at this

end CmdFifo

/-- A chunk is appended to the queue, or refused when it does not fit. -/
theorem writeCmdFifo_spec {f : CmdFifo} (h : f.Ok) (pData : List Byte) :
    if f.bytes.length + pData.length ≤ fifoMaxLen then
      ∃ f', writeCmdFifo f pData = some f' ∧ f'.Ok ∧ f'.bytes = f.bytes ++ pData
    else writeCmdFifo f pData = none := by
  rw [CmdFifo.bytes_length h]
  split_ifs with hroom
  · exact h.append hroom
  · rw [writeCmdFifo, h.maxLen, if_pos (by omega)]

/-- The length of the frame at the front of a byte string, if it is complete. -/
def frameLen (bs : List Byte) : Option Nat :=
  if headLen + 4 ≤ bs.length ∧ getShort bs 0 = syncHead ∧
      headLen + (getShort bs 14).toNat + 4 ≤ bs.length then
    some (headLen + (getShort bs 14).toNat + 4)
  else none

/-- A cut behind the two bytes leaves the short as it is. -/
theorem getShort_take {bs : List Byte} {i k : Nat} (hi : i + 1 < k) :
    getShort (bs.take k) i = getShort bs i := by
  simp only [getShort, List.getD_eq_getElem?_getD]
  rw [List.getElem?_take_of_lt (by omega), List.getElem?_take_of_lt (by omega)]

/-- The length test looks at the front of the queue, at any ring position. -/
theorem readCmdTryRead_spec {f : CmdFifo} (h : f.Ok) :
    readCmdTryRead f = frameLen f.bytes := by
  have hread := h.read
  unfold readCmdTryRead frameLen
  rw [CmdFifo.bytes_length h, h.maxLen]
  by_cases hlen : headLen + 4 ≤ f.len
  · -- both ways of copying the header give the front of the queue
    have hcmd : (if fifoMaxLen - f.read > headLen then slice f.cmd f.read headLen
        else slice f.cmd f.read (fifoMaxLen - f.read) ++
          slice f.cmd 0 (headLen - (fifoMaxLen - f.read))) = f.bytes.take headLen := by
      split_ifs with hin
      · exact h.slice_eq (by omega) (by omega)
      · exact h.slice_wrap_eq (by omega) (by omega)
    simp only [hcmd, ge_iff_le, hlen, if_true, true_and]
    rw [getShort_take (by decide), getShort_take (by decide)]
    by_cases hsync : getShort f.bytes 0 = syncHead
    · simp only [hsync, if_true, true_and]
    · simp only [hsync, if_false, false_and]
  · simp only [ge_iff_le, hlen, if_false, false_and]

/-- Reading takes the front off the queue. -/
theorem readCmdFifo_spec {f : CmdFifo} (h : f.Ok) {k : Nat} (hk : k ≤ f.bytes.length) :
    (readCmdFifo f k).1 = f.bytes.take k ∧ (readCmdFifo f k).2.Ok ∧
      (readCmdFifo f k).2.bytes = f.bytes.drop k := by
  rw [CmdFifo.bytes_length h] at hk
  have hread := h.read
  refine ⟨?_, ⟨h.init, h.maxLen, h.cmd, ?_, ?_, ?_⟩, ?_⟩
  · simp only [readCmdFifo, h.maxLen]
    -- the bytes read may go over the end of the block
    split_ifs with hout
    · exact h.slice_wrap_eq hk (by omega)
    · exact h.slice_eq hk (by omega)
  · simp only [readCmdFifo, h.maxLen]
    exact Nat.mod_lt _ (by decide)
  · exact (Nat.sub_le _ _).trans h.len
  · simp only [readCmdFifo, h.maxLen]
    rw [h.write, Nat.mod_add_mod, show f.read + k + (f.len - k) = f.read + f.len by omega]
  · have := @RingBuffer.contents_advance _ f.cmd f.read f.len k hk
      (by rw [h.cmd]; exact h.len)
    rw [h.cmd] at this
    simp only [CmdFifo.bytes, readCmdFifo, h.maxLen]
    exact this

/-- A frame that was found is not empty and no longer than the string. -/
theorem frameLen_bounds {bs : List Byte} {k : Nat} (h : frameLen bs = some k) :
    headLen + 4 ≤ k ∧ k ≤ bs.length := by
  unfold frameLen at h
  split_ifs at h with hc
  obtain rfl := Option.some.inj h
  exact ⟨by omega, hc.2.2⟩

/-- What the test finds is a frame. -/
theorem isFrame_of_frameLen {bs : List Byte} {k : Nat} (h : frameLen bs = some k) :
    IsFrame (bs.take k) := by
  obtain ⟨hlow, hhigh⟩ := frameLen_bounds h
  unfold frameLen at h
  -- the test has looked at the length field and the head
  split_ifs at h with hc
  obtain rfl := Option.some.inj h
  have hhead : headLen = 16 := rfl
  refine ⟨?_, ?_, ?_⟩
  · rw [List.length_take]
    omega
  · rw [getShort_take (by omega)]
    exact hc.2.1
  · rw [getShort_take (by omega), List.length_take]
    omega

/-- A frame at the front is found whatever follows it. -/
theorem frameLen_append {fr : List Byte} (h : IsFrame fr) (more : List Byte) :
    frameLen (fr ++ more) = some fr.length := by
  obtain ⟨hhead, hsync, hlen⟩ := h
  have hhl : headLen = 16 := rfl
  have h14 : getShort (fr ++ more) 14 = getShort fr 14 := getShort_append more (by omega)
  have h0 : getShort (fr ++ more) 0 = getShort fr 0 := getShort_append more (by omega)
  rw [frameLen, h14, h0, if_pos, ← hlen]
  rw [List.length_append]
  exact ⟨by omega, hsync, by omega⟩

/-- A proper piece of a frame is not yet taken for one. -/
theorem frameLen_of_prefix {fr bs : List Byte} (h : IsFrame fr) (hpre : bs <+: fr)
    (hlt : bs.length < fr.length) : frameLen bs = none := by
  obtain ⟨more, rfl⟩ := hpre
  obtain ⟨-, -, hlen⟩ := h
  have hhl : headLen = 16 := rfl
  by_cases hshort : headLen + 4 ≤ bs.length
  · -- the length field is there already, and asks for more than there is
    rw [getShort_append more (by omega)] at hlen
    exact if_neg fun hc => by omega
  · exact if_neg fun hc => hshort hc.1

end PgClient.PackSocket
