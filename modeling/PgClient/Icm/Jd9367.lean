import PgClient.Icm.Panel

/-!
# The jd9367 driver — one-time memory

`chip_jd9367.c`. The one-time memory is read through a port: an address in
the registers `0xEA`, `0xEB`, then a read of `0xED`; what a log shows of it
is `otpReads`. The burn count of an item is a register of its own, and
selects the address of the last burn. Writing 3 to `0xEC` burns.

* `run_qcOtpDataRead` — the reader of an item: what it returns, asks and
  leaves in the log, for every chip.
* `qcOtpVcom_burnsOnce` — the VCOM burn issues one program command.
* `qcOtpId_regs` — the id burn programs the first byte and two zeros.
-/

namespace PgClient.Icm

open DeviceLog

/-! ## Reading -/

def qcDoSleepOut (channel : Int) : Call Unit := do
  mipi2828Write2IC channel 0xE0 [0x00]
  mipi2828Write2IC channel 0x28 []
  msleep 120

def qcDoSleepIn (channel : Int) : Call Unit := do
  mipi2828Write2IC channel 0xE0 [0x00]
  mipi2828Write2IC channel 0x29 []
  msleep 120

def qcReadOtpDataReg (channel : Int) (otpIndex : BitVec 16) : Call Byte := do
  mipi2828Write2IC channel 0xEA [(otpIndex >>> 8).setWidth 8]
  mipi2828Write2IC channel 0xEB [otpIndex.setWidth 8]
  mipi2828Write2IC channel 0xEC [0x11]
  mipi2828Write2IC channel 0xEC [0x10]
  let read ← readModReg channel 1 0xED 1 zeroed
  pure (read.2 0)

def qcReadReg (channel : Int) (page reg : Byte) : Call Byte := do
  mipi2828Write2IC channel 0xE0 [page]
  let read ← readModReg channel 1 reg 1 zeroed
  pure (read.2 0)

/-- `n` bytes from the address `k` on. -/
def qcReadOtpDataRegs (channel : Int) : Nat → BitVec 16 → Call (List Byte)
  | 0, _ => pure []
  | n + 1, k => do
    let b ← qcReadOtpDataReg channel k
    let bs ← qcReadOtpDataRegs channel n (k + 1)
    pure (b :: bs)

/-- An item of the one-time memory: its burn count is in register `reg` of page
`page` and selects an index; its `len` bytes are `base` behind that. -/
structure OtpItem where
  page : Byte
  reg : Byte
  otpIndex : Byte → Option (BitVec 16)
  base : BitVec 16
  len : Nat

/-- The two readers below. They return -1, and no bytes, for a count that selects
no index. -/
def qcOtpDataRead (item : OtpItem) (channel : Int) : Call (Byte × Option (List Byte)) := do
  qcDoSleepOut channel
  let otpTimes ← qcReadReg channel item.page item.reg
  match item.otpIndex otpTimes with
  | none =>
    qcDoSleepIn channel
    pure (otpTimes, none)
  | some index =>
    let data ← qcReadOtpDataRegs channel item.len (index + item.base)
    qcDoSleepIn channel
    pure (otpTimes, some data)

/-- The high and the low byte of the VCOM. -/
def vcomItem : OtpItem where
  page := 1
  reg := 0x02
  otpIndex otpTimes :=
    if otpTimes = 1 then some 0x26
    else if otpTimes = 2 then some 0x28
    else if otpTimes = 3 then some 0x2A
    else if otpTimes = 4 then some 0x2C
    else if otpTimes = 5 then some 0x2E
    -- no other count has a place for the item; nothing is read then
    else none
  base := 0
  len := 2

/-- The three bytes of the id, one behind the index. -/
def idItem : OtpItem where
  page := 0
  reg := 0x7C
  otpIndex otpTimes :=
    if otpTimes = 1 then some 0x06
    else if otpTimes = 2 then some 0x0B
    else if otpTimes = 3 then some 0x10
    else if otpTimes = 4 then some 0x15
    else if otpTimes = 5 then some 0x1A
    else none
  base := 1
  len := 3

def qcOtpDataReadVcom (channel : Int) : Call (Byte × Option (List Byte)) :=
  qcOtpDataRead vcomItem channel

def qcOtpDataReadId (channel : Int) : Call (Byte × Option (List Byte)) :=
  qcOtpDataRead idItem channel

/-! ## Burning -/

def enableExtend (channel : Int) : Call Unit := do
  mipi2828Write2IC channel 0xE0 [0x00]
  mipi2828Write2IC channel 0xE1 [0x93]
  mipi2828Write2IC channel 0xE2 [0x65]
  mipi2828Write2IC channel 0xE3 [0xF8]
  mipi2828Write2IC channel 0xE5 [0x00]

def initInternalPower (channel : Int) : Call Unit := do
  mipi2828Write2IC channel 0xE0 [0x01]
  mipi2828Write2IC channel 0x1D [0x01]
  mipi2828Write2IC channel 0x1E [0x03]
  mipi2828Write2IC channel 0xE0 [0x00]
  mipi2828Write2IC channel 0xEC [0x02]
  mipi2828Write2IC channel 0xE0 [0x00]
  mipi2828Write2IC channel 0x11 []

def writeVcomReg (channel : Int) (vcomH vcomL : Byte) : Call Unit := do
  mipi2828Write2IC channel 0xE0 [0x01]
  mipi2828Write2IC channel 0x00 [vcomH]
  mipi2828Write2IC channel 0x01 [vcomL]

def enableUpKey (channel : Int) : Call Unit := do
  mipi2828Write2IC channel 0xE0 [0x00]
  mipi2828Write2IC channel 0x84 [0x5A]
  mipi2828Write2IC channel 0x85 [0xA5]

/-- The address to burn at, and the program command. -/
def burnAt (index : Byte) (channel : Int) : Call Unit := do
  mipi2828Write2IC channel 0xEA [0x00]
  mipi2828Write2IC channel 0xEB [index]
  mipi2828Write2IC channel 0xEC [0x03]

def vcomOtpIndex (channel : Int) : Call Unit := burnAt 0x26 channel

def idOtpIndex (channel : Int) : Call Unit := burnAt 0x06 channel

def otpEnd (channel : Int) : Call Unit := do
  mipi2828Write2IC channel 0x84 [0x00]
  mipi2828Write2IC channel 0x85 [0x00]

/-- Off and on again, as every burn ends; the calls of this file leave out the
channel of `client_pg_shutON`. -/
def restart (ptnId : Int) : Call Unit := do
  clientPgShutON 0 none [ptnId]
  let m ← getMem
  clientPgShutON 1 (some m.curModuleName) [ptnId]

def qcOtpVcom (channel : Int) (vcomH vcomL : Byte) (ptnId : Int) : Call Int := do
  enableExtend channel
  mipi2828Write2IC channel 0xE0 [0x00]
  -- display off and asleep while the VCOM is programmed
  mipi2828Write2IC channel 0x28 []
  mipi2828Write2IC channel 0x10 []
  msleep 240
  initInternalPower channel
  msleep 240
  writeVcomReg channel vcomH vcomL
  enableUpKey channel
  vcomOtpIndex channel
  msleep 200
  otpEnd channel
  restart ptnId
  pure 0

/-- The first three elements of `id`, an array of bytes. -/
def writeIdReg (channel : Int) (id : Nat → Byte) : Call Unit := do
  mipi2828Write2IC channel 0xE0 [0x00]
  mipi2828Write2IC channel 0x78 [id 0]
  mipi2828Write2IC channel 0x79 [id 1]
  mipi2828Write2IC channel 0x7A [id 2]

/-- The bytes of an `unsigned` array in memory, the low byte of an element first. -/
def unsignedBytes (a : Nat → CInt) (i : Nat) : Byte := (a (i / 4)).extractLsb' (8 * (i % 4)) 8

/-- `unsigned id[3]` of `qc_otp_id`. -/
def idArray (id1 id2 : Byte) (id3 : BitVec 16) : Nat → CInt
  | 0 => id1.setWidth 32
  | 1 => id2.setWidth 32
  | 2 => id3.setWidth 32
  | _ => 0

def qcOtpId (channel : Int) (id1 id2 : Byte) (id3 : BitVec 16) (ptnId : Int) : Call Int := do
  enableExtend channel
  mipi2828Write2IC channel 0xE5 [0x00]
  mipi2828Write2IC channel 0xE0 [0x00]
  mipi2828Write2IC channel 0x28 []
  mipi2828Write2IC channel 0x10 []
  msleep 240
  initInternalPower channel
  msleep 240
  -- an array of words is handed over where bytes are read
  writeIdReg channel (unsignedBytes (idArray id1 id2 id3))
  enableUpKey channel
  idOtpIndex channel
  msleep 200
  otpEnd channel
  msleep 200
  mipi2828Write2IC channel 0xE0 [0x00]
  mipi2828Write2IC channel 0x29 []
  restart ptnId
  pure 0

/-! ## The chip's entries -/

/-- `chip_jd_9367_check_chip_ok` looks at nothing. -/
def chipJd9367CheckChipOk (_channel : Int) : Call Int := pure 0

/-- `chip_jd_9367_check_vcom_otp_burn_ok`, with `ENABlE_OTP_BURN` not defined. -/
def chipJd9367BurnCheck : BurnCheck where
  checkOk := chipJd9367CheckChipOk
  stored m i := ((m.jd9367 i).vcom1, (m.jd9367 i).vcom1OtpTimes)
  timesError := .vcomTimesNotChange
  valueError := .ok

/-- `get_otp_times` of this file. -/
def jd9367GetOtpTimes (otpValue : Byte) : Byte :=
  if otpValue = 0 then 0
  else if otpValue = 1 then 1
  else if otpValue = 3 then 2
  else if otpValue = 7 then 3
  else 3

/-- `jd_9367_get_vcom_otp_times`. -/
def jd9367GetVcomOtpTimes (channel : Int) : Call (Byte × Byte) := do
  mipi2828Write2IC channel 0xE0 [0x01]
  let read ← readModReg channel 1 0xE8 1 zeroed
  pure (jd9367GetOtpTimes (read.2 0 &&& 0x07), jd9367GetOtpTimes ((read.2 0 >>> 3) &&& 0x07))

/-- `chip_jd_9367_read_chip_vcom_opt_times`: the result and the count. -/
def chipJd9367ReadChipVcomOptTimes (channel : Int) : Call (Int × Option CInt) := do
  let i ← devChannel channel
  let m ← getMem
  if (m.jd9367 i).idOk = 1 then
    let times ← jd9367GetVcomOtpTimes channel
    pure (0, some (times.1.setWidth 32))
  else pure (-1, none)

/-- `jd_9367_read_vcom`, with only `ENABLE_VCOM1`. -/
def jd9367ReadVcom (channel : Int) : Call CInt := do
  mipi2828Write2IC channel 0xE0 [0x00]
  mipi2828Write2IC channel 0xE0 [0x01]
  let reg0 ← readModReg channel 1 0x52 1 zeroed
  let reg1 ← readModReg channel 1 0x53 1 zeroed
  pure (((reg0.2 0).setWidth 32 <<< 8) ||| (reg1.2 0).setWidth 32)

def jd9367WriteVcom (channel : Int) (vcom : CInt) (otpBurned : Bool) : Call Unit := do
  mipi2828Write2IC channel 0xE0 [0x00]
  mipi2828Write2IC channel 0xE0 [0x01]
  mipi2828Write2IC channel 0x56 [if otpBurned then 0x11 else 0x00]
  mipi2828Write2IC channel 0x52 [(vcom >>> 8).setWidth 8 &&& 0x01]
  mipi2828Write2IC channel 0x53 [vcom.setWidth 8]

/-- `chip_jd_9367_read_vcom`: the result and the VCOM. -/
def chipJd9367ReadVcom (channel : Int) : Call (Int × Option CInt) := do
  let i ← devChannel channel
  let m ← getMem
  if (m.jd9367 i).idOk = 1 then
    let vcom ← jd9367ReadVcom channel
    pure (0, some vcom)
  else pure (-1, none)

/-- `chip_jd_9367_write_vcom`. -/
def chipJd9367WriteVcom (channel : Int) (vcomValue : CInt) : Call Int := do
  let i ← devChannel channel
  let m ← getMem
  if (m.jd9367 i).idOk = 1 then
    jd9367WriteVcom channel vcomValue ((m.jd9367 i).vcom1OtpTimes ≠ 0)
    pure 0
  else pure (-1)

/-- `chip_jd_9367_get_and_reset_private_data`. -/
def chipJd9367GetAndResetPrivateData (channel : Int) : Call Unit := do
  let i ← devChannel channel
  modMem fun m => { m with jd9367 := Function.update m.jd9367 i ⟨(0, 0, 0), 0, 0, 0, 0, 0⟩ }

/-- `chip_jd_9367_get_chip_id_otp_info`: the result, and what it stores behind
`p_id_data` and `p_otp_times`. -/
def chipJd9367GetChipIdOtpInfo (channel : Int) (pIdData : CPtr Unit) (pIdDataLen : CPtr Int)
    (pOtpTimes : CPtr Unit) : Call (Int × Option (List Byte × Byte)) :=
  match pIdData, pIdDataLen with
  | .null, _ => pure (-1, none)
  | _, .null => pure (-1, none)
  | _, _ => do
    let idDataLen ← pIdDataLen.deref
    -- the buffer must have room for three ids
    if idDataLen < 3 then pure (-1, none)
    else
      match pOtpTimes with
      | .null => pure (-1, none)
      | _ => do
        -- the count comes first, and says where the ids are
        let read ← qcOtpDataReadId channel
        pIdData.deref
        pOtpTimes.deref
        pure (0, some (read.2.getD [0, 0, 0], read.1))

/-- `chip_jd_9367_burn_chip_id`. -/
def chipJd9367BurnChipId (channel : Int) (pIdData : Nat → Byte) (_idDataLen ptnId : Int) :
    Call Int := do
  let _ ← qcOtpId channel (pIdData 0) (pIdData 1) ((pIdData 2).setWidth 16) ptnId
  pure 0

/-! ## What a log shows -/

/-- The program command. -/
def isProgram : Event → Bool
  | .mipi2828Write2IC _ regAddr pData => regAddr == 0xEC && pData == [0x03]
  | _ => false

/-- A read of the count register, 0 when the chip gave nothing. -/
def countRead (reg : Byte) : Event → Option Byte
  | .readModReg _ _ regAddr _ reply => if regAddr = reg then some (replyByte reply 0) else none
  | _ => none

/-- The result of a burn, told to the server. -/
def reported : Event → Option Int
  | .clientSendOtp _ result _ => some result
  | .clientSendIdOtpEnd _ result _ => some result
  | _ => none

/-- The port to the one-time memory: its address registers, and the bytes read
so far, each with its address. -/
structure OtpPort where
  hi : Byte
  lo : Byte
  reads : List (BitVec 16 × Byte)

def OtpPort.step (p : OtpPort) : Event → OtpPort
  | .mipi2828Write2IC _ regAddr [d] =>
    if regAddr = 0xEA then { p with hi := d } else if regAddr = 0xEB then { p with lo := d } else p
  | .readModReg _ _ regAddr _ (some r) =>
    if regAddr = 0xED then { p with reads := p.reads ++ [(p.hi ++ p.lo, r.data 0)] } else p
  | _ => p

/-- The one-time memory as a log shows it: the bytes that were answered. -/
def otpReads (es : List Event) : List (BitVec 16 × Byte) := (es.foldl OtpPort.step ⟨0, 0, []⟩).reads

/-- The registers of one channel's chip, `0xE0` selects the page. -/
structure JdRegs where
  page : Byte
  regs : Byte → Byte → Option Byte

def JdRegs.step (channel : Int) (c : JdRegs) : Event → JdRegs
  | .mipi2828Write2IC ch regAddr [d] =>
    if ch ≠ channel then c
    else if regAddr = 0xE0 then { c with page := d }
    else
      { c with regs := fun page reg =>
          if page = c.page ∧ reg = regAddr then some d else c.regs page reg }
  | _ => c

/-- The registers that a log has written. -/
def jdRegs (channel : Int) (es : List Event) : Byte → Byte → Option Byte :=
  (es.foldl (JdRegs.step channel) ⟨0, fun _ _ => none⟩).regs

/-- What a log shows of the burns of an item. -/
structure Seen where
  counts : List Byte
  reads : List (BitVec 16 × Byte)
  burns : Nat
  results : List Int

/-- A log shows that, whatever was in the address registers before it. -/
structure Shows (reg : Byte) (es : List Event) (s : Seen) : Prop where
  counts : es.filterMap (countRead reg) = s.counts
  reads : ∀ p : OtpPort, (es.foldl OtpPort.step p).reads = p.reads ++ s.reads
  burns : es.countP isProgram = s.burns
  results : es.filterMap reported = s.results

/-- Two logs in a row show what each of them shows. -/
theorem Shows.append {reg : Byte} {es fs : List Event} {s t : Seen} (hs : Shows reg es s)
    (ht : Shows reg fs t) :
    Shows reg (es ++ fs)
      ⟨s.counts ++ t.counts, s.reads ++ t.reads, s.burns + t.burns, s.results ++ t.results⟩ where
  counts := by rw [List.filterMap_append, hs.counts, ht.counts]
  reads p := by rw [List.foldl_append, ht.reads, hs.reads, List.append_assoc]
  burns := by rw [List.countP_append, hs.burns, ht.burns]
  results := by rw [List.filterMap_append, hs.results, ht.results]

/-- An event of no interest: neither a read, nor a burn, nor a report. -/
def plain : Event → Bool
  | .mipi2828Write2IC _ regAddr pData => !(regAddr == 0xEC && pData == [0x03])
  | .readModReg _ _ _ _ _ => false
  | .clientSendOtp _ _ _ => false
  | .clientSendIdOtpEnd _ _ _ => false
  | _ => true

/-- Only a read is counted as one. -/
theorem step_reads_of_not_read {e : Event} (h : plain e = true ∨ isProgram e = true) (p : OtpPort) :
    (p.step e).reads = p.reads := by
  cases e with
  | mipi2828Write2IC channel regAddr pData =>
    rcases pData with _ | ⟨d, _ | ⟨d', ds⟩⟩
    · rfl
    · simp only [OtpPort.step]
      split_ifs <;> rfl
    · rfl
  | readModReg => simp [plain, isProgram] at h
  | _ => rfl

/-- Burning and all that goes with it shows nothing but the burns. -/
theorem shows_of_not_read {es : List Event} (h : ∀ e ∈ es, plain e = true ∨ isProgram e = true)
    (reg : Byte) : Shows reg es ⟨[], [], es.countP isProgram, []⟩ := by
  refine ⟨?_, fun p => ?_, rfl, ?_⟩
  · rw [List.filterMap_eq_nil_iff]
    intro e he
    -- every event is of one of the two kinds, so no branch reads the register
    cases e <;> first | rfl | simpa [plain, isProgram] using h _ he
  · induction es generalizing p with
    | nil => simp
    | cons e es ih =>
      rw [List.forall_mem_cons] at h
      rw [List.foldl_cons, ih h.2, step_reads_of_not_read h.1]
  · rw [List.filterMap_eq_nil_iff]
    intro e he
    cases e <;> first | rfl | simpa [plain, isProgram] using h _ he

/-- A log's reads of the OTP memory are what it shows of them. -/
theorem Shows.otpReads {reg : Byte} {es : List Event} {s : Seen} (h : Shows reg es s) :
    otpReads es = s.reads := h.reads _

/-! ## The readers, specified -/

/-- The bytes that `n` reads from the `i`-th answer on give, 0 for a missing one. -/
def replyBytes (w : Board) (i n : Nat) : List Byte :=
  (List.range n).map fun j => replyByte (w.reply (i + j)) 0

/-- The answered ones among them, with their addresses from `k` on. -/
def replyReads (w : Board) (i n : Nat) (k : BitVec 16) : List (BitVec 16 × Byte) :=
  (List.range n).filterMap fun j => (w.reply (i + j)).map fun r => (k + BitVec.ofNat 16 j, r.data 0)

/-- The first of the replies, and the others from the board behind it. -/
theorem replyBytes_succ (w : Board) (n : Nat) (es : List Event) :
    replyBytes w 0 (n + 1) = replyByte (w.reply 0) 0 :: replyBytes (w.after 1 es) 0 n := by
  simp only [replyBytes, List.range_succ_eq_map, List.map_cons, List.map_map, World.after_reply]
  congr 1
  refine List.map_congr_left fun j _ => ?_
  simp [Nat.add_comm]

/-- The same of the reads they answer. -/
theorem replyReads_succ (w : Board) (n : Nat) (k : BitVec 16) (es : List Event) :
    replyReads w 0 (n + 1) k =
      ((w.reply 0).map fun r => (k, r.data 0)).toList ++ replyReads (w.after 1 es) 0 n (k + 1) := by
  simp only [replyReads, List.range_succ_eq_map, List.filterMap_cons, List.filterMap_map,
    World.after_reply]
  have htail : (List.range n).filterMap ((fun j => (w.reply (0 + j)).map fun r =>
        -- the later replies are those of the board after the first one
        (k + BitVec.ofNat 16 j, r.data 0)) ∘ Nat.succ) =
      (List.range n).filterMap fun j => (w.reply (1 + (0 + j))).map fun r =>
        (k + 1 + BitVec.ofNat 16 j, r.data 0) := by
    refine List.filterMap_congr fun j _ => ?_
    have hk : k + BitVec.ofNat 16 (j + 1) = k + 1 + BitVec.ofNat 16 j := by
      rw [BitVec.add_assoc, Nat.add_comm j 1, BitVec.ofNat_add]
      rfl
    simp [hk, Nat.add_comm]
  rw [htail]
  cases w.reply 0 <;> simp

/-- The two address registers hold the whole address. -/
theorem addr_eq (k : BitVec 16) : ((k >>> 8).setWidth 8 : Byte) ++ (k.setWidth 8 : Byte) = k := by
  ext i hi
  simp only [BitVec.getElem_append, BitVec.getElem_setWidth, BitVec.getLsbD_ushiftRight]
  split
  · exact BitVec.getLsbD_eq_getElem hi
  · rw [show 8 + (i - 8) = i by omega]
    exact BitVec.getLsbD_eq_getElem hi

/-- One byte: its address is in the port when it is read. -/
theorem run_qcReadOtpDataReg {reg : Byte} (hreg : reg ≠ 0xED) (channel : Int) (k : BitVec 16)
    (w : Board) :
    ∃ es, qcReadOtpDataReg channel k w = .ok (replyByte (w.reply 0) 0) (w.after 1 es) ∧
      Shows reg es ⟨[], ((w.reply 0).map fun r => (k, r.data 0)).toList, 0, []⟩ := by
  refine ⟨_, by simp [qcReadOtpDataReg, filled_zeroed]; rfl, ?_, fun p => ?_, ?_, ?_⟩
  · simp [countRead]
    exact hreg.symm
  · -- what is read off the port is at the address set just before
    cases w.reply 0 with
    | none => simp [OtpPort.step]
    | some r => simp [OtpPort.step, addr_eq]
  · simp [isProgram]
  · simp [reported]

/-- The loop over the bytes of an item. -/
theorem run_qcReadOtpDataRegs {reg : Byte} (hreg : reg ≠ 0xED) (channel : Int) (n : Nat) :
    ∀ (k : BitVec 16) (w : Board), ∃ es,
      qcReadOtpDataRegs channel n k w = .ok (replyBytes w 0 n) (w.after n es) ∧
        Shows reg es ⟨[], replyReads w 0 n k, 0, []⟩ := by
  induction n with
  | zero =>
    intro k w
    exact ⟨[], by simp [qcReadOtpDataRegs, replyBytes], rfl, by simp [replyReads], rfl, rfl⟩
  | succ n ih =>
    intro k w
    -- one byte and one address further on
    obtain ⟨es, hrun, hes⟩ := run_qcReadOtpDataReg hreg channel k w
    obtain ⟨fs, hruns, hfs⟩ := ih (k + 1) (w.after 1 es)
    refine ⟨es ++ fs, ?_, ?_⟩
    · simp only [qcReadOtpDataRegs, run_bind, hrun, hruns, run_pure, World.after_after,
        replyBytes_succ w n es, Nat.add_comm 1 n]
    · rw [replyReads_succ w n k es]
      exact hes.append hfs

/-- What a reader leaves of the answers from the next one on. -/
structure Answered where
  times : Byte
  data : Option (List Byte)
  asked : Nat
  reads : List (BitVec 16 × Byte)

def answered (item : OtpItem) (w : Board) : Answered :=
  let times := replyByte (w.reply 0) 0
  match item.otpIndex times with
  | none => ⟨times, none, 1, []⟩
  | some index =>
    ⟨times, some (replyBytes w 1 item.len), 1 + item.len,
      replyReads w 1 item.len (index + item.base)⟩

/-- The reader up to the choice of the address. -/
theorem run_otpTimes {item : OtpItem} (hreg : item.reg ≠ 0xED) (channel : Int) (w : Board) :
    ∃ es, (do qcDoSleepOut channel; qcReadReg channel item.page item.reg : Call Byte) w =
        .ok (replyByte (w.reply 0) 0) (w.after 1 es) ∧
      Shows item.reg es ⟨[replyByte (w.reply 0) 0], [], 0, []⟩ := by
  refine ⟨_, by simp [qcDoSleepOut, qcReadReg, filled_zeroed]; rfl, ?_, fun p => ?_, ?_, ?_⟩
  · simp [List.filterMap_cons, countRead]
  · cases w.reply 0 with
    | none => simp [OtpPort.step]
    | some r =>
      have hne : ¬ item.reg = 237#8 := hreg
      simp [OtpPort.step, hne]
  · simp [isProgram]
  · simp [reported]

/-- Going to sleep shows nothing of the OTP memory. -/
theorem run_qcDoSleepIn (reg : Byte) (channel : Int) (w : Board) :
    ∃ es, qcDoSleepIn channel w = .ok () (w.after 0 es) ∧ Shows reg es ⟨[], [], 0, []⟩ := by
  refine ⟨_, by simp [qcDoSleepIn]; rfl, ?_, fun p => ?_, ?_, ?_⟩
  · simp [countRead]
  · simp [OtpPort.step]
  · simp [isProgram]
  · simp [reported]

/-- **The reader of an item**, for every chip. -/
theorem run_qcOtpDataRead {item : OtpItem} (hreg : item.reg ≠ 0xED) (channel : Int) (w : Board) :
    ∃ es, qcOtpDataRead item channel w =
        .ok ((answered item w).times, (answered item w).data) (w.after (answered item w).asked es) ∧
      Shows item.reg es ⟨[(answered item w).times], (answered item w).reads, 0, []⟩ := by
  obtain ⟨es, hrun, hes⟩ := run_otpTimes hreg channel w
  unfold qcOtpDataRead answered
  rw [← bind_assoc, run_bind, hrun]
  dsimp only
  cases item.otpIndex (replyByte (w.reply 0) 0) with
  | none =>
    obtain ⟨fs, hsleep, hfs⟩ := run_qcDoSleepIn item.reg channel (w.after 1 es)
    exact ⟨es ++ fs, by simp [hsleep], by simpa using hes.append hfs⟩
  | some index =>
    obtain ⟨fs, hregs, hfs⟩ :=
      run_qcReadOtpDataRegs hreg channel item.len (index + item.base) (w.after 1 es)
    -- the replies are counted on from the count's own
    obtain ⟨gs, hsleep, hgs⟩ := run_qcDoSleepIn item.reg channel (w.after (1 + item.len) (es ++ fs))
    have hbytes : replyBytes (w.after 1 es) 0 item.len = replyBytes w 1 item.len := by
      simp [replyBytes]
    have hreads : replyReads (w.after 1 es) 0 item.len (index + item.base) =
        replyReads w 1 item.len (index + item.base) := by
      simp [replyReads]
    rw [hbytes] at hregs
    rw [hreads] at hfs
    exact ⟨es ++ fs ++ gs, by simp [hregs, hsleep], by simpa using (hes.append hfs).append hgs⟩

/-! ## The burns, specified -/

/-- A call that burns once, and reads nothing. -/
def BurnsOnce (x : Call α) : Prop :=
  ∀ w, ∃ a es, x w = .ok a (w.after 0 es) ∧ es.countP isProgram = 1 ∧
    ∀ e ∈ es, plain e = true ∨ isProgram e = true

/-- A VCOM is burnt by one program command. -/
theorem qcOtpVcom_burnsOnce (channel : Int) (vcomH vcomL : Byte) (ptnId : Int) :
    BurnsOnce (qcOtpVcom channel vcomH vcomL ptnId) := by
  intro w
  refine ⟨0, _, by simp [qcOtpVcom, enableExtend, initInternalPower, writeVcomReg, enableUpKey,
    vcomOtpIndex, burnAt, otpEnd, restart]; rfl, rfl, fun e he => ?_⟩
  -- one event after the other
  have hevent : (plain e || isProgram e) = true :=
    (List.all_eq_true (p := fun e => plain e || isProgram e)).mp rfl e he
  simpa using hevent

/-- A byte in a word: the word's low byte, with zeros above. -/
theorem word_byte (b : Byte) (k : Nat) :
    (b.setWidth 32 : CInt).extractLsb' (8 * k) 8 = if k = 0 then b else 0 := by
  -- the low byte of the word, and zeros above it
  split_ifs with hk
  · subst hk
    ext i hi
    simp only [BitVec.getElem_extractLsb', BitVec.getLsbD_setWidth, Nat.mul_zero, Nat.zero_add]
    rw [BitVec.getLsbD_eq_getElem hi]
    simp
    omega
  · ext i hi
    simp only [BitVec.getElem_extractLsb', BitVec.getLsbD_setWidth]
    rw [BitVec.getLsbD_of_ge _ _ (by omega)]
    simp

/-- What the id registers hold when the program command comes: the second and
third element that the writer sees are the upper bytes of the first word. -/
theorem qcOtpId_regs (channel : Int) (id1 id2 : Byte) (id3 : BitVec 16) (ptnId : Int) (w : Board) :
    ∃ es, qcOtpId channel id1 id2 id3 ptnId w = .ok 0 (w.after 0 es) ∧
      jdRegs channel (es.takeWhile fun e => !isProgram e) 0 0x78 = some id1 ∧
      jdRegs channel (es.takeWhile fun e => !isProgram e) 0 0x79 = some 0 ∧
      jdRegs channel (es.takeWhile fun e => !isProgram e) 0 0x7A = some 0 := by
  have h₀ := word_byte id1 0
  have h₁ := word_byte id1 1
  have h₂ := word_byte id1 2
  refine ⟨_, by simp [qcOtpId, enableExtend, initInternalPower, writeIdReg, enableUpKey,
    idOtpIndex, burnAt, otpEnd, restart]; rfl, ?_⟩
  -- `id1` alone fills the first word, so the next two registers get its zeros
  simp [isProgram, List.takeWhile, jdRegs, JdRegs.step, unsignedBytes, idArray] at h₀ h₁ h₂ ⊢
  exact ⟨h₀, h₁, h₂⟩

end PgClient.Icm
