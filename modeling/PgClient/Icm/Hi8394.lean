import PgClient.Icm.Panel

/-!
# The hi8394 driver — burn check, VCOM and gamma tables

`chip_hi_8394.c`. `check_ok` reads the id, the burn count and the VCOM into
the private info. The gamma tables are kept there when they are written, and
burnt from there.

* `chipHi8394_reads` — what `check_ok` reads, and leaves in the private info,
  for every chip.
-/

namespace PgClient.Icm

open DeviceLog

/-- The private info of a channel is changed. -/
def modHx8394 (i : Fin 4) (f : Hx8394Info → Hx8394Info) : Call Unit :=
  modMem fun m => { m with hx8394 := Function.update m.hx8394 i (f (m.hx8394 i)) }

/-! ## The check -/

def hi8394EnableExtendCmd (channel : Int) (enable : Bool) : Call Unit :=
  if enable then mipi2828Write2IC channel 0xB9 [0xFF, 0x83, 0x94]
  else mipi2828Write2IC channel 0xB9 [0xFF, 0xFF, 0xFF]

/-- The count in the third byte of register `0xB6`; an invalid one is 3. -/
def hi8394OtpTimes (reg2 : Byte) : Byte :=
  if reg2 >>> 5 = 0x07 then 0
  else if reg2 >>> 5 = 0x03 then 1
  else if reg2 >>> 5 = 0x01 then 2
  else if reg2 >>> 5 = 0x00 then 3
  -- every burn clears one of the three upper bits, the highest one first
  else 3

/-- `hi_8394_get_vcom_otp_times`: the same count for both VCOMs. -/
def hi8394GetVcomOtpTimes (channel : Int) : Call (Byte × Byte) := do
  hi8394EnableExtendCmd channel true
  let read ← readModReg channel 1 0xB6 3 zeroed
  pure (hi8394OtpTimes (read.2 2), hi8394OtpTimes (read.2 2))

/-- `hi_8394_read_vcom` into a zeroed variable. -/
def hi8394ReadVcom (channel index : Int) : Call CInt := do
  hi8394EnableExtendCmd channel true
  let read ← readModReg channel 1 0xB6 3 zeroed
  pure (if index = 0 then (read.2 0).setWidth 32
    else if index = 1 then (read.2 1).setWidth 32
    else 0)

/-- `chip_hi_8394_get_chip_id` into three bytes: the result, and what they hold
then. The buffer of the read is not initialised. -/
def chipHi8394GetChipId (channel : Int) (pIdData : Byte × Byte × Byte) :
    Call (Int × (Byte × Byte × Byte)) := do
  let reg ← uninit
  -- only an id that matches is stored, so `check_ok` may look at an older one
  let read ← readModReg channel 1 0x04 3 reg
  if read.2 0 = 0x83 ∧ read.2 1 = 0x94 ∧ read.2 2 = 0x0F then
    pure (3, (read.2 0, read.2 1, read.2 2))
  else pure (-1, pIdData)

/-- `chip_hi_8394_check_chip_ok`. -/
def chipHi8394CheckChipOk (channel : Int) : Call Int := do
  let i ← devChannel channel
  let m ← getMem
  let got ← chipHi8394GetChipId channel (m.hx8394 i).id
  let pId := got.2
  modHx8394 i fun info => { info with id := pId }
  if pId.1 ≠ 0x83 ∨ pId.2.1 ≠ 0x94 ∨ pId.2.2 ≠ 0x0F then
    modHx8394 i fun info => { info with idOk := 0 }
    pure (-1)
  else
    modHx8394 i fun info => { info with idOk := 1 }
    let times ← hi8394GetVcomOtpTimes channel
    modHx8394 i fun info =>
      { info with vcom1OtpTimes := times.1.setWidth 32, vcom2OtpTimes := times.2.setWidth 32 }
    let vcom1OtpValue ← hi8394ReadVcom channel 0
    modHx8394 i fun info => { info with vcom1 := vcom1OtpValue, vcom2 := vcom1OtpValue }
    pure 0

/-- `chip_hi_8394_check_vcom_otp_burn_ok`. -/
def chipHi8394BurnCheck : BurnCheck where
  checkOk := chipHi8394CheckChipOk
  stored m i := ((m.hx8394 i).vcom1, (m.hx8394 i).vcom1OtpTimes)
  timesError := .vcomTimesNotChange
  valueError := .vcomValueNotChange

/-- `chip_hi_8394_read_chip_vcom_opt_times`: the result and the count. -/
def chipHi8394ReadChipVcomOptTimes (channel : Int) : Call (Int × Option CInt) := do
  let i ← devChannel channel
  let m ← getMem
  if (m.hx8394 i).idOk = 1 then
    let times ← hi8394GetVcomOtpTimes channel
    pure (0, some (times.1.setWidth 32))
  else pure (-1, none)

/-! ## VCOM -/

/-- `hi_8394_write_vcom`: bit 8 goes into two bits of the third byte. -/
def hi8394WriteVcom (channel : Int) (vcomValue : CInt) : Call Unit := do
  hi8394EnableExtendCmd channel true
  mipi2828Write2IC channel 0xB6 [vcomValue.setWidth 8, vcomValue.setWidth 8,
    if vcomValue &&& 0x100 ≠ 0 then 0x03 else 0x00]

/-- `chip_hi_8394_read_vcom`: the result and the VCOM. -/
def chipHi8394ReadVcom (channel : Int) : Call (Int × Option CInt) := do
  let i ← devChannel channel
  let m ← getMem
  if (m.hx8394 i).idOk = 1 then
    let vcom ← hi8394ReadVcom channel 0
    pure (0, some vcom)
  else pure (-1, none)

/-- `chip_hi_8394_write_vcom`: the burn count is looked at, but changes nothing. -/
def chipHi8394WriteVcom (channel : Int) (vcomValue : CInt) : Call Int := do
  let i ← devChannel channel
  let m ← getMem
  if (m.hx8394 i).idOk = 1 then
    if (m.hx8394 i).vcom1OtpTimes = 0 then hi8394WriteVcom channel vcomValue
    else hi8394WriteVcom channel vcomValue
    pure 0
  else pure (-1)

/-- `hi_8394_burn_vcom`: the low byte of the VCOM, twice. -/
def hi8394BurnVcom (channel : Int) (otpVcomValue : CInt) : Call Int := do
  setMipi2828HighSpeedMode channel false
  mipiIcReset channel
  mipi2828Write2IC channel 0x11 []
  msleep 150
  mipi2828Write2IC channel 0xB9 [0xFF, 0x83, 0x94]
  mipi2828Write2IC channel 0xB6 [otpVcomValue.setWidth 8, otpVcomValue.setWidth 8, 0x00]
  msleep 100
  mipi2828Write2IC channel 0xBB [0x00, 0x00, 0x00, 0x00, 0x00, 0xAA, 0x55]
  mipi2828Write2IC channel 0xBB [0x80, 0x0D]
  mipi2828Write2IC channel 0xBB [0x80, 0x0D, 0x00, 0x01]
  msleep 550
  mipi2828Write2IC channel 0xBB [0x00, 0x00, 0x00, 0x00, 0x00, 0x00, 0x00]
  mipi2828Write2IC channel 0xB9 [0xFF, 0x83, 0x94]
  mipi2828Write2IC channel 0x10 []
  setMipi2828HighSpeedMode channel true
  pure 0

/-- `chip_hi_8394_write_chip_vcom_otp_value`. -/
def chipHi8394WriteChipVcomOtpValue (channel : Int) (otpVcomValue : CInt) : Call Int := do
  let i ← devChannel channel
  let m ← getMem
  if (m.hx8394 i).idOk = 1 then hi8394BurnVcom channel otpVcomValue
  else pure (-1)

/-- `chip_hi_8394_get_and_reset_private_data`. -/
def chipHi8394GetAndResetPrivateData (channel : Int) : Call Unit := do
  let i ← devChannel channel
  modHx8394 i fun _ => ⟨⟨(0, 0, 0), 0, 0, 0, 0, 0⟩, .replicate 58 0, .replicate 43 0,
    .replicate 42 0, .replicate 42 0⟩

/-! ## Gamma tables -/

/-- `chip_hi_8394_write_analog_reg`: always the whole table. -/
def chipHi8394WriteAnalogReg (channel : Int) (pAnalogGammaRegData : Nat → Byte) : Call Unit := do
  setMipi2828HighSpeedMode channel false
  mipi2828Write2IC channel 0xE0 (bytes pAnalogGammaRegData 58)
  setMipi2828HighSpeedMode channel true

/-- `hx_8394_write_d3g_reg_2`: each table to its bank. -/
def hx8394WriteD3gReg2 (channel : Int) (pD3gR pD3gG pD3gB : Nat → Byte) : Call Unit := do
  mipi2828Write2IC channel 0xBD [0x00]
  mipi2828Write2IC channel 0xC1 (bytes pD3gR 43)
  mipi2828Write2IC channel 0xBD [0x01]
  mipi2828Write2IC channel 0xC1 (bytes pD3gG 42)
  mipi2828Write2IC channel 0xBD [0x02]
  mipi2828Write2IC channel 0xC1 (bytes pD3gB 42)

/-- `hx_8394_write_analog_gamma_reg_data`; `none` is `NULL`. -/
def hx8394WriteAnalogGammaRegData (channel : Int) (pAnalogGammaRegData : Option (Nat → Byte))
    (analogGammaRegDataLen : Int) : Call Int :=
  match pAnalogGammaRegData with
  | none => pure (-1)
  | some p =>
    -- the length is tested and then not used
    if analogGammaRegDataLen ≤ 0 then pure (-1)
    else do
      let i ← devChannel channel
      modHx8394 i fun info => { info with analogGammaRegData := table 58 p }
      setMipi2828HighSpeedMode channel false
      hi8394EnableExtendCmd channel true
      let m ← getMem
      chipHi8394WriteAnalogReg channel (ptr (m.hx8394 i).analogGammaRegData)
      setMipi2828HighSpeedMode channel true
      pure 0

/-- `hx_8394_write_analog_digital_gamma_reg_data`: red, green and blue lie one
behind the other in the buffer. -/
def hx8394WriteAnalogDigitalGammaRegData (channel : Int)
    (pDigitalGammaRegData : Option (Nat → Byte)) (digitalGammaRegDataLen : Int) : Call Int :=
  match pDigitalGammaRegData with
  | none => pure (-1)
  | some p =>
    if digitalGammaRegDataLen ≤ 0 then pure (-1)
    else do
      -- the analog gammas are sent again, from the table of the last write
      let i ← devChannel channel
      setMipi2828HighSpeedMode channel false
      hi8394EnableExtendCmd channel true
      let m ← getMem
      chipHi8394WriteAnalogReg channel (ptr (m.hx8394 i).analogGammaRegData)
      modHx8394 i fun info =>
        { info with
          d3gR := table 43 p
          d3gG := table 42 fun k => p (43 + k)
          d3gB := table 42 fun k => p (43 + 42 + k) }
      let m ← getMem
      hx8394WriteD3gReg2 channel (ptr (m.hx8394 i).d3gR) (ptr (m.hx8394 i).d3gG)
        (ptr (m.hx8394 i).d3gB)
      setMipi2828HighSpeedMode channel true
      pure 0

/-- `hx_8394_get_analog_gamma_reg_data` into a buffer. -/
def hx8394GetAnalogGammaRegData (channel : Int) (pAnalogGammaRegData : Buf) : Call (Int × Buf) := do
  let i ← devChannel channel
  let m ← getMem
  pure (-1, pAnalogGammaRegData.fill (m.hx8394 i).analogGammaRegData.toList)

/-- `hx_8394_get_digital_gamma_reg_data` into three buffers. -/
def hx8394GetDigitalGammaRegData (channel : Int) (pD3gR pD3gG pD3gB : Buf) :
    Call (Int × Buf × Buf × Buf) := do
  let i ← devChannel channel
  let m ← getMem
  pure (0, pD3gR.fill (m.hx8394 i).d3gR.toList, pD3gG.fill (m.hx8394 i).d3gG.toList,
    pD3gB.fill (m.hx8394 i).d3gB.toList)

/-! ## The gamma burn -/

/-- The first part of both burn routines, up to the OTP power commands of the
tables; `vcomValue` goes to register `0xB6`. -/
def hx8394BurnPrepare (channel : Int) (burnVcom : Bool) (vcomValue : List Byte)
    (pAnalogGammaReg pD3gR pD3gG pD3gB : Nat → Byte) : Call Unit := do
  -- both chips are reset, whichever of them is burnt
  setMipi2828HighSpeedMode channel false
  mipiIcReset 0
  mipiIcReset 1
  mipi2828Write2IC channel 0x11 []
  msleep 150
  mipi2828Write2IC channel 0xB9 [0xFF, 0x83, 0x94]
  if burnVcom then mipi2828Write2IC channel 0xB6 vcomValue else pure ()
  chipHi8394WriteAnalogReg channel pAnalogGammaReg
  hx8394WriteD3gReg2 channel pD3gR pD3gG pD3gB
  msleep 100
  mipi2828Write2IC channel 0xBB [0x00, 0x00, 0x00, 0x00, 0x00, 0xAA, 0x55]

/-- The VCOM's own OTP power commands. -/
def hx8394VcomOtpPower (channel : Int) (burnVcom : Bool) : Call Unit :=
  if burnVcom then do
    mipi2828Write2IC channel 0xBB [0x80, 0x0D]
    mipi2828Write2IC channel 0xBB [0x80, 0x0D, 0x00, 0x01]
  else pure ()

/-- `hx_8394_burn_gamma_data_2nd`: `vcom_value` is computed, and the password is
sent in its place. -/
def hx8394BurnGammaData2nd (channel : Int) (_vcom : CInt) (burnVcom : Bool)
    (pAnalogGammaReg pD3gR pD3gG pD3gB : Nat → Byte) : Call Unit := do
  hx8394BurnPrepare channel burnVcom [0xFF, 0x83, 0x94] pAnalogGammaReg pD3gR pD3gG pD3gB
  hx8394VcomOtpPower channel burnVcom
  msleep 550
  mipi2828Write2IC channel 0xBB [0x81, 0x00, 0x00, 0x00]
  mipi2828Write2IC channel 0xBB [0x81, 0x00, 0x00, 0x01]
  msleep 700
  mipi2828Write2IC channel 0xBB [0x81, 0x3A, 0x00, 0x00]
  mipi2828Write2IC channel 0xBB [0x81, 0x3A, 0x00, 0x01]
  msleep 1400
  mipi2828Write2IC channel 0xBB [0x80, 0xFF, 0x00, 0x00]
  mipi2828Write2IC channel 0xBB [0x80, 0xFF, 0x00, 0x01]
  mipi2828Write2IC channel 0xBB (List.replicate 100 0x00)
  mipi2828Write2IC channel 0xB9 [0xFF, 0x83, 0x94]
  mipi2828Write2IC channel 0x10 []
  setMipi2828HighSpeedMode channel true

/-- `hx_8394_burn_vcom_and_gamma_data`: the low byte of the VCOM, twice. -/
def hx8394BurnVcomAndGammaData (channel : Int) (vcom : CInt) (burnVcom : Bool)
    (pAnalogGammaReg pD3gR pD3gG pD3gB : Nat → Byte) : Call Unit := do
  hx8394BurnPrepare channel burnVcom [vcom.setWidth 8, vcom.setWidth 8, 0x00] pAnalogGammaReg
    pD3gR pD3gG pD3gB
  hx8394VcomOtpPower channel burnVcom
  msleep 550
  mipi2828Write2IC channel 0xBB [0x80, 0x45]
  mipi2828Write2IC channel 0xBB [0x80, 0x45, 0x00, 0x01]
  msleep 700
  mipi2828Write2IC channel 0xBB [0x80, 0x7F]
  mipi2828Write2IC channel 0xBB [0x80, 0x7F, 0x00, 0x01]
  msleep 1400
  mipi2828Write2IC channel 0xBB [0x00, 0x00, 0x00, 0x00, 0x00, 0x00, 0x00]
  mipi2828Write2IC channel 0xB9 [0xFF, 0x83, 0x94]
  mipi2828Write2IC channel 0x10 []
  setMipi2828HighSpeedMode channel true

/-- `hx_8394_burn_gamma_otp_values`; the lengths it is given are not used. -/
def hx8394BurnGammaOtpValues (channel : Int) (burnFlag : CInt) (enableBurnVcom : Bool) (vcom : CInt)
    (pAnalogGammaReg pD3gR pD3gG pD3gB : Buf) : Call Int := do
  if burnFlag &&& 1 ≠ 0 then
    hx8394BurnGammaData2nd channel vcom enableBurnVcom pAnalogGammaReg.data pD3gR.data pD3gG.data
      pD3gB.data
  else
    hx8394BurnVcomAndGammaData channel vcom enableBurnVcom pAnalogGammaReg.data pD3gR.data
      pD3gG.data pD3gB.data
  pure 0

/-- `hx_8394_check_gamma_otp_values`: the last mismatch found. -/
def hx8394CheckGammaOtpValues (channel : Int) (enableBurnVcom : Bool)
    (newVcomValue lastVcomOtpTimes : CInt) (pAnalogGammaReg pD3gR pD3gG pD3gB : Buf) :
    Call Int := do
  setMipi2828HighSpeedMode channel false
  let checkError ← if enableBurnVcom then do
      let readVcom ← hi8394ReadVcom channel 0
      let otpTimes ← hi8394GetVcomOtpTimes channel
      let timesError : Int := if lastVcomOtpTimes + 1 ≠ otpTimes.2.setWidth 32 then 1 else 0
      -- a wrong VCOM hides a wrong count
      pure (if newVcomValue ≠ readVcom then 2 else timesError)
    else pure 0
  let analog ← readModReg channel 1 0xE0 58 zeroed
  mipi2828Write2IC channel 0xBD [0x00]
  let r ← readModReg channel 1 0xC1 43 zeroed
  mipi2828Write2IC channel 0xBD [0x01]
  let g ← readModReg channel 1 0xC1 42 zeroed
  mipi2828Write2IC channel 0xBD [0x02]
  let b ← readModReg channel 1 0xC1 42 zeroed
  -- the four comparisons overwrite each other: the last table that differs is told
  let checkError := if bytes analog.2 58 ≠ bytes pAnalogGammaReg.data 58 then 3 else checkError
  let checkError := if bytes r.2 43 ≠ bytes pD3gR.data 43 then 4 else checkError
  let checkError := if bytes g.2 42 ≠ bytes pD3gG.data 42 then 5 else checkError
  let checkError := if bytes b.2 42 ≠ bytes pD3gB.data 42 then 6 else checkError
  setMipi2828HighSpeedMode channel true
  pure checkError

/-! ## The check, specified -/

/-- The id that `check_ok` looks at: the one read, or else the one stored before. -/
def hi8394Id (i : Fin 4) (w : Board) : Byte × Byte × Byte :=
  let reg := filled (w.reply 0) 3 (w.mem.stack w.log.length)
  if reg 0 = 0x83 ∧ reg 1 = 0x94 ∧ reg 2 = 0x0F then (reg 0, reg 1, reg 2) else (w.mem.hx8394 i).id

/-- Reading the id leaves the one that `check_ok` looks at. -/
theorem run_chipHi8394GetChipId (i : Fin 4) (w : Board) :
    ∃ val, chipHi8394GetChipId (i : Nat) (w.mem.hx8394 i).id w = .ok (val, hi8394Id i w)
      (w.after 1 [.readModReg (BitVec.ofInt 8 (i : Nat)) 1 0x04 3 (w.reply 0)]) := by
  unfold chipHi8394GetChipId hi8394Id
  simp
  split_ifs <;> exact ⟨_, rfl⟩

/-- The reads of the hi8394's check: the id, the times and the VCOM. -/
theorem chipHi8394_reads (i : Fin 4) (w : Board) :
    chipHi8394BurnCheck.Reads i w (hi8394Id i w = (0x83, 0x94, 0x0F))
      [(0x04, w.reply 0), (0xB6, w.reply 1), (0xB6, w.reply 2)] ((replyByte (w.reply 2) 0).setWidth 32)
      ((hi8394OtpTimes (replyByte (w.reply 1) 2)).setWidth 32) := by
  obtain ⟨val, hgot⟩ := run_chipHi8394GetChipId i w
  constructor
  · intro hid
    rw [hid] at hgot
    refine ⟨_, 3, _, by simp [chipHi8394BurnCheck, chipHi8394CheckChipOk, hgot, modHx8394,
      -- id, count and VCOM are read, in this order
      hi8394GetVcomOtpTimes, hi8394ReadVcom, hi8394EnableExtendCmd, filled_zeroed]; rfl, ?_, ?_⟩
    · rfl
    · simp [chipHi8394BurnCheck]
  · intro hid
    have hbad := id_ne hid
    exact ⟨-1, _, by decide, by
      -- the flag is cleared and nothing else is read
      simp only [chipHi8394BurnCheck, chipHi8394CheckChipOk, modHx8394, run_bind, run_devChannel,
        run_getMem, hgot, run_modMem, if_pos hbad, run_pure]
      rfl⟩

end PgClient.Icm
