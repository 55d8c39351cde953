import PgClient.Icm.Panel

/-!
# The ili9806e driver — burn check and VCOM

`chip_ili_9806.c`. The burn count is read three times: for the private info,
and again for each VCOM, to choose the address to read it from.
-/

namespace PgClient.Icm

open DeviceLog

def modIli9806e (i : Fin 4) (f : ChipInfo → ChipInfo) : Call Unit :=
  modMem fun m => { m with ili9806e := Function.update m.ili9806e i (f (m.ili9806e i)) }

/-- `ili_9806_set_page`: six bytes of an array of five. -/
def ili9806SetPage (channel : Int) (pageNo : Byte) : Call Unit := do
  let behind ← uninit
  mipi2828Write2IC channel 0xFF [0xFF, 0x98, 0x06, 0x04, pageNo, behind 0]

/-- `get_otp_times`. -/
def getOtpTimes (otpValue : Byte) : Byte :=
  if otpValue = 0 then 0
  else if otpValue = 1 then 1
  else if otpValue = 3 then 2
  else if otpValue = 7 then 3
  else 3

/-- The count of VCOM 1 in the status `0xE8`. -/
def ili9806OtpTimes (status : Byte) : Byte := getOtpTimes (status &&& 0x07)

/-- `ili_9806_get_vcom_otp_times`. -/
def ili9806GetVcomOtpTimes (channel : Int) : Call (Byte × Byte) := do
  ili9806SetPage channel 1
  let read ← readModReg channel 1 0xE8 1 zeroed
  pure (ili9806OtpTimes (read.2 0), getOtpTimes ((read.2 0 >>> 3) &&& 0x07))

/-- Where `ili_9806_read_nvm_vcom` reads a VCOM from, by its count. -/
def ili9806ReadAddr (index : Int) (times : Byte × Byte) : Byte :=
  if index = 0 then
    if times.1 = 1 then 0x16 else if times.1 = 2 then 0x18 else if times.1 = 3 then 0x19 else 0x00
  else if index = 1 then
    if times.2 = 1 then 0x1A else if times.2 = 2 then 0x1C else if times.2 = 3 then 0x1D else 0x00
  else 0x00

/-- `ili_9806_read_nvm_vcom`: the two addresses go out with the byte behind them. -/
def ili9806ReadNvmVcom (channel index : Int) : Call CInt := do
  ili9806SetPage channel 1
  let times ← ili9806GetVcomOtpTimes channel
  let behind ← uninit
  mipi2828Write2IC channel 0xE0 [0x15, behind 0]
  let behind ← uninit
  mipi2828Write2IC channel 0xE1 [ili9806ReadAddr index times, behind 0]
  mipi2828Write2IC channel 0xE3 [0x11, 0x00]
  mipi2828Write2IC channel 0xE4 [0x66, 0x00]
  mipi2828Write2IC channel 0xE5 [0x88, 0x00]
  let read ← readModReg channel 1 0xEA 1 zeroed
  pure ((read.2 0).setWidth 32)

/-- `chip_ili_9806e_get_chip_id`: the result, and what the three bytes hold then. -/
def chipIli9806eGetChipId (channel : Int) (pIdData : Byte × Byte × Byte) :
    Call (Int × (Byte × Byte × Byte)) := do
  -- the id is spread over three registers of page 1
  ili9806SetPage channel 0
  ili9806SetPage channel 1
  let reg0 ← readModReg channel 1 0x00 1 zeroed
  let reg1 ← readModReg channel 1 0x01 1 zeroed
  let reg2 ← readModReg channel 1 0x02 1 zeroed
  if reg0.2 0 = 0x98 ∧ reg1.2 0 = 0x06 ∧ reg2.2 0 = 0x04 then pure (3, (0x98, 0x06, 0x04))
  else pure (-1, pIdData)

/-- `chip_ili_9806e_check_chip_ok`. -/
def chipIli9806eCheckChipOk (channel : Int) : Call Int := do
  let i ← devChannel channel
  let m ← getMem
  let got ← chipIli9806eGetChipId channel (m.ili9806e i).id
  let pId := got.2
  modIli9806e i fun info => { info with id := pId }
  if pId.1 ≠ 0x98 ∨ pId.2.1 ≠ 0x06 ∨ pId.2.2 ≠ 0x04 then
    modIli9806e i fun info => { info with idOk := 0 }
    pure (-1)
  else
    modIli9806e i fun info => { info with idOk := 1 }
    let times ← ili9806GetVcomOtpTimes channel
    modIli9806e i fun info =>
      { info with vcom1OtpTimes := times.1.setWidth 32, vcom2OtpTimes := times.2.setWidth 32 }
    let vcom1OtpValue ← ili9806ReadNvmVcom channel 0
    let vcom2OtpValue ← ili9806ReadNvmVcom channel 1
    modIli9806e i fun info => { info with vcom1 := vcom1OtpValue, vcom2 := vcom2OtpValue }
    pure 0

/-- `chip_ili_9806e_check_vcom_otp_burn_ok`, with `ENABlE_OTP_BURN` not defined. -/
def chipIli9806eBurnCheck : BurnCheck where
  checkOk := chipIli9806eCheckChipOk
  stored m i := ((m.ili9806e i).vcom1, (m.ili9806e i).vcom1OtpTimes)
  timesError := .ok
  valueError := .vcomValueNotChange

/-- `chip_ili_9806e_read_chip_vcom_opt_times`: the result and the count. -/
def chipIli9806eReadChipVcomOptTimes (channel : Int) : Call (Int × Option CInt) := do
  let i ← devChannel channel
  let m ← getMem
  if (m.ili9806e i).idOk = 1 then
    let times ← ili9806GetVcomOtpTimes channel
    pure (0, some (times.1.setWidth 32))
  else pure (-1, none)

/-! ## VCOM -/

/-- `ili_9806_read_vcom`, with only `ENABLE_VCOM1`. -/
def ili9806ReadVcom (channel : Int) : Call CInt := do
  ili9806SetPage channel 0
  ili9806SetPage channel 1
  let reg0 ← readModReg channel 1 0x52 1 zeroed
  let reg1 ← readModReg channel 1 0x53 1 zeroed
  pure (((reg0.2 0).setWidth 32 <<< 8) ||| (reg1.2 0).setWidth 32)

def ili9806WriteVcom (channel : Int) (vcom : CInt) (otpBurned : Bool) : Call Unit := do
  ili9806SetPage channel 0
  ili9806SetPage channel 1
  mipi2828Write2IC channel 0x56 [if otpBurned then 0x11 else 0x00]
  mipi2828Write2IC channel 0x52 [(vcom >>> 8).setWidth 8 &&& 0x01]
  mipi2828Write2IC channel 0x53 [vcom.setWidth 8]

/-- `chip_ili_9806e_read_vcom`: the result and the VCOM. -/
def chipIli9806eReadVcom (channel : Int) : Call (Int × Option CInt) := do
  let i ← devChannel channel
  let m ← getMem
  if (m.ili9806e i).idOk = 1 then
    let vcom ← ili9806ReadVcom channel
    pure (0, some vcom)
  else pure (-1, none)

/-- `chip_ili_9806e_write_vcom`. -/
def chipIli9806eWriteVcom (channel : Int) (vcomValue : CInt) : Call Int := do
  let i ← devChannel channel
  let m ← getMem
  if (m.ili9806e i).idOk = 1 then
    ili9806WriteVcom channel vcomValue ((m.ili9806e i).vcom1OtpTimes ≠ 0)
    pure 0
  else pure (-1)

/-- `chip_ili_9806e_get_and_reset_private_data`. -/
def chipIli9806eGetAndResetPrivateData (channel : Int) : Call Unit := do
  let i ← devChannel channel
  modIli9806e i fun _ => ⟨(0, 0, 0), 0, 0, 0, 0, 0⟩

/-! ## The check, specified -/

/-- The id that `check_ok` looks at: the one read, or else the one stored before. -/
def ili9806eId (i : Fin 4) (w : Board) : Byte × Byte × Byte :=
  if replyByte (w.reply 0) 0 = 0x98 ∧ replyByte (w.reply 1) 0 = 0x06 ∧
      replyByte (w.reply 2) 0 = 0x04 then (0x98, 0x06, 0x04)
  else (w.mem.ili9806e i).id

/-- The id is read in three registers, and leaves the one that `check_ok` looks at. -/
theorem run_chipIli9806eGetChipId (i : Fin 4) (w : Board) :
    ∃ val es, chipIli9806eGetChipId (i : Nat) (w.mem.ili9806e i).id w =
      .ok (val, ili9806eId i w) (w.after 3 es) ∧
        es.filterMap regRead = [(0x00, w.reply 0), (0x01, w.reply 1), (0x02, w.reply 2)] ∧
        ∀ reg len reply, .readModReg (BitVec.ofInt 8 (i : Nat)) 1 reg len reply ∈ es ↔ len = 1 ∧
          (reg, reply) ∈ [(0x00, w.reply 0), (0x01, w.reply 1), (0x02, w.reply 2)] := by
  unfold chipIli9806eGetChipId ili9806eId
  simp only [ili9806SetPage, run_bind, run_uninit, run_mipi2828Write2IC, run_readModReg,
    World.after_reply, World.after_after, filled_zeroed (show 0 < 1 by decide)]
  split_ifs <;> exact ⟨_, _, rfl, rfl, fun reg len reply => by simp; tauto⟩

/-- The reads of the ili9806e's check. -/
theorem chipIli9806e_reads (i : Fin 4) (w : Board) :
    chipIli9806eBurnCheck.Reads i w (ili9806eId i w = (0x98, 0x06, 0x04))
      [(0x00, w.reply 0), (0x01, w.reply 1), (0x02, w.reply 2), (0xE8, w.reply 3),
        (0xE8, w.reply 4), (0xEA, w.reply 5), (0xE8, w.reply 6), (0xEA, w.reply 7)] ((replyByte (w.reply 5) 0).setWidth 32)
      ((ili9806OtpTimes (replyByte (w.reply 3) 0)).setWidth 32) := by
  obtain ⟨val, es, hgot, hes, -⟩ := run_chipIli9806eGetChipId i w
  constructor
  · intro hid
    rw [hid] at hgot
    refine ⟨_, 8, _, by simp [chipIli9806eBurnCheck, chipIli9806eCheckChipOk, hgot, modIli9806e,
      -- three reads for the id, then the counts, and for each VCOM the counts once more
      ili9806GetVcomOtpTimes, ili9806ReadNvmVcom, ili9806SetPage, filled_zeroed]; rfl, ?_, ?_⟩
    · rw [List.filterMap_append, hes]
      rfl
    · simp [chipIli9806eBurnCheck]
  · intro hid
    have hbad := id_ne hid
    -- the flag is cleared and nothing else is read
    exact ⟨-1, _, by decide, by
      simp only [chipIli9806eBurnCheck, chipIli9806eCheckChipOk, modIli9806e, run_bind,
        run_devChannel, run_getMem, hgot, run_modMem, if_pos hbad, run_pure]
      rfl⟩

end PgClient.Icm
