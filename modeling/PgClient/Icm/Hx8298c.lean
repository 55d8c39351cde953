import PgClient.Icm.Panel

/-!
# The hx8298c driver — burn check and VCOM

`chip_hx_8298c.c`. The chip is on a bit-banged SPI. `check_ok` passes the id
byte of the private info where `get_chip_id` expects the address to store it
at, so no call gets past it (`run_chipHx8298cCheckChipOk`).
-/

namespace PgClient.Icm

open DeviceLog

def modHx8298c (i : Fin 4) (f : Hx8298cInfo → Hx8298cInfo) : Call Unit :=
  modMem fun m => { m with hx8298c := Function.update m.hx8298c i (f (m.hx8298c i)) }

def vspiCtrlSetMode (channel : Int) (mode : Spi.VspiMode) : Call Unit :=
  emit (.vspiCtrlSetMode channel mode)

def vspiCtrlSetByteFormat (channel : Int) (byteFormat : CInt) : Call Unit :=
  emit (.vspiCtrlSetByteFormat channel byteFormat)

def vspiCtrlSetCsState (channel : Int) (state : Bool) : Call Unit :=
  emit (.vspiCtrlSetCsState channel state)

def vspiCtrlWrite (channel : Int) (value : Byte) : Call Unit := emit (.vspiCtrlWrite channel value)

def vspiCtrlRead (channel : Int) : Call Byte := do
  let reply ← ask (.vspiCtrlRead channel)
  pure (replyByte reply 0)

/-- `chip_hx8298c_spi_config`. -/
def chipHx8298cSpiConfig (channel : Int) : Call Unit := do
  vspiCtrlSetMode channel .wire3Line
  vspiCtrlSetByteFormat channel 8
  vspiCtrlSetCsState channel false
  msleep 1
  vspiCtrlSetCsState channel true

/-- `chip_hx8298c_start_write_2_ic_reg`, and `chip_hx8298c_start_read_ic_reg`. -/
def chipHx8298cStart (channel : Int) (addr : Byte) : Call Unit := do
  chipHx8298cSpiConfig channel
  vspiCtrlWrite channel addr

/-- `chip_hx8298c_stop_write_2_ic_reg`, and `chip_hx8298c_stop_read_ic_reg`. -/
def chipHx8298cStop (channel : Int) : Call Unit := vspiCtrlSetCsState channel false

def chipHx8298cSetPage (channel : Int) (pageNo : Byte) : Call Unit := do
  chipHx8298cStart channel 0x00
  vspiCtrlWrite channel pageNo
  chipHx8298cStop channel

/-- The three steps that read a register. -/
def chipHx8298cReadReg (channel : Int) (addr : Byte) : Call Byte := do
  chipHx8298cStart channel addr
  let value ← vspiCtrlRead channel
  chipHx8298cStop channel
  pure value

/-- `chip_hx8298c_get_chip_id`: the byte stored behind `p_id_data`. -/
def chipHx8298cGetChipId (channel : Int) (pIdData : CPtr Unit) : Call (Int × Byte) := do
  chipHx8298cSetPage channel 0
  let value ← chipHx8298cReadReg channel 0x1E
  pIdData.deref
  pure (0, value)

/-- `chip_hx8298c_read_vcom_otp_times`: the second byte is shifted out of the
`unsigned char`. -/
def chipHx8298cReadVcomOtpTimes (channel : Int) : Call Byte := do
  chipHx8298cSetPage channel 1
  let reg0 ← chipHx8298cReadReg channel 0x1D
  let reg1 ← chipHx8298cReadReg channel 0x1E
  pure (reg0 ||| (reg1.setWidth 32 <<< 8 : CInt).setWidth 8)

def hx8298cReadVcom (channel : Int) : Call Byte := do
  chipHx8298cSetPage channel 1
  chipHx8298cReadReg channel 0x1A

/-- `chip_hx8298c_read_vcom` into a variable. -/
def chipHx8298cReadVcom (channel : Int) (pVcomValue : CInt) : Call CInt := do
  let i ← devChannel channel
  let m ← getMem
  if (m.hx8298c i).idOk = 1 then
    let vcom ← hx8298cReadVcom channel
    pure (vcom.setWidth 32)
  else pure pVcomValue

/-- `chip_hx8298c_check_chip_ok`: the id itself is the argument, and what is
stored behind it is nowhere in the private info. -/
def chipHx8298cCheckChipOk (channel : Int) : Call Int := do
  let i ← devChannel channel
  let m ← getMem
  let _ ← chipHx8298cGetChipId channel (.ofInt (m.hx8298c i).id.toNat)
  -- never reached: a stored byte is not an address
  let m ← getMem
  if (m.hx8298c i).id ≠ 0x98 then
    modHx8298c i fun info => { info with idOk := 0 }
    pure (-1)
  else
    modHx8298c i fun info => { info with idOk := 1 }
    let times ← chipHx8298cReadVcomOtpTimes channel
    modHx8298c i fun info => { info with vcomOtpTimes := times.setWidth 32 }
    let vcom ← chipHx8298cReadVcom channel 0
    modHx8298c i fun info => { info with vcom := vcom }
    pure 0

/-- `chip_hx8298c_check_vcom_otp_burn_ok`, with `ENABlE_OTP_BURN` not defined. -/
def chipHx8298cBurnCheck : BurnCheck where
  checkOk := chipHx8298cCheckChipOk
  stored m i := ((m.hx8298c i).vcom, (m.hx8298c i).vcomOtpTimes)
  timesError := .ok
  valueError := .vcomValueNotChange

/-! ## VCOM -/

/-- `TTL_GPIO_PIN_UD_L`. -/
def ttlGpioPinUdL : Nat := 54

/-- `TTL_GPIO_PIN_UD_R`. -/
def ttlGpioPinUdR : Nat := 61

/-- `setIcWriteStatus`; enabled is low. Its condition `channel = 0 || channel == 1` assigns
the comparison with 1. -/
def setIcWriteStatus (channel : Int) (enable : Bool) : Call Unit :=
  let channel : Int := if channel = 1 then 1 else 0
  if channel ≠ 0 then gpioSetOutputValue ttlGpioPinUdL (!enable)
  else gpioSetOutputValue ttlGpioPinUdR (!enable)

/-- The three steps that write a register. -/
def chipHx8298cWriteReg (channel : Int) (addr value : Byte) : Call Unit := do
  chipHx8298cStart channel addr
  vspiCtrlWrite channel value
  chipHx8298cStop channel

def hx8298cWriteVcom (channel : Int) (value : Byte) : Call Int := do
  setIcWriteStatus channel true
  chipHx8298cSetPage channel 1
  chipHx8298cWriteReg channel 0x14 0x91
  chipHx8298cWriteReg channel 0x1A value
  setIcWriteStatus channel false
  pure 0

def chipHx8298cWriteVcom (channel : Int) (value : Byte) : Call Int := do
  let i ← devChannel channel
  let m ← getMem
  if (m.hx8298c i).idOk = 1 then hx8298cWriteVcom channel value
  else pure (-1)

/-- `chip_hx8298c_write_vcom_otp_value`; the OTP flag is read, and not looked at. -/
def chipHx8298cWriteVcomOtpValue (channel : Int) (value : Byte) : Call Unit := do
  chipHx8298cSetPage channel 9
  chipHx8298cWriteReg channel 0x02 0x66
  msleep 10
  chipHx8298cWriteReg channel 0x01 0x08
  let _ ← chipHx8298cWriteVcom channel value
  chipHx8298cWriteReg channel 0x03 0x01
  msleep 13
  let _vcom ← chipHx8298cReadReg channel 0x0F
  chipHx8298cWriteReg channel 0x02 0x00

/-! ## The registers, specified -/

/-- What begins a register. -/
def startEvents (channel : Int) (addr : Byte) : List Event :=
  [.vspiCtrlSetMode channel .wire3Line, .vspiCtrlSetByteFormat channel 8,
    .vspiCtrlSetCsState channel false, .msleep 1, .vspiCtrlSetCsState channel true,
    .vspiCtrlWrite channel addr]

section Registers

variable (channel : Int) (addr value : Byte) (w : Board)

/-- A start is the page, the select and the address. -/
@[simp] theorem run_chipHx8298cStart :
    chipHx8298cStart channel addr w = .ok () (w.after 0 (startEvents channel addr)) := by
  simp [chipHx8298cStart, chipHx8298cSpiConfig, vspiCtrlSetMode, vspiCtrlSetByteFormat,
    vspiCtrlSetCsState, vspiCtrlWrite, startEvents]

@[simp] theorem run_chipHx8298cStop :
    chipHx8298cStop channel w = .ok () (w.after 0 [.vspiCtrlSetCsState channel false]) := rfl

/-- A register is written in one selection. -/
@[simp] theorem run_chipHx8298cWriteReg :
    chipHx8298cWriteReg channel addr value w = .ok () (w.after 0 (startEvents channel addr ++
      [.vspiCtrlWrite channel value, .vspiCtrlSetCsState channel false])) := by
  simp [chipHx8298cWriteReg, vspiCtrlWrite]

/-- A page is a register. -/
@[simp] theorem run_chipHx8298cSetPage :
    chipHx8298cSetPage channel value w = .ok () (w.after 0 (startEvents channel 0x00 ++
      [.vspiCtrlWrite channel value, .vspiCtrlSetCsState channel false])) :=
  run_chipHx8298cWriteReg channel 0x00 value w

/-- A register is read in one selection. -/
@[simp] theorem run_chipHx8298cReadReg :
    chipHx8298cReadReg channel addr w = .ok (replyByte (w.reply 0) 0)
      (w.after 1 (startEvents channel addr ++
        [.vspiCtrlRead channel (w.reply 0), .vspiCtrlSetCsState channel false])) := by
  simp [chipHx8298cReadReg, vspiCtrlRead]

end Registers

/-! ## The check, specified -/

/-- An integer is no address. -/
theorem deref_ofInt {α : Type} (n : Int) (w : Board) :
    (CPtr.ofInt n : CPtr α).deref w = .error () w := by
  unfold CPtr.ofInt
  split_ifs <;> rfl

/-- `check_ok` faults, whatever the id is. -/
theorem run_chipHx8298cCheckChipOk (i : Fin 4) (w : Board) :
    ∃ w', chipHx8298cCheckChipOk (i : Nat) w = .error () w' :=
  ⟨_, by simp [chipHx8298cCheckChipOk, chipHx8298cGetChipId, deref_ofInt]; rfl⟩

end PgClient.Icm
