import PgClient.Icm.Hi8394
import PgClient.Icm.Hx8298c
import PgClient.Icm.Icn9706
import PgClient.Icm.Ili9806
import PgClient.Icm.Jd9367
import PgClient.Icm.Otm8019a

/-!
# The chip manager — calls go to the chip in use

`ic_manager.c`. A chip driver is a table of entries, some of them null; a
manager call looks its entry up in the table of the chip in use.

* `run_icMgr` — a call is the entry of the chip in use.
* `run_icMgrBurnChipId_jd9367` — the id burn calls the entry that reads the
  id, with a length and a pattern number for pointers.
-/

namespace PgClient.Icm

open DeviceLog

/-- `icm_chip_t`, the entries of the gamma tables and of the one-time memory. -/
structure IcmChip where
  name : String
  readVcomOtpTimes : Option (Int → Call (Int × Option CInt))
  writeAnalogGammaRegData : Option (Int → Option (Nat → Byte) → Int → Call Int)
  writeDigitalGammaRegData : Option (Int → Option (Nat → Byte) → Int → Call Int)
  burnGammaOtpValues : Option (Int → CInt → Bool → CInt → Buf → Buf → Buf → Buf → Call Int)
  checkGammaOtpValues :
    Option (Int → Bool → CInt → CInt → Buf → Buf → Buf → Buf → Call Int)
  getAnalogGammaRegData : Option (Int → Buf → Call (Int × Buf))
  getDigitalGammaRegData : Option (Int → Buf → Buf → Buf → Call (Int × Buf × Buf × Buf))
  getIdOtpInfo : Option (Int → CPtr Unit → CPtr Int → CPtr Unit →
    Call (Int × Option (List Byte × Byte)))
  burnId : Option (Int → (Nat → Byte) → Int → Int → Call Int)

/-- A chip with a burn count and nothing else of these. -/
def IcmChip.ofVcomOtpTimes (name : String) (f : Int → Call (Int × Option CInt)) : IcmChip where
  name := name
  readVcomOtpTimes := some f
  writeAnalogGammaRegData := none
  writeDigitalGammaRegData := none
  burnGammaOtpValues := none
  checkGammaOtpValues := none
  getAnalogGammaRegData := none
  getDigitalGammaRegData := none
  getIdOtpInfo := none
  burnId := none

/-- `default_chip`: every entry but the id's says that the chip is unknown. -/
def defaultChip : IcmChip where
  name := "default"
  readVcomOtpTimes := some fun _ => pure (-1, none)
  writeAnalogGammaRegData := some fun _ _ _ => pure (-1)
  writeDigitalGammaRegData := some fun _ _ _ => pure (-1)
  burnGammaOtpValues := some fun _ _ _ _ _ _ _ _ => pure (-1)
  checkGammaOtpValues := some fun _ _ _ _ _ _ _ _ => pure (-1)
  getAnalogGammaRegData := some fun _ a => pure (-1, a)
  getDigitalGammaRegData := some fun _ r g b => pure (-1, r, g, b)
  getIdOtpInfo := none
  burnId := none

def chipHi8394 : IcmChip where
  name := "hi8394"
  readVcomOtpTimes := some chipHi8394ReadChipVcomOptTimes
  writeAnalogGammaRegData := some hx8394WriteAnalogGammaRegData
  writeDigitalGammaRegData := some hx8394WriteAnalogDigitalGammaRegData
  burnGammaOtpValues := some hx8394BurnGammaOtpValues
  checkGammaOtpValues := some hx8394CheckGammaOtpValues
  getAnalogGammaRegData := some hx8394GetAnalogGammaRegData
  getDigitalGammaRegData := some hx8394GetDigitalGammaRegData
  getIdOtpInfo := none
  burnId := none

def chipIcn9706 : IcmChip where
  name := "icn9706"
  readVcomOtpTimes := some chipIcn9706ReadChipVcomOptTimes
  writeAnalogGammaRegData := some chipIcn9706WriteAnalogGammaRegData
  writeDigitalGammaRegData := some chipIcn9706WriteDigitalGammaRegData
  burnGammaOtpValues := some chipIcn9706BurnGammaOtpValues
  checkGammaOtpValues := some chipIcn9706CheckGammaOtpValues
  getAnalogGammaRegData := some chipIcn9706GetAnalogGammaRegData
  getDigitalGammaRegData := some chipIcn9706GetDigitalGammaRegData
  getIdOtpInfo := none
  burnId := none

def chipIli9806e : IcmChip := .ofVcomOtpTimes "ili9806e" chipIli9806eReadChipVcomOptTimes

def chipJd9367 : IcmChip :=
  { IcmChip.ofVcomOtpTimes "jd9367" chipJd9367ReadChipVcomOptTimes with
    getIdOtpInfo := some chipJd9367GetChipIdOtpInfo
    burnId := some chipJd9367BurnChipId }

def chipOtm8019a : IcmChip := .ofVcomOtpTimes "otm8019a" chipOtm8019aReadChipVcomOptTimes

def chipHx8298c : IcmChip := .ofVcomOtpTimes "hx8298c" fun channel => do
  let times ← chipHx8298cReadVcomOtpTimes channel
  pure (0, some (times.setWidth 32))

/-! ## The manager -/

/-- `pSgIcChipMng->chips`, as `ic_mgr_init` fills it. -/
def chips : Chip → IcmChip
  | .default => defaultChip
  | .hi8394 => chipHi8394
  | .icn9706 => chipIcn9706
  | .ili9806e => chipIli9806e
  | .jd9367 => chipJd9367
  | .otm8019a => chipOtm8019a
  | .hx8298c => chipHx8298c

/-- `currentIcmChipAndCheckChannel`: no channel is below 0 and above 3. -/
def currentIcmChipAndCheckChannel (channel : Int) (m : Mem) : Option IcmChip :=
  if channel < 0 ∧ channel > 3 then none else some (chips m.index)

/-- A manager call: the entry of the chip in use, or -1 when there is none. -/
def icMgr (channel : Int) (entry : IcmChip → Option (Call α)) (missing : α) : Call α := do
  let m ← getMem
  match (currentIcmChipAndCheckChannel channel m).bind entry with
  | some call => call
  | none => pure missing

def icMgrReadChipVcomOtpTimes (channel : Int) : Call (Int × Option CInt) :=
  icMgr channel (fun chip => chip.readVcomOtpTimes.map fun f => f channel) (-1, none)

def icMgrWriteAnalogGammaData (channel : Int) (pAnalogGammaRegData : Option (Nat → Byte))
    (analogGammaRegDataLen : Int) : Call Int :=
  icMgr channel (fun chip => chip.writeAnalogGammaRegData.map fun f =>
    f channel pAnalogGammaRegData analogGammaRegDataLen) (-1)

def icMgrWriteDigitalGammaData (channel : Int) (pDigitalGammaRegData : Option (Nat → Byte))
    (digitalGammaRegDataLen : Int) : Call Int :=
  icMgr channel (fun chip => chip.writeDigitalGammaRegData.map fun f =>
    f channel pDigitalGammaRegData digitalGammaRegDataLen) (-1)

def icMgrBurnGammaOtpValues (channel : Int) (burnFlag : CInt) (enableBurnVcom : Bool) (vcom : CInt)
    (pAnalogGammaRegData pD3gR pD3gG pD3gB : Buf) : Call Int :=
  icMgr channel (fun chip => chip.burnGammaOtpValues.map fun f =>
    f channel burnFlag enableBurnVcom vcom pAnalogGammaRegData pD3gR pD3gG pD3gB) (-1)

def icMgrCheckGammaOtpValues (channel : Int) (enableBurnVcom : Bool)
    (newVcomValue lastVcomOtpTimes : CInt) (pAnalogGammaRegData pD3gR pD3gG pD3gB : Buf) :
    Call Int :=
  icMgr channel (fun chip => chip.checkGammaOtpValues.map fun f =>
    f channel enableBurnVcom newVcomValue lastVcomOtpTimes pAnalogGammaRegData pD3gR pD3gG
      pD3gB) (-1)

def icMgrGetAnalogGammaRegData (channel : Int) (pAnalogGammaRegData : Buf) : Call (Int × Buf) :=
  icMgr channel (fun chip => chip.getAnalogGammaRegData.map fun f => f channel pAnalogGammaRegData)
    (-1, pAnalogGammaRegData)

def icMgrGetDigitalGammaRegDataT (channel : Int) (pD3gR pD3gG pD3gB : Buf) :
    Call (Int × Buf × Buf × Buf) :=
  icMgr channel (fun chip => chip.getDigitalGammaRegData.map fun f => f channel pD3gR pD3gG pD3gB)
    (-1, pD3gR, pD3gG, pD3gB)

/-- `ic_mgr_burn_chip_id`. It calls `get_id_otp_info`, which takes the length and
the pattern number for pointers. -/
def icMgrBurnChipId (channel : Int) (_pIdData : Nat → Byte) (idDataLen ptnId : Int) : Call Int :=
  icMgr channel (fun chip => chip.getIdOtpInfo.map fun f => do
    let got ← f channel (.obj ()) (.ofInt idDataLen) (.ofInt ptnId)
    pure got.1) (-1)

/-- A manager call runs the entry of the chip in use. -/
theorem run_icMgr (channel : Int) (entry : IcmChip → Option (Call α)) (missing : α) (w : Board) :
    icMgr channel entry missing w = ((entry (chips w.mem.index)).getD (pure missing)) w := by
  have hin : ¬ (channel < 0 ∧ channel > 3) := by omega
  unfold icMgr currentIcmChipAndCheckChannel
  simp only [run_bind, run_getMem, if_neg hin, Option.bind_some]
  cases entry (chips w.mem.index) <;> rfl

/-- With the jd9367, the id burn takes the length 3 for the address of one. -/
theorem run_icMgrBurnChipId_jd9367 (channel : Int) (pIdData : Nat → Byte) (ptnId : Int) (w : Board)
    (hchip : w.mem.index = .jd9367) : icMgrBurnChipId channel pIdData 3 ptnId w = .error () w := by
  unfold icMgrBurnChipId
  rw [run_icMgr, hchip]
  rfl

/-- With any other chip, it does nothing. -/
theorem run_icMgrBurnChipId_other (channel : Int) (pIdData : Nat → Byte) (idDataLen ptnId : Int)
    (w : Board) (hchip : w.mem.index ≠ .jd9367) :
    icMgrBurnChipId channel pIdData idDataLen ptnId w = .ok (-1) w := by
  unfold icMgrBurnChipId
  rw [run_icMgr]
  cases hindex : w.mem.index <;> first | rfl | exact absurd hindex hchip

end PgClient.Icm
