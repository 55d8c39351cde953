import PgClient.Icm.Manager

/-!
# More gamma entries, and the subscripts of all of them

The entries of a chip that write the fixed tables, switch the digital gammas and read the
analog ones back. None of them looks into the private info.

* `Ends` — an entry that ends well whatever its channel is.
* `Subscripted` — one that does for the four channels, and faults for any other number.
-/

namespace PgClient.Icm

open DeviceLog

/-! ## hi8394 -/

/-- `hx_8394_digital_gamma_control`: the bank register again, after bank 0 was selected. -/
def hx8394DigitalGammaControl (channel : Int) (value : Byte) : Call Unit := do
  setMipi2828HighSpeedMode channel false
  hi8394EnableExtendCmd channel true
  mipi2828Write2IC channel 0xBD [0x00]
  mipi2828Write2IC channel 0xBD [value]
  setMipi2828HighSpeedMode channel true

/-- `hx_8394_write_d3g_control`. -/
def hx8394WriteD3gControl (channel : Int) (enable : CInt) : Call Int := do
  hx8394DigitalGammaControl channel (enable.setWidth 8)
  pure 0

/-- `s_analog_gamma_reg_data`. -/
def sAnalogGammaRegData : List Byte :=
  [0x00, 0x08, 0x16, 0x20, 0x24, 0x2a, 0x30, 0x30, 0x66, 0x7b, 0x8e, 0x8d, 0x94, 0xa1, 0xa2, 0xa2,
   0xab, 0xad, 0xab, 0xb7, 0xc6, 0x63, 0x61, 0x65, 0x68, 0x6c, 0x73, 0x7b, 0x7f, 0x00, 0x08, 0x15,
   0x20, 0x24, 0x2a, 0x30, 0x30, 0x66, 0x7b, 0x8c, 0x8b, 0x93, 0xa2, 0xa0, 0xa1, 0xac, 0xae, 0xab,
   0xb9, 0xc9, 0x61, 0x60, 0x64, 0x68, 0x6c, 0x73, 0x7b, 0x7f]

/-- `hx_8394_write_fix_analog_gamma_reg_data`. -/
def hx8394WriteFixAnalogGammaRegData (channel : Int) : Call Int := do
  setMipi2828HighSpeedMode channel false
  hi8394EnableExtendCmd channel true
  chipHi8394WriteAnalogReg channel fun k => sAnalogGammaRegData.getD k 0
  hx8394DigitalGammaControl channel 0x00
  setMipi2828HighSpeedMode channel true
  pure 0

/-- `hx_8394_read_analog_gamma_reg_data`: the length is the register's, whatever was read. -/
def hx8394ReadAnalogGammaRegData (channel : Int) (pAnalogGammaRegData : Nat → Byte)
    (_analogGammaRegDataLen : Int) : Call (Int × (Nat → Byte)) := do
  setMipi2828HighSpeedMode channel false
  hi8394EnableExtendCmd channel true
  let read ← readModReg channel 1 0xE0 58 pAnalogGammaRegData
  setMipi2828HighSpeedMode channel true
  pure (58, read.2)

/-! ## icn9706 -/

/-- `s_icn_9706_default_analog_gamma_code`. -/
def sIcn9706DefaultAnalogGammaCode : List Byte :=
  [0x7c, 0x57, 0x41, 0x31, 0x2a, 0x1a, 0x1f, 0x0b, 0x28, 0x2a, 0x2c, 0x4d, 0x3d, 0x47, 0x3b, 0x3a,
   0x2e, 0x1b, 0x06,
   0x7c, 0x57, 0x41, 0x31, 0x2a, 0x1a, 0x1f, 0x0b, 0x28, 0x2a, 0x2c, 0x4d, 0x3d, 0x47, 0x3b, 0x3a,
   0x2e, 0x1b, 0x06]

/-- `chip_icn_9706_read_analog_gamma_reg_data`. -/
def chipIcn9706ReadAnalogGammaRegData (channel : Int) (pAnalogGammaRegData : Nat → Byte)
    (_analogGammaRegLen : Int) : Call (Int × (Nat → Byte)) := do
  setMipi2828HighSpeedMode channel false
  icn9706EnableLevel2Cmd channel
  let read ← readModReg channel 1 0xC8 38 pAnalogGammaRegData
  setMipi2828HighSpeedMode channel true
  pure (38, read.2)

/-- `chip_icn_9706_write_fix_analog_gamma_reg_data`. -/
def chipIcn9706WriteFixAnalogGammaRegData (channel : Int) : Call Int := do
  setMipi2828HighSpeedMode channel false
  icn9706EnableLevel2Cmd channel
  mipi2828Write2IC channel 0xC8 sIcn9706DefaultAnalogGammaCode
  setMipi2828HighSpeedMode channel true
  pure 0

/-- `default_d3g_data`. -/
def defaultD3gData : List Byte :=
  [255, 254, 252, 250, 248, 244, 240, 232, 224, 208, 192, 160, 128, 127, 95, 63, 47, 31, 23, 15, 11,
   7, 5, 3, 1, 0]

/-- `chip_icn_9706_write_fix_digital_gamma_reg_data`: the address of the private info is taken,
and not used. -/
def chipIcn9706WriteFixDigitalGammaRegData (channel : Int) : Call Int := do
  setMipi2828HighSpeedMode channel false
  icn9706EnableLevel2Cmd channel
  mipi2828Write2IC channel 0xE3 [0x03]
  mipi2828Write2IC channel 0xE4 defaultD3gData
  mipi2828Write2IC channel 0xE5 defaultD3gData
  mipi2828Write2IC channel 0xE6 defaultD3gData
  setMipi2828HighSpeedMode channel true
  pure 0

/-- `chip_icn_9706_write_d3g_control`. -/
def chipIcn9706WriteD3gControl (channel : Int) (enable : CInt) : Call Int := do
  setMipi2828HighSpeedMode channel false
  mipi2828Write2IC channel 0xE3 [if enable ≠ 0 then 0x01 else 0x00]
  setMipi2828HighSpeedMode channel true
  pure 0

/-! ## The manager -/

/-- The entries of `icm_chip_t` that `IcmChip` leaves out. -/
structure GammaEntries where
  d3gControl : Option (Int → CInt → Call Int)
  readAnalogGammaRegData : Option (Int → (Nat → Byte) → Int → Call (Int × (Nat → Byte)))
  writeFixAnalogGammaRegData : Option (Int → Call Int)
  writeFixDigitalGammaRegData : Option (Int → Call Int)

/-- They are in the tables of three chips. -/
def gammaEntries : Chip → GammaEntries
  | .default =>
    { d3gControl := some fun _ _ => pure (-1)
      readAnalogGammaRegData := some fun _ p _ => pure (-1, p)
      writeFixAnalogGammaRegData := some fun _ => pure (-1)
      writeFixDigitalGammaRegData := some fun _ => pure (-1) }
  | .hi8394 =>
    { d3gControl := some hx8394WriteD3gControl
      readAnalogGammaRegData := some hx8394ReadAnalogGammaRegData
      writeFixAnalogGammaRegData := some hx8394WriteFixAnalogGammaRegData
      -- `do nothing!`
      writeFixDigitalGammaRegData := some fun _ => pure 0 }
  | .icn9706 =>
    { d3gControl := some chipIcn9706WriteD3gControl
      readAnalogGammaRegData := some chipIcn9706ReadAnalogGammaRegData
      writeFixAnalogGammaRegData := some chipIcn9706WriteFixAnalogGammaRegData
      writeFixDigitalGammaRegData := some chipIcn9706WriteFixDigitalGammaRegData }
  | _ =>
    { d3gControl := none
      readAnalogGammaRegData := none
      writeFixAnalogGammaRegData := none
      writeFixDigitalGammaRegData := none }

/-- A manager call, with these entries of the chips. -/
def icMgrOf {ε : Type} (entries : Chip → ε) (channel : Int) (entry : ε → Option (Call α))
    (missing : α) : Call α := do
  let m ← getMem
  if channel < 0 ∧ channel > 3 then pure missing
  else (entry (entries m.index)).getD (pure missing)

def icMgrGamma (channel : Int) (entry : GammaEntries → Option (Call α)) (missing : α) : Call α :=
  icMgrOf gammaEntries channel entry missing

def icMgrD3gControl (channel : Int) (enable : CInt) : Call Int :=
  icMgrGamma channel (fun chip => chip.d3gControl.map fun f => f channel enable) (-1)

def icMgrReadAnalogGammaData (channel : Int) (pAnalogGammaRegData : Nat → Byte)
    (analogGammaRegDataLen : Int) : Call (Int × (Nat → Byte)) :=
  icMgrGamma channel (fun chip => chip.readAnalogGammaRegData.map fun f =>
    f channel pAnalogGammaRegData analogGammaRegDataLen) (-1, pAnalogGammaRegData)

def icMgrWriteFixAnalogGammaData (channel : Int) : Call Int :=
  icMgrGamma channel (fun chip => chip.writeFixAnalogGammaRegData.map fun f => f channel) (-1)

def icMgrWriteFixDigitalGammaData (channel : Int) : Call Int :=
  icMgrGamma channel (fun chip => chip.writeFixDigitalGammaRegData.map fun f => f channel) (-1)

/-! ## Entries and their subscripts -/

/-- The numbers that are subscripts of a private table. -/
def InRange (channel : Int) : Prop := 0 ≤ channel ∧ channel < 4

instance (channel : Int) : Decidable (InRange channel) := inferInstanceAs (Decidable (_ ∧ _))

/-- Every run ends well, inside of the objects and with the same chip in use. -/
abbrev Ends (x : Call α) : Prop := Only Event.InObject Mem.index x

/-- An entry that looks into its private table before it does anything that could fail. -/
structure Subscripted (f : Int → Call α) : Prop where
  inside : ∀ i : Fin 4, Ends (f (i : Nat))
  outside : ∀ channel, ¬InRange channel → ∀ w, FaultsAt Event.InTable (f channel) w

/-- Another channel is no entry of the device table. -/
theorem run_devChannel_outside {channel : Int} (h : ¬InRange channel) (w : Board) :
    devChannel channel w = .error () (w.after 0 [.outOfTable channel]) := by
  have hout : ¬(0 ≤ channel ∧ channel < 4) := h
  unfold devChannel
  rw [dif_neg hout]
  rfl

/-- Looking up another channel is the fault itself. -/
theorem faultsAt_devChannel {channel : Int} (h : ¬InRange channel) (w : Board) :
    FaultsAt Event.InTable (devChannel channel) w :=
  ⟨_, [.outOfTable channel], run_devChannel_outside h w, rfl, _, List.mem_singleton_self _, id⟩

/-- The subscript comes first, and nothing behind it fails. -/
theorem Subscripted.of {g : Int → Fin 4 → Call α} (hg : ∀ channel i, Ends (g channel i)) :
    Subscripted fun channel => devChannel channel >>= g channel where
  inside i w := by
    obtain ⟨a, w', es, hrun, hends⟩ := hg (i : Nat) i w
    exact ⟨a, w', es, by rw [run_bind, run_devChannel]; exact hrun, hends⟩
  outside _ h w := (faultsAt_devChannel h w).bind

section Ends

variable (channel : Int)

/-- Reading a register needs no table. -/
theorem ends_readModReg (type regAddr : Byte) (len : Nat) (pRead : Nat → Byte) :
    Ends (readModReg channel type regAddr len pRead) :=
  .bind (.ask fun _ => trivial) fun _ => .pure _

/-- The hi8394's extended commands need no table. -/
theorem ends_hi8394EnableExtendCmd (enable : Bool) : Ends (hi8394EnableExtendCmd channel enable) :=
  .ite (.emit trivial) (.emit trivial)

/-- Its times are read without a table. -/
theorem ends_hi8394GetVcomOtpTimes : Ends (hi8394GetVcomOtpTimes channel) :=
  .bind (ends_hi8394EnableExtendCmd channel true) fun _ =>
    .bind (ends_readModReg channel _ _ _ _) fun _ => .pure _

/-- Its VCOM is read without a table. -/
theorem ends_hi8394ReadVcom (index : Int) : Ends (hi8394ReadVcom channel index) :=
  .bind (ends_hi8394EnableExtendCmd channel true) fun _ =>
    .bind (ends_readModReg channel _ _ _ _) fun _ => .pure _

/-- Its analog registers are written without a table. -/
theorem ends_chipHi8394WriteAnalogReg (p : Nat → Byte) : Ends (chipHi8394WriteAnalogReg channel p) :=
  .emit_bind trivial <| .emit_bind trivial <| .emit trivial

/-- Its digital registers are written without a table. -/
theorem ends_hx8394WriteD3gReg2 (r g b : Nat → Byte) : Ends (hx8394WriteD3gReg2 channel r g b) :=
  .emit_bind trivial <| .emit_bind trivial <| .emit_bind trivial <| .emit_bind trivial <|
    .emit_bind trivial <| .emit trivial

/-- Digital gamma is switched without a table. -/
theorem ends_hx8394DigitalGammaControl (value : Byte) :
    Ends (hx8394DigitalGammaControl channel value) :=
  .emit_bind trivial <| .bind (ends_hi8394EnableExtendCmd channel true) fun _ =>
    .emit_bind trivial <| .emit_bind trivial <| .emit trivial

/-- The icn9706's second command level needs no table. -/
theorem ends_icn9706EnableLevel2Cmd : Ends (icn9706EnableLevel2Cmd channel) :=
  .emit_bind trivial <| .emit_bind trivial <| .emit trivial

/-- Its VCOM is read without a table. -/
theorem ends_icn9706ReadVcom : Ends (icn9706ReadVcom channel) :=
  .bind (ends_icn9706EnableLevel2Cmd channel) fun _ =>
    .bind (ends_readModReg channel _ _ _ _) fun _ => .pure _

/-- Its times are read without a table. -/
theorem ends_icn9706GetVcomOtpTimes : Ends (icn9706GetVcomOtpTimes channel) :=
  .bind (ends_icn9706EnableLevel2Cmd channel) fun _ =>
    .bind (ends_readModReg channel _ _ _ _) fun _ => .pure _

/-! ### Entries without a subscript -/

/-- The channel goes to the bridge alone. -/
theorem ends_hx8394WriteD3gControl (enable : CInt) : Ends (hx8394WriteD3gControl channel enable) :=
  .bind (ends_hx8394DigitalGammaControl channel _) fun _ => .pure _

/-- The hi8394 has no fixed table. -/
theorem ends_hx8394WriteFixAnalogGammaRegData : Ends (hx8394WriteFixAnalogGammaRegData channel) :=
  .emit_bind trivial <| .bind (ends_hi8394EnableExtendCmd channel true) fun _ =>
    .bind (ends_chipHi8394WriteAnalogReg channel _) fun _ =>
    .bind (ends_hx8394DigitalGammaControl channel _) fun _ => .emit_bind trivial <| .pure _

/-- The hi8394's table is read back over the bridge. -/
theorem ends_hx8394ReadAnalogGammaRegData (p : Nat → Byte) (len : Int) :
    Ends (hx8394ReadAnalogGammaRegData channel p len) :=
  .emit_bind trivial <| .bind (ends_hi8394EnableExtendCmd channel true) fun _ =>
    .bind (ends_readModReg channel _ _ _ _) fun _ => .emit_bind trivial <| .pure _

/-- The icn9706's table is read back over the bridge. -/
theorem ends_chipIcn9706ReadAnalogGammaRegData (p : Nat → Byte) (len : Int) :
    Ends (chipIcn9706ReadAnalogGammaRegData channel p len) :=
  .emit_bind trivial <| .bind (ends_icn9706EnableLevel2Cmd channel) fun _ =>
    .bind (ends_readModReg channel _ _ _ _) fun _ => .emit_bind trivial <| .pure _

/-- The fixed analog table is written over the bridge. -/
theorem ends_chipIcn9706WriteFixAnalogGammaRegData :
    Ends (chipIcn9706WriteFixAnalogGammaRegData channel) :=
  .emit_bind trivial <| .bind (ends_icn9706EnableLevel2Cmd channel) fun _ =>
    .emit_bind trivial <| .emit_bind trivial <| .pure _

/-- The fixed digital table is written over the bridge. -/
theorem ends_chipIcn9706WriteFixDigitalGammaRegData :
    Ends (chipIcn9706WriteFixDigitalGammaRegData channel) :=
  .emit_bind trivial <| .bind (ends_icn9706EnableLevel2Cmd channel) fun _ =>
    .emit_bind trivial <| .emit_bind trivial <| .emit_bind trivial <| .emit_bind trivial <|
    .emit_bind trivial <| .pure _

/-- Digital gamma is switched over the bridge. -/
theorem ends_chipIcn9706WriteD3gControl (enable : CInt) :
    Ends (chipIcn9706WriteD3gControl channel enable) :=
  .emit_bind trivial <| .emit_bind trivial <| .emit_bind trivial <| .pure _

/-- The hx8298c is selected over the virtual SPI of the channel. -/
theorem ends_chipHx8298cStart (addr : Byte) : Ends (chipHx8298cStart channel addr) :=
  .bind (.emit_bind trivial <| .emit_bind trivial <| .emit_bind trivial <| .emit_bind trivial <|
    .emit trivial) fun _ => .emit trivial

/-- Its registers are read over the virtual SPI. -/
theorem ends_chipHx8298cReadReg (addr : Byte) : Ends (chipHx8298cReadReg channel addr) :=
  .bind (ends_chipHx8298cStart channel addr) fun _ =>
    .bind (.bind (.ask fun _ => trivial) fun _ => .pure _) fun _ => .emit_bind trivial <| .pure _

/-- Its page is set over the virtual SPI. -/
theorem ends_chipHx8298cSetPage (pageNo : Byte) : Ends (chipHx8298cSetPage channel pageNo) :=
  .bind (ends_chipHx8298cStart channel 0x00) fun _ => .emit_bind trivial <| .emit trivial

/-- Its times are read over the virtual SPI. -/
theorem ends_chipHx8298cReadVcomOtpTimes : Ends (chipHx8298cReadVcomOtpTimes channel) :=
  .bind (ends_chipHx8298cSetPage channel 1) fun _ => .bind (ends_chipHx8298cReadReg channel _) fun _ =>
    .bind (ends_chipHx8298cReadReg channel _) fun _ => .pure _

/-- The burn sends what it is given: whichever of the routines it takes, nothing is looked up. -/
theorem ends_hx8394BurnGammaOtpValues (burnFlag : CInt) (enableBurnVcom : Bool) (vcom : CInt)
    (a r g b : Buf) : Ends (hx8394BurnGammaOtpValues channel burnFlag enableBurnVcom vcom a r g b) := by
  -- the preparation: reset, the VCOM if it is burnt, and the tables
  have hprepare : ∀ vcomValue : List Byte, Ends (hx8394BurnPrepare channel enableBurnVcom vcomValue
      a.data r.data g.data b.data) := by
    intro vcomValue
    have hrest : Ends (do
        chipHi8394WriteAnalogReg channel a.data
        hx8394WriteD3gReg2 channel r.data g.data b.data
        msleep 100
        mipi2828Write2IC channel 0xBB [0x00, 0x00, 0x00, 0x00, 0x00, 0xAA, 0x55]) :=
      .bind (ends_chipHi8394WriteAnalogReg channel _) fun _ =>
        .bind (ends_hx8394WriteD3gReg2 channel _ _ _) fun _ => .emit_bind trivial <| .emit trivial
    refine .emit_bind trivial <| .emit_bind trivial <| .emit_bind trivial <| .emit_bind trivial <|
      .emit_bind trivial <| .emit_bind trivial <| ?_
    exact .ite (.emit_bind trivial hrest) hrest
  have hpower : Ends (hx8394VcomOtpPower channel enableBurnVcom) :=
    .ite (.emit_bind trivial <| .emit trivial) (.pure _)
  -- the two routines differ in their burn commands
  refine .ite (.bind ?_ fun _ => .pure _) (.bind ?_ fun _ => .pure _)
  · refine .bind (hprepare _) fun _ => .bind hpower fun _ => ?_
    iterate 12 refine .emit_bind trivial ?_
    exact .emit trivial
  · refine .bind (hprepare _) fun _ => .bind hpower fun _ => ?_
    iterate 10 refine .emit_bind trivial ?_
    exact .emit trivial

/-- The burn of the icn9706 looks into the tables it is given only. -/
theorem ends_chipIcn9706BurnGammaOtpValues (burnFlag : CInt) (enableBurnVcom : Bool) (vcom : CInt)
    (a r g b : Buf) :
    Ends (chipIcn9706BurnGammaOtpValues channel burnFlag enableBurnVcom vcom a r g b) := by
  have hwrite : Ends (icn9706WriteVcom channel vcom) :=
    .bind (ends_icn9706EnableLevel2Cmd channel) fun _ => .emit trivial
  have hpasswd : Ends (setPasswd channel) :=
    .emit_bind trivial <| .emit_bind trivial <| .emit_bind trivial <| .emit trivial
  refine .emit_bind trivial <| .bind (.emit_bind trivial ?_) fun _ => .pure _
  -- the VCOM is written before the tables, and read behind them
  refine .ite (.bind hwrite fun _ => ?_) ?_
  all_goals
    refine .emit_bind trivial <| .emit_bind trivial <| .emit_bind trivial <| .emit_bind trivial <|
      .emit_bind trivial <| .emit_bind trivial <| .bind hpasswd fun _ => .emit_bind trivial ?_
    exact .ite (.bind (ends_icn9706ReadVcom channel) fun _ => .emit trivial) (.emit trivial)

/-- The check of the hi8394 looks into the tables it is given only. -/
theorem ends_hx8394CheckGammaOtpValues (enableBurnVcom : Bool) (newVcomValue lastVcomOtpTimes : CInt)
    (a r g b : Buf) : Ends (hx8394CheckGammaOtpValues channel enableBurnVcom newVcomValue
      lastVcomOtpTimes a r g b) := by
  refine .emit_bind trivial <| .ite (.bind (ends_hi8394ReadVcom channel 0) fun _ =>
    .bind (ends_hi8394GetVcomOtpTimes channel) fun _ => .bind (.pure _) fun _ => ?_)
    (.bind (.pure _) fun _ => ?_)
  all_goals
    -- the four tables, the digital ones from their banks
    exact .bind (ends_readModReg channel _ _ _ _) fun _ => .emit_bind trivial <|
      .bind (ends_readModReg channel _ _ _ _) fun _ => .emit_bind trivial <|
      .bind (ends_readModReg channel _ _ _ _) fun _ => .emit_bind trivial <|
      .bind (ends_readModReg channel _ _ _ _) fun _ => .emit_bind trivial <| .pure _

/-- The check of the icn9706 looks into the tables it is given only. -/
theorem ends_chipIcn9706CheckGammaOtpValues (enableBurnVcom : Bool)
    (newVcomValue lastVcomOtpTimes : CInt) (a r g b : Buf) :
    Ends (chipIcn9706CheckGammaOtpValues channel enableBurnVcom newVcomValue lastVcomOtpTimes
      a r g b) := by
  refine .emit_bind trivial <| .ite (.bind (ends_icn9706ReadVcom channel) fun _ =>
    .bind (ends_icn9706GetVcomOtpTimes channel) fun _ => .bind (.pure _) fun _ => ?_)
    (.bind (.pure _) fun _ => ?_)
  all_goals
    exact .bind (ends_readModReg channel _ _ _ _) fun _ =>
      .bind (ends_readModReg channel _ _ _ _) fun _ =>
      .bind (ends_readModReg channel _ _ _ _) fun _ =>
      .bind (ends_readModReg channel _ _ _ _) fun _ => .emit_bind trivial <| .pure _

end Ends

/-! ### Entries with one -/

/-- The times of the hi8394 are kept in its device table. -/
theorem subscripted_chipHi8394ReadChipVcomOptTimes :
    Subscripted chipHi8394ReadChipVcomOptTimes :=
  .of fun channel _ => .bind .getMem fun _ => .ite
    (.bind (ends_hi8394GetVcomOtpTimes channel) fun _ => .pure _) (.pure _)

/-- The times of the icn9706 are kept in its device table. -/
theorem subscripted_chipIcn9706ReadChipVcomOptTimes :
    Subscripted chipIcn9706ReadChipVcomOptTimes :=
  .of fun channel _ => .bind .getMem fun _ => .ite
    (.bind (ends_icn9706GetVcomOtpTimes channel) fun _ => .pure _) (.pure _)

/-- The times of the ili9806e are kept in its device table; the page is set first. -/
theorem subscripted_chipIli9806eReadChipVcomOptTimes :
    Subscripted chipIli9806eReadChipVcomOptTimes := by
  have huninit : Ends uninit := fun w => ⟨_, w, [], rfl, by simp, nofun, rfl⟩
  exact .of fun channel _ => .bind .getMem fun _ => .ite
    (.bind (.bind (.bind huninit fun _ => .emit trivial) fun _ =>
      .bind (ends_readModReg channel _ _ _ _) fun _ => .pure _) fun _ => .pure _) (.pure _)

/-- The times of the jd9367 are kept in its device table. -/
theorem subscripted_chipJd9367ReadChipVcomOptTimes :
    Subscripted chipJd9367ReadChipVcomOptTimes :=
  .of fun channel _ => .bind .getMem fun _ => .ite
    (.bind (.emit_bind trivial <| .bind (ends_readModReg channel _ _ _ _) fun _ => .pure _) fun _ =>
      .pure _) (.pure _)

/-- The times of the otm8019a are kept in its device table. -/
theorem subscripted_chipOtm8019aReadChipVcomOptTimes :
    Subscripted chipOtm8019aReadChipVcomOptTimes :=
  .of fun channel _ => .bind .getMem fun _ => .ite
    (.bind (.emit_bind trivial <| .emit_bind trivial <| .emit_bind trivial <| .emit trivial) fun _ =>
      .emit_bind trivial <| .bind (ends_readModReg channel _ _ _ _) fun _ => .pure _) (.pure _)

/-- The hi8394's analog table is stored under its channel. -/
theorem subscripted_hx8394WriteAnalogGammaRegData {p : Nat → Byte} {len : Int} (hlen : 0 < len) :
    Subscripted fun channel => hx8394WriteAnalogGammaRegData channel (some p) len := by
  unfold hx8394WriteAnalogGammaRegData
  simp only [not_le.mpr hlen, if_false]
  exact .of fun channel _ => .bind (.modMem fun _ => rfl) fun _ => .emit_bind trivial <|
    .bind (ends_hi8394EnableExtendCmd channel true) fun _ => .bind .getMem fun _ =>
    .bind (ends_chipHi8394WriteAnalogReg channel _) fun _ => .emit_bind trivial <| .pure _

/-- The hi8394's digital tables are stored under its channel. -/
theorem subscripted_hx8394WriteAnalogDigitalGammaRegData {p : Nat → Byte} {len : Int}
    (hlen : 0 < len) :
    Subscripted fun channel => hx8394WriteAnalogDigitalGammaRegData channel (some p) len := by
  unfold hx8394WriteAnalogDigitalGammaRegData
  simp only [not_le.mpr hlen, if_false]
  exact .of fun channel _ => .emit_bind trivial <|
    .bind (ends_hi8394EnableExtendCmd channel true) fun _ => .bind .getMem fun _ =>
    .bind (ends_chipHi8394WriteAnalogReg channel _) fun _ => .bind (.modMem fun _ => rfl) fun _ =>
    .bind .getMem fun _ => .bind (ends_hx8394WriteD3gReg2 channel _ _ _) fun _ =>
    .emit_bind trivial <| .pure _

/-- The hi8394's analog table is copied from under its channel. -/
theorem subscripted_hx8394GetAnalogGammaRegData (a : Buf) :
    Subscripted fun channel => hx8394GetAnalogGammaRegData channel a :=
  .of fun _ _ => .bind .getMem fun _ => .pure _

/-- The hi8394's digital tables are copied from under its channel. -/
theorem subscripted_hx8394GetDigitalGammaRegData (r g b : Buf) :
    Subscripted fun channel => hx8394GetDigitalGammaRegData channel r g b :=
  .of fun _ _ => .bind .getMem fun _ => .pure _

/-- The icn9706's analog table is stored under its channel. -/
theorem subscripted_chipIcn9706WriteAnalogGammaRegData (p : Nat → Byte) (len : Int) :
    Subscripted fun channel => chipIcn9706WriteAnalogGammaRegData channel (some p) len :=
  .of fun channel _ => .bind (.modMem fun _ => rfl) fun _ => .emit_bind trivial <|
    .bind (ends_icn9706EnableLevel2Cmd channel) fun _ => .bind .getMem fun _ =>
    .emit_bind trivial <| .emit_bind trivial <| .pure _

/-- The icn9706's digital tables are stored under its channel. -/
theorem subscripted_chipIcn9706WriteDigitalGammaRegData (p : Nat → Byte) (len : Int) :
    Subscripted fun channel => chipIcn9706WriteDigitalGammaRegData channel (some p) len :=
  .of fun channel _ => .bind (.modMem fun _ => rfl) fun _ => .emit_bind trivial <|
    .bind (ends_icn9706EnableLevel2Cmd channel) fun _ => .bind .getMem fun _ =>
    .emit_bind trivial <| .emit_bind trivial <| .emit_bind trivial <| .emit_bind trivial <|
    .emit_bind trivial <| .emit_bind trivial <| .pure _

/-- The icn9706's analog table is copied from under its channel. -/
theorem subscripted_chipIcn9706GetAnalogGammaRegData (a : Buf) :
    Subscripted fun channel => chipIcn9706GetAnalogGammaRegData channel a :=
  .of fun _ _ => .bind .getMem fun _ => .pure _

end PgClient.Icm
