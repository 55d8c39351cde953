import PgClient.Icm.GammaEntries

/-!
# The entries of the flick search and of the power-up

The check of the chip, the VCOM, and the reset of the private info, for every chip.

* `Inside` — a call that indexes the tables inside their bounds, however it ends.
* `inside_icMgrCheckChipOk`, `inside_icMgrWriteVcom`, `inside_icMgrSetChannelState` — the calls do
  for the four channels.
-/

namespace PgClient.Icm

open DeviceLog

/-! ## otm8019a -/

/-- `otm_8019a_write_vcom`. -/
def otm8019aWriteVcom (channel : Int) (vcomValue : CInt) : Call Unit := do
  mipi2828Write2IC channel 0x00 [0x00]
  mipi2828Write2IC channel 0xD9 [vcomValue.setWidth 8]

/-- `chip_otm_8019a_write_vcom`. -/
def chipOtm8019aWriteVcom (channel : Int) (vcomValue : CInt) : Call Int := do
  let i ← devChannel channel
  let m ← getMem
  if (m.otm8019a i).idOk = 1 then
    otm8019aWriteVcom channel vcomValue
    pure 0
  else pure (-1)

/-- `chip_otm_8019a_get_and_reset_private_data`. -/
def chipOtm8019aGetAndResetPrivateData (channel : Int) : Call Unit := do
  let i ← devChannel channel
  modOtm8019a i fun _ => ⟨.replicate 5 0, 0, 0, 0⟩

/-! ## The manager -/

/-- `check_ok`, `write_vcom` and `reset_private_data` of `icm_chip_t`. -/
structure FlickEntries where
  resetPrivateData : Option (Int → Call Unit)
  checkOk : Option (Int → Call Int)
  writeVcom : Option (Int → CInt → Call Int)

def flickEntries : Chip → FlickEntries
  | .default =>
    { resetPrivateData := some fun _ => pure ()
      checkOk := some fun _ => pure (-1)
      writeVcom := some fun _ _ => pure (-1) }
  | .hi8394 =>
    { resetPrivateData := some chipHi8394GetAndResetPrivateData
      checkOk := some chipHi8394CheckChipOk
      writeVcom := some chipHi8394WriteVcom }
  | .icn9706 =>
    { resetPrivateData := some chipIcn9706GetAndResetPrivateData
      checkOk := some chipIcn9706CheckChipOk
      writeVcom := some chipIcn9706WriteVcom }
  | .ili9806e =>
    { resetPrivateData := some chipIli9806eGetAndResetPrivateData
      checkOk := some chipIli9806eCheckChipOk
      writeVcom := some chipIli9806eWriteVcom }
  | .jd9367 =>
    { resetPrivateData := some chipJd9367GetAndResetPrivateData
      checkOk := some chipJd9367CheckChipOk
      writeVcom := some chipJd9367WriteVcom }
  | .otm8019a =>
    { resetPrivateData := some chipOtm8019aGetAndResetPrivateData
      checkOk := some chipOtm8019aCheckChipOk
      writeVcom := some chipOtm8019aWriteVcom }
  | .hx8298c =>
    { resetPrivateData := none
      checkOk := some chipHx8298cCheckChipOk
      -- the parameter is an `unsigned char`
      writeVcom := some fun channel vcomValue => chipHx8298cWriteVcom channel (vcomValue.setWidth 8) }

def icMgrCheckChipOk (channel : Int) : Call Int :=
  icMgrOf flickEntries channel (fun chip => chip.checkOk.map fun f => f channel) (-1)

def icMgrWriteVcom (channel : Int) (vcomValue : CInt) : Call Int :=
  icMgrOf flickEntries channel (fun chip => chip.writeVcom.map fun f => f channel vcomValue) (-1)

/-- `ic_mgr_set_channel_state`; the state that it stores is looked at nowhere. -/
def icMgrSetChannelState (channel : Int) : Call Int := do
  icMgrOf flickEntries channel (fun chip => chip.resetPrivateData.map fun f => f channel) ()
  let _ ← devChannel channel
  pure 0

/-! ## Calls inside the tables -/

/-- Every run indexes the tables inside their bounds, whether it faults or not. -/
abbrev Inside (x : Call α) : Prop := Logs Event.InTable x

/-- A call that comes back from every board logs nothing outside the tables. -/
theorem inside_of_ends {x : Call α} (h : Ends x) : Inside x := fun w =>
  OnlyAt.logsAt (OnlyAt.mono (fun _ he => Event.InObject.inTable he) (h w))

section Channel

variable (i : Fin 4)

/-- One of the four channels is in every device table. -/
theorem ends_devChannel : Ends (devChannel (i : Nat)) := fun w =>
  ⟨i, w, [], run_devChannel w i, by simp, nofun, rfl⟩

/-! ### The checks -/

/-- The check of the hi8394 comes back on its four channels. -/
theorem ends_chipHi8394CheckChipOk : Ends (chipHi8394CheckChipOk (i : Nat)) := by
  have huninit : Ends uninit := fun w => ⟨_, w, [], rfl, by simp, nofun, rfl⟩
  have hid : ∀ pIdData, Ends (chipHi8394GetChipId (i : Nat) pIdData) := fun _ =>
    .bind huninit fun _ => .bind (ends_readModReg _ _ _ _ _) fun _ => .ite (.pure _) (.pure _)
  refine .bind (ends_devChannel i) fun _ => .bind .getMem fun _ => .bind (hid _) fun _ =>
    .bind (.modMem fun _ => rfl) fun _ => .ite (.bind (.modMem fun _ => rfl) fun _ => .pure _) ?_
  -- with the id of the chip its count and its VCOM are read
  exact .bind (.modMem fun _ => rfl) fun _ => .bind (ends_hi8394GetVcomOtpTimes _) fun _ =>
    .bind (.modMem fun _ => rfl) fun _ => .bind (ends_hi8394ReadVcom _ _) fun _ =>
    .bind (.modMem fun _ => rfl) fun _ => .pure _

/-- The check of the icn9706 comes back on its four channels. -/
theorem ends_chipIcn9706CheckChipOk : Ends (chipIcn9706CheckChipOk (i : Nat)) := by
  have hid : ∀ pIdData, Ends (chipIcn9706GetChipId (i : Nat) pIdData) := fun _ =>
    .bind (ends_readModReg _ _ _ _ _) fun _ => .ite (.pure _) (.pure _)
  have hvcom : ∀ index, Ends (icn9706ReadNvmVcom (i : Nat) index) := fun _ =>
    .bind (ends_icn9706EnableLevel2Cmd _) fun _ => .bind (ends_readModReg _ _ _ _ _) fun _ => .pure _
  refine .bind (ends_devChannel i) fun _ => .bind .getMem fun _ => .bind (hid _) fun _ =>
    .bind (.modMem fun _ => rfl) fun _ => .ite (.bind (.modMem fun _ => rfl) fun _ => .pure _) ?_
  exact .bind (.modMem fun _ => rfl) fun _ => .bind (ends_icn9706GetVcomOtpTimes _) fun _ =>
    .bind (.modMem fun _ => rfl) fun _ => .bind (hvcom 0) fun _ => .bind (hvcom 1) fun _ =>
    .bind (.modMem fun _ => rfl) fun _ => .pure _

/-- The ili9806e sets a page before each register. -/
theorem ends_ili9806SetPage (channel : Int) (page : Byte) : Ends (ili9806SetPage channel page) := by
  have huninit : Ends uninit := fun w => ⟨_, w, [], rfl, by simp, nofun, rfl⟩
  exact .bind huninit fun _ => .emit trivial

/-- Its times are read over three pages. -/
theorem ends_ili9806GetVcomOtpTimes (channel : Int) : Ends (ili9806GetVcomOtpTimes channel) :=
  .bind (ends_ili9806SetPage _ _) fun _ => .bind (ends_readModReg _ _ _ _ _) fun _ => .pure _

/-- The check of the ili9806e comes back on its four channels. -/
theorem ends_chipIli9806eCheckChipOk : Ends (chipIli9806eCheckChipOk (i : Nat)) := by
  have huninit : Ends uninit := fun w => ⟨_, w, [], rfl, by simp, nofun, rfl⟩
  -- the id is three reads behind a page,
  have hid : ∀ pIdData, Ends (chipIli9806eGetChipId (i : Nat) pIdData) := fun _ =>
    .bind (ends_ili9806SetPage _ _) fun _ => .bind (ends_ili9806SetPage _ _) fun _ =>
    .bind (ends_readModReg _ _ _ _ _) fun _ => .bind (ends_readModReg _ _ _ _ _) fun _ =>
    .bind (ends_readModReg _ _ _ _ _) fun _ => .ite (.pure _) (.pure _)
  -- a VCOM of the NVM is the times, a pause and a read
  have hvcom : ∀ index, Ends (ili9806ReadNvmVcom (i : Nat) index) := fun _ =>
    .bind (ends_ili9806SetPage _ _) fun _ => .bind (ends_ili9806GetVcomOtpTimes _) fun _ =>
    .bind huninit fun _ => .emit_bind trivial <| .bind huninit fun _ => .emit_bind trivial <|
    .emit_bind trivial <| .emit_bind trivial <| .emit_bind trivial <|
    .bind (ends_readModReg _ _ _ _ _) fun _ => .pure _
  refine .bind (ends_devChannel i) fun _ => .bind .getMem fun _ => .bind (hid _) fun _ =>
    .bind (.modMem fun _ => rfl) fun _ => .ite (.bind (.modMem fun _ => rfl) fun _ => .pure _) ?_
  exact .bind (.modMem fun _ => rfl) fun _ => .bind (ends_ili9806GetVcomOtpTimes _) fun _ =>
    .bind (.modMem fun _ => rfl) fun _ => .bind (hvcom 0) fun _ => .bind (hvcom 1) fun _ =>
    .bind (.modMem fun _ => rfl) fun _ => .pure _

/-- A read of the otm8019a needs no table. -/
theorem ends_otm8019aReadVcom (channel : Int) (pVcomValue : CInt) :
    Ends (otm8019aReadVcom channel pVcomValue) :=
  .emit_bind trivial <| .bind (ends_readModReg _ _ _ _ _) fun _ =>
    .ite (.pure _) (.ite (.pure _) (.pure _))

/-- The check of the otm8019a comes back on its four channels. -/
theorem ends_chipOtm8019aCheckChipOk : Ends (chipOtm8019aCheckChipOk (i : Nat)) := by
  have hid : ∀ pIdData, Ends (chipOtm8019aGetChipId (i : Nat) pIdData) := fun _ =>
    .bind (ends_readModReg _ _ _ _ _) fun _ => .ite (.pure _) (.pure _)
  refine .bind (ends_devChannel i) fun _ => .bind .getMem fun _ => .bind (hid _) fun _ =>
    .bind (.modMem fun _ => rfl) fun _ => .ite (.bind (.modMem fun _ => rfl) fun _ => .pure _) ?_
  exact .bind (.modMem fun _ => rfl) fun _ =>
    .bind (subscripted_chipOtm8019aReadChipVcomOptTimes.inside i) fun _ =>
    .bind (.modMem fun _ => rfl) fun _ => .bind (ends_otm8019aReadVcom _ _) fun _ =>
    .bind (.modMem fun _ => rfl) fun _ => .pure _

/-- The check of the hx8298c stores the id behind an id: that faults, but not in a table. -/
theorem inside_chipHx8298cCheckChipOk : Inside (chipHx8298cCheckChipOk (i : Nat)) := by
  -- the id that was read is taken for an address
  have hderef : ∀ n, Inside ((CPtr.ofInt n : CPtr Unit).deref) := by
    intro n w
    exact ⟨[], by rw [deref_ofInt]; simp, nofun⟩
  have hvcom : Inside (chipHx8298cReadVcom (i : Nat) 0) :=
    inside_of_ends <| .bind (ends_devChannel i) fun _ => .bind .getMem fun _ =>
      .ite (.bind (.bind (ends_chipHx8298cSetPage _ _) fun _ => ends_chipHx8298cReadReg _ _) fun _ =>
        .pure _) (.pure _)
  have hmod : ∀ j f, Inside (modHx8298c j f) := fun _ _ => inside_of_ends (.modMem fun _ => rfl)
  refine .bind (inside_of_ends (ends_devChannel i)) fun _ => .bind (inside_of_ends .getMem) fun _ =>
    .bind (.bind (inside_of_ends (ends_chipHx8298cSetPage _ _)) fun _ =>
      .bind (inside_of_ends (ends_chipHx8298cReadReg _ _)) fun _ => .bind (hderef _) fun _ =>
      inside_of_ends (.pure _)) fun _ => .bind (inside_of_ends .getMem) fun _ => ?_
  -- with a wrong id it stops, else times and VCOM are read
  exact .ite (.bind (hmod _ _) fun _ => inside_of_ends (.pure _)) <| .bind (hmod _ _) fun _ =>
    .bind (inside_of_ends (ends_chipHx8298cReadVcomOtpTimes _)) fun _ => .bind (hmod _ _) fun _ =>
    .bind hvcom fun _ => .bind (hmod _ _) fun _ => inside_of_ends (.pure _)

/-! ### The VCOMs -/

/-- Writing the hi8394's VCOM comes back on its four channels. -/
theorem ends_chipHi8394WriteVcom (vcomValue : CInt) : Ends (chipHi8394WriteVcom (i : Nat) vcomValue) := by
  have hwrite : Ends (hi8394WriteVcom (i : Nat) vcomValue) :=
    .bind (ends_hi8394EnableExtendCmd _ _) fun _ => .emit trivial
  refine .bind (ends_devChannel i) fun _ => .bind .getMem fun _ => .ite ?_ (.pure _)
  split
  · exact .bind hwrite fun _ => .pure _
  · exact .bind hwrite fun _ => .pure _

/-- Writing the icn9706's VCOM comes back on its four channels. -/
theorem ends_chipIcn9706WriteVcom (vcomValue : CInt) :
    Ends (chipIcn9706WriteVcom (i : Nat) vcomValue) := by
  have hwrite : Ends (icn9706WriteVcom (i : Nat) vcomValue) :=
    .bind (ends_icn9706EnableLevel2Cmd _) fun _ => .emit trivial
  refine .bind (ends_devChannel i) fun _ => .bind .getMem fun _ => .ite ?_ (.pure _)
  split
  · exact .bind hwrite fun _ => .pure _
  · exact .bind hwrite fun _ => .pure _

/-- Writing the ili9806e's VCOM comes back on its four channels. -/
theorem ends_chipIli9806eWriteVcom (vcomValue : CInt) :
    Ends (chipIli9806eWriteVcom (i : Nat) vcomValue) :=
  .bind (ends_devChannel i) fun _ => .bind .getMem fun _ => .ite
    (.bind (.bind (ends_ili9806SetPage _ _) fun _ => .bind (ends_ili9806SetPage _ _) fun _ =>
      .emit_bind trivial <| .emit_bind trivial <| .emit trivial) fun _ => .pure _) (.pure _)

/-- Writing the jd9367's VCOM comes back on its four channels. -/
theorem ends_chipJd9367WriteVcom (vcomValue : CInt) : Ends (chipJd9367WriteVcom (i : Nat) vcomValue) :=
  .bind (ends_devChannel i) fun _ => .bind .getMem fun _ => .ite
    (.bind (.emit_bind trivial <| .emit_bind trivial <| .emit_bind trivial <| .emit_bind trivial <|
      .emit trivial) fun _ => .pure _) (.pure _)

/-- Writing the otm8019a's VCOM comes back on its four channels. -/
theorem ends_chipOtm8019aWriteVcom (vcomValue : CInt) :
    Ends (chipOtm8019aWriteVcom (i : Nat) vcomValue) :=
  .bind (ends_devChannel i) fun _ => .bind .getMem fun _ => .ite
    (.bind (.emit_bind trivial <| .emit trivial) fun _ => .pure _) (.pure _)

/-- Writing the hx8298c's VCOM comes back on its four channels. -/
theorem ends_chipHx8298cWriteVcom (value : Byte) : Ends (chipHx8298cWriteVcom (i : Nat) value) := by
  have hstatus : ∀ enable, Ends (setIcWriteStatus (i : Nat) enable) := by
    intro enable
    unfold setIcWriteStatus
    exact .ite (.emit trivial) (.emit trivial)
  have hreg : ∀ addr value, Ends (chipHx8298cWriteReg (i : Nat) addr value) := fun _ _ =>
    .bind (ends_chipHx8298cStart _ _) fun _ => .emit_bind trivial <| .emit trivial
  exact .bind (ends_devChannel i) fun _ => .bind .getMem fun _ => .ite
    (.bind (hstatus true) fun _ => .bind (ends_chipHx8298cSetPage _ _) fun _ =>
      .bind (hreg _ _) fun _ => .bind (hreg _ _) fun _ => .bind (hstatus false) fun _ => .pure _)
    (.pure _)

/-! ### The manager calls -/

/-- A manager call stays inside if the entry of every driver does. -/
theorem inside_icMgrOf {ε : Type} (entries : Chip → ε) (channel : Int) (entry : ε → Option (Call α))
    (missing : α) (h : ∀ chip, Inside ((entry (entries chip)).getD (pure missing))) :
    Inside (icMgrOf entries channel entry missing) :=
  .bind (inside_of_ends .getMem) fun m => .ite (inside_of_ends (.pure _)) (h m.index)

/-- The check of the selected chip stays inside. -/
theorem inside_icMgrCheckChipOk : Inside (icMgrCheckChipOk (i : Nat)) := by
  refine inside_icMgrOf _ _ _ _ fun chip => ?_
  cases chip with
  | default => exact inside_of_ends (.pure _)
  | hi8394 => exact inside_of_ends (ends_chipHi8394CheckChipOk i)
  | icn9706 => exact inside_of_ends (ends_chipIcn9706CheckChipOk i)
  | ili9806e => exact inside_of_ends (ends_chipIli9806eCheckChipOk i)
  | jd9367 => exact inside_of_ends (.pure _)
  | otm8019a => exact inside_of_ends (ends_chipOtm8019aCheckChipOk i)
  | hx8298c => exact inside_chipHx8298cCheckChipOk i

/-- Writing the VCOM of the selected chip stays inside. -/
theorem inside_icMgrWriteVcom (vcomValue : CInt) : Inside (icMgrWriteVcom (i : Nat) vcomValue) := by
  refine inside_icMgrOf _ _ _ _ fun chip => inside_of_ends ?_
  cases chip with
  | default => exact .pure _
  | hi8394 => exact ends_chipHi8394WriteVcom i vcomValue
  | icn9706 => exact ends_chipIcn9706WriteVcom i vcomValue
  | ili9806e => exact ends_chipIli9806eWriteVcom i vcomValue
  | jd9367 => exact ends_chipJd9367WriteVcom i vcomValue
  | otm8019a => exact ends_chipOtm8019aWriteVcom i vcomValue
  | hx8298c => exact ends_chipHx8298cWriteVcom i _

/-- A reset stores into the entry of its channel. -/
theorem inside_icMgrSetChannelState : Inside (icMgrSetChannelState (i : Nat)) := by
  refine .bind (inside_icMgrOf _ _ _ _ fun chip => inside_of_ends ?_) fun _ =>
    .bind (inside_of_ends (ends_devChannel i)) fun _ => inside_of_ends (.pure _)
  cases chip with
  | default => exact .pure _
  | hx8298c => exact .pure _
  | _ => exact .bind (ends_devChannel i) fun _ => .modMem fun _ => rfl

end Channel

end PgClient.Icm
