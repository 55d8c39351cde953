import PgClient.Icm.Panel

/-!
# The otm8019a driver — burn check

`chip_otm_8019a.c`. Its check is not an instance of the common one: the burn
count is compared as an unsigned number, any higher count will do, and
`*p_read_vcom` is set to the VCOM asked for.

* `run_otm8019aCheck` — what it returns, for every chip.
-/

namespace PgClient.Icm

open DeviceLog

def modOtm8019a (i : Fin 4) (f : Otm8019aInfo → Otm8019aInfo) : Call Unit :=
  modMem fun m => { m with otm8019a := Function.update m.otm8019a i (f (m.otm8019a i)) }

/-- `unsigned char data[8] = {0xff, 0xff, 0xff, 0xff}`. -/
def otmData : Nat → Byte := fun i => if i < 4 then 0xFF else 0

/-- `otm_8019a_ready` and `otm_8019a_unlock`, which are the same. -/
def otm8019aReady (channel : Int) : Call Unit := do
  mipi2828Write2IC channel 0x00 [0x00]
  mipi2828Write2IC channel 0xFF [0x80, 0x19, 0x01]
  mipi2828Write2IC channel 0x00 [0x80]
  mipi2828Write2IC channel 0xFF [0x80, 0x19]

def otm8019aUnlock (channel : Int) : Call Unit := otm8019aReady channel

def otm8019aSleepOut (channel : Int) : Call Unit := mipi2828Write2IC channel 0x11 []

/-- `otm_8019a_read_vcom`: the result, and what is in the caller's variable. -/
def otm8019aReadVcom (channel : Int) (pVcomValue : CInt) : Call (Int × CInt) := do
  mipi2828Write2IC channel 0x00 [0x00]
  let read ← readModReg channel 1 0xD9 1 otmData
  -- a burnt VCOM is never 0xFF, the value of an empty register
  if read.1 ≤ 0 then pure (-1, pVcomValue)
  else if read.2 0 = 0xFF then pure (-1, pVcomValue)
  else pure (0, (read.2 0).setWidth 32)

/-- The VCOM that a call with a zeroed variable gets. -/
def otmVcom (reply : Option Reply) : CInt :=
  if replyLen reply ≤ 0 then 0
  else if filled reply 1 otmData 0 = 0xFF then 0
  else (filled reply 1 otmData 0).setWidth 32

/-- The number of burns marked in register `0xF1`. -/
def otmOtpTimes (data0 : Byte) : CInt :=
  (if data0 &&& 0x80 ≠ 0 then 1 else 0) + (if data0 &&& 0x40 ≠ 0 then 1 else 0) +
    (if data0 &&& 0x20 ≠ 0 then 1 else 0) + (if data0 &&& 0x10 ≠ 0 then 1 else 0)

/-- `chip_otm_8019a_read_chip_vcom_opt_times`: the result and the count. -/
def chipOtm8019aReadChipVcomOptTimes (channel : Int) : Call (Int × Option CInt) := do
  let i ← devChannel channel
  let m ← getMem
  if (m.otm8019a i).idOk = 1 then
    otm8019aReady channel
    mipi2828Write2IC channel 0x00 [0x02]
    let read ← readModReg channel 1 0xF1 1 otmData
    pure (0, some (otmOtpTimes (read.2 0)))
  else pure (-1, none)

/-- The id in the five bytes of `0xA1`. -/
def otmIdOk (data : Nat → Byte) : Prop :=
  data 0 = 0x01 ∧ data 1 = 0x8B ∧ data 2 = 0x80 ∧ data 3 = 0x19 ∧ data 4 = 0xFF

instance (data : Nat → Byte) : Decidable (otmIdOk data) := inferInstanceAs (Decidable (_ ∧ _))

/-- `chip_otm_8019a_get_chip_id`: the result, and what is stored. -/
def chipOtm8019aGetChipId (channel : Int) (pIdData : Vector Byte 5) :
    Call (Int × Vector Byte 5) := do
  let read ← readModReg channel 1 0xA1 5 zeroed
  if otmIdOk read.2 then pure (5, Vector.ofFn fun i => read.2 i) else pure (-1, pIdData)

/-- `chip_otm_8019a_check_chip_ok`. -/
def chipOtm8019aCheckChipOk (channel : Int) : Call Int := do
  let i ← devChannel channel
  let m ← getMem
  let got ← chipOtm8019aGetChipId channel (m.otm8019a i).id
  modOtm8019a i fun info => { info with id := got.2 }
  -- the result is tested here, not the buffer
  if got.1 < 0 then
    modOtm8019a i fun info => { info with idOk := 0 }
    pure (-1)
  else
    modOtm8019a i fun info => { info with idOk := 1 }
    let times ← chipOtm8019aReadChipVcomOptTimes channel
    modOtm8019a i fun info => { info with vcomOtpTimes := times.2.getD 0 }
    let vcom ← otm8019aReadVcom channel 0
    modOtm8019a i fun info => { info with vcom := vcom.2 }
    pure 0

/-- `chip_otm_8019a_check_vcom_otp_burn_ok`. -/
def chipOtm8019aCheckVcomOtpBurnOk (channel : Int) (vcomValue lastOtpTimes : CInt)
    (pReadVcom : Bool) : Call (EIcmError × Option CInt) := do
  otm8019aSleepOut channel
  otm8019aUnlock channel
  let val ← chipOtm8019aCheckChipOk channel
  if val ≠ 0 then pure (.readIdError, none)
  else
    let i ← devChannel channel
    let m ← getMem
    let read := if pReadVcom then some vcomValue else none
    -- any higher count is taken for the burn
    if (m.otm8019a i).vcomOtpTimes ≤ lastOtpTimes then pure (.vcomTimesNotChange, read)
    else if (m.otm8019a i).vcom ≠ vcomValue then pure (.vcomValueNotChange, read)
    else pure (.ok, read)

/-! ## The check, specified -/

/-- What the check returns past the id, from the answers to the two reads. -/
def otmVerdict (vcomValue lastOtpTimes : CInt) (times vcom : Option Reply) : EIcmError :=
  if otmOtpTimes (filled times 1 otmData 0) ≤ lastOtpTimes then .vcomTimesNotChange
  else if otmVcom vcom ≠ vcomValue then .vcomValueNotChange
  else .ok

/-- The VCOM is one read of 0xD9. -/
theorem run_otm8019aReadVcom (channel : Int) (w : Board) :
    ∃ val es, otm8019aReadVcom channel 0 w = .ok (val, otmVcom (w.reply 0)) (w.after 1 es) ∧
      es.filterMap regRead = [(0xD9, w.reply 0)] := by
  unfold otm8019aReadVcom otmVcom
  simp only [run_bind, run_mipi2828Write2IC, run_readModReg, World.after_reply, World.after_after]
  split_ifs <;> exact ⟨_, _, rfl, rfl⟩

/-- The id is one read, and refused where it is not the chip's. -/
theorem run_chipOtm8019aGetChipId (channel : Int) (pIdData : Vector Byte 5) (w : Board) :
    ∃ val pId es, chipOtm8019aGetChipId channel pIdData w = .ok (val, pId) (w.after 1 es) ∧
      (val < 0 ↔ ¬ otmIdOk (filled (w.reply 0) 5 zeroed)) ∧
      es.filterMap regRead = [(0xA1, w.reply 0)] := by
  unfold chipOtm8019aGetChipId
  simp only [run_bind, run_readModReg]
  split_ifs with hid
  · exact ⟨_, _, _, rfl, by simp [hid], rfl⟩
  · exact ⟨_, _, _, rfl, by simp [hid], rfl⟩

/-- The count is read whenever the id is marked as good. -/
theorem run_chipOtm8019aReadChipVcomOptTimes (i : Fin 4) (w : Board)
    (hid : (w.mem.otm8019a i).idOk = 1) :
    ∃ es, chipOtm8019aReadChipVcomOptTimes (i : Nat) w =
        .ok (0, some (otmOtpTimes (filled (w.reply 0) 1 otmData 0))) (w.after 1 es) ∧
      es.filterMap regRead = [(0xF1, w.reply 0)] := by
  simp only [chipOtm8019aReadChipVcomOptTimes, otm8019aReady, run_bind, run_devChannel, run_getMem,
    if_pos hid, run_mipi2828Write2IC, run_readModReg, run_pure, World.after_reply,
    World.after_after]
  exact ⟨_, rfl, rfl⟩

/-- `check_ok` with a good id. -/
theorem run_chipOtm8019aCheckChipOk (i : Fin 4) (w : Board)
    (hid : otmIdOk (filled (w.reply 0) 5 zeroed)) :
    ∃ m es, chipOtm8019aCheckChipOk (i : Nat) w = .ok 0 ((w.withMem m).after 3 es) ∧
      es.filterMap regRead = [(0xA1, w.reply 0), (0xF1, w.reply 1), (0xD9, w.reply 2)] ∧
      (m.otm8019a i).vcomOtpTimes = otmOtpTimes (filled (w.reply 1) 1 otmData 0) ∧
      (m.otm8019a i).vcom = otmVcom (w.reply 2) := by
  obtain ⟨val, pId, es, hgot, hval, hes⟩ :=
    run_chipOtm8019aGetChipId (i : Nat) (w.mem.otm8019a i).id w
  -- the id passes, so the result is the length and not negative
  have hpos : ¬ val < 0 := fun h => hval.mp h hid
  unfold chipOtm8019aCheckChipOk
  simp only [run_bind, run_devChannel, run_getMem, hgot, modOtm8019a, run_modMem,
    if_neg hpos]
  generalize hw₁ : World.withMem _ _ = w₁
  -- the flag is set, so the count is read and not refused
  have hok : (w₁.mem.otm8019a i).idOk = 1 := by simp [← hw₁]
  obtain ⟨fs, htimes, hfs⟩ := run_chipOtm8019aReadChipVcomOptTimes i w₁ hok
  rw [htimes]
  dsimp only
  generalize hw₂ : World.withMem _ _ = w₂
  obtain ⟨_, gs, hvcom, hgs⟩ := run_otm8019aReadVcom (i : Nat) w₂
  rw [hvcom]
  subst hw₂ hw₁
  refine ⟨_, es ++ fs ++ gs, by simp; rfl, ?_, ?_, ?_⟩
  · simp [List.filterMap_append, hes, hfs, hgs]
  · simp
  · simp

/-- `check_ok` with a bad id. -/
theorem run_chipOtm8019aCheckChipOk_bad (i : Fin 4) (w : Board)
    (hid : ¬ otmIdOk (filled (w.reply 0) 5 zeroed)) :
    ∃ w', chipOtm8019aCheckChipOk (i : Nat) w = .ok (-1) w' := by
  obtain ⟨val, pId, es, hgot, hval, -⟩ :=
    run_chipOtm8019aGetChipId (i : Nat) (w.mem.otm8019a i).id w
  unfold chipOtm8019aCheckChipOk
  simp only [run_bind, run_devChannel, run_getMem, hgot, modOtm8019a, run_modMem,
    if_pos (hval.mpr hid)]
  exact ⟨_, rfl⟩

/-- The writes before the check ask nothing. -/
theorem run_otm8019aWake (channel : Int) (w : Board) :
    ∃ es, (do otm8019aSleepOut channel; otm8019aUnlock channel : Call Unit) w =
        .ok () (w.after 0 es) ∧ es.filterMap regRead = [] :=
  ⟨_, by simp [otm8019aSleepOut, otm8019aUnlock, otm8019aReady]; rfl, rfl⟩

/-- **What the check returns**, for every chip. -/
theorem run_otm8019aCheck (i : Fin 4) (vcomValue lastOtpTimes : CInt) (pReadVcom : Bool)
    (w : Board) (hid : otmIdOk (filled (w.reply 0) 5 zeroed)) :
    ∃ m es, chipOtm8019aCheckVcomOtpBurnOk (i : Nat) vcomValue lastOtpTimes pReadVcom w =
        .ok (otmVerdict vcomValue lastOtpTimes (w.reply 1) (w.reply 2),
          if pReadVcom then some vcomValue else none) ((w.withMem m).after 3 es) ∧
      es.filterMap regRead = [(0xA1, w.reply 0), (0xF1, w.reply 1), (0xD9, w.reply 2)] := by
  obtain ⟨es, hwake, hes⟩ := run_otm8019aWake (i : Nat) w
  -- the check is that of the chip, and leaves the values it read
  obtain ⟨m, fs, hcheck, hfs, htimes, hvcom⟩ :=
    run_chipOtm8019aCheckChipOk i (w.after 0 es) (by simpa using hid)
  have hne : ¬ (0 : Int) ≠ 0 := by simp
  simp only [World.after_reply, Nat.zero_add] at hfs htimes hvcom
  refine ⟨m, es ++ fs, ?_, by rw [List.filterMap_append, hes, hfs]; rfl⟩
  unfold chipOtm8019aCheckVcomOtpBurnOk otmVerdict
  rw [← bind_assoc, run_bind, hwake]
  simp only [run_bind, hcheck, if_neg hne, run_devChannel, run_getMem, World.after_mem,
    World.withMem_mem, htimes, hvcom, World.after_after, World.after_withMem]
  split_ifs <;> simp

/-- With a wrong id the check stops there. -/
theorem run_otm8019aCheck_bad (i : Fin 4) (vcomValue lastOtpTimes : CInt) (pReadVcom : Bool)
    (w : Board) (hid : ¬ otmIdOk (filled (w.reply 0) 5 zeroed)) :
    ∃ w', chipOtm8019aCheckVcomOtpBurnOk (i : Nat) vcomValue lastOtpTimes pReadVcom w =
      .ok (.readIdError, none) w' := by
  obtain ⟨es, hwake, -⟩ := run_otm8019aWake (i : Nat) w
  obtain ⟨w', hcheck⟩ := run_chipOtm8019aCheckChipOk_bad i (w.after 0 es) (by simpa using hid)
  unfold chipOtm8019aCheckVcomOtpBurnOk
  rw [← bind_assoc, run_bind, hwake]
  exact ⟨w', by simp [hcheck]⟩

end PgClient.Icm
