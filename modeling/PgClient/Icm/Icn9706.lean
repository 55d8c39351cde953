import PgClient.Icm.Panel
import Mathlib.Data.List.GetD

/-!
# The icn9706 driver — burn check, VCOM and gamma tables

`chip_icn_9706.c`. One byte of id is read and stored three times. The burn
count and the VCOM are both in register `0xB6`.

The digital gamma tables are a block of three rows, stored in the private info of a channel; the
14th value of a row is made to differ from the 13th. The getter copies the rows out again, the
second and the third one with the length of the analog table.

* `chipIcn9706_reads` — what `check_ok` reads, and leaves in the private info,
  for every chip.
* `not_readsInRows` — what the getter hands out always depends on what is behind the rows.
* `fix_ordered_iff` — when a corrected row is still in order.
* `not_storesAndReturns` — what is kept of the tables, for every channel and every block.
-/

namespace PgClient.Icm

open DeviceLog

def modIcn9706 (i : Fin 4) (f : Icn9706Info → Icn9706Info) : Call Unit :=
  modMem fun m => { m with icn9706 := Function.update m.icn9706 i (f (m.icn9706 i)) }

/-- `icn_9706_enable_level_2_cmd`: the third write repeats `param1`. -/
def icn9706EnableLevel2Cmd (channel : Int) : Call Unit := do
  mipi2828Write2IC channel 0xF0 [0x5A, 0x5A]
  mipi2828Write2IC channel 0xF1 [0xA5, 0xA5]
  mipi2828Write2IC channel 0xF0 [0xA5, 0xA5]

/-- `icn_9706_get_vcom_otp_times`: the same count for both VCOMs. -/
def icn9706GetVcomOtpTimes (channel : Int) : Call (Byte × Byte) := do
  icn9706EnableLevel2Cmd channel
  let read ← readModReg channel 1 0xB6 3 zeroed
  pure (read.2 2, read.2 2)

/-- `icn_9706_read_nvm_vcom` into a zeroed variable. -/
def icn9706ReadNvmVcom (channel index : Int) : Call CInt := do
  icn9706EnableLevel2Cmd channel
  let read ← readModReg channel 1 0xB6 4 zeroed
  pure (if index = 0 then (read.2 0).setWidth 32
    else if index = 1 then (read.2 1).setWidth 32
    else 0)

/-- `chip_icn_9706_get_chip_id`: the result, and what the three bytes hold then. -/
def chipIcn9706GetChipId (channel : Int) (pIdData : Byte × Byte × Byte) :
    -- one byte stands for all three of the id
    Call (Int × (Byte × Byte × Byte)) := do
  let read ← readModReg channel 1 0x0A 3 zeroed
  if read.2 0 = 0x9C then pure (0, (read.2 0, read.2 0, read.2 0)) else pure (-1, pIdData)

/-- `chip_icn_9706_check_chip_ok`. -/
def chipIcn9706CheckChipOk (channel : Int) : Call Int := do
  let i ← devChannel channel
  let m ← getMem
  let got ← chipIcn9706GetChipId channel (m.icn9706 i).id
  let pId := got.2
  modIcn9706 i fun info => { info with id := pId }
  if pId.1 ≠ 0x9C ∨ pId.2.1 ≠ 0x9C ∨ pId.2.2 ≠ 0x9C then
    modIcn9706 i fun info => { info with idOk := 0 }
    pure (-1)
  else
    modIcn9706 i fun info => { info with idOk := 1 }
    let times ← icn9706GetVcomOtpTimes channel
    modIcn9706 i fun info =>
      { info with vcom1OtpTimes := times.1.setWidth 32, vcom2OtpTimes := times.2.setWidth 32 }
    let vcom1OtpValue ← icn9706ReadNvmVcom channel 0
    let vcom2OtpValue ← icn9706ReadNvmVcom channel 1
    modIcn9706 i fun info => { info with vcom1 := vcom1OtpValue, vcom2 := vcom2OtpValue }
    pure 0

/-- `chip_icn_9706_check_vcom_otp_burn_ok`. -/
def chipIcn9706BurnCheck : BurnCheck where
  checkOk := chipIcn9706CheckChipOk
  stored m i := ((m.icn9706 i).vcom1, (m.icn9706 i).vcom1OtpTimes)
  timesError := .vcomTimesNotChange
  valueError := .vcomValueNotChange

/-- `chip_icn_9706_read_chip_vcom_opt_times`: the result and the count. -/
def chipIcn9706ReadChipVcomOptTimes (channel : Int) : Call (Int × Option CInt) := do
  let i ← devChannel channel
  let m ← getMem
  if (m.icn9706 i).idOk = 1 then
    let times ← icn9706GetVcomOtpTimes channel
    pure (0, some (times.1.setWidth 32))
  else pure (-1, none)

/-! ## VCOM -/

def icn9706ReadVcom (channel : Int) : Call CInt := do
  icn9706EnableLevel2Cmd channel
  let read ← readModReg channel 1 0xB6 3 zeroed
  pure ((read.2 0).setWidth 32)

def icn9706WriteVcom (channel : Int) (vcomValue : CInt) : Call Unit := do
  icn9706EnableLevel2Cmd channel
  mipi2828Write2IC channel 0xB6 [vcomValue.setWidth 8, vcomValue.setWidth 8]

/-- `chip_icn_9706_read_vcom`: the result and the VCOM. -/
def chipIcn9706ReadVcom (channel : Int) : Call (Int × Option CInt) := do
  let i ← devChannel channel
  let m ← getMem
  if (m.icn9706 i).idOk = 1 then
    let vcom ← icn9706ReadVcom channel
    pure (0, some vcom)
  else pure (-1, none)

/-- `chip_icn_9706_write_vcom`: the burn count is looked at, but changes nothing. -/
def chipIcn9706WriteVcom (channel : Int) (vcomValue : CInt) : Call Int := do
  let i ← devChannel channel
  let m ← getMem
  if (m.icn9706 i).idOk = 1 then
    if (m.icn9706 i).vcom1OtpTimes = 0 then icn9706WriteVcom channel vcomValue
    else icn9706WriteVcom channel vcomValue
    pure 0
  else pure (-1)

/-- `chip_icn_9706_get_and_reset_private_data`: the gamma tables are filled with
ones and twos. -/
def chipIcn9706GetAndResetPrivateData (channel : Int) : Call Unit := do
  let i ← devChannel channel
  modIcn9706 i fun _ => ⟨⟨(0, 0, 0), 0, 0, 0, 0, 0⟩, .replicate 38 1,
    .replicate 3 (.replicate 26 2)⟩

/-! ## Gamma tables -/

def setPasswd (channel : Int) : Call Unit := do
  mipi2828Write2IC channel 0xF0 [0x5A, 0x5A]
  mipi2828Write2IC channel 0xF1 [0xA5, 0xA5]
  mipi2828Write2IC channel 0xF0 [0xB4, 0x4B]
  mipi2828Write2IC channel 0xCB [0x02, 0x01, 0x01]

/-- `chip_icn_9706_write_analog_gamma_reg_data`; `none` is `NULL`, which is not
checked for. -/
def chipIcn9706WriteAnalogGammaRegData (channel : Int) (pAnalogGammaRegData : Option (Nat → Byte))
    (_analogGammaRegLen : Int) : Call Int :=
  match pAnalogGammaRegData with
  | none => fault
  | some p => do
    let i ← devChannel channel
    modIcn9706 i fun info => { info with analogGammaRegData := table 38 p }
    setMipi2828HighSpeedMode channel false
    icn9706EnableLevel2Cmd channel
    let m ← getMem
    mipi2828Write2IC channel 0xC8 (m.icn9706 i).analogGammaRegData.toList
    setMipi2828HighSpeedMode channel true
    pure 0

/-- The 14th value of a row is made to differ from the 13th. -/
def icn9706FixD3g (row : Vector Byte 26) : Vector Byte 26 :=
  if row[13] = row[12] then row.set 13 (row[12] - 1) else row

/-- `chip_icn_9706_write_digital_gamma_reg_data`. -/
def chipIcn9706WriteDigitalGammaRegData (channel : Int)
    (pDigitalGammaRegData : Option (Nat → Byte)) (_digitalGammaRegLen : Int) : Call Int :=
  match pDigitalGammaRegData with
  | none => fault
  | some p => do
    let i ← devChannel channel
    modIcn9706 i fun info =>
      { info with digitalGammaRegData := #v[icn9706FixD3g (table 26 p),
          icn9706FixD3g (table 26 fun k => p (k + 26)),
          icn9706FixD3g (table 26 fun k => p (k + 26 * 2))] }
    setMipi2828HighSpeedMode channel false
    icn9706EnableLevel2Cmd channel
    let m ← getMem
    -- the analog gammas are sent again, from the table of the last write
    mipi2828Write2IC channel 0xC8 (m.icn9706 i).analogGammaRegData.toList
    mipi2828Write2IC channel 0xE3 [0x03]
    mipi2828Write2IC channel 0xE4 (m.icn9706 i).digitalGammaRegData[0].toList
    mipi2828Write2IC channel 0xE5 (m.icn9706 i).digitalGammaRegData[1].toList
    mipi2828Write2IC channel 0xE6 (m.icn9706 i).digitalGammaRegData[2].toList
    setMipi2828HighSpeedMode channel true
    pure 0

/-- `chip_icn_9706_get_analog_gamma_reg_data` into a buffer. -/
def chipIcn9706GetAnalogGammaRegData (channel : Int) (pAnalogGammaRegData : Buf) :
    Call (Int × Buf) := do
  let i ← devChannel channel
  let m ← getMem
  pure (0, pAnalogGammaRegData.fill (m.icn9706 i).analogGammaRegData.toList)

/-- The first twelve bytes of a private info, as they lie in memory. -/
def Icn9706Info.head (info : Icn9706Info) : List Byte :=
  [info.id.1, info.id.2.1, info.id.2.2, info.idOk] ++
    (List.range 4).map (fun k => info.vcom1.extractLsb' (8 * k) 8) ++
    (List.range 4).map (fun k => info.vcom1OtpTimes.extractLsb' (8 * k) 8)

/-- `chip_icn_9706_get_digital_gamma_reg_data` into three buffers. The second and
the third copy are as long as the analog table: twelve bytes of what lies
behind the row come along. -/
def chipIcn9706GetDigitalGammaRegData (channel : Int) (pD3gR pD3gG pD3gB : Buf) :
    Call (Int × Buf × Buf × Buf) := do
  let i ← devChannel channel
  let m ← getMem
  let rows := (m.icn9706 i).digitalGammaRegData
  let next ← devChannel (channel + 1)
  pure (0, ⟨copyIn rows[0].toList pD3gR.data, 26⟩,
    ⟨copyIn (rows[1].toList ++ rows[2].toList.take 12) pD3gG.data, 26⟩,
    ⟨copyIn (rows[2].toList ++ (m.icn9706 next).head) pD3gB.data, 26⟩)

def icn9706BurnVcomAndGammaData (channel : Int) (otpVcomValue : CInt) (burnVcom : Bool)
    (pAnalogGammaData pDgcDataR pDgcDataG pDgcDataB : Buf) : Call Unit := do
  setMipi2828HighSpeedMode channel false
  if burnVcom then icn9706WriteVcom channel otpVcomValue else pure ()
  mipi2828Write2IC channel 0xC8 (bytes pAnalogGammaData.data pAnalogGammaData.len.toNat)
  mipi2828Write2IC channel 0xE3 [0x03]
  mipi2828Write2IC channel 0xE4 (bytes pDgcDataR.data pDgcDataR.len.toNat)
  mipi2828Write2IC channel 0xE5 (bytes pDgcDataG.data pDgcDataG.len.toNat)
  mipi2828Write2IC channel 0xE6 (bytes pDgcDataB.data pDgcDataB.len.toNat)
  msleep 150
  setPasswd channel
  msleep 500
  -- the VCOM is read back and dropped
  if burnVcom then do
    let _ ← icn9706ReadVcom channel
    pure ()
  else pure ()
  setMipi2828HighSpeedMode channel true

/-- `chip_icn_9706_burn_gamma_otp_values`: the lengths of the digital tables are
the driver's own. -/
def chipIcn9706BurnGammaOtpValues (channel : Int) (_burnFlag : CInt) (enableBurnVcom : Bool)
    (vcom : CInt) (pAnalogGammaReg pD3gR pD3gG pD3gB : Buf) : Call Int := do
  setMipi2828HighSpeedMode channel false
  icn9706BurnVcomAndGammaData channel vcom enableBurnVcom pAnalogGammaReg ⟨pD3gR.data, 26⟩
    ⟨pD3gG.data, 26⟩ ⟨pD3gB.data, 26⟩
  pure 0

/-- `chip_icn_9706_check_gamma_otp_values`: the last mismatch found. -/
def chipIcn9706CheckGammaOtpValues (channel : Int) (enableBurnVcom : Bool)
    (newVcomValue lastVcomOtpTimes : CInt) (pAnalogGammaReg pD3gR pD3gG pD3gB : Buf) :
    Call Int := do
  setMipi2828HighSpeedMode channel false
  let checkError ← if enableBurnVcom then do
      let readVcom ← icn9706ReadVcom channel
      let otpTimes ← icn9706GetVcomOtpTimes channel
      let timesError : Int := if lastVcomOtpTimes + 1 ≠ otpTimes.2.setWidth 32 then 1 else 0
      pure (if newVcomValue ≠ readVcom then 2 else timesError)
    else pure 0
  let analog ← readModReg channel 1 0xC8 38 zeroed
  let r ← readModReg channel 1 0xE4 26 zeroed
  let g ← readModReg channel 1 0xE5 26 zeroed
  let b ← readModReg channel 1 0xE6 26 zeroed
  -- the four comparisons overwrite each other: the last table that differs is told
  let checkError := if bytes analog.2 38 ≠ bytes pAnalogGammaReg.data 38 then 3 else checkError
  let checkError := if bytes r.2 26 ≠ bytes pD3gR.data 26 then 4 else checkError
  let checkError := if bytes g.2 26 ≠ bytes pD3gG.data 26 then 5 else checkError
  let checkError := if bytes b.2 26 ≠ bytes pD3gB.data 26 then 6 else checkError
  setMipi2828HighSpeedMode channel true
  pure checkError

/-! ## The check, specified -/

/-- The id that `check_ok` looks at: the one read, or else the one stored before. -/
def icn9706Id (i : Fin 4) (w : Board) : Byte × Byte × Byte :=
  if replyByte (w.reply 0) 0 = 0x9C then (0x9C, 0x9C, 0x9C) else (w.mem.icn9706 i).id

/-- Reading the id leaves the one that `check_ok` looks at. -/
theorem run_chipIcn9706GetChipId (i : Fin 4) (w : Board) :
    ∃ val, chipIcn9706GetChipId (i : Nat) (w.mem.icn9706 i).id w = .ok (val, icn9706Id i w)
      (w.after 1 [.readModReg (BitVec.ofInt 8 (i : Nat)) 1 0x0A 3 (w.reply 0)]) := by
  unfold chipIcn9706GetChipId icn9706Id
  simp only [run_bind, run_readModReg, filled_zeroed (show 0 < 3 by decide)]
  split_ifs with hid
  · rw [hid]
    exact ⟨_, rfl⟩
  · exact ⟨_, rfl⟩

/-- The reads of the icn9706's check. -/
theorem chipIcn9706_reads (i : Fin 4) (w : Board) :
    chipIcn9706BurnCheck.Reads i w (icn9706Id i w = (0x9C, 0x9C, 0x9C))
      [(0x0A, w.reply 0), (0xB6, w.reply 1), (0xB6, w.reply 2), (0xB6, w.reply 3)] ((replyByte (w.reply 2) 0).setWidth 32)
      ((replyByte (w.reply 1) 2).setWidth 32) := by
  obtain ⟨val, hgot⟩ := run_chipIcn9706GetChipId i w
  constructor
  · intro hid
    rw [hid] at hgot
    refine ⟨_, 4, _, by simp [chipIcn9706BurnCheck, chipIcn9706CheckChipOk, hgot, modIcn9706,
      icn9706GetVcomOtpTimes, icn9706ReadNvmVcom, icn9706EnableLevel2Cmd, filled_zeroed]; rfl,
      -- id, count and both VCOMs are read, in this order
      ?_, ?_⟩
    · rfl
    · simp [chipIcn9706BurnCheck]
  · intro hid
    have hbad := id_ne hid
    exact ⟨-1, _, by decide, by
      simp only [chipIcn9706BurnCheck, chipIcn9706CheckChipOk, modIcn9706, run_bind,
        run_devChannel, run_getMem, hgot, run_modMem, if_pos hbad, run_pure]
      rfl⟩

/-! ## A row of the digital gamma table -/

/-- No value is above the one before it. -/
def NonIncreasing (row : Vector Byte 26) : Prop := ∀ k, (h : k + 1 < 26) → row[k + 1] ≤ row[k]

/-- The values around the 14th are all the same. -/
def Flat (row : Vector Byte 26) : Prop := row[12] = row[13] ∧ row[13] = row[14]

/-- The fix takes one off the fourteenth register where it equals the thirteenth. -/
theorem icn9706FixD3g_get {row : Vector Byte 26} (heq : row[13] = row[12]) (k : Nat) (hk : k < 26) :
    (icn9706FixD3g row)[k] = if k = 13 then row[12] - 1 else row[k] := by
  unfold icn9706FixD3g
  rw [if_pos heq, Vector.getElem_set]
  simp only [eq_comm]

/-- Only the 14th value is touched. -/
theorem icn9706FixD3g_get_of_ne (row : Vector Byte 26) {k : Nat} (hk : k < 26) (hne : k ≠ 13) :
    (icn9706FixD3g row)[k] = row[k] := by
  by_cases heq : row[13] = row[12]
  · rw [icn9706FixD3g_get heq k hk, if_neg hne]
  · unfold icn9706FixD3g
    rw [if_neg heq]

/-- **When a corrected row is in order**: if the 15th value leaves room below the 13th. A flat row
gets a dip, or at 0 the highest value of all. -/
theorem fix_ordered_iff {row : Vector Byte 26} (hrow : NonIncreasing row) :
    NonIncreasing (icn9706FixD3g row) ∧ (icn9706FixD3g row)[13] < (icn9706FixD3g row)[12] ↔
      ¬Flat row := by
  have h₁₃ := hrow 12 (by decide)
  have h₁₄ := hrow 13 (by decide)
  simp only [Nat.reduceAdd] at h₁₃ h₁₄
  by_cases heq : row[13] = row[12]
  · have hget := icn9706FixD3g_get heq
    have h12 := hget 12 (by decide)
    have h13 := hget 13 (by decide)
    have h14 := hget 14 (by decide)
    simp only [Nat.reduceEqDiff, reduceIte] at h12 h13 h14
    constructor
    · -- in a flat row the 15th value is not below the corrected 14th
      rintro ⟨hfix, hlt⟩ ⟨-, hflat⟩
      have hdip := hfix 13 (by decide)
      simp only [Nat.reduceAdd] at hdip
      rw [h13, h14] at hdip
      rw [h12, h13] at hlt
      bv_omega
    · intro hflat
      have hne : row[14] ≠ row[13] := fun h => hflat ⟨heq.symm, h.symm⟩
      refine ⟨fun k hk => ?_, by rw [h12, h13]; bv_omega⟩
      have hk' := hrow k hk
      rw [hget (k + 1) hk, hget k (by omega)]
      -- the two neighbours of the 14th value, and the pairs without it
      split_ifs with hhi hlo hlo
      · omega
      · obtain rfl : k = 12 := by omega
        bv_omega
      · subst hlo
        simp only [Nat.reduceAdd]
        bv_omega
      · exact hk'
  · -- there is a step already, and nothing is corrected
    have hfix : icn9706FixD3g row = row := by
      unfold icn9706FixD3g
      rw [if_neg heq]
    rw [hfix]
    refine iff_of_true ⟨hrow, ?_⟩ fun hflat => heq hflat.1.symm
    bv_omega

/-! ## The block and the getter -/

/-- The rows of a block, behind each other. -/
def inputRow (pDigitalGammaRegData : Nat → Byte) (j : Nat) : Vector Byte 26 :=
  table 26 fun k => pDigitalGammaRegData (k + 26 * j)

/-- What the getter hands out, with the info behind that of the channel. -/
theorem run_getDigital {c next : Fin 4} (hnext : (next : Int) = (c : Nat) + 1)
    (pD3gR pD3gG pD3gB : Buf) (w : Board) :
    let rows := (w.mem.icn9706 c).digitalGammaRegData
    chipIcn9706GetDigitalGammaRegData (c : Nat) pD3gR pD3gG pD3gB w =
      .ok (0, ⟨copyIn rows[0].toList pD3gR.data, 26⟩,
        ⟨copyIn (rows[1].toList ++ rows[2].toList.take 12) pD3gG.data, 26⟩,
        ⟨copyIn (rows[2].toList ++ (w.mem.icn9706 next).head) pD3gB.data, 26⟩) w := by
  unfold chipIcn9706GetDigitalGammaRegData
  rw [← hnext]
  simp only [run_bind, run_devChannel, run_getMem, run_pure]

/-- Nothing but the rows of the channel is read: what is handed out is the same in every
memory that holds these rows. -/
def ReadsInRows (c : Fin 4) (pD3gR pD3gG pD3gB : Buf) (w : Board) : Prop :=
  ∀ w' : Board,
    (w'.mem.icn9706 c).digitalGammaRegData = (w.mem.icn9706 c).digitalGammaRegData →
      ∃ out, chipIcn9706GetDigitalGammaRegData (c : Nat) pD3gR pD3gG pD3gB w = .ok out w ∧
        chipIcn9706GetDigitalGammaRegData (c : Nat) pD3gR pD3gG pD3gB w' = .ok out w'

/-- The byte behind the third row is the first one of the next info. -/
theorem copyIn_behind (row : Vector Byte 26) (next : Icn9706Info) (p : Nat → Byte) :
    copyIn (row.toList ++ next.head) p 26 = next.id.1 := by
  show (row.toList ++ next.head).getD 26 _ = _
  rw [List.getD_append_right _ _ _ _ (by simp), Vector.length_toList]
  rfl

/-- **The last copy goes behind the last row**: an id of the next channel is handed out, and
behind the last channel there is no info. -/
theorem not_readsInRows (c : Fin 4) (pD3gR pD3gG pD3gB : Buf) (w : Board) :
    ¬ReadsInRows c pD3gR pD3gG pD3gB w := by
  intro hreads
  by_cases hc : c.val < 3
  · obtain ⟨next, hval⟩ : ∃ next : Fin 4, next.val = c.val + 1 := ⟨⟨c + 1, by omega⟩, rfl⟩
    have hnext : (next : Int) = (c : Nat) + 1 := by omega
    have hne : c ≠ next := fun h => by rw [h] at hval; omega
    -- the same memory with another id behind the rows
    obtain ⟨info, hinfo⟩ : ∃ info, info = w.mem.icn9706 next := ⟨_, rfl⟩
    obtain ⟨out, hout, hout'⟩ := hreads
      (w.withMem { w.mem with
        icn9706 :=
          Function.update w.mem.icn9706 next { info with id := (info.id.1 + 1, info.id.2) } })
      (by simp only [World.withMem_mem, Function.update_of_ne hne])
    rw [run_getDigital hnext] at hout hout'
    obtain ⟨rfl, -⟩ := EStateM.Result.ok.inj hout
    have hb := congrArg (fun out => out.2.2.2.data 26) (EStateM.Result.ok.inj hout').1
    simp only [World.withMem_mem, Function.update_of_ne hne, Function.update_self, copyIn_behind,
      ← hinfo] at hb
    bv_omega
  · obtain rfl : c = 3 := by omega
    obtain ⟨out, hout, -⟩ := hreads w rfl
    cases hout

/-! ## The tables, stored and handed back -/

/-- The memory with a block stored. -/
def storedMem (c : Fin 4) (pDigitalGammaRegData : Nat → Byte) (m : Mem) : Mem :=
  { m with icn9706 := Function.update m.icn9706 c { m.icn9706 c with
      digitalGammaRegData := #v[icn9706FixD3g (table 26 pDigitalGammaRegData),
        icn9706FixD3g (table 26 fun k => pDigitalGammaRegData (k + 26)),
        icn9706FixD3g (table 26 fun k => pDigitalGammaRegData (k + 26 * 2))] } }

variable (c : Fin 4) (pDigitalGammaRegData : Nat → Byte) (digitalGammaRegLen : Int)
  (pD3gR pD3gG pD3gB : Buf) (w : Board)

/-- Writing the digital table keeps the fixed rows. -/
theorem run_writeDigital : ∃ es,
    chipIcn9706WriteDigitalGammaRegData (c : Nat) (some pDigitalGammaRegData) digitalGammaRegLen w =
      .ok 0 ((w.withMem (storedMem c pDigitalGammaRegData w.mem)).after 0 es) := by
  unfold chipIcn9706WriteDigitalGammaRegData
  simp only [run_bind, run_devChannel, modIcn9706, run_modMem, run_setMipi2828HighSpeedMode,
    icn9706EnableLevel2Cmd, run_mipi2828Write2IC, run_getMem, run_pure, World.after_after,
    World.after_mem, World.withMem_mem, Function.update_self, storedMem]
  exact ⟨_, rfl⟩

/-- A row as the channel keeps it. -/
def storedRow (j : Fin 3) : Vector Byte 26 :=
  ((final (chipIcn9706WriteDigitalGammaRegData (c : Nat) (some pDigitalGammaRegData)
    digitalGammaRegLen w)).mem.icn9706 c).digitalGammaRegData[j]

/-- What is stored of a colour is its row of the table, fixed. -/
theorem storedRow_eq (j : Fin 3) :
    storedRow c pDigitalGammaRegData digitalGammaRegLen w j =
      icn9706FixD3g (inputRow pDigitalGammaRegData j) := by
  obtain ⟨es, hrun⟩ := run_writeDigital c pDigitalGammaRegData digitalGammaRegLen w
  unfold storedRow
  rw [hrun]
  simp only [final_ok, World.after_mem, World.withMem_mem, storedMem, Function.update_self]
  obtain rfl | rfl | rfl : j = 0 ∨ j = 1 ∨ j = 2 := by omega
  all_goals simp [inputRow]

/-- A buffer holds a row, up to its 14th value. -/
def ReturnsRow (out : Buf) (row : Vector Byte 26) : Prop :=
  out.len = 26 ∧ ∀ k, (h : k < 26) → k ≠ 13 → out.data k = row[k]

/-- The getter, after the write, hands the rows back. -/
def ReturnsTables : Prop :=
  ∃ r g b w', (do
      let _ ← chipIcn9706WriteDigitalGammaRegData (c : Nat) (some pDigitalGammaRegData)
        digitalGammaRegLen
      chipIcn9706GetDigitalGammaRegData (c : Nat) pD3gR pD3gG pD3gB) w = .ok (0, r, g, b) w' ∧
    ReturnsRow r (inputRow pDigitalGammaRegData 0) ∧ ReturnsRow g (inputRow pDigitalGammaRegData 1) ∧
    ReturnsRow b (inputRow pDigitalGammaRegData 2)

/-- A row that comes in order is kept in order, with a step at the 14th value. -/
def KeepsOrder (j : Fin 3) : Prop :=
  NonIncreasing (inputRow pDigitalGammaRegData j) →
    NonIncreasing (storedRow c pDigitalGammaRegData digitalGammaRegLen w j) ∧
      (storedRow c pDigitalGammaRegData digitalGammaRegLen w j)[13] <
        (storedRow c pDigitalGammaRegData digitalGammaRegLen w j)[12]

/-- **What is asked of the tables.** -/
structure StoresAndReturns : Prop where
  inside : ReadsInRows c pD3gR pD3gG pD3gB
    (final (chipIcn9706WriteDigitalGammaRegData (c : Nat) (some pDigitalGammaRegData)
      digitalGammaRegLen w))
  returned : ReturnsTables c pDigitalGammaRegData digitalGammaRegLen pD3gR pD3gG pD3gB w
  ordered : ∀ j, KeepsOrder c pDigitalGammaRegData digitalGammaRegLen w j

/-- The fix breaks the order of the rows that do not rise and are flat around the 14th register. -/
theorem keepsOrder_iff (j : Fin 3) :
    KeepsOrder c pDigitalGammaRegData digitalGammaRegLen w j ↔
      ¬(NonIncreasing (inputRow pDigitalGammaRegData j) ∧ Flat (inputRow pDigitalGammaRegData j)) := by
  unfold KeepsOrder
  rw [storedRow_eq, not_and]
  exact forall_congr' fun hrow => fix_ordered_iff hrow

/-- A copy that starts with a corrected row holds the row, up to its 14th value. -/
theorem returnsRow_copyIn (row : Vector Byte 26) (behind : List Byte) (p : Nat → Byte) :
    ReturnsRow ⟨copyIn ((icn9706FixD3g row).toList ++ behind) p, 26⟩ row := by
  refine ⟨rfl, ?_⟩
  intro k hk hne
  show ((icn9706FixD3g row).toList ++ behind).getD k (p k) = _
  rw [List.getD_append _ _ _ _ (by simpa using hk), List.getD_eq_getElem _ _ (by simpa using hk),
    Vector.getElem_toList]
  exact icn9706FixD3g_get_of_ne row hk hne

/-- The rows come back on every channel but the last, behind which there is no info to copy from. -/
theorem returnsTables_iff :
    ReturnsTables c pDigitalGammaRegData digitalGammaRegLen pD3gR pD3gG pD3gB w ↔ c.val < 3 := by
  obtain ⟨es, hrun⟩ := run_writeDigital c pDigitalGammaRegData digitalGammaRegLen w
  unfold ReturnsTables
  rw [run_bind, hrun]
  constructor
  · -- on the last channel the getter faults
    rintro ⟨r, g, b, w', hget, -⟩
    by_contra hlast
    obtain rfl : c = 3 := by omega
    cases hget
  · intro hc
    let next : Fin 4 := ⟨c + 1, by omega⟩
    have hne : next ≠ c := fun h => by simpa [next] using congrArg Fin.val h
    -- what is copied behind the rows is of no matter for them
    refine ⟨_, _, _, _, by
      simp only [chipIcn9706GetDigitalGammaRegData, run_bind, run_devChannel, run_getMem]
      rw [show ((c : Nat) : Int) + 1 = (next : Nat) by simp [next], run_devChannel]; rfl, ?_, ?_, ?_⟩
    · have h := returnsRow_copyIn (inputRow pDigitalGammaRegData 0) [] pD3gR.data
      rw [List.append_nil] at h
      simpa [storedMem, inputRow] using h
    · simpa [storedMem, inputRow] using
        returnsRow_copyIn (inputRow pDigitalGammaRegData 1) _ pD3gG.data
    · simpa [storedMem, inputRow] using
        returnsRow_copyIn (inputRow pDigitalGammaRegData 2) _ pD3gB.data

/-- **The tables are never kept and handed back as they should be**, for the last copy leaves the
rows whatever they hold. The rows themselves come back on every channel but the last, and what is
stored is in order exactly if no row that comes in order is flat around its 14th value. -/
theorem not_storesAndReturns :
    ¬StoresAndReturns c pDigitalGammaRegData digitalGammaRegLen pD3gR pD3gG pD3gB w ∧
      (ReturnsTables c pDigitalGammaRegData digitalGammaRegLen pD3gR pD3gG pD3gB w ↔ c.val < 3) ∧
      ∀ j, KeepsOrder c pDigitalGammaRegData digitalGammaRegLen w j ↔
        ¬(NonIncreasing (inputRow pDigitalGammaRegData j) ∧ Flat (inputRow pDigitalGammaRegData j)) :=
  ⟨fun h => not_readsInRows c pD3gR pD3gG pD3gB _ h.inside,
    returnsTables_iff c pDigitalGammaRegData digitalGammaRegLen pD3gR pD3gG pD3gB w,
    keepsOrder_iff c pDigitalGammaRegData digitalGammaRegLen w⟩

/-- A block of one grey on channel 0. -/
theorem grey_not_storesAndReturns :
    ¬StoresAndReturns 0 (fun _ => 0x20) 78 ⟨zeroed, 255⟩ ⟨zeroed, 255⟩ ⟨zeroed, 255⟩
      ⟨fun _ => none, 0, [], .boot⟩ :=
  fun h => not_readsInRows 0 _ _ _ _ h.inside

end PgClient.Icm
