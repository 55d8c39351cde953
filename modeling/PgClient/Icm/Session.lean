import PgClient.Icm.Hi8394
import PgClient.Icm.Icn9706
import PgClient.Icm.Ili9806
import PgClient.Icm.Jd9367

/-!
# Chip sessions — the id flag

Four drivers keep an `id_ok` flag: `check_ok` sets it, `reset_private_data`
clears it, and `read_vcom` and `write_vcom` are refused without it. A session
is any sequence of these calls, on any channels and with any answers of the
chips.

* `steps_length` — no call of a session faults.
* `IdDriver.Checks` — what a `check_ok` does, by the id it looks at.
* `truthful_iff` — a session is truthful exactly when every `check_ok` in it is
  made where it can be trusted (`SoundAt`).
-/

namespace PgClient.Icm

open DeviceLog

/-! ## The drivers -/

/-- The drivers with an `id_ok` flag. -/
inductive IdDriver
  | hi8394
  | icn9706
  | ili9806e
  | jd9367
  deriving DecidableEq

namespace IdDriver

def info : IdDriver → Mem → Fin 4 → ChipInfo
  | .hi8394, m, i => (m.hx8394 i).toChipInfo
  | .icn9706, m, i => (m.icn9706 i).toChipInfo
  | .ili9806e, m, i => m.ili9806e i
  | .jd9367, m, i => m.jd9367 i

def getAndResetPrivateData : IdDriver → Int → Call Unit
  | .hi8394 => chipHi8394GetAndResetPrivateData
  | .icn9706 => chipIcn9706GetAndResetPrivateData
  | .ili9806e => chipIli9806eGetAndResetPrivateData
  | .jd9367 => chipJd9367GetAndResetPrivateData

def checkChipOk : IdDriver → Int → Call Int
  | .hi8394 => chipHi8394CheckChipOk
  | .icn9706 => chipIcn9706CheckChipOk
  | .ili9806e => chipIli9806eCheckChipOk
  | .jd9367 => chipJd9367CheckChipOk

def readVcom : IdDriver → Int → Call (Int × Option CInt)
  | .hi8394 => chipHi8394ReadVcom
  | .icn9706 => chipIcn9706ReadVcom
  | .ili9806e => chipIli9806eReadVcom
  | .jd9367 => chipJd9367ReadVcom

def writeVcom : IdDriver → Int → CInt → Call Int
  | .hi8394 => chipHi8394WriteVcom
  | .icn9706 => chipIcn9706WriteVcom
  | .ili9806e => chipIli9806eWriteVcom
  | .jd9367 => chipJd9367WriteVcom

/-- The register that holds the VCOM, or its low byte. -/
def vcomReg : IdDriver → Byte
  | .hi8394 | .icn9706 => 0xB6
  | .ili9806e | .jd9367 => 0x53

/-- The id that `check_ok` accepts, as it is stored; the jd9367's is that of
`jd_9367_check_id`, which nothing calls. -/
def goodId : IdDriver → Byte × Byte × Byte
  | .hi8394 => (0x83, 0x94, 0x0F)
  | .icn9706 => (0x9C, 0x9C, 0x9C)
  | .ili9806e => (0x98, 0x06, 0x04)
  | .jd9367 => (0x93, 0x67, 0xFF)

end IdDriver

/-- A call of a session. -/
inductive SessionCall
  | getAndResetPrivateData (i : Fin 4)
  | checkChipOk (i : Fin 4)
  | readVcom (i : Fin 4)
  | writeVcom (i : Fin 4) (vcomValue : CInt)

def IdDriver.call (d : IdDriver) : SessionCall → Call Int
  | .getAndResetPrivateData i => do
    d.getAndResetPrivateData (i : Nat)
    pure 0
  | .checkChipOk i => d.checkChipOk (i : Nat)
  | .readVcom i => Prod.fst <$> d.readVcom (i : Nat)
  | .writeVcom i vcomValue => d.writeVcom (i : Nat) vcomValue

abbrev SessionStep := Step Event (Option Reply) Mem SessionCall Int

/-! ## What a session should be -/

namespace IdDriver

variable (d : IdDriver)

/-- The events show that the chip of the channel was asked for its id, and
answered with the driver's. The icn9706's id is one byte. The jd9367 compares
with no id: any byte of the one-time memory that holds it would do. -/
def IdRead (i : Fin 4) (es : List Event) : Prop :=
  match d with
  | .hi8394 => ∃ r, .readModReg (BitVec.ofInt 8 (i : Nat)) 1 0x04 3 (some r) ∈ es ∧
      (r.data 0, r.data 1, r.data 2) = d.goodId
  | .icn9706 => ∃ r, .readModReg (BitVec.ofInt 8 (i : Nat)) 1 0x0A 3 (some r) ∈ es ∧
      (r.data 0, r.data 0, r.data 0) = d.goodId
  | .ili9806e => ∃ r₀ r₁ r₂, .readModReg (BitVec.ofInt 8 (i : Nat)) 1 0x00 1 (some r₀) ∈ es ∧
      .readModReg (BitVec.ofInt 8 (i : Nat)) 1 0x01 1 (some r₁) ∈ es ∧
      .readModReg (BitVec.ofInt 8 (i : Nat)) 1 0x02 1 (some r₂) ∈ es ∧
      (r₀.data 0, r₁.data 0, r₂.data 0) = d.goodId
  | .jd9367 => ∃ r, .readModReg (BitVec.ofInt 8 (i : Nat)) 1 0xED 1 (some r) ∈ es

/-- A VCOM call was carried out: it returned 0, after the register was read or
written. -/
def CarriedOut (s : SessionStep) : Prop :=
  match s.call with
  | .readVcom i => s.res = 0 ∧
      ∃ len reply, .readModReg (BitVec.ofInt 8 (i : Nat)) 1 d.vcomReg len reply ∈ s.events
  | .writeVcom i vcomValue => s.res = 0 ∧
      ∃ rest, .mipi2828Write2IC (i : Nat) d.vcomReg (vcomValue.setWidth 8 :: rest) ∈ s.events
  | _ => True

/-- The call takes back what an earlier `check_ok` of the channel said. -/
def Ends (i : Fin 4) (s : SessionStep) : Prop :=
  s.call = .getAndResetPrivateData i ∨ s.call = .checkChipOk i ∧ s.res ≠ 0

/-- A VCOM call on the channel. -/
def OnVcom (i : Fin 4) (s : SessionStep) : Prop :=
  s.call = .readVcom i ∨ ∃ vcomValue, s.call = .writeVcom i vcomValue

/-- A session in which every `check_ok` that returned 0 read the id in that very
call, and every VCOM call after it is carried out, until it is taken back. -/
structure Truthful (ss : List SessionStep) : Prop where
  checked : ∀ s ∈ ss, ∀ i, s.call = .checkChipOk i → s.res = 0 → d.IdRead i s.events
  carried : ∀ pre s mid t post, ss = pre ++ s :: (mid ++ t :: post) →
    ∀ i, s.call = .checkChipOk i → s.res = 0 → (∀ u ∈ mid, ¬ Ends i u) → OnVcom i t →
      d.CarriedOut t

/-! ## When it is -/

/-- The id that the chip answers with to a `check_ok` that starts here. -/
def answeredId (w : Board) : Option (Byte × Byte × Byte) :=
  match d with
  | .hi8394 => (w.reply 0).map fun r => (r.data 0, r.data 1, r.data 2)
  | .icn9706 => (w.reply 0).map fun r => (r.data 0, r.data 0, r.data 0)
  | .ili9806e => do
    let r₀ ← w.reply 0
    let r₁ ← w.reply 1
    let r₂ ← w.reply 2
    pure (r₀.data 0, r₁.data 0, r₂.data 0)
  -- no register is read, so there is no id in the answers
  | .jd9367 => none

/-- What the buffer of the id read holds when the chip does not answer: the
hi8394's is not initialised. -/
def staleBuffer (w : Board) : Byte × Byte × Byte :=
  match d with
  | .hi8394 => (w.mem.stack w.log.length 0, w.mem.stack w.log.length 1, w.mem.stack w.log.length 2)
  | _ => (0, 0, 0)

/-- A `check_ok` can be trusted here: the chip answers with the id, or nothing
else that passes for it is around. The jd9367's never can. -/
def SoundAt (i : Fin 4) (w : Board) : Prop :=
  d ≠ .jd9367 ∧
    (d.answeredId w = some d.goodId ∨
      (d.info w.mem i).id ≠ d.goodId ∧ (d.answeredId w = none → d.staleBuffer w ≠ d.goodId))

/-! ## What the calls do -/

/-- The id that `check_ok` looks at is the driver's: the one read, or the one
stored before. -/
def Accepts (i : Fin 4) (w : Board) : Prop :=
  (d.answeredId w).getD (d.staleBuffer w) = d.goodId ∨ (d.info w.mem i).id = d.goodId

/-- A check is sound where it accepts the chip's own id only. -/
theorem soundAt_iff {i : Fin 4} {w : Board} :
    d.SoundAt i w ↔ d ≠ .jd9367 ∧ (d.Accepts i w → d.answeredId w = some d.goodId) := by
  unfold SoundAt Accepts
  refine and_congr_right fun _ => ?_
  cases d.answeredId w with
  | none => simp [and_comm]
  | some id =>
    simp only [Option.some.injEq, Option.getD_some]
    tauto

/-- What a `check_ok` does on a channel, whatever the chip answers. -/
structure Checks (i : Fin 4) (w : Board) : Prop where
  passed : d.Accepts i w → ∃ w' es, d.checkChipOk (i : Nat) w = .ok 0 w' ∧ w'.log = w.log ++ es ∧
    (d.info w'.mem i).idOk = 1 ∧ (∀ j, j ≠ i → d.info w'.mem j = d.info w.mem j) ∧
    (d.IdRead i es ↔ d.answeredId w = some d.goodId)
  failed : ¬ d.Accepts i w → ∃ val w', val ≠ 0 ∧ d.checkChipOk (i : Nat) w = .ok val w' ∧
    ∀ j, j ≠ i → d.info w'.mem j = d.info w.mem j

/-- The id that the hi8394's check looks at is the chip's own where the check accepts. -/
theorem hi8394Id_eq_iff {i : Fin 4} {w : Board} :
    hi8394Id i w = (0x83, 0x94, 0x0F) ↔ IdDriver.hi8394.Accepts i w := by
  have hbuf : (IdDriver.hi8394.answeredId w).getD (IdDriver.hi8394.staleBuffer w) =
      (filled (w.reply 0) 3 (w.mem.stack w.log.length) 0,
        filled (w.reply 0) 3 (w.mem.stack w.log.length) 1,
        -- what is not answered leaves the buffer as the stack had it
        filled (w.reply 0) 3 (w.mem.stack w.log.length) 2) := by
    unfold answeredId
    cases w.reply 0 <;> rfl
  unfold Accepts hi8394Id
  rw [hbuf]
  simp only [goodId, Prod.mk.injEq, info]
  split_ifs with hread
  · simp [hread]
  · exact (or_iff_right hread).symm

/-- The hi8394's check looks at the id read, or else the one stored before. -/
theorem hi8394_checks (i : Fin 4) (w : Board) : IdDriver.hi8394.Checks i w := by
  obtain ⟨val, hgot⟩ := run_chipHi8394GetChipId i w
  constructor
  · intro hid
    -- the id passes: the flag is set and the id was read in this call if it was answered
    rw [hi8394Id_eq_iff.mpr hid] at hgot
    refine ⟨_, _, by simp [checkChipOk, chipHi8394CheckChipOk, hgot, modHx8394,
      hi8394GetVcomOtpTimes, hi8394ReadVcom, hi8394EnableExtendCmd]; rfl, rfl, ?_, ?_, ?_⟩
    · simp [info]
    · intro j hj
      simp [info, hj]
    · unfold IdRead answeredId
      cases w.reply 0 <;> simp
  · intro hid
    have hbad := id_ne (mt hi8394Id_eq_iff.mp hid)
    refine ⟨-1, _, by decide, by
      -- the id fails: the flag of this channel is cleared, the others stay
      simp only [checkChipOk, chipHi8394CheckChipOk, modHx8394, run_bind, run_devChannel,
        run_getMem, hgot, run_modMem, if_pos hbad, run_pure]
      rfl, ?_⟩
    intro j hj
    simp [info, hj]

/-- The id that the icn9706's check looks at is the chip's own where the check accepts. -/
theorem icn9706Id_eq_iff {i : Fin 4} {w : Board} :
    icn9706Id i w = (0x9C, 0x9C, 0x9C) ↔ IdDriver.icn9706.Accepts i w := by
  have hbuf : (IdDriver.icn9706.answeredId w).getD (IdDriver.icn9706.staleBuffer w) =
      (replyByte (w.reply 0) 0, replyByte (w.reply 0) 0, replyByte (w.reply 0) 0) := by
    unfold answeredId
    cases w.reply 0 <;> rfl
  unfold Accepts icn9706Id
  rw [hbuf]
  simp only [goodId, Prod.mk.injEq, and_self, info]
  split_ifs with hread
  · simp [hread]
  · exact (or_iff_right hread).symm

/-- The icn9706's check looks at the id read, or else the one stored before. -/
theorem icn9706_checks (i : Fin 4) (w : Board) : IdDriver.icn9706.Checks i w := by
  obtain ⟨val, hgot⟩ := run_chipIcn9706GetChipId i w
  constructor
  · intro hid
    rw [icn9706Id_eq_iff.mpr hid] at hgot
    -- accepted: the times and the VCOM are read and stored
    refine ⟨_, _, by simp [checkChipOk, chipIcn9706CheckChipOk, hgot, modIcn9706,
      icn9706GetVcomOtpTimes, icn9706ReadNvmVcom, icn9706EnableLevel2Cmd]; rfl, rfl, ?_, ?_, ?_⟩
    · simp [info]
    · intro j hj
      simp [info, hj]
    · unfold IdRead answeredId
      cases w.reply 0 <;> simp
  · intro hid
    -- refused: nothing is changed
    have hbad := id_ne (mt icn9706Id_eq_iff.mp hid)
    refine ⟨-1, _, by decide, by
      simp only [checkChipOk, chipIcn9706CheckChipOk, modIcn9706, run_bind, run_devChannel,
        run_getMem, hgot, run_modMem, if_pos hbad, run_pure]
      rfl, ?_⟩
    intro j hj
    simp [info, hj]

/-- The id that the ili9806e's check looks at is the chip's own where the check accepts. -/
theorem ili9806eId_eq_iff {i : Fin 4} {w : Board} :
    ili9806eId i w = (0x98, 0x06, 0x04) ↔ IdDriver.ili9806e.Accepts i w := by
  have hbuf : (IdDriver.ili9806e.answeredId w).getD (IdDriver.ili9806e.staleBuffer w) =
        IdDriver.ili9806e.goodId ↔
      replyByte (w.reply 0) 0 = 0x98 ∧ replyByte (w.reply 1) 0 = 0x06 ∧
        replyByte (w.reply 2) 0 = 0x04 := by
    unfold answeredId
    -- without an answer the byte is 0, and no byte of the id is
    cases w.reply 0 <;> cases w.reply 1 <;> cases w.reply 2 <;>
      simp [goodId, staleBuffer, replyByte]
  unfold Accepts ili9806eId
  rw [hbuf]
  split_ifs with hread
  · simp [hread]
  · exact (or_iff_right hread).symm

/-- The ili9806e's check looks at the id read, or else the one stored before. -/
theorem ili9806e_checks (i : Fin 4) (w : Board) : IdDriver.ili9806e.Checks i w := by
  obtain ⟨val, es, hgot, -, hread⟩ := run_chipIli9806eGetChipId i w
  constructor
  · intro hid
    rw [ili9806eId_eq_iff.mpr hid] at hgot
    -- accepted: the times and the VCOM are read and stored
    refine ⟨_, _, by simp [checkChipOk, chipIli9806eCheckChipOk, hgot, modIli9806e,
      ili9806GetVcomOtpTimes, ili9806ReadNvmVcom, ili9806SetPage]; rfl, rfl, ?_, ?_, ?_⟩
    · simp [info]
    · intro j hj
      simp [info, hj]
    · unfold IdRead answeredId
      simp only [List.mem_append, hread]
      cases w.reply 0 <;> cases w.reply 1 <;> cases w.reply 2 <;> simp
  · intro hid
    -- refused: nothing is changed
    have hbad := id_ne (mt ili9806eId_eq_iff.mp hid)
    refine ⟨-1, _, by decide, by
      simp only [checkChipOk, chipIli9806eCheckChipOk, modIli9806e, run_bind, run_devChannel,
        run_getMem, hgot, run_modMem, if_pos hbad, run_pure]
      rfl, ?_⟩
    intro j hj
    simp [info, hj]

/-- Every check but the jd9367's looks at the id read, or else the one stored before. -/
theorem checks (hd : d ≠ .jd9367) (i : Fin 4) (w : Board) : d.Checks i w := by
  cases d with
  | hi8394 => exact hi8394_checks i w
  | icn9706 => exact icn9706_checks i w
  | ili9806e => exact ili9806e_checks i w
  | jd9367 => exact absurd rfl hd

section Calls

variable (i : Fin 4) (w : Board)

/-- No `check_ok` clears the flag and returns 0, or touches another channel. -/
theorem run_checkChipOk : ∃ val w', d.checkChipOk (i : Nat) w = .ok val w' ∧
    (val = 0 → (d.info w.mem i).idOk = 1 → (d.info w'.mem i).idOk = 1) ∧
    ∀ j, j ≠ i → d.info w'.mem j = d.info w.mem j := by
  by_cases hd : d = .jd9367
  · subst hd
    -- `check_ok` of the jd9367 does nothing and returns 0
    exact ⟨0, w, rfl, fun _ hok => hok, fun _ _ => rfl⟩
  · by_cases hid : d.Accepts i w
    · obtain ⟨w', es, hrun, -, hok, hother, -⟩ := (d.checks hd i w).passed hid
      exact ⟨0, w', hrun, fun _ _ => hok, hother⟩
    · obtain ⟨val, w', hval, hrun, hother⟩ := (d.checks hd i w).failed hid
      exact ⟨val, w', hrun, fun h => absurd h hval, hother⟩

/-- Resetting a channel's data leaves the others'. -/
theorem run_getAndResetPrivateData : ∃ w', d.getAndResetPrivateData (i : Nat) w = .ok () w' ∧
    ∀ j, j ≠ i → d.info w'.mem j = d.info w.mem j := by
  cases d with
  | hi8394 =>
    refine ⟨_, by simp [getAndResetPrivateData, chipHi8394GetAndResetPrivateData, modHx8394]; rfl, ?_⟩
    intro j hj
    simp [info, hj]
  | icn9706 =>
    refine ⟨_, by simp [getAndResetPrivateData, chipIcn9706GetAndResetPrivateData, modIcn9706]; rfl, ?_⟩
    intro j hj
    simp [info, hj]
  | ili9806e =>
    refine ⟨_, by simp [getAndResetPrivateData, chipIli9806eGetAndResetPrivateData, modIli9806e]; rfl, ?_⟩
    intro j hj
    simp [info, hj]
  | jd9367 =>
    refine ⟨_, by simp [getAndResetPrivateData, chipJd9367GetAndResetPrivateData]; rfl, ?_⟩
    intro j hj
    simp [info, hj]

/-- The read of the VCOM behind the flag. -/
def lowReadVcom : IdDriver → Int → Call CInt
  | .hi8394, channel => hi8394ReadVcom channel 0
  | .icn9706, channel => icn9706ReadVcom channel
  | .ili9806e, channel => ili9806ReadVcom channel
  | .jd9367, channel => jd9367ReadVcom channel

/-- The write of the VCOM behind the flag, by the burn count stored. -/
def lowWriteVcom : IdDriver → CInt → Int → CInt → Call Unit
  | .hi8394, _, channel, vcomValue => hi8394WriteVcom channel vcomValue
  | .icn9706, _, channel, vcomValue => icn9706WriteVcom channel vcomValue
  | .ili9806e, times, channel, vcomValue => ili9806WriteVcom channel vcomValue (times ≠ 0)
  | .jd9367, times, channel, vcomValue => jd9367WriteVcom channel vcomValue (times ≠ 0)

/-- The VCOM is read where the id was found. -/
theorem run_readVcom : d.readVcom (i : Nat) w =
    if (d.info w.mem i).idOk = 1 then ((fun vcom => (0, some vcom)) <$> d.lowReadVcom (i : Nat)) w
    else .ok (-1, none) w := by
  cases d <;>
    simp only [readVcom, chipHi8394ReadVcom, chipIcn9706ReadVcom, chipIli9806eReadVcom,
      chipJd9367ReadVcom, run_bind, run_devChannel, run_getMem, run_ite, run_pure, run_map] <;>
    rfl

/-- The VCOM is written where the id was found. -/
theorem run_writeVcom (vcomValue : CInt) : d.writeVcom (i : Nat) vcomValue w =
    if (d.info w.mem i).idOk = 1 then
      ((fun _ => 0) <$> d.lowWriteVcom (d.info w.mem i).vcom1OtpTimes (i : Nat) vcomValue) w
    else .ok (-1) w := by
  -- the guard is the same in the four drivers, but not what is behind it
  cases d <;>
    simp only [writeVcom, chipHi8394WriteVcom, chipIcn9706WriteVcom, chipIli9806eWriteVcom,
      chipJd9367WriteVcom, ite_self, run_bind, run_devChannel, run_getMem, run_ite, run_pure,
      run_map] <;>
    rfl

/-- Below the check of the id, the VCOM register is read on the channel of the call. -/
theorem run_lowReadVcom : ∃ vcom n es, d.lowReadVcom (i : Nat) w = .ok vcom (w.after n es) ∧
    ∃ len reply, .readModReg (BitVec.ofInt 8 (i : Nat)) 1 d.vcomReg len reply ∈ es := by
  cases d with
  | hi8394 =>
    refine ⟨_, _, _, by simp [lowReadVcom, hi8394ReadVcom, hi8394EnableExtendCmd]; exact ⟨rfl, rfl⟩,
      3, w.reply 0, ?_⟩
    simp [vcomReg]
  | icn9706 =>
    refine ⟨_, _, _, by simp [lowReadVcom, icn9706ReadVcom, icn9706EnableLevel2Cmd]; exact ⟨rfl, rfl⟩,
      3, w.reply 0, ?_⟩
    simp [vcomReg]
  | ili9806e =>
    refine ⟨_, _, _, by simp [lowReadVcom, ili9806ReadVcom, ili9806SetPage]; exact ⟨rfl, rfl⟩,
      1, w.reply 1, ?_⟩
    simp [vcomReg]
  | jd9367 =>
    refine ⟨_, _, _, by simp [lowReadVcom, jd9367ReadVcom]; exact ⟨rfl, rfl⟩,
      1, w.reply 1, ?_⟩
    simp [vcomReg]

/-- Below the check of the id, the low byte of the value is written to the VCOM register. -/
theorem run_lowWriteVcom (times vcomValue : CInt) :
    ∃ es, d.lowWriteVcom times (i : Nat) vcomValue w = .ok () (w.after 0 es) ∧
      ∃ rest, .mipi2828Write2IC (i : Nat) d.vcomReg (vcomValue.setWidth 8 :: rest) ∈ es := by
  cases d with
  | hi8394 =>
    refine ⟨_, by simp [lowWriteVcom, hi8394WriteVcom, hi8394EnableExtendCmd]; rfl, ?_⟩
    simp [vcomReg]
  | icn9706 =>
    refine ⟨_, by simp [lowWriteVcom, icn9706WriteVcom, icn9706EnableLevel2Cmd]; rfl, ?_⟩
    simp [vcomReg]
  | ili9806e =>
    refine ⟨_, by simp [lowWriteVcom, ili9806WriteVcom, ili9806SetPage]; rfl, ?_⟩
    simp [vcomReg]
  | jd9367 =>
    refine ⟨_, by simp [lowWriteVcom, jd9367WriteVcom]; rfl, ?_⟩
    simp [vcomReg]

end Calls

/-! ## One call of a session -/

/-- No call faults, and the flag of a channel stays set until an end of it. -/
theorem run_call (c : SessionCall) (w : Board) : ∃ res w', d.call c w = .ok res w' ∧
    ∀ i, (d.info w.mem i).idOk = 1 → ¬ Ends i ⟨c, w, res, w'⟩ → (d.info w'.mem i).idOk = 1 := by
  cases c with
  | getAndResetPrivateData k =>
    obtain ⟨w', hrun, hother⟩ := d.run_getAndResetPrivateData k w
    refine ⟨0, w', by simp [call, hrun], ?_⟩
    intro i hok hends
    -- a reset ends the session of its own channel only
    rw [hother i fun hik => hends (.inl (hik ▸ rfl))]
    exact hok
  | checkChipOk k =>
    obtain ⟨val, w', hrun, hsame, hother⟩ := d.run_checkChipOk k w
    refine ⟨val, w', hrun, ?_⟩
    intro i hok hends
    -- a check on another channel leaves the flag alone
    by_cases hik : i = k
    · subst hik
      refine hsame ?_ hok
      by_contra hval
      exact hends (.inr ⟨rfl, hval⟩)
    · rw [hother i hik]
      exact hok
  | readVcom k =>
    obtain ⟨vcom, n, es, hrun, -⟩ := d.run_lowReadVcom k w
    -- a refused call touches nothing, a carried-out one not the flag
    by_cases hk : (d.info w.mem k).idOk = 1
    · exact ⟨0, w.after n es, by simp only [call, run_map, run_readVcom, if_pos hk, hrun], fun i hok _ => hok⟩
    · exact ⟨-1, w, by simp only [call, run_map, run_readVcom, if_neg hk], fun i hok _ => hok⟩
  | writeVcom k vcomValue =>
    obtain ⟨es, hrun, -⟩ := d.run_lowWriteVcom k w (d.info w.mem k).vcom1OtpTimes vcomValue
    by_cases hk : (d.info w.mem k).idOk = 1
    · exact ⟨0, w.after 0 es, by simp only [call, run_map, run_writeVcom, if_pos hk, hrun],
        fun i hok _ => hok⟩
    · exact ⟨-1, w, by simp only [call, run_writeVcom, if_neg hk], fun i hok _ => hok⟩

/-- A call never faults, so a session is all of its calls. -/
theorem steps_length (cs : List SessionCall) (w : Board) :
    (steps d.call cs w).length = cs.length := by
  refine steps_length_of_ok (fun c w => ?_) cs w
  obtain ⟨res, w', hrun, -⟩ := d.run_call c w
  exact ⟨res, w', hrun⟩

variable {s : SessionStep} {i : Fin 4}

/-- A call that does not end the session keeps the id found. -/
theorem keeps (hs : d.call s.call s.before = .ok s.res s.after) (hends : ¬ Ends i s)
    (hok : (d.info s.before.mem i).idOk = 1) : (d.info s.after.mem i).idOk = 1 := by
  obtain ⟨res, w', hrun, hkeeps⟩ := d.run_call s.call s.before
  obtain ⟨rfl, rfl⟩ := EStateM.Result.ok.inj (hs.symm.trans hrun)
  exact hkeeps i hok hends

/-- With the id found, a call on the VCOM is carried out. -/
theorem carriedOut (hs : d.call s.call s.before = .ok s.res s.after) (hvcom : OnVcom i s)
    (hok : (d.info s.before.mem i).idOk = 1) : d.CarriedOut s := by
  unfold CarriedOut
  rcases hvcom with hc | ⟨vcomValue, hc⟩
  -- a VCOM that is read
  · rw [hc] at hs ⊢
    obtain ⟨vcom, n, es, hrun, len, reply, hmem⟩ := d.run_lowReadVcom i s.before
    simp only [call, run_map, run_readVcom, if_pos hok, hrun, EStateM.Result.ok.injEq] at hs
    refine ⟨hs.1.symm, len, reply, ?_⟩
    rw [Step.events, ← hs.2, World.after_log, List.drop_left]
    exact hmem
  · rw [hc] at hs ⊢
    obtain ⟨es, hrun, rest, hmem⟩ :=
      d.run_lowWriteVcom i s.before (d.info s.before.mem i).vcom1OtpTimes vcomValue
    simp only [call, run_map, run_writeVcom, if_pos hok, hrun, EStateM.Result.ok.injEq] at hs
    refine ⟨hs.1.symm, rest, ?_⟩
    rw [Step.events, ← hs.2, World.after_log, List.drop_left]
    exact hmem

/-- A `check_ok` keeps its word exactly when it can be trusted. -/
theorem checked_iff (hs : d.call s.call s.before = .ok s.res s.after)
    (hc : s.call = .checkChipOk i) :
    (s.res = 0 → d.IdRead i s.events) ↔ d.SoundAt i s.before := by
  rw [hc] at hs
  rw [soundAt_iff]
  by_cases hd : d = .jd9367
  · -- x
    -- 0 without a look at the chip
    subst hd
    obtain ⟨hres, hafter⟩ := EStateM.Result.ok.inj hs
    simp only [ne_eq, not_true_eq_false, false_and, iff_false]
    intro h
    obtain ⟨r, hmem⟩ := h hres.symm
    simp [Step.events, ← hafter] at hmem
  · rw [and_iff_right hd]
    by_cases hid : d.Accepts i s.before
    · -- 0 is returned and the id was accepted: right exactly if the chip answered it
      obtain ⟨w', es, hrun, hlog, -, -, hread⟩ := (d.checks hd i s.before).passed hid
      obtain ⟨hres, hafter⟩ := EStateM.Result.ok.inj (hs.symm.trans hrun)
      have hes : s.events = es := by
        rw [Step.events, hafter, hlog, List.drop_left]
      rw [hes, hread]
      simp [hres, hid]
    · obtain ⟨val, w', hval, hrun, -⟩ := (d.checks hd i s.before).failed hid
      -- a failing check says nothing of the id
      obtain ⟨hres, -⟩ := EStateM.Result.ok.inj (hs.symm.trans hrun)
      simp [hres, hval, hid]

/-- A `check_ok` that can be trusted and returns 0 leaves the flag set. -/
theorem flagged (hs : d.call s.call s.before = .ok s.res s.after)
    (hc : s.call = .checkChipOk i) (hres : s.res = 0) (hsound : d.SoundAt i s.before) :
    (d.info s.after.mem i).idOk = 1 := by
  rw [hc] at hs
  by_cases hid : d.Accepts i s.before
  · obtain ⟨w', es, hrun, -, hok, -⟩ := (d.checks hsound.1 i s.before).passed hid
    obtain ⟨-, hafter⟩ := EStateM.Result.ok.inj (hs.symm.trans hrun)
    rw [hafter]
    exact hok
  · obtain ⟨val, w', hval, hrun, -⟩ := (d.checks hsound.1 i s.before).failed hid
    obtain ⟨hval', -⟩ := EStateM.Result.ok.inj (hs.symm.trans hrun)
    exact absurd (hval' ▸ hres) hval

/-- **Truthful sessions**: the id flag tells the truth, and goes on doing so,
exactly when every `check_ok` of the session is made where it can be trusted. -/
theorem truthful_iff (cs : List SessionCall) (w : Board) :
    d.Truthful (steps d.call cs w) ↔
      ∀ s ∈ steps d.call cs w, ∀ i, s.call = .checkChipOk i → d.SoundAt i s.before := by
  constructor
  · intro h s hs i hc
    exact (d.checked_iff (steps_run s hs) hc).mp (h.checked s hs i hc)
  · intro h
    constructor
    · intro s hs i hc
      exact (d.checked_iff (steps_run s hs) hc).mpr (h s hs i hc)
    · intro pre s mid t post hss i hc hres hends ht
      have hmem : ∀ u, u ∈ s :: (mid ++ t :: post) → u ∈ steps d.call cs w := by
        intro u hu
        rw [hss]
        exact List.mem_append_right _ hu
      -- the check and all the calls behind it are calls of the run
      have hs := hmem s List.mem_cons_self
      have hflag := d.flagged (steps_run s hs) hc hres (h s hs i hc)
      -- the flag survives the calls in between
      have hok : (d.info t.before.mem i).idOk = 1 := by
        refine steps_between (P := fun w => (d.info w.mem i).idOk = 1) hss hflag fun u hu => ?_
        exact d.keeps (steps_run u (hmem u (by simp [hu]))) (hends u hu)
      exact d.carriedOut (steps_run t (hmem t (by simp))) ht hok

end IdDriver

/-- A panel that answers with the hi8394's id once, and with zeros after its
three reads. -/
def swappedPanel : Board where
  answers k := if k < 3 then replyOf [0x83, 0x94, 0x0F] else replyOf [0x00, 0x00, 0x00]
  asked := 0
  log := []
  mem := .boot

/-- The second panel passes for the first one. -/
theorem hi8394_stale_id_ok :
    ¬ IdDriver.hi8394.Truthful
      (steps IdDriver.hi8394.call [.checkChipOk 0, .checkChipOk 0] swappedPanel) := by
  intro h
  have hsecond := h.checked _ (List.mem_cons_of_mem _ List.mem_cons_self) 0 rfl
  rcases ((IdDriver.checked_iff .hi8394 rfl rfl).mp hsecond).2 with hread | ⟨hstored, -⟩
  · -- the answer is the second panel's
    exact absurd hread (by decide)
  · -- the stored id is the first one's
    exact hstored rfl

end PgClient.Icm
