import PgClient.Icm.Manager

/-!
# The check of the gamma tables after a burn

`check_gamma_otp_values` of the hi8394 and the icn9706: the VCOM and its burn count are read if
the VCOM was burnt, then the four tables. One variable takes the errors of all comparisons.

* `overwritten_eq_zero_iff` — it is 0 at the end exactly if no comparison failed.
* `run_checkGammaOtpValues` — what both drivers ask for, in order, and when they return 0.
-/

namespace PgClient.Icm

open DeviceLog

/-! ## The two drivers -/

/-- The drivers that check gamma tables. -/
inductive GammaDriver
  | hi8394
  | icn9706
  deriving DecidableEq

namespace GammaDriver

def checkGammaOtpValues : GammaDriver → Int → Bool → CInt → CInt → Buf → Buf → Buf → Buf → Call Int
  | .hi8394 => hx8394CheckGammaOtpValues
  | .icn9706 => chipIcn9706CheckGammaOtpValues

/-- The lengths of the four tables: analog, red, green, blue. -/
def analogLen : GammaDriver → Nat
  | .hi8394 => 58
  | .icn9706 => 38

def redLen : GammaDriver → Nat
  | .hi8394 => 43
  | .icn9706 => 26

def greenLen : GammaDriver → Nat
  | .hi8394 => 42
  | .icn9706 => 26

def blueLen : GammaDriver → Nat
  | .hi8394 => 42
  | .icn9706 => 26

/-- The burn count in the third byte of register `0xB6`. -/
def burnCount : GammaDriver → Byte → Byte
  | .hi8394, reg2 => hi8394OtpTimes reg2
  | .icn9706, reg2 => reg2

/-- What is sent before register `0xB6` is read. -/
def unlockEvents (channel : Int) : GammaDriver → List Event
  | .hi8394 => [.mipi2828Write2IC channel 0xB9 [0xFF, 0x83, 0x94]]
  | .icn9706 => [.mipi2828Write2IC channel 0xF0 [0x5A, 0x5A], .mipi2828Write2IC channel 0xF1 [0xA5, 0xA5],
      .mipi2828Write2IC channel 0xF0 [0xA5, 0xA5]]

/-- `ReadModReg` of a channel. -/
def readEvent (channel : Int) (regAddr : Byte) (len : Nat) (reply : Option Reply) : Event :=
  .readModReg (BitVec.ofInt 8 channel) 1 regAddr len reply

/-- The reads of the VCOM and of its count, if it was burnt. -/
def vcomEvents (d : GammaDriver) (channel : Int) (enableBurnVcom : Bool) (w : Board) : List Event :=
  if enableBurnVcom then
    d.unlockEvents channel ++ [readEvent channel 0xB6 3 (w.reply 0)] ++
      d.unlockEvents channel ++ [readEvent channel 0xB6 3 (w.reply 1)]
  else []

/-- The number of answers before those with the tables. -/
def vcomReads (enableBurnVcom : Bool) : Nat := if enableBurnVcom then 2 else 0

/-- The reads of the tables; the hi8394's digital ones are in three banks of one register. -/
def tableEvents (d : GammaDriver) (channel : Int) (analog red green blue : Option Reply) : List Event :=
  match d with
  | .hi8394 =>
    [readEvent channel 0xE0 58 analog,
      .mipi2828Write2IC channel 0xBD [0x00], readEvent channel 0xC1 43 red,
      .mipi2828Write2IC channel 0xBD [0x01], readEvent channel 0xC1 42 green,
      .mipi2828Write2IC channel 0xBD [0x02], readEvent channel 0xC1 42 blue]
  | .icn9706 =>
    [readEvent channel 0xC8 38 analog, readEvent channel 0xE4 26 red, readEvent channel 0xE5 26 green,
      readEvent channel 0xE6 26 blue]

/-- Everything the check does to the chip, with the answers it gets. -/
def checkEvents (d : GammaDriver) (channel : Int) (enableBurnVcom : Bool) (w : Board) : List Event :=
  let k := vcomReads enableBurnVcom
  [.setMipi2828HighSpeedMode channel false] ++ d.vcomEvents channel enableBurnVcom w ++
    d.tableEvents channel (w.reply k) (w.reply (k + 1)) (w.reply (k + 2)) (w.reply (k + 3)) ++
    [.setMipi2828HighSpeedMode channel true]

end GammaDriver

/-- The table that is read with an answer: its bytes, in a zeroed buffer. -/
def tableRead (reply : Option Reply) (len : Nat) : List Byte := bytes (filled reply len zeroed) len

/-- An answer is read as it is. -/
theorem tableRead_some (r : Reply) (len : Nat) : tableRead (some r) len = bytes r.data len := by
  apply List.map_congr_left
  intro k hk
  exact if_pos (List.mem_range.mp hk)

/-- The tables behind `k` other answers are the reference tables, over their full lengths. -/
structure TablesEqual (d : GammaDriver) (w : Board) (k : Nat)
    (pAnalogGammaReg pD3gR pD3gG pD3gB : Buf) : Prop where
  analog : tableRead (w.reply k) d.analogLen = bytes pAnalogGammaReg.data d.analogLen
  red : tableRead (w.reply (k + 1)) d.redLen = bytes pD3gR.data d.redLen
  green : tableRead (w.reply (k + 2)) d.greenLen = bytes pD3gG.data d.greenLen
  blue : tableRead (w.reply (k + 3)) d.blueLen = bytes pD3gB.data d.blueLen

/-- The VCOM read is the reference, and its burn count one more than the last one. -/
structure VcomBurnt (d : GammaDriver) (w : Board) (newVcomValue lastVcomOtpTimes : CInt) : Prop where
  vcom : ((replyByte (w.reply 0) 0).toNat : Int) = newVcomValue.toInt
  count : ((d.burnCount (replyByte (w.reply 1) 2)).toNat : Int) = lastVcomOtpTimes.toInt + 1

/-! ## One variable for all errors -/

/-- **A later comparison hides an earlier error, but never the fact that there was one.** -/
theorem overwritten_eq_zero_iff (p q r s : Prop) [Decidable p] [Decidable q] [Decidable r]
    [Decidable s] (checkError : Int) :
    (if s then 6 else if r then 5 else if q then 4 else if p then 3 else checkError) = 0 ↔
      checkError = 0 ∧ ¬p ∧ ¬q ∧ ¬r ∧ ¬s := by
  by_cases hp : p <;> by_cases hq : q <;> by_cases hr : r <;> by_cases hs : s <;>
    simp [hp, hq, hr, hs]

/-- A byte against an `int`. -/
theorem eq_setWidth_iff (v : CInt) (b : Byte) : v = b.setWidth 32 ↔ (b.toNat : Int) = v.toInt := by
  have hb : (b.setWidth 32 : CInt).toInt = b.toNat := by
    have := b.isLt
    rw [BitVec.toInt_eq_toNat_of_lt, BitVec.toNat_setWidth, Nat.mod_eq_of_lt (by omega)]
    rw [BitVec.toNat_setWidth, Nat.mod_eq_of_lt (by omega)]
    omega
  rw [← hb]
  exact ⟨fun h => by rw [h], fun h => (BitVec.toInt_inj.mp h).symm⟩

/-- The count against the last one and one more; a byte is below where that would wrap. -/
theorem succ_eq_setWidth_iff (last : CInt) (b : Byte) :
    last + 1 = b.setWidth 32 ↔ (b.toNat : Int) = last.toInt + 1 := by
  have hb := b.isLt
  rw [eq_setWidth_iff, BitVec.toInt_add]
  -- only the largest `int` wraps, to one that is no byte
  have hlo := BitVec.le_toInt last
  have hhi := BitVec.toInt_lt (x := last)
  show (b.toNat : Int) = (last.toInt + 1).bmod (2 ^ 32) ↔ _
  rw [Int.bmod_def]
  split_ifs <;> omega

/-- What the two comparisons of the VCOM leave. -/
theorem vcomError_eq_zero_iff (newVcomValue lastVcomOtpTimes : CInt) (vcom count : Byte) :
    (if newVcomValue ≠ vcom.setWidth 32 then (2 : Int)
      else if lastVcomOtpTimes + 1 ≠ count.setWidth 32 then 1 else 0) = 0 ↔
      (vcom.toNat : Int) = newVcomValue.toInt ∧ (count.toNat : Int) = lastVcomOtpTimes.toInt + 1 := by
  rw [← eq_setWidth_iff, ← succ_eq_setWidth_iff]
  split_ifs with hvcom hcount
  -- a wrong VCOM, a wrong count, or neither
  · exact iff_of_false (by decide) fun h => hvcom h.1
  · exact iff_of_false (by decide) fun h => hcount h.2
  · exact iff_of_true rfl ⟨not_not.mp hvcom, not_not.mp hcount⟩

/-! ## The check -/

/-- The four comparisons, on top of the verdict on the VCOM. -/
theorem accepted_iff (d : GammaDriver) (w : Board) (k : Nat)
    (pAnalogGammaReg pD3gR pD3gG pD3gB : Buf) {checkError : Int} {vcomRight : Prop}
    (hvcom : checkError = 0 ↔ vcomRight) :
    (checkError = 0 ∧ ¬tableRead (w.reply k) d.analogLen ≠ bytes pAnalogGammaReg.data d.analogLen ∧
      ¬tableRead (w.reply (k + 1)) d.redLen ≠ bytes pD3gR.data d.redLen ∧
      ¬tableRead (w.reply (k + 2)) d.greenLen ≠ bytes pD3gG.data d.greenLen ∧
      ¬tableRead (w.reply (k + 3)) d.blueLen ≠ bytes pD3gB.data d.blueLen) ↔
      TablesEqual d w k pAnalogGammaReg pD3gR pD3gG pD3gB ∧ vcomRight := by
  -- a comparison that did not fail is an equal table
  simp only [not_not]
  constructor
  · rintro ⟨h, hanalog, hred, hgreen, hblue⟩
    exact ⟨⟨hanalog, hred, hgreen, hblue⟩, hvcom.mp h⟩
  · rintro ⟨htables, h⟩
    exact ⟨hvcom.mpr h, htables.analog, htables.red, htables.green, htables.blue⟩

/-- The verdict on a VCOM that was burnt. -/
theorem burntError_eq_zero_iff (d : GammaDriver) (newVcomValue lastVcomOtpTimes : CInt) (w : Board) :
    (if newVcomValue ≠ (replyByte (w.reply 0) 0).setWidth 32 then (2 : Int)
      else if lastVcomOtpTimes + 1 ≠ (d.burnCount (replyByte (w.reply 1) 2)).setWidth 32 then 1
      else 0) = 0 ↔ VcomBurnt d w newVcomValue lastVcomOtpTimes := by
  rw [vcomError_eq_zero_iff]
  constructor
  · rintro ⟨hvcom, hcount⟩
    exact ⟨hvcom, hcount⟩
  · rintro ⟨hvcom, hcount⟩
    exact ⟨hvcom, hcount⟩

/-- **The tables are accepted exactly if they are what the chip holds**: no comparison that
passes hides one that failed. -/
theorem run_checkGammaOtpValues (d : GammaDriver) (channel : Int) (enableBurnVcom : Bool)
    (newVcomValue lastVcomOtpTimes : CInt) (pAnalogGammaReg pD3gR pD3gG pD3gB : Buf) (w : Board) :
    ∃ val, d.checkGammaOtpValues channel enableBurnVcom newVcomValue lastVcomOtpTimes
        pAnalogGammaReg pD3gR pD3gG pD3gB w =
      .ok val (w.after (GammaDriver.vcomReads enableBurnVcom + 4)
        (d.checkEvents channel enableBurnVcom w)) ∧
      (val = 0 ↔
        TablesEqual d w (GammaDriver.vcomReads enableBurnVcom) pAnalogGammaReg pD3gR pD3gG pD3gB ∧
          (enableBurnVcom = true → VcomBurnt d w newVcomValue lastVcomOtpTimes)) := by
  have hunburnt : (0 : Int) = 0 ↔ (False → VcomBurnt d w newVcomValue lastVcomOtpTimes) :=
    iff_of_true rfl False.elim
  have hburnt := (burntError_eq_zero_iff d newVcomValue lastVcomOtpTimes w).trans true_imp_iff.symm
  -- the calls of the driver one by one, then what its one variable holds in the end
  cases d <;> cases enableBurnVcom
  all_goals
    simp only [GammaDriver.checkGammaOtpValues, hx8394CheckGammaOtpValues, hi8394ReadVcom,
      hi8394GetVcomOtpTimes, hi8394EnableExtendCmd, chipIcn9706CheckGammaOtpValues,
      icn9706ReadVcom, icn9706GetVcomOtpTimes, icn9706EnableLevel2Cmd, reduceIte, Bool.false_eq_true,
      run_bind, run_setMipi2828HighSpeedMode, run_mipi2828Write2IC, run_readModReg, run_pure,
      World.after_after, World.after_reply, filled_zeroed (show 0 < 3 by decide),
      filled_zeroed (show 2 < 3 by decide)]
    refine ⟨_, rfl, ?_⟩
    rw [overwritten_eq_zero_iff]
  case hi8394.false => exact accepted_iff .hi8394 w 0 _ _ _ _ hunburnt
  case hi8394.true => exact accepted_iff .hi8394 w 2 _ _ _ _ hburnt
  case icn9706.false => exact accepted_iff .icn9706 w 0 _ _ _ _ hunburnt
  case icn9706.true => exact accepted_iff .icn9706 w 2 _ _ _ _ hburnt

end PgClient.Icm
