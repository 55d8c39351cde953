import Mathlib.Data.BitVec
import Mathlib.Tactic.SplitIfs
import PgClient.Util.Crc32

/-!
# The power check

The power board reports a reading of every rail; `checkPwr` compares it
with the power configuration and switches the panel off on a violation.

Two enums meet here. `power_check_item` returns either `E_PWR_CHECK_OK` of
one, or a kind of error of the other (`PwrCheckErr`), and its callers test
the result for being non-zero. `E_PWR_CHECK_ERR_OV` is 0 as well.

* `powerCheckItem_spec` — what one comparison returns: `OV` or `OK`, hence
  0, unless the reading is on the under side of its set value.
* `powerCheck_complete_iff` — the check is complete on a reading exactly
  when no rail is bad in it, or one is bad on the under side.
-/

namespace PgClient.Power

/-- `short`. -/
abbrev Short := BitVec 16

/-- `POWER_CHECK_PERCENT`. -/
def powerCheckPercent : BitVec 16 := 4#16

/-- `MIN_POWER_ADJUST`. -/
def minPowerAdjust : Int := 200

/-- `POWER_MIN_0_VALUE`. -/
def powerMin0Value : Int := 1500

/-! ## The two enums -/

/-- The kinds of error, `E_PWR_CHECK_ERR_OV` and the three after it. -/
inductive PwrCheckErr
  | ov
  | oc
  | uv
  | uc
  deriving DecidableEq

def PwrCheckErr.val : PwrCheckErr → Int
  | .ov => 0
  | .oc => 1
  | .uv => 2
  | .uc => 3

/-- The rails of the second enum, in its order; each has four codes. -/
inductive PwrCheckRail
  | vdd
  | vint
  | vsp
  | vsn
  | vgh
  | vgl
  | vcom
  | vbl
  deriving DecidableEq

/-- `E_PWR_CHECK_ERR_<rail>_OV`. -/
def PwrCheckRail.ov : PwrCheckRail → Int
  | .vdd => 1
  | .vint => 5
  | .vsp => 9
  | .vsn => 13
  | .vgh => 17
  | .vgl => 21
  | .vcom => 25
  | .vbl => 29

/-- `E_PWR_CHECK_OK`. -/
def pwrCheckOk : Int := 0

/-- `E_PWR_CHECK_ERR_VBL_OPEN`. -/
def pwrCheckErrVblOpen : Int := 33

/-! ## One comparison -/

/-- The tolerance of `power_check_item`, a `short` as all its locals. -/
def powerRange (fixValue : Short) (percent : BitVec 16) : Short :=
  let range : Short := BitVec.ofInt 16 ((fixValue.toInt * percent.toNat).tdiv 100)
  if |range.toInt| < minPowerAdjust then
    if range.toInt < 0 then BitVec.ofInt 16 (-minPowerAdjust) else BitVec.ofInt 16 minPowerAdjust
  else range

/-- `power_check_item`. -/
def powerCheckItem (fixValue actualValue : Short) (percent : BitVec 16) : Int :=
  let range := powerRange fixValue percent
  -- the difference is a `short` as well, so readings far off would wrap
  let delta : Short := BitVec.ofInt 16 (fixValue.toInt - actualValue.toInt)
  if fixValue.toInt = 0 then
    if |actualValue.toInt| < powerMin0Value then pwrCheckOk else PwrCheckErr.ov.val
  else if fixValue.toInt > 0 then
    -- a reading of the wrong sign counts as under-voltage
    if actualValue.toInt < 0 then PwrCheckErr.uv.val
    else if |delta.toInt| > |range.toInt| then
      if delta.toInt > 0 then PwrCheckErr.uv.val else PwrCheckErr.ov.val
    else pwrCheckOk
  else
    if actualValue.toInt ≥ 0 then PwrCheckErr.uv.val
    else if |delta.toInt| > |range.toInt| then
      -- for a negative rail a reading above the set value is the weaker one
      if delta.toInt > 0 then PwrCheckErr.ov.val else PwrCheckErr.uv.val
    else pwrCheckOk

/-! ## The configuration and the reading -/

/-- The fields of `s1103PwrCfgDb` that the check reads. -/
structure PwrCfg where
  vddio : Short
  elvdd : Short
  elvss : Short
  vsp : Short
  vsn : Short
  ledChannel : Short
  ledNumber : Short
  ledCurrent : Short
  ledUvp : Short

/-- The fields of `sByPtnPwrInfo` that the check reads or writes. -/
structure PwrInfo where
  vddio : Short
  elvdd : Short
  iElvdd : BitVec 32
  elvss : Short
  iElvss : BitVec 32
  iVbl : Short
  vblLedPOpenShort : Byte
  vblLedNOpenShort : Vector Byte 6
  vblReserved : Vector Byte 7
  vsp : Short
  iVsp : BitVec 32
  vsn : Short
  iVsn : BitVec 32

/-- `check_cc_vbl_open_short`. -/
def checkCcVblOpenShort (status : Byte) : Int :=
  if status ≠ 0 then status.toNat - 1 + pwrCheckErrVblOpen else pwrCheckOk

/-- The loop over the `n` negative channels of `power_check_vbl`; `none` when
it runs past the array. -/
def checkVblN : Nat → List Byte → Option Int
  | 0, _ => some pwrCheckOk
  | _ + 1, [] => none
  | n + 1, status :: rest =>
    let ret := checkCcVblOpenShort status
    if ret ≠ 0 then some ret else checkVblN n rest

/-- `power_check_vbl`. -/
def powerCheckVbl (pFixPwr : PwrCfg) (pActualPwr : PwrInfo) : Option Int :=
  if pFixPwr.ledUvp = 0 ∨ pFixPwr.ledChannel = 0 ∨ pFixPwr.ledNumber = 0 then some pwrCheckOk
  else
    let ret := checkCcVblOpenShort pActualPwr.vblLedPOpenShort
    -- the two LED-string tests come first, the current is compared last
    if ret ≠ 0 then some ret
    else
      match checkVblN pFixPwr.ledNumber.toInt.toNat pActualPwr.vblLedNOpenShort.toList with
      | none => none
      | some ret =>
        if ret ≠ 0 then some ret
        else
          let iVblFix : Short := pFixPwr.ledNumber * pFixPwr.ledCurrent
          let ret := powerCheckItem iVblFix pActualPwr.iVbl 10#16
          -- an over- or under-voltage code becomes the current code next to it
          let ret := if ret ≠ 0 then (ret - PwrCheckErr.ov.val) + PwrCheckErr.oc.val else ret
          some (if ret ≠ 0 then ret + (ret + PwrCheckRail.vbl.ov) else ret)

/-- `checkPowerEquitable`. -/
def checkPowerEquitable (pFixPwr : PwrCfg) (pActualPwr : PwrInfo) : Int :=
  -- the first rail that is off decides the code; the others are not looked at
  let ret := powerCheckItem pFixPwr.vddio pActualPwr.vddio powerCheckPercent
  if ret ≠ 0 then ret + PwrCheckRail.vdd.ov
  else
    let ret := powerCheckItem pFixPwr.elvdd pActualPwr.elvdd powerCheckPercent
    if ret ≠ 0 then ret + PwrCheckRail.vgh.ov
    else
      let ret := powerCheckItem pFixPwr.vsp pActualPwr.vsp powerCheckPercent
      if ret ≠ 0 then ret + PwrCheckRail.vsp.ov
      else
        let ret := powerCheckItem pFixPwr.elvss pActualPwr.elvss powerCheckPercent
        if ret ≠ 0 then ret + PwrCheckRail.vgl.ov
        else
          let ret := powerCheckItem pFixPwr.vsn pActualPwr.vsn powerCheckPercent
          if ret ≠ 0 then ret + PwrCheckRail.vsn.ov else ret

/-! ## `checkPwr` -/

/-- `PWR_CHANNEL_E`. -/
inductive PwrChannel
  | all
  | left
  | right
  deriving DecidableEq

/-- `main_power_info_t`. -/
structure MainPower where
  mainPower : PwrInfo
  vcom : Short
  ivcom : BitVec 16

/-- `pwrInfo[2]` of `pwrTaskInfo_t`. -/
structure PwrTask where
  left : MainPower
  right : MainPower

/-- The entry `checkPwr` works on. -/
def PwrTask.entry (task : PwrTask) : PwrChannel → MainPower
  | .left => task.left
  | _ => task.right

def PwrTask.setEntry (task : PwrTask) (m : MainPower) : PwrChannel → PwrTask
  | .left => { task with left := m }
  | _ => { task with right := m }

/-- What `checkPwr` does to the outside. -/
inductive PwrAction
  | clientPgShutON (enable channel ptnId : Int)
  | pwrErrorProcess (error : Int)
  | boxSavePwrData (pwrInfo : PwrInfo) (vcom : Short) (ivcom : BitVec 16)

/-- The end of `checkPwr`: a rail that is not used reads 0. -/
def clearUnused (pFixPwr : PwrCfg) (i : PwrInfo) : PwrInfo :=
  let i := if pFixPwr.vsp = 0 then { i with vsp := 0, iVsp := 0 } else i
  let i := if pFixPwr.vsn = 0 then { i with vsn := 0, iVsn := 0 } else i
  let i := if pFixPwr.elvdd = 0 then { i with elvdd := 0, iElvdd := 0 } else i
  if pFixPwr.elvss = 0 then { i with elvss := 0, iElvss := 0 } else i

/-- The `do { … } while (0)` of `checkPwr`. -/
def checkPwrRet (pFixPwr : PwrCfg) (pActualPwr : PwrInfo) : Option Int :=
  let ret := checkPowerEquitable pFixPwr pActualPwr
  if ret ≠ 0 then some ret
  else if pActualPwr.vblReserved[0] ≠ 1 then some ret
  else powerCheckVbl pFixPwr pActualPwr

/-- `checkPwr` on `pSgPwrTaskInfo`, with what it does in order; `none` when it
reads past an array. -/
def checkPwr (pFixPwr : PwrCfg) (task : Option PwrTask) (channel : PwrChannel) :
    Option (Option PwrTask × List PwrAction) :=
  match task with
  | none => some (none, [])
  | some task =>
    let pPwrInfo := task.entry channel
    match checkPwrRet pFixPwr pPwrInfo.mainPower with
    | none => none
    | some ret =>
      -- the panel is switched off before the error is reported
      let off := if ret ≠ pwrCheckOk then [.clientPgShutON 0 0 0, .pwrErrorProcess ret] else []
      let info := clearUnused pFixPwr pPwrInfo.mainPower
      let saved :=
        -- only the left channel's readings are saved
        if channel = .left then [.boxSavePwrData info pPwrInfo.vcom pPwrInfo.ivcom] else []
      some (some (task.setEntry { pPwrInfo with mainPower := info } channel), off ++ saved)

/-! ## What a bad rail is -/

section Percent

variable (percent : BitVec 16) (fixValue actualValue : Int)

/-- The tolerance of a percentage about a set value. -/
def tolBy : Int := max |(fixValue * percent.toNat).tdiv 100| minPowerAdjust

/-- A reading that is not what was set, up to a percentage of it. -/
def BadBy : Prop :=
  (fixValue = 0 ∧ |actualValue| ≥ powerMin0Value) ∨
  (fixValue > 0 ∧ (actualValue < 0 ∨ |fixValue - actualValue| > tolBy percent fixValue)) ∨
  (fixValue < 0 ∧ (actualValue ≥ 0 ∨ |fixValue - actualValue| > tolBy percent fixValue))

/-- One that falls short of it. -/
def UnderBy : Prop :=
  (fixValue > 0 ∧ (actualValue < 0 ∨ fixValue - actualValue > tolBy percent fixValue)) ∨
  (fixValue < 0 ∧ (actualValue ≥ 0 ∨ actualValue - fixValue > tolBy percent fixValue))

instance : Decidable (BadBy percent fixValue actualValue) := inferInstanceAs (Decidable (_ ∨ _))

instance : Decidable (UnderBy percent fixValue actualValue) := inferInstanceAs (Decidable (_ ∨ _))

theorem minPowerAdjust_le_tolBy : 200 ≤ tolBy percent fixValue := le_max_right _ _

end Percent

theorem UnderBy.bad {percent : BitVec 16} {fixValue actualValue : Int}
    (h : UnderBy percent fixValue actualValue) : BadBy percent fixValue actualValue := by
  unfold UnderBy at h
  unfold BadBy
  rcases h with ⟨hpos, hsign | hdelta⟩ | ⟨hneg, hsign | hdelta⟩
  · exact Or.inr (Or.inl ⟨hpos, Or.inl hsign⟩)
  · exact Or.inr (Or.inl ⟨hpos, Or.inr (hdelta.trans_le (le_abs_self _))⟩)
  · exact Or.inr (Or.inr ⟨hneg, Or.inl hsign⟩)
  · refine Or.inr (Or.inr ⟨hneg, Or.inr ?_⟩)
    rw [abs_sub_comm]
    exact hdelta.trans_le (le_abs_self _)

/-- On the rails the percentage is that of the check. -/
abbrev Bad (fixValue actualValue : Int) : Prop := BadBy powerCheckPercent fixValue actualValue

/-- A reading that falls short there: of the wrong sign, or too close to 0. -/
abbrev Under (fixValue actualValue : Int) : Prop := UnderBy powerCheckPercent fixValue actualValue

/-- The five monitored rails. -/
inductive Rail
  | vddio
  | elvdd
  | vsp
  | elvss
  | vsn
  deriving DecidableEq

def PwrCfg.rail (c : PwrCfg) : Rail → Int
  | .vddio => c.vddio.toInt
  | .elvdd => c.elvdd.toInt
  | .vsp => c.vsp.toInt
  | .elvss => c.elvss.toInt
  | .vsn => c.vsn.toInt

def PwrInfo.rail (i : PwrInfo) : Rail → Int
  | .vddio => i.vddio.toInt
  | .elvdd => i.elvdd.toInt
  | .vsp => i.vsp.toInt
  | .elvss => i.elvss.toInt
  | .vsn => i.vsn.toInt

/-- The check finds every bad rail, and only bad rails, and switches off on them. -/
structure Complete (cfg : PwrCfg) (info : PwrInfo) : Prop where
  equitable : checkPowerEquitable cfg info ≠ 0 ↔ ∃ r, Bad (cfg.rail r) (info.rail r)
  shutOff : (∃ r, Bad (cfg.rail r) (info.rail r)) →
    ∀ (task : PwrTask) (channel : PwrChannel), (task.entry channel).mainPower = info →
      ∃ task' acts, checkPwr cfg (some task) channel = some (task', acts) ∧
        .clientPgShutON 0 0 0 ∈ acts

/-! ## One comparison, specified -/

/-- A `short` holds what fits it. -/
theorem toInt_short {x : Int} (hlo : -32768 ≤ x) (hhi : x ≤ 32767) :
    (BitVec.ofInt 16 x : Short).toInt = x :=
  BitVec.toInt_ofInt_eq_self (by decide) (by omega) (by omega)

theorem short_bounds (x : Short) : -32768 ≤ x.toInt ∧ x.toInt ≤ 32767 := by
  have hlt := x.isLt
  rw [BitVec.toInt_eq_toNat_cond]
  split <;> omega

theorem abs_powerRange {percent : BitVec 16} (hpercent : percent.toNat < 100) (fixValue : Short) :
    |(powerRange fixValue percent).toInt| = tolBy percent fixValue.toInt := by
  obtain ⟨hlo, hhi⟩ := short_bounds fixValue
  unfold powerRange tolBy
  have hrange : (BitVec.ofInt 16 ((fixValue.toInt * percent.toNat).tdiv 100) : Short).toInt =
      (fixValue.toInt * percent.toNat).tdiv 100 := by
    -- less than a hundred hundredths of a `short` stay one
    have habs : ((fixValue.toInt * percent.toNat).tdiv 100).natAbs =
        fixValue.toInt.natAbs * percent.toNat / 100 := by
      rw [Int.natAbs_tdiv, Int.natAbs_mul, Int.natAbs_natCast]
      rfl
    have hmul : fixValue.toInt.natAbs * percent.toNat ≤ 32768 * 99 :=
      Nat.mul_le_mul (by omega) (by omega)
    exact toInt_short (by omega) (by omega)
  generalize (fixValue.toInt * percent.toNat).tdiv 100 = t at hrange ⊢
  simp only [hrange]
  split_ifs with hmin hneg
  · rw [max_eq_right hmin.le]
    rfl
  · rw [max_eq_right hmin.le]
    rfl
  · rw [hrange, max_eq_left (not_lt.mp hmin)]

/-- A difference of two `short`s of one sign is a `short`. -/
theorem toInt_delta {fixValue actualValue : Short}
    (h : (0 ≤ fixValue.toInt ∧ 0 ≤ actualValue.toInt) ∨
      (fixValue.toInt < 0 ∧ actualValue.toInt < 0)) :
    (BitVec.ofInt 16 (fixValue.toInt - actualValue.toInt) : Short).toInt =
      fixValue.toInt - actualValue.toInt := by
  have hf := short_bounds fixValue
  have ha := short_bounds actualValue
  exact toInt_short (by omega) (by omega)

/-- **What one comparison returns**: `UV` on the under side, and `OV`, which is 0
like `OK`, for any other bad reading. -/
theorem powerCheckItem_spec_by {percent : BitVec 16} (hpercent : percent.toNat < 100)
    (fixValue actualValue : Short) :
    powerCheckItem fixValue actualValue percent =
      if UnderBy percent fixValue.toInt actualValue.toInt then PwrCheckErr.uv.val
      else if BadBy percent fixValue.toInt actualValue.toInt then PwrCheckErr.ov.val
      else pwrCheckOk := by
  have htol := minPowerAdjust_le_tolBy percent fixValue.toInt
  unfold powerCheckItem UnderBy BadBy
  rcases lt_trichotomy fixValue.toInt 0 with hneg | hzero | hpos
  · -- a negative set value: nothing but the third branch applies
    simp only [abs_powerRange hpercent, hneg.ne, hneg.not_gt, hneg, gt_iff_lt, if_false, false_and, true_and,
      false_or]
    by_cases hsign : 0 ≤ actualValue.toInt
    · simp [hsign]
    · -- with equal signs the difference of two `short`s does not wrap
      rw [toInt_delta (Or.inr ⟨hneg, not_le.mp hsign⟩)]
      simp only [ge_iff_le, hsign, if_false, false_or]
      simp only [lt_abs]
      split_ifs <;> first | rfl | omega
  · simp only [hzero, lt_irrefl, gt_iff_lt, if_true, true_and, false_and, or_false, if_false, ge_iff_le]
    split_ifs <;> rfl
  · simp only [abs_powerRange hpercent, hpos.ne', hpos.not_gt, hpos, gt_iff_lt, if_false, if_true, false_and,
      true_and, false_or, or_false]
    by_cases hsign : actualValue.toInt < 0
    · simp [hsign]
    · rw [toInt_delta (Or.inl ⟨hpos.le, not_lt.mp hsign⟩)]
      simp only [hsign, if_false, false_or]
      simp only [lt_abs]
      split_ifs <;> first | rfl | omega

/-- On the rails. -/
theorem powerCheckItem_spec (fixValue actualValue : Short) :
    powerCheckItem fixValue actualValue powerCheckPercent =
      if Under fixValue.toInt actualValue.toInt then PwrCheckErr.uv.val
      else if Bad fixValue.toInt actualValue.toInt then PwrCheckErr.ov.val
      else pwrCheckOk :=
  powerCheckItem_spec_by (by decide) fixValue actualValue

/-- So a test of the result for being non-zero sees the under side only. -/
theorem powerCheckItem_ne_zero_iff (fixValue actualValue : Short) :
    powerCheckItem fixValue actualValue powerCheckPercent ≠ 0 ↔
      Under fixValue.toInt actualValue.toInt := by
  rw [powerCheckItem_spec]
  split_ifs with hunder hbad
  · exact ⟨fun _ => hunder, fun _ => by decide⟩
  · exact ⟨fun h => absurd rfl h, fun h => absurd h hunder⟩
  · exact ⟨fun h => absurd rfl h, fun h => absurd h hunder⟩

/-! ## The five rails -/

theorem powerCheckItem_nonneg (fixValue actualValue : Short) :
    0 ≤ powerCheckItem fixValue actualValue powerCheckPercent := by
  rw [powerCheckItem_spec]
  split_ifs <;> decide

/-- The check of the five rails sees the under side only. -/
theorem checkPowerEquitable_ne_zero_iff (cfg : PwrCfg) (info : PwrInfo) :
    checkPowerEquitable cfg info ≠ 0 ↔ ∃ r, Under (cfg.rail r) (info.rail r) := by
  have hex : (∃ r, Under (cfg.rail r) (info.rail r)) ↔
      Under cfg.vddio.toInt info.vddio.toInt ∨ Under cfg.elvdd.toInt info.elvdd.toInt ∨
        Under cfg.vsp.toInt info.vsp.toInt ∨ Under cfg.elvss.toInt info.elvss.toInt ∨
        Under cfg.vsn.toInt info.vsn.toInt := by
    constructor
    · rintro ⟨r, h⟩
      -- the rails the source compares are the ones `rail` lists
      cases r <;> simp_all [PwrCfg.rail, PwrInfo.rail]
    · rintro (h | h | h | h | h)
      exacts [⟨.vddio, h⟩, ⟨.elvdd, h⟩, ⟨.vsp, h⟩, ⟨.elvss, h⟩, ⟨.vsn, h⟩]
  simp only [hex, ← powerCheckItem_ne_zero_iff]
  -- an error code is a positive number, and so is the base it is added to
  have hadd : ∀ {fixValue actualValue : Short} (rail : PwrCheckRail),
      powerCheckItem fixValue actualValue powerCheckPercent + rail.ov ≠ 0 := by
    intro fixValue actualValue rail
    have := powerCheckItem_nonneg fixValue actualValue
    have : 0 < rail.ov := by cases rail <;> decide
    omega
  unfold checkPowerEquitable
  dsimp only
  split_ifs with h₁ h₂ h₃ h₄ h₅ <;> simp_all

/-- A non-zero result switches the panel off. -/
theorem checkPwr_of_ne_zero {cfg : PwrCfg} {task : PwrTask} {channel : PwrChannel}
    (h : checkPowerEquitable cfg (task.entry channel).mainPower ≠ 0) :
    ∃ task' acts, checkPwr cfg (some task) channel = some (task', acts) ∧
      .clientPgShutON 0 0 0 ∈ acts := by
  have hret : checkPwrRet cfg (task.entry channel).mainPower =
      some (checkPowerEquitable cfg (task.entry channel).mainPower) := by
    rw [checkPwrRet, if_pos h]
  simp only [checkPwr, hret]
  exact ⟨_, _, rfl, by simp [pwrCheckOk, h]⟩

/-- **When the power check is complete**: on the readings without a bad rail, and
on those with a rail on the under side. Over-voltage alone passes. -/
theorem powerCheck_complete_iff (cfg : PwrCfg) (info : PwrInfo) :
    Complete cfg info ↔
      ((∃ r, Bad (cfg.rail r) (info.rail r)) → ∃ r, Under (cfg.rail r) (info.rail r)) := by
  constructor
  · intro h hbad
    exact (checkPowerEquitable_ne_zero_iff cfg info).mp (h.equitable.mpr hbad)
  · intro h
    refine ⟨?_, ?_⟩
    · rw [checkPowerEquitable_ne_zero_iff]
      exact ⟨fun ⟨r, hr⟩ => ⟨r, hr.bad⟩, h⟩
    · rintro hbad task channel rfl
      exact checkPwr_of_ne_zero ((checkPowerEquitable_ne_zero_iff _ _).mpr (h hbad))

/-- vsp set to 5000 and read as 9000, every other rail off. -/
def overCfg : PwrCfg := ⟨0, 0, 0, 5000, 0, 0, 0, 0, 0⟩

def overInfo : PwrInfo :=
  ⟨0, 0, 0, 0, 0, 0, 0, .replicate 6 0, .replicate 7 0, 9000, 0, 0, 0⟩

theorem over_not_complete : ¬ Complete overCfg overInfo := by
  intro h
  exact absurd (h.equitable.mpr ⟨.vsp, by decide⟩) (by decide)

end PgClient.Power
