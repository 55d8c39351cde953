import PgClient.Util.LittleEndian
import Mathlib.Tactic.SplitIfs

/-!
# The timing registers of the MIPI bridge

`calculateConfigParams` of `mipi2828.c` turns the timing of a module into the registers of the
bridge. A value of a vertical and a horizontal part is written as `h & 0xff + (v<<8)`, where the sum
is the mask; the turn-around delay is taken from a variable that is never set.

* `packed_toNat` — such a value is its horizontal part.
* `lpClkKHz_le` — the divisor of the clock is never 0, and the clock never above 20 MHz.
* `not_configuresRight` — what each register is right for, and on what it depends.
-/

namespace PgClient.Mipi

/-! ## The code -/

/-- `picture_timing_t`, as far as it is read. -/
structure PictureTiming where
  vsyncpulseWidth : BitVec 32
  hsyncpulseWidth : BitVec 32
  vBackPorch : BitVec 32
  hBackPorch : BitVec 32
  vFrontPorch : BitVec 32
  hFrontPorch : BitVec 32
  vActiveTime : BitVec 32
  hActiveTime : BitVec 32
  laneCnt : BitVec 32
  bit : BitVec 32
  dsifre : BitVec 32
  syncMode : BitVec 32
  deriving DecidableEq

/-- `configure2828Info_t`, the registers that are calculated. -/
structure Configure2828Info where
  regB1 : BitVec 16
  regB2 : BitVec 16
  regB3 : BitVec 16
  regB4 : BitVec 16
  regB5 : BitVec 16
  regB6 : BitVec 16
  regBa : BitVec 16
  regBb : BitVec 16
  regC9 : BitVec 16
  regCa : BitVec 16
  regCb : BitVec 16
  regCc : BitVec 16
  regCd : BitVec 16
  regCe : BitVec 16
  regDe : BitVec 16
  regD6 : BitVec 16
  deriving DecidableEq

/-- `h & 0xff + (v<<8)` for a register `v`: `&` comes after `+`. -/
def packed (v : BitVec 16) (h : BitVec 32) : BitVec 16 :=
  (h &&& (0xff + v.setWidth 32 <<< 8)).setWidth 16

/-- `(hi << 8) + lo`. -/
def twoBytes (hi lo : Byte) : BitVec 16 := (hi.setWidth 16 <<< 8) + lo.setWidth 16

/-- `(base + factor*clk)/divisor + 1`. -/
def delay (base factor divisor clk : BitVec 32) : BitVec 32 := (base + factor * clk) / divisor + 1

/-- 0 for a value from the limit on. -/
def zeroFrom {w : Nat} (limit : Nat) (x : BitVec w) : BitVec w := if limit ≤ x.toNat then 0 else x

/-- `/` of `unsigned int`; nothing is calculated of a division by 0. -/
def udiv (x y : BitVec 32) : Option (BitVec 32) := if y = 0 then none else some (x / y)

namespace PictureTiming

variable (t : PictureTiming)

def regB1 : BitVec 16 := packed ((t.vsyncpulseWidth &&& 0xff).setWidth 16) t.hsyncpulseWidth

def regB2 (old : BitVec 16) : BitVec 16 :=
  -- pulse
  let b2 := if t.syncMode = 0 then packed (t.vBackPorch.setWidth 16) t.hBackPorch else old
  -- burst or event
  if t.syncMode = 1 ∨ t.syncMode = 2 then
    packed ((t.vBackPorch + t.vsyncpulseWidth).setWidth 16) (t.hBackPorch + t.hsyncpulseWidth)
  else b2

def regB3 : BitVec 16 := packed ((t.vFrontPorch &&& 0xff).setWidth 16) t.hFrontPorch

def regB6 (old : BitVec 16) : BitVec 16 :=
  if t.bit = 6 then (0x02 + 0x04 * t.syncMode).setWidth 16
  else if t.bit = 8 then (0x03 + 0x04 * t.syncMode).setWidth 16
  else old

def regBa : BitVec 16 :=
  let ba : BitVec 16 :=
    if 62500000 ≤ t.dsifre.toInt ∧ t.dsifre.toInt < 125000000 then 0x0400
    else if 125000000 ≤ t.dsifre.toInt ∧ t.dsifre.toInt < 250000000 then 0x4400
    else if 250000000 ≤ t.dsifre.toInt ∧ t.dsifre.toInt < 500000000 then 0x8400
    else if 500000000 ≤ t.dsifre.toInt ∧ t.dsifre.toInt ≤ 1000000000 then 0xc400
    else 0
  ba + (t.dsifre.sdiv 6250000).setWidth 16

/-- The divisor of the clock, less 1. -/
def regBb : BitVec 16 := (t.dsifre.sdiv 80000000 - 1).setWidth 16

def byteClk : BitVec 32 := t.dsifre.sdiv 8

def byteClkMhz : BitVec 32 := t.byteClk / 1000000

def regC9 : BitVec 16 :=
  let hsPrepareDelay : Byte := (delay 600 48 500 t.byteClkMhz).setWidth 8
  let hsPrepareDelay :=
    if 256 ≤ hsPrepareDelay.toNat ∨ hsPrepareDelay.toNat < 4 then 0 else hsPrepareDelay - 4
  let hsZeroDelay : Byte := zeroFrom 256 ((delay 1500 150 500 t.byteClkMhz).setWidth 8)
  twoBytes hsZeroDelay hsPrepareDelay

def regCa : BitVec 16 :=
  let clkPrepareDelay : Byte := (delay 0 44 500 t.byteClkMhz).setWidth 8
  let clkPrepareDelay :=
    if 256 ≤ clkPrepareDelay.toNat ∨ clkPrepareDelay.toNat < 3 then 0 else clkPrepareDelay - 3
  let clkZeroDelay : Byte := (delay 0 280 500 t.byteClkMhz).setWidth 8
  -- a limit for one delay that clears the other; no byte reaches it
  let clkPrepareDelay := if 256 ≤ clkZeroDelay.toNat then 0 else clkPrepareDelay
  twoBytes clkZeroDelay clkPrepareDelay

def regCb : BitVec 16 :=
  let clkPostDelay : Byte := zeroFrom 256 ((delay 7000 65 500 t.byteClkMhz).setWidth 8)
  let clkPreDelay : Byte := zeroFrom 256 ((delay 650 69 500 t.byteClkMhz).setWidth 8)
  twoBytes clkPreDelay clkPostDelay

def regCc : BitVec 16 :=
  let hsTrailDelay : Byte := zeroFrom 256 ((delay 1250 100 500 t.byteClkMhz).setWidth 8)
  twoBytes hsTrailDelay hsTrailDelay

end PictureTiming

/-- The registers, with the low-power clock and what is in `TAGetDelay`. -/
def configParams (t : PictureTiming) (lpClkKHz : BitVec 32) (tAGetDelay : Byte)
    (old : Configure2828Info) : Configure2828Info :=
  let wakeUpDelay : BitVec 16 := zeroFrom 256 ((delay 0 1050 1000 lpClkKHz).setWidth 16)
  -- the delay that is meant for `TAGetDelay` goes to `WakeUpDelay`, which is not used again
  let _wakeUpDelay : BitVec 16 := zeroFrom 16 ((delay 0 275 500000 lpClkKHz).setWidth 16)
  let tAGoDelay : Byte := zeroFrom 16 ((delay 0 220 500000 lpClkKHz).setWidth 8)
  { regB1 := t.regB1
    regB2 := t.regB2 old.regB2
    regB3 := t.regB3
    regB4 := t.hActiveTime.setWidth 16
    regB5 := t.vActiveTime.setWidth 16
    regB6 := t.regB6 old.regB6
    regBa := t.regBa
    regBb := t.regBb
    regC9 := t.regC9
    regCa := t.regCa
    regCb := t.regCb
    regCc := t.regCc
    regCd := wakeUpDelay
    regCe := twoBytes tAGoDelay tAGetDelay
    regDe := (t.laneCnt - 1).setWidth 16
    regD6 := 4 }

/-- `calculateConfigParams`: `TAGetDelay` is not initialised, and `old` are the registers of the
call before. -/
def calculateConfigParams (t : PictureTiming) (tAGetDelay : Byte) (old : Configure2828Info) :
    Option Configure2828Info := do
  let lpClk ← udiv t.byteClk (t.regBb.setWidth 32 + 1)
  pure (configParams t (lpClk / 1000) tAGetDelay old)

/-- `timing_info_t`, as far as it is read here. -/
structure TimingInfo where
  timvsyncpulsewidth : BitVec 32
  timvbackporch : BitVec 32
  timvfrontporch : BitVec 32
  timvactivetime : BitVec 32
  timhsyncpulsewidth : BitVec 32
  timhbackporch : BitVec 32
  timhfrontporch : BitVec 32
  timhactivetime : BitVec 32
  timmipilanenum : BitVec 32
  timmipisyncmode : BitVec 32
  mdlmipidsiclock : BitVec 32
  timbit : BitVec 32

/-- A value that goes through an `unsigned short` or an `unsigned char`. -/
def through (w : Nat) (x : BitVec 32) : BitVec 32 := (x.setWidth w).setWidth 32

/-- `mipiInterfaceTimingInit`, with the parameter types of the setters. -/
def mipiInterfaceTimingInit (pInfo : TimingInfo) : PictureTiming where
  vsyncpulseWidth := through 16 pInfo.timvsyncpulsewidth
  vBackPorch := through 16 pInfo.timvbackporch
  vFrontPorch := through 16 pInfo.timvfrontporch
  vActiveTime := through 16 pInfo.timvactivetime
  hsyncpulseWidth := through 16 pInfo.timhsyncpulsewidth
  hBackPorch := through 16 pInfo.timhbackporch
  hFrontPorch := through 16 pInfo.timhfrontporch
  hActiveTime := through 16 pInfo.timhactivetime
  laneCnt := through 8 pInfo.timmipilanenum
  syncMode := through 8 pInfo.timmipisyncmode
  dsifre := pInfo.mdlmipidsiclock
  bit := pInfo.timbit

/-! ## What the registers should be -/

namespace PictureTiming

variable (t : PictureTiming)

/-- The porch and pulse fields. -/
def porches : List (BitVec 32) :=
  [t.vsyncpulseWidth, t.hsyncpulseWidth, t.vBackPorch, t.hBackPorch, t.vFrontPorch, t.hFrontPorch]

/-- A timing of the bridge: each part of a register fits into its byte. -/
structure InDomain : Prop where
  syncMode : t.syncMode = 0 ∨ t.syncMode = 1 ∨ t.syncMode = 2
  bit : t.bit = 6 ∨ t.bit = 8
  dsifre : 0 ≤ t.dsifre.toInt
  porches : ∀ x ∈ t.porches, 0 ≤ x.toInt ∧ x.toInt ≤ 255
  sums : t.syncMode ≠ 0 → t.vBackPorch.toInt + t.vsyncpulseWidth.toInt ≤ 255 ∧
    t.hBackPorch.toInt + t.hsyncpulseWidth.toInt ≤ 255

/-- The vertical part of the back porch register: in burst and event mode with the pulse. -/
def vBack : Int :=
  if t.syncMode = 0 then t.vBackPorch.toInt else t.vBackPorch.toInt + t.vsyncpulseWidth.toInt

def hBack : Int :=
  if t.syncMode = 0 then t.hBackPorch.toInt else t.hBackPorch.toInt + t.hsyncpulseWidth.toInt

/-- The divisor of the low-power clock. -/
def lpDivisor : Nat := if t.dsifre.toNat < 80000000 then 65536 else t.dsifre.toNat / 80000000

def lpClkKHz : Nat := t.dsifre.toNat / 8 / t.lpDivisor / 1000

end PictureTiming

/-- A turn-around delay: 0 from 16 on. -/
def turnAroundDelay (factor lpClkKHz : Nat) : Nat :=
  if 16 ≤ factor * lpClkKHz / 500000 + 1 then 0 else factor * lpClkKHz / 500000 + 1

section Right

variable (t : PictureTiming) (cfg : Configure2828Info)

def PacksB1 : Prop :=
  (cfg.regB1.toNat : Int) = 256 * t.vsyncpulseWidth.toInt + t.hsyncpulseWidth.toInt

def PacksB2 : Prop := (cfg.regB2.toNat : Int) = 256 * t.vBack + t.hBack

def PacksB3 : Prop := (cfg.regB3.toNat : Int) = 256 * t.vFrontPorch.toInt + t.hFrontPorch.toInt

def TurnsAround : Prop :=
  cfg.regCe.toNat = 256 * turnAroundDelay 220 t.lpClkKHz + turnAroundDelay 275 t.lpClkKHz

/-- **The registers are those of the timing**, and of nothing else. -/
structure ConfiguresRight : Prop where
  divides : ∀ tAGetDelay old, calculateConfigParams t tAGetDelay old ≠ none
  right : ∀ tAGetDelay old cfg, calculateConfigParams t tAGetDelay old = some cfg →
    PacksB1 t cfg ∧ PacksB2 t cfg ∧ PacksB3 t cfg ∧ TurnsAround t cfg
  timingOnly : ∀ tAGetDelay tAGetDelay' old old',
    calculateConfigParams t tAGetDelay old = calculateConfigParams t tAGetDelay' old'

end Right

/-! ## Arithmetic -/

/-- A number that is not negative reads the same with and without sign. -/
theorem toInt_eq_toNat_of_nonneg {w : Nat} {x : BitVec w} (h : 0 ≤ x.toInt) : x.toInt = x.toNat := by
  rw [BitVec.toInt_eq_toNat_cond] at h ⊢
  split_ifs at h ⊢ with hsmall
  · rfl
  · have := x.isLt
    omega

/-- `int` division of what is not negative. -/
theorem toNat_sdiv {x y : BitVec 32} (hx : 0 ≤ x.toInt) (hy : 0 ≤ y.toInt) :
    (x.sdiv y).toNat = x.toNat / y.toNat := by
  have hx' : x.msb = false := by
    rw [BitVec.msb_eq_toInt]
    simpa using hx
  have hy' : y.msb = false := by
    rw [BitVec.msb_eq_toInt]
    simpa using hy
  rw [BitVec.sdiv_eq, hx', hy']
  exact BitVec.toNat_udiv

/-- **A packed value is its horizontal part**: the low byte of the mask is full. -/
theorem packed_toNat {h : BitVec 32} (v : BitVec 16) (hh : h.toNat ≤ 255) :
    (packed v h).toNat = h.toNat := by
  -- what is shifted in lies above the low byte
  have hmask : (0xff + v.setWidth 32 <<< 8 : BitVec 32).toNat % 2 ^ 8 = 255 := by
    have hv := v.isLt
    rw [BitVec.toNat_add, BitVec.toNat_shiftLeft, BitVec.toNat_setWidth, Nat.shiftLeft_eq]
    show (255 + _) % _ % _ = 255
    omega
  have hself : h.toNat = h.toNat &&& 255 := by
    rw [Nat.and_two_pow_sub_one_eq_mod h.toNat 8]
    omega
  have hand : h.toNat &&& (0xff + v.setWidth 32 <<< 8 : BitVec 32).toNat = h.toNat := by
    rw [hself, Nat.and_assoc, Nat.and_comm 255, Nat.and_two_pow_sub_one_eq_mod _ 8, hmask]
  unfold packed
  rw [BitVec.toNat_setWidth, BitVec.toNat_and, hand]
  omega

/-- Two bytes as a number. -/
theorem twoBytes_toNat (hi lo : Byte) : (twoBytes hi lo).toNat = 256 * hi.toNat + lo.toNat := by
  have hhi := hi.isLt
  have hlo := lo.isLt
  unfold twoBytes
  rw [BitVec.toNat_add, BitVec.toNat_shiftLeft, BitVec.toNat_setWidth, BitVec.toNat_setWidth,
    Nat.shiftLeft_eq]
  omega

/-- A field that is too large is sent as 0. -/
theorem zeroFrom_toNat {w : Nat} (limit : Nat) (x : BitVec w) :
    (zeroFrom limit x).toNat = if limit ≤ x.toNat then 0 else x.toNat := by
  unfold zeroFrom
  split_ifs
  · exact BitVec.toNat_ofNat 0 w |>.trans (Nat.zero_mod _)
  · rfl

/-- What `mipiInterfaceTimingInit` gives is never negative. -/
theorem toInt_through_nonneg {w : Nat} (hw : w < 32) (x : BitVec 32) : 0 ≤ (through w x).toInt := by
  have hpow : 2 ^ w ≤ 2 ^ 31 := Nat.pow_le_pow_right (by decide) (by omega)
  have hlt := (x.setWidth w).isLt
  have hnat : (through w x).toNat = (x.setWidth w).toNat := by
    unfold through
    rw [BitVec.toNat_setWidth, Nat.mod_eq_of_lt (by omega)]
  rw [BitVec.toInt_eq_toNat_of_lt (by omega)]
  exact Int.natCast_nonneg _

/-- The table of the porches has no negative entry. -/
theorem porches_timingInit (pInfo : TimingInfo) :
    ∀ x ∈ (mipiInterfaceTimingInit pInfo).porches, 0 ≤ x.toInt := by
  simp only [PictureTiming.porches, mipiInterfaceTimingInit, List.forall_mem_cons,
    toInt_through_nonneg (show 16 < 32 by decide), true_and]
  exact nofun

/-! ## The low-power clock -/

namespace PictureTiming

variable {t : PictureTiming}

/-- The divisor: the register counts from 0, and below 80 MHz it wraps. -/
theorem regBb_succ_toNat (hd : 0 ≤ t.dsifre.toInt) :
    (t.regBb.setWidth 32 + 1).toNat = t.lpDivisor := by
  have hlt : t.dsifre.toNat < 2 ^ 31 := by
    have := BitVec.toInt_lt (x := t.dsifre)
    have := toInt_eq_toNat_of_nonneg hd
    omega
  have hdiv : (t.dsifre.sdiv 80000000).toNat = t.dsifre.toNat / 80000000 :=
    toNat_sdiv hd (by decide)
  unfold regBb lpDivisor
  generalize t.dsifre.sdiv 80000000 = q at hdiv
  rw [BitVec.toNat_add, BitVec.toNat_setWidth, BitVec.toNat_setWidth, BitVec.toNat_sub, hdiv]
  -- a quotient of 0 becomes 65535, and the divisor 65536
  show ((2 ^ 32 - 1 + _) % 2 ^ 32 % 2 ^ 16 % 2 ^ 32 + 1) % 2 ^ 32 = _
  split_ifs with hlow <;> omega

/-- The divisor of the low-power clock is never 0. -/
theorem lpDivisor_pos (t : PictureTiming) : 0 < t.lpDivisor := by
  unfold lpDivisor
  split_ifs with hlow
  · decide
  · omega

/-- **The clock is at most 20 MHz.** -/
theorem lpClkKHz_le (hd : 0 ≤ t.dsifre.toInt) : t.lpClkKHz ≤ 20000 := by
  have hlt : t.dsifre.toNat < 2 ^ 31 := by
    have := BitVec.toInt_lt (x := t.dsifre)
    have := toInt_eq_toNat_of_nonneg hd
    omega
  have hclk : t.dsifre.toNat / 8 / t.lpDivisor < 20000001 := by
    refine Nat.div_lt_of_lt_mul ?_
    unfold lpDivisor
    -- the quotient is at least 1 and less than one 80 MHz short
    split_ifs with hlow <;> omega
  unfold lpClkKHz
  omega

/-- **There is no division by 0.** -/
theorem calculateConfigParams_eq (hd : 0 ≤ t.dsifre.toInt) :
    ∃ khz : BitVec 32, khz.toNat = t.lpClkKHz ∧ ∀ tAGetDelay old,
      calculateConfigParams t tAGetDelay old = some (configParams t khz tAGetDelay old) := by
  have hdivisor := regBb_succ_toNat hd
  have hpos := lpDivisor_pos t
  have hne : t.regBb.setWidth 32 + 1 ≠ 0 := by
    intro h0
    rw [h0] at hdivisor
    exact hpos.ne hdivisor
  -- the registers get the clock of this division, whatever else they get
  refine ⟨t.byteClk / (t.regBb.setWidth 32 + 1) / 1000, ?_, fun tAGetDelay old => ?_⟩
  · rw [BitVec.toNat_udiv, BitVec.toNat_udiv, hdivisor, byteClk, toNat_sdiv hd (by decide)]
    rfl
  · unfold calculateConfigParams udiv
    rw [if_neg hne]
    rfl

/-! ## The registers -/

/-- A field of the domain. -/
theorem InDomain.toNat_le (h : t.InDomain) {x : BitVec 32} (hx : x ∈ t.porches) :
    x.toInt = x.toNat ∧ x.toNat ≤ 255 := by
  obtain ⟨hlo, hhi⟩ := h.porches x hx
  have hnat := toInt_eq_toNat_of_nonneg hlo
  exact ⟨hnat, by omega⟩

/-- A packed field of the domain. -/
theorem InDomain.packed_toInt (h : t.InDomain) {x : BitVec 32} (v : BitVec 16) (hx : x ∈ t.porches) :
    ((packed v x).toNat : Int) = x.toInt := by
  obtain ⟨hnat, hle⟩ := h.toNat_le hx
  rw [packed_toNat v hle, hnat]

/-- In the domain the back porch fits its register. -/
theorem InDomain.regB2_toInt (h : t.InDomain) (old : BitVec 16) :
    ((t.regB2 old).toNat : Int) = t.hBack := by
  unfold regB2 hBack
  by_cases hpulse : t.syncMode = 0
  · -- pulse: the porches are packed as they are
    have hother : ¬(t.syncMode = 1 ∨ t.syncMode = 2) := by rw [hpulse]; decide
    simp only [if_pos hpulse, if_neg hother]
    exact h.packed_toInt _ (by simp [PictureTiming.porches])
  · -- burst or event: the sums are packed
    have hother := h.syncMode.resolve_left hpulse
    obtain ⟨hnat, hle⟩ := h.toNat_le (x := t.hBackPorch) (by simp [PictureTiming.porches])
    obtain ⟨hnat', hle'⟩ := h.toNat_le (x := t.hsyncpulseWidth) (by simp [PictureTiming.porches])
    have hsum := (h.sums hpulse).2
    simp only [if_neg hpulse, if_pos hother]
    rw [packed_toNat _ (by bv_omega)]
    bv_omega

/-- The registers that some timings leave alone are set for those of the domain. -/
theorem InDomain.regB2_old (h : t.InDomain) (old old' : BitVec 16) : t.regB2 old = t.regB2 old' := by
  unfold regB2
  by_cases hpulse : t.syncMode = 0
  · simp only [if_pos hpulse]
  · simp only [if_pos (h.syncMode.resolve_left hpulse)]

/-- What was in the register does not matter. -/
theorem InDomain.regB6_old (h : t.InDomain) (old old' : BitVec 16) : t.regB6 old = t.regB6 old' := by
  unfold regB6
  by_cases hbit : t.bit = 6
  · rw [if_pos hbit, if_pos hbit]
  · have hbit' := h.bit.resolve_left hbit
    rw [if_neg hbit, if_neg hbit, if_pos hbit', if_pos hbit']

/-- A register holds both parts exactly if there is no vertical one. -/
theorem packs_iff {reg : BitVec 16} {v h : Int} (hreg : (reg.toNat : Int) = h) :
    (reg.toNat : Int) = 256 * v + h ↔ v = 0 := by omega

theorem toInt_eq_zero_iff {x : BitVec 32} : x.toInt = 0 ↔ x = 0 :=
  ⟨fun h => BitVec.eq_of_toInt_eq h, fun h => by rw [h]; rfl⟩

/-- The delay that is calculated. -/
theorem tAGoDelay_toNat {khz : BitVec 32} (hkhz : khz.toNat ≤ 20000) :
    (zeroFrom 16 ((delay 0 220 500000 khz).setWidth 8)).toNat = turnAroundDelay 220 khz.toNat := by
  have hdelay : (delay 0 220 500000 khz).toNat = 220 * khz.toNat / 500000 + 1 := by
    unfold delay
    have hmul : (0 + 220 * khz : BitVec 32).toNat = 220 * khz.toNat := by
      rw [BitVec.toNat_add, BitVec.toNat_mul]
      show (0 + 220 * khz.toNat % 2 ^ 32) % 2 ^ 32 = _
      omega
    rw [BitVec.toNat_add, BitVec.toNat_udiv, hmul]
    show (220 * khz.toNat / 500000 + 1) % 2 ^ 32 = _
    omega
  -- at 20 MHz it is 9, so neither the byte nor the limit changes it
  have hbyte : ((delay 0 220 500000 khz).setWidth 8).toNat = 220 * khz.toNat / 500000 + 1 := by
    rw [BitVec.toNat_setWidth, hdelay]
    omega
  rw [zeroFrom_toNat, hbyte]
  rfl

end PictureTiming

open PictureTiming

/-- **What the registers are right for**: a pair exactly if its vertical part is 0, and the
turn-around delays exactly if the missing one is there by chance. Only their register depends on
more than the timing, but it always does. -/
theorem not_configuresRight {t : PictureTiming} (h : t.InDomain) :
    ¬ConfiguresRight t ∧ ∀ tAGetDelay old, ∃ cfg,
      calculateConfigParams t tAGetDelay old = some cfg ∧
        (PacksB1 t cfg ↔ t.vsyncpulseWidth = 0) ∧ (PacksB2 t cfg ↔ t.vBack = 0) ∧
        (PacksB3 t cfg ↔ t.vFrontPorch = 0) ∧
        (TurnsAround t cfg ↔ tAGetDelay.toNat = turnAroundDelay 275 t.lpClkKHz) ∧
        ∀ tAGetDelay' old' cfg', calculateConfigParams t tAGetDelay' old' = some cfg' →
          cfg' = { cfg with regCe := cfg'.regCe } := by
  obtain ⟨khz, hkhz, hcalc⟩ := calculateConfigParams_eq h.dsifre
  have hgo := tAGoDelay_toNat (hkhz.trans_le (lpClkKHz_le h.dsifre))
  have hce (tAGetDelay : Byte) (old : Configure2828Info) :
      (configParams t khz tAGetDelay old).regCe.toNat =
        256 * turnAroundDelay 220 t.lpClkKHz + tAGetDelay.toNat := by
    rw [← hkhz, ← hgo]
    exact twoBytes_toNat _ _
  constructor
  · -- two contents of the variable, two registers
    intro hright
    have hsame := hright.timingOnly 0 1 ⟨0, 0, 0, 0, 0, 0, 0, 0, 0, 0, 0, 0, 0, 0, 0, 0⟩
      ⟨0, 0, 0, 0, 0, 0, 0, 0, 0, 0, 0, 0, 0, 0, 0, 0⟩
    rw [hcalc, hcalc, Option.some_inj] at hsame
    have hreg := congrArg (fun cfg => cfg.regCe.toNat) hsame
    simp only [hce] at hreg
    exact absurd hreg (by simp)
  · intro tAGetDelay old
    refine ⟨_, hcalc tAGetDelay old, ?_, ?_, ?_, ?_, ?_⟩
    · rw [← toInt_eq_zero_iff]
      exact packs_iff (h.packed_toInt _ (by simp [PictureTiming.porches]))
    · exact packs_iff (h.regB2_toInt old.regB2)
    · rw [← toInt_eq_zero_iff]
      exact packs_iff (h.packed_toInt _ (by simp [PictureTiming.porches]))
    · unfold TurnsAround
      rw [hce]
      exact Nat.add_left_cancel_iff
    · intro tAGetDelay' old' cfg' hcfg'
      rw [hcalc, Option.some_inj] at hcfg'
      subst hcfg'
      -- the registers of the call before are left only outside of the domain
      unfold configParams
      rw [h.regB2_old old'.regB2 old.regB2, h.regB6_old old'.regB6 old.regB6]

/-- A module of 1080 columns and 1920 rows at 800 MHz. -/
def fullHd : PictureTiming :=
  ⟨2, 10, 16, 60, 16, 60, 1920, 1080, 4, 8, 800000000, 2⟩

/-- For a full-HD picture: which registers are right, and which never are. -/
theorem not_configuresRight_fullHd :
    ¬ConfiguresRight fullHd ∧ ∀ tAGetDelay old, ∃ cfg,
      calculateConfigParams fullHd tAGetDelay old = some cfg ∧
        (PacksB1 fullHd cfg ↔ fullHd.vsyncpulseWidth = 0) ∧ (PacksB2 fullHd cfg ↔ fullHd.vBack = 0) ∧
        (PacksB3 fullHd cfg ↔ fullHd.vFrontPorch = 0) ∧
        (TurnsAround fullHd cfg ↔ tAGetDelay.toNat = turnAroundDelay 275 fullHd.lpClkKHz) ∧
        ∀ tAGetDelay' old' cfg', calculateConfigParams fullHd tAGetDelay' old' = some cfg' →
          cfg' = { cfg with regCe := cfg'.regCe } :=
  not_configuresRight
    ⟨by decide, by decide, by decide, by simp [porches, fullHd], by decide⟩

/-- Its pulses, 2 rows and 10 columns, are written as `0x000A`. -/
theorem fullHd_not_right : ¬ConfiguresRight fullHd := by
  intro hright
  -- the first of the registers is already wrong
  obtain ⟨khz, -, hcalc⟩ := calculateConfigParams_eq (t := fullHd) (by decide)
  have hb1 : (fullHd.regB1.toNat : Int) = 256 * 2 + 10 :=
    (hright.right 0 ⟨0, 0, 0, 0, 0, 0, 0, 0, 0, 0, 0, 0, 0, 0, 0, 0⟩ _ (hcalc _ _)).1
  exact absurd hb1 (by decide)

end PgClient.Mipi
