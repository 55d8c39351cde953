import Mathlib.Algebra.Order.Group.Abs
import Mathlib.Algebra.Order.Group.Int
import PgClient.Power.Check

/-!
# The backlight check

`power_check_vbl` tests the open/short status of the LED strings and compares the current
with what the strings draw together, `LEDNumber * LEDCurrent`, which it keeps in a `short`.

* `powerCheckVbl_eq` — what it returns.
* `backlightChecked_iff` — it stays inside `vbl_led_n_open_short` and reports a fault exactly
  if the protection is off, or a status byte it comes to is set, or there are at most six
  strings and the current is bad on the side that `power_check_item` reports.
-/

namespace PgClient.Power

/-! ## What is to be checked -/

/-- The three fields that turn the protection on. -/
def PwrCfg.BacklightOn (cfg : PwrCfg) : Prop :=
  cfg.ledUvp ≠ 0 ∧ cfg.ledChannel ≠ 0 ∧ cfg.ledNumber ≠ 0

instance (cfg : PwrCfg) : Decidable cfg.BacklightOn := inferInstanceAs (Decidable (_ ∧ _))

/-- The status bytes of the strings in use: the positive one, and `LEDNumber` negative ones. -/
def ledStatuses (cfg : PwrCfg) (info : PwrInfo) : List Byte :=
  info.vblLedPOpenShort :: info.vblLedNOpenShort.toList.take cfg.ledNumber.toInt.toNat

/-- The current that the strings draw together. -/
def PwrCfg.ledTotal (cfg : PwrCfg) : Int := cfg.ledNumber.toInt * cfg.ledCurrent.toInt

/-- The check ends without reading past the array, and tells whether there is a fault. -/
def BacklightChecked (cfg : PwrCfg) (info : PwrInfo) : Prop :=
  ∃ ret, powerCheckVbl cfg info = some ret ∧
    (ret ≠ 0 ↔ cfg.BacklightOn ∧ ((∃ status ∈ ledStatuses cfg info, status ≠ 0) ∨
      BadBy 10#16 cfg.ledTotal info.iVbl.toInt))

/-! ## What the check returns -/

/-- The code of a status byte. -/
theorem checkCcVblOpenShort_eq {status : Byte} (h : status ≠ 0) :
    checkCcVblOpenShort status = status.toNat + 32 := by
  rw [checkCcVblOpenShort, if_pos h, pwrCheckErrVblOpen]
  omega

theorem checkCcVblOpenShort_zero : checkCcVblOpenShort 0 = 0 := rfl

/-- **The loop over the negative strings**: the code of the first one whose status is set;
without one it has to stay inside the array. -/
theorem checkVblN_eq (n : Nat) (rest : List Byte) :
    checkVblN n rest = match (rest.take n).find? (· ≠ 0) with
      | some status => some (status.toNat + 32 : Int)
      | none => if n ≤ rest.length then some 0 else none := by
  induction n generalizing rest with
  | zero =>
    rw [checkVblN, List.take_zero, List.find?_nil, if_pos (Nat.zero_le _)]
    rfl
  | succ n ih =>
    cases rest with
    | nil =>
      rw [checkVblN, List.take_nil, List.find?_nil, if_neg (by simp)]
    | cons status rest =>
      rw [checkVblN, List.take_succ_cons, List.find?_cons]
      by_cases hset : status = 0
      · -- the loop goes on
        simp only [hset, checkCcVblOpenShort_zero, ne_eq, not_true_eq_false, if_false, decide_false,
          ih, List.length_cons, Nat.add_le_add_iff_right]
      · -- what is returned for a status is not 0, and ends the loop
        have hcode : ¬((status.toNat : Int) + 32 = 0) := by omega
        simp only [checkCcVblOpenShort_eq hset, ne_eq, hcode, not_false_eq_true, if_true, hset,
          decide_true]

/-- What `power_check_vbl` makes of the comparison of the currents: the code is added to
itself. -/
def vblCurrentRet (fixValue actualValue : Int) : Int :=
  if UnderBy 10#16 fixValue actualValue then 35 else 0

/-- The product as it is kept in a `short`. -/
theorem toInt_iVblFix (cfg : PwrCfg) :
    (cfg.ledNumber * cfg.ledCurrent).toInt = cfg.ledTotal.bmod 65536 :=
  BitVec.toInt_mul cfg.ledNumber cfg.ledCurrent

/-- The comparison of the currents, by the sign that the product has there. -/
theorem powerCheckItem_iVbl (cfg : PwrCfg) (iVbl : Short) :
    powerCheckItem (cfg.ledNumber * cfg.ledCurrent) iVbl 10#16 =
      if UnderBy 10#16 (cfg.ledTotal.bmod 65536) iVbl.toInt then 2 else 0 := by
  rw [powerCheckItem_spec_by (by decide), toInt_iVblFix]
  split_ifs <;> rfl

/-- **What `power_check_vbl` returns.** -/
theorem powerCheckVbl_eq (cfg : PwrCfg) (info : PwrInfo) :
    powerCheckVbl cfg info =
      if cfg.BacklightOn then
        match (ledStatuses cfg info).find? (· ≠ 0) with
        | some status => some (status.toNat + 32 : Int)
        | none =>
          if cfg.ledNumber.toInt ≤ 6 then
            some (vblCurrentRet (cfg.ledTotal.bmod 65536) info.iVbl.toInt)
          else none
      else some 0 := by
  unfold powerCheckVbl
  by_cases hon : cfg.BacklightOn
  · have hoff : ¬(cfg.ledUvp = 0 ∨ cfg.ledChannel = 0 ∨ cfg.ledNumber = 0) := by
      rintro (h | h | h)
      exacts [hon.1 h, hon.2.1 h, hon.2.2 h]
    rw [if_neg hoff, if_pos hon, ledStatuses, List.find?_cons]
    by_cases hp : info.vblLedPOpenShort = 0
    · -- the positive string is fine, and the loop follows
      have hlen : cfg.ledNumber.toInt.toNat ≤ info.vblLedNOpenShort.toList.length ↔
          cfg.ledNumber.toInt ≤ 6 := by
        rw [Vector.length_toList]
        omega
      simp only [hp, checkCcVblOpenShort_zero, ne_eq, not_true_eq_false, if_false, decide_false,
        checkVblN_eq, hlen]
      cases (info.vblLedNOpenShort.toList.take cfg.ledNumber.toInt.toNat).find? _ with
      | some status =>
        -- one of the negative strings
        have hne : ¬((status.toNat : Int) + 32 = 0) := by omega
        simp only [hne, not_false_eq_true, if_true]
      | none =>
        -- with more than six the loop has left the array
        by_cases hsix : cfg.ledNumber.toInt ≤ 6
        · simp only [if_pos hsix, powerCheckItem_iVbl, vblCurrentRet]
          by_cases hunder : UnderBy 10#16 (cfg.ledTotal.bmod 65536) info.iVbl.toInt
          · simp only [if_pos hunder]
            rfl
          · simp only [if_neg hunder]
            rfl
        · simp only [if_neg hsix]
    · have hcode : ¬((info.vblLedPOpenShort.toNat : Int) + 32 = 0) := by omega
      simp only [checkCcVblOpenShort_eq hp, ne_eq, hcode, not_false_eq_true, if_true, hp, decide_true]
  · have hoff : cfg.ledUvp = 0 ∨ cfg.ledChannel = 0 ∨ cfg.ledNumber = 0 := by
      by_contra h
      simp only [not_or] at h
      exact hon h
    rw [if_pos hoff, if_neg hon]
    rfl

/-! ## When it is right -/

/-- The comparison of the currents tells what it should: against a product that a `short`
holds, if nothing is bad but on the side that is reported; against any other, only of a
current that is bad, and is on that side of what is left of the product. -/
def CurrentTold (total actual : Int) : Prop :=
  if -32768 ≤ total ∧ total ≤ 32767 then BadBy 10#16 total actual → UnderBy 10#16 total actual
  else BadBy 10#16 total actual ∧ UnderBy 10#16 (total.bmod 65536) actual

theorem bmod_short {total : Int} (hlo : -32768 ≤ total) (hhi : total ≤ 32767) :
    total.bmod 65536 = total := by
  rw [Int.bmod_def]
  split_ifs <;> omega

/-- A tenth of a current, or 200. -/
theorem tolBy_ten (total : Int) : tolBy 10#16 total = max ((total.natAbs * 10 / 100 : Nat) : Int) 200 := by
  unfold tolBy
  rw [Int.abs_eq_natAbs, Int.natAbs_tdiv, Int.natAbs_mul]
  rfl

/-- A current near a product that is too large for a `short` is of the other sign than what is
left of the product. -/
theorem under_bmod_of_not_bad {total : Int} {actual : Short}
    (hwide : ¬(-32768 ≤ total ∧ total ≤ 32767)) (hgood : ¬BadBy 10#16 total actual.toInt) :
    UnderBy 10#16 (total.bmod 65536) actual.toInt := by
  obtain ⟨hlo, hhi⟩ := short_bounds actual
  unfold BadBy at hgood
  rw [tolBy_ten] at hgood
  -- a good current is within a tenth of the product, and a `short` itself
  rcases lt_trichotomy total 0 with hneg | rfl | hpos
  · have hnear : actual.toInt < 0 ∧ |total - actual.toInt| ≤
        max ((total.natAbs * 10 / 100 : Nat) : Int) 200 := by
      refine ⟨not_le.mp fun h => hgood (Or.inr (Or.inr ⟨hneg, Or.inl h⟩)),
        not_lt.mp fun h => hgood (Or.inr (Or.inr ⟨hneg, Or.inr h⟩))⟩
    rw [abs_le] at hnear
    have hleft : total.bmod 65536 = total + 65536 := by
      rw [Int.bmod_def]
      split_ifs <;> omega
    exact Or.inl ⟨by omega, Or.inl hnear.1⟩
  · exact absurd ⟨by decide, by decide⟩ hwide
  · have hnear : 0 ≤ actual.toInt ∧ |total - actual.toInt| ≤
        max ((total.natAbs * 10 / 100 : Nat) : Int) 200 := by
      refine ⟨not_lt.mp fun h => hgood (Or.inr (Or.inl ⟨hpos, Or.inl h⟩)),
        not_lt.mp fun h => hgood (Or.inr (Or.inl ⟨hpos, Or.inr h⟩))⟩
    rw [abs_le] at hnear
    have hleft : total.bmod 65536 = total - 65536 := by
      rw [Int.bmod_def]
      split_ifs <;> omega
    exact Or.inr ⟨by omega, Or.inl hnear.1⟩

/-- What is reported of the current against what should be. -/
theorem currentTold_iff (total : Int) (actual : Short) :
    (UnderBy 10#16 (total.bmod 65536) actual.toInt ↔ BadBy 10#16 total actual.toInt) ↔
      CurrentTold total actual.toInt := by
  unfold CurrentTold
  split_ifs with hfits
  · rw [bmod_short hfits.1 hfits.2]
    exact ⟨fun h => h.mpr, fun h => ⟨UnderBy.bad, h⟩⟩
  · constructor
    · intro h
      by_cases hbad : BadBy 10#16 total actual.toInt
      · exact ⟨hbad, h.mpr hbad⟩
      · -- a good current is reported, for it looks too small
        exact absurd (h.mp (under_bmod_of_not_bad hfits hbad)) hbad
    · exact fun h => ⟨fun _ => h.1, fun _ => h.2⟩

/-- **When the backlight check is right**: if the protection is off, if a status that it comes
to is set, or if there are statuses for all the strings and the current is told. -/
theorem backlightChecked_iff (cfg : PwrCfg) (info : PwrInfo) :
    BacklightChecked cfg info ↔
      ¬cfg.BacklightOn ∨ (∃ status ∈ ledStatuses cfg info, status ≠ 0) ∨
        (cfg.ledNumber.toInt ≤ 6 ∧ CurrentTold cfg.ledTotal info.iVbl.toInt) := by
  unfold BacklightChecked
  rw [powerCheckVbl_eq]
  by_cases hon : cfg.BacklightOn
  · simp only [hon, if_true, true_and, not_true_eq_false, false_or]
    cases hfind : (ledStatuses cfg info).find? (· ≠ 0) with
    | some status =>
      -- a status is reported, and it is set
      have hset : ∃ status ∈ ledStatuses cfg info, status ≠ 0 :=
        ⟨status, List.mem_of_find?_eq_some hfind, by simpa using List.find?_some hfind⟩
      refine ⟨fun _ => Or.inl hset, fun _ => ⟨_, rfl, fun _ => Or.inl hset, fun _ => ?_⟩⟩
      omega
    | none =>
      -- nothing is set, so all depends on the current
      have hclear : ¬∃ status ∈ ledStatuses cfg info, status ≠ 0 := by
        rintro ⟨status, hmem, hset⟩
        exact absurd (List.find?_eq_none.mp hfind status hmem) (by simpa using hset)
      simp only [hclear, false_or]
      split_ifs with hsix
      · have hret : ∀ fixValue actualValue, vblCurrentRet fixValue actualValue ≠ 0 ↔
            UnderBy 10#16 fixValue actualValue := by
          intro fixValue actualValue
          unfold vblCurrentRet
          split_ifs with hunder <;> simp [hunder]
        simp only [Option.some.injEq, exists_eq_left', hret, currentTold_iff, hsix, true_and]
      · simp [hsix]
  · -- nothing is tested, and nothing is to be reported
    simp only [hon, if_false, false_and, not_false_eq_true, true_or, iff_true]
    exact ⟨0, rfl, by simp⟩

/-- One string of 1000, and twice that current. -/
def doubleCfg : PwrCfg := ⟨0, 0, 0, 0, 0, 1, 1, 1000, 1⟩

def doubleInfo : PwrInfo :=
  ⟨0, 0, 0, 0, 0, 2000, 0, .replicate 6 0, .replicate 7 0, 0, 0, 0, 0⟩

/-- The over-current is reported as 0. -/
theorem double_not_backlightChecked : ¬BacklightChecked doubleCfg doubleInfo := by
  rintro ⟨ret, hret, hiff⟩
  have hzero : powerCheckVbl doubleCfg doubleInfo = some 0 := by decide
  obtain rfl : 0 = ret := Option.some.inj (hzero.symm.trans hret)
  exact hiff.mpr ⟨by decide, Or.inr (by decide)⟩ rfl

end PgClient.Power
