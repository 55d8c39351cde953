import Mathlib.Tactic.IntervalCases
import PgClient.Power.Backlight

/-!
# The names of the power errors

`checkPowerEquitable` and `power_check_vbl` make their codes out of the base of a rail and a
kind, and `getErrorStr` looks up the text that goes to the PC and to the box.

* `words_getErrorStr` — the table has the right text at every code.
* `checkPowerEquitable_eq` — the code of the first rail on its under side, with `VDDIO` taken
  for `VDD`.
* `namesFault_iff` — when the code is that of the first fault.
-/

namespace PgClient.Power

/-! ## The table of texts -/

/-- `E_PWR_CHECK_ERR_<rail>_<kind>`. -/
def PwrCheckRail.err (rail : PwrCheckRail) (kind : PwrCheckErr) : Int := rail.ov + kind.val

/-- The statuses of a string that have a code, in the order of the enum. -/
inductive LedStatus
  | open
  | shortLight
  | shortPn
  | shortNn
  | shortNGnd
  | shortPGnd
  deriving DecidableEq

/-- `E_PWR_CHECK_ERR_VBL_<status>`. -/
def LedStatus.err : LedStatus → Int
  | .open => pwrCheckErrVblOpen
  | .shortLight => 34
  | .shortPn => 35
  | .shortNn => 36
  | .shortNGnd => 37
  | .shortPGnd => 38

/-- `E_PWR_CHECK_OTHER`. -/
def pwrCheckOther : Int := 39

/-- `sgPwrErrorInfo`. -/
def sgPwrErrorInfo : List (Int × String) :=
  [(PwrCheckRail.vdd.err .ov, "电源错误：VDD过压，设备关电！"),
   (PwrCheckRail.vdd.err .uv, "电源错误：VDD欠压，设备关电！"),
   (PwrCheckRail.vdd.err .oc, "电源错误：VDD过流，设备关电!"),
   (PwrCheckRail.vdd.err .uc, "电源错误：VDD欠流，设备关电!"),
   (PwrCheckRail.vint.err .ov, "电源错误： VINT过压，设备关电!"),
   (PwrCheckRail.vint.err .uv, "电源错误： VINT欠压，设备关电!"),
   (PwrCheckRail.vint.err .oc, "电源错误： VINT过流，设备关电!"),
   (PwrCheckRail.vint.err .uc, "电源错误：VINT欠流，设备关电!"),
   (PwrCheckRail.vsp.err .ov, "电源错误： VSP过压，设备关电!"),
   (PwrCheckRail.vsp.err .uv, "电源错误： VSP欠压，设备关电!"),
   (PwrCheckRail.vsp.err .oc, "电源错误： VSP过流，设备关电!"),
   (PwrCheckRail.vsp.err .uc, "电源错误： VSP欠流，设备关电!"),
   (PwrCheckRail.vsn.err .ov, "电源错误： VSN过压，设备关电!"),
   (PwrCheckRail.vsn.err .uv, "电源错误： VSN欠压，设备关电!"),
   (PwrCheckRail.vsn.err .oc, "电源错误： VSN过流，设备关电!"),
   (PwrCheckRail.vsn.err .uc, "电源错误： VSN欠流，设备关电!"),
   (PwrCheckRail.vgh.err .ov, "电源错误： VGH过压，设备关电!"),
   (PwrCheckRail.vgh.err .uv, "电源错误： VGH欠压，设备关电!"),
   (PwrCheckRail.vgh.err .oc, "电源错误：VGH过流，设备关电!"),
   (PwrCheckRail.vgh.err .uc, "电源错误：VGH欠流，设备关电!"),
   (PwrCheckRail.vgl.err .ov, "电源错误：VGL过压，设备关电!"),
   (PwrCheckRail.vgl.err .uv, "电源错误：VGL欠压，设备关电!"),
   (PwrCheckRail.vgl.err .oc, "电源错误：VGL过流，设备关电!"),
   (PwrCheckRail.vgl.err .uc, "电源错误：VGL欠流，设备关电!"),
   (PwrCheckRail.vcom.err .ov, "电源错误：VCOM过压，设备关电!"),
   (PwrCheckRail.vcom.err .uv, "电源错误：VCOM欠压，设备关电!"),
   (PwrCheckRail.vcom.err .oc, "电源错误：VCOM过流，设备关电!"),
   (PwrCheckRail.vcom.err .uc, "电源错误：VCOM欠流，设备关电!"),
   (PwrCheckRail.vbl.err .ov, "电源错误：VBL过压，设备关电!"),
   (PwrCheckRail.vbl.err .uv, "电源错误：VBL欠压，设备关电!"),
   (PwrCheckRail.vbl.err .oc, "电源错误：VBL过流，设备关电!"),
   (PwrCheckRail.vbl.err .uc, "电源错误：VBL欠流，设备关电!"),
   (LedStatus.open.err, "电源错误：VBL开路，设备关电!"),
   (LedStatus.shortLight.err, "电源错误：背光灯珠短路。设备关电!"),
   (LedStatus.shortPn.err, "电源错误：背光正负短路。设备关电!"),
   (LedStatus.shortNn.err, "电源错误：背光负负短路。设备关电!"),
   (LedStatus.shortNGnd.err, "电源错误：背光负地短路。设备关电!"),
   (LedStatus.shortPGnd.err, "电源错误：背光正地短路。设备关电!"),
   (pwrCheckOther, "电源错误：其他错误，设备关电!")]

/-- `getErrorStr`: the last text stands for what is not in the table. -/
def getErrorStr (error : Int) : String :=
  match sgPwrErrorInfo.find? (·.1 = error) with
  | some pInfo => pInfo.2
  | none => (sgPwrErrorInfo.getLast (List.cons_ne_nil _ _)).2

/-- What `pwrErrorProcess` sends. -/
inductive PwrNotice
  | clientNotifyMsg (error : Int) (text : String)
  | boxFeedback (text result : String)

def PwrNotice.text : PwrNotice → String
  | .clientNotifyMsg _ text => text
  | .boxFeedback text _ => text

/-- `NOTIFY_ERROR_POWER_CHECK`. -/
def notifyErrorPowerCheck : Int := -1

/-- `pwrErrorProcess`, with what `box_gen_pass_failed_msg_data` makes of "Fail". -/
def pwrErrorProcess (errorResult : String) (error : Int) : List PwrNotice :=
  let pError := getErrorStr error
  [.clientNotifyMsg notifyErrorPowerCheck pError, .boxFeedback pError errorResult]

/-! ## Faults -/

/-- What is wrong, in the terms of the check. -/
inductive Fault
  | rail (rail : Rail) (kind : PwrCheckErr)
  | status (byte : Byte)
  | current (kind : PwrCheckErr)
  deriving DecidableEq

/-- The rail of the enum that a monitored one is reported as. -/
def Rail.reportedAs : Rail → PwrCheckRail
  | .vddio => .vint
  | .elvdd => .vgh
  | .vsp => .vsp
  | .elvss => .vgl
  | .vsn => .vsn

/-- What a status byte stands for. -/
def ledStatus : Nat → Option LedStatus
  | 1 => some .open
  | 2 => some .shortLight
  | 3 => some .shortPn
  | 4 => some .shortNn
  | 5 => some .shortNGnd
  | 6 => some .shortPGnd
  | _ => none

/-- The constant of a fault. -/
def Fault.code : Fault → Int
  | .rail r kind => r.reportedAs.err kind
  | .status byte => ((ledStatus byte.toNat).map LedStatus.err).getD pwrCheckOther
  | .current kind => PwrCheckRail.vbl.err kind

/-- How a rail is written. -/
def PwrCheckRail.words : PwrCheckRail → String
  | .vdd => "VDD"
  | .vint => "VINT"
  | .vsp => "VSP"
  | .vsn => "VSN"
  | .vgh => "VGH"
  | .vgl => "VGL"
  | .vcom => "VCOM"
  | .vbl => "VBL"

/-- How a kind is written: over or under, voltage or current. -/
def PwrCheckErr.words : PwrCheckErr → String
  | .ov => "过压"
  | .oc => "过流"
  | .uv => "欠压"
  | .uc => "欠流"

def LedStatus.words : LedStatus → String
  | .open => "开路"
  | .shortLight => "灯珠短路"
  | .shortPn => "正负短路"
  | .shortNn => "负负短路"
  | .shortNGnd => "负地短路"
  | .shortPGnd => "正地短路"

/-- What the text of a fault has to say. -/
def Fault.words : Fault → String
  | .rail r kind => r.reportedAs.words ++ kind.words
  | .status byte => ((ledStatus byte.toNat).map LedStatus.words).getD "其他错误"
  | .current kind => PwrCheckRail.vbl.words ++ kind.words

/-- Every rail and kind has its text. -/
theorem words_err (rail : PwrCheckRail) (kind : PwrCheckErr) :
    (rail.words ++ kind.words).toList <:+: (getErrorStr (rail.err kind)).toList := by
  cases rail <;> cases kind <;> decide +kernel

/-- **The table has the right text** for every fault. -/
theorem words_getErrorStr (fault : Fault) :
    fault.words.toList <:+: (getErrorStr fault.code).toList := by
  cases fault with
  | rail r kind => exact words_err r.reportedAs kind
  | status byte =>
    -- the six constants, and the one for everything else
    rw [Fault.words, Fault.code]
    rcases ledStatus byte.toNat with - | (- | - | - | - | - | -) <;> decide +kernel
  | current kind => exact words_err .vbl kind

/-! ## The first fault -/

/-- The rails, in the order of `checkPowerEquitable`. -/
def Rail.checked : List Rail := [.vddio, .elvdd, .vsp, .elvss, .vsn]

/-- Every rail is checked. -/
theorem Rail.mem_checked (r : Rail) : r ∈ Rail.checked := by
  cases r <;> decide

/-- The first rail that is bad. -/
def firstBad (cfg : PwrCfg) (info : PwrInfo) : Option Rail :=
  Rail.checked.find? fun r => Bad (cfg.rail r) (info.rail r)

/-- The first status byte that is set. -/
def firstStatus (cfg : PwrCfg) (info : PwrInfo) : Option Byte :=
  (ledStatuses cfg info).find? (· ≠ 0)

/-- The fault of the backlight, the strings before their current. -/
def backlightFault (cfg : PwrCfg) (info : PwrInfo) : Option Fault :=
  if cfg.BacklightOn then
    match firstStatus cfg info with
    | some status => some (.status status)
    | none =>
      if UnderBy 10#16 cfg.ledTotal info.iVbl.toInt then some (.current .uc)
      else if BadBy 10#16 cfg.ledTotal info.iVbl.toInt then some (.current .oc)
      else none
  else none

/-- The first fault, in checking order. -/
def firstFault (cfg : PwrCfg) (info : PwrInfo) : Option Fault :=
  match firstBad cfg info with
  | some r => some (.rail r (if Under (cfg.rail r) (info.rail r) then .uv else .ov))
  | none => backlightFault cfg info

/-- `ret` is the constant of the fault, and everything that is sent has its words. -/
def Named (ret : Int) (found : Option Fault) : Prop :=
  ∃ fault, found = some fault ∧ ret = fault.code ∧
    ∀ errorResult, ∀ notice ∈ pwrErrorProcess errorResult ret, fault.words.toList <:+: notice.text.toList

/-- A result that is not 0 names the first fault. -/
structure NamesFault (cfg : PwrCfg) (info : PwrInfo) : Prop where
  rails : checkPowerEquitable cfg info ≠ 0 →
    Named (checkPowerEquitable cfg info) (firstFault cfg info)
  backlight : checkPowerEquitable cfg info = 0 → powerCheckVbl cfg info ≠ some 0 →
    ∃ ret, powerCheckVbl cfg info = some ret ∧ Named ret (firstFault cfg info)

/-- The right code has the right text. -/
theorem named_iff (ret : Int) (found : Option Fault) :
    Named ret found ↔ ∃ fault, found = some fault ∧ ret = fault.code := by
  constructor
  · rintro ⟨fault, hfound, hcode, -⟩
    exact ⟨fault, hfound, hcode⟩
  · rintro ⟨fault, hfound, rfl⟩
    refine ⟨fault, hfound, rfl, ?_⟩
    intro errorResult notice hnotice
    -- the PC and the box are sent the same text
    have htext : notice.text = getErrorStr fault.code := by
      simp only [pwrErrorProcess, List.mem_cons, List.not_mem_nil, or_false] at hnotice
      rcases hnotice with rfl | rfl <;> rfl
    rw [htext]
    exact words_getErrorStr fault

/-! ## What is returned -/

/-- The rail of the enum whose base is added to the kind: `VDDIO` is taken for `VDD`. -/
def Rail.returnedAs : Rail → PwrCheckRail
  | .vddio => .vdd
  | r => r.reportedAs

/-- The check of a rail compares its own two values. -/
theorem powerCheckItem_rail (cfg : PwrCfg) (info : PwrInfo) (fixValue actualValue : Short) (r : Rail)
    (hfix : fixValue.toInt = cfg.rail r) (hactual : actualValue.toInt = info.rail r) :
    powerCheckItem fixValue actualValue powerCheckPercent =
      if Under (cfg.rail r) (info.rail r) then PwrCheckErr.uv.val else 0 := by
  rw [powerCheckItem_spec, hfix, hactual]
  split_ifs <;> rfl

/-- One rail is looked at, and if it is not on its under side, the rest. -/
theorem railStep {cfg : PwrCfg} {info : PwrInfo} {rs : List Rail} {ret ov rest : Int} (r : Rail)
    (hret : ret = if Under (cfg.rail r) (info.rail r) then PwrCheckErr.uv.val else 0)
    (hov : PwrCheckErr.uv.val + ov = r.returnedAs.err .uv)
    (hrest : ¬Under (cfg.rail r) (info.rail r) →
      rest = match rs.find? fun r => Under (cfg.rail r) (info.rail r) with
        | some r => r.returnedAs.err .uv
        | none => 0) :
    (if ret ≠ 0 then ret + ov else rest) =
      match (r :: rs).find? fun r => Under (cfg.rail r) (info.rail r) with
      | some r => r.returnedAs.err .uv
      | none => 0 := by
  -- the first one found is this rail, or one of the rest
  by_cases h : Under (cfg.rail r) (info.rail r)
  · rw [if_pos h] at hret
    rw [List.find?_cons, decide_eq_true h, hret, if_pos (by decide), hov]
  · rw [if_neg h] at hret
    rw [List.find?_cons, decide_eq_false h, hret, if_neg (not_not_intro rfl), hrest h]

/-- **What `checkPowerEquitable` returns**: the code of the first rail on its under side. -/
theorem checkPowerEquitable_eq (cfg : PwrCfg) (info : PwrInfo) :
    checkPowerEquitable cfg info =
      match Rail.checked.find? fun r => Under (cfg.rail r) (info.rail r) with
      | some r => r.returnedAs.err .uv
      | none => 0 := by
  have hitem := powerCheckItem_rail cfg info
  unfold checkPowerEquitable
  -- one rail after the other, up to the first one that is under
  refine railStep .vddio (hitem cfg.vddio info.vddio .vddio rfl rfl) rfl fun _ => ?_
  refine railStep .elvdd (hitem cfg.elvdd info.elvdd .elvdd rfl rfl) rfl fun _ => ?_
  refine railStep .vsp (hitem cfg.vsp info.vsp .vsp rfl rfl) rfl fun _ => ?_
  refine railStep .elvss (hitem cfg.elvss info.elvss .elvss rfl rfl) rfl fun _ => ?_
  refine railStep .vsn (hitem cfg.vsn info.vsn .vsn rfl rfl) rfl fun h => ?_
  -- behind the last one its own result is returned
  rw [hitem cfg.vsn info.vsn .vsn rfl rfl, if_neg h]
  rfl

/-- What is first among more, and is in the smaller set, is first in it. -/
theorem find?_of_imp {α : Type} {p q : α → Bool} {xs : List α} {a : α} (hpq : ∀ x, q x → p x)
    (hfind : xs.find? p = some a) (hq : q a) : xs.find? q = some a := by
  obtain ⟨-, before, after, rfl, hbefore⟩ := List.find?_eq_some_iff_append.mp hfind
  refine List.find?_eq_some_iff_append.mpr ⟨hq, before, after, rfl, ?_⟩
  intro x hx
  cases hqx : q x with
  | false => rfl
  | true => simpa [hpq x hqx] using hbefore x hx

/-- An under-voltage is returned under its own name, for all but one of the rails. -/
theorem returnedAs_err_eq_iff (r : Rail) :
    r.returnedAs.err .uv = r.reportedAs.err .uv ↔ r ≠ .vddio := by
  cases r <;> decide

/-- No under-voltage code is one for over-voltage. -/
theorem returnedAs_err_ne (r r' : Rail) : r.returnedAs.err .uv ≠ r'.reportedAs.err .ov := by
  cases r <;> cases r' <;> decide

theorem returnedAs_err_ne_zero (r : Rail) : r.returnedAs.err .uv ≠ 0 := by
  cases r <;> decide

/-! ## When the first fault is named -/

variable {cfg : PwrCfg} {info : PwrInfo}

theorem under_of_find? {u : Rail}
    (hu : Rail.checked.find? (fun r => Under (cfg.rail r) (info.rail r)) = some u) :
    Under (cfg.rail u) (info.rail u) :=
  of_decide_eq_true (List.find?_some (p := fun r => decide (Under (cfg.rail r) (info.rail r))) hu)

/-- With a rail on its under side: if the first bad rail is such a one, and is not `VDDIO`. -/
theorem named_rail_iff {u : Rail}
    (hu : Rail.checked.find? (fun r => Under (cfg.rail r) (info.rail r)) = some u) :
    Named (checkPowerEquitable cfg info) (firstFault cfg info) ↔
      ∃ r, firstBad cfg info = some r ∧ Under (cfg.rail r) (info.rail r) ∧ r ≠ .vddio := by
  have hunder := under_of_find? hu
  have hcode : checkPowerEquitable cfg info = u.returnedAs.err .uv := by
    rw [checkPowerEquitable_eq, hu]
  -- a rail on its under side is bad, so there is a first bad one
  obtain ⟨b, hb⟩ : ∃ b, firstBad cfg info = some b := Option.isSome_iff_exists.mp
    (List.find?_isSome.mpr ⟨u, u.mem_checked, decide_eq_true hunder.bad⟩)
  rw [named_iff, hcode, firstFault, hb]
  by_cases hkind : Under (cfg.rail b) (info.rail b)
  · -- then it is the first one on its under side as well
    have hfirst := find?_of_imp (q := fun r => Under (cfg.rail r) (info.rail r))
      (fun r hr => decide_eq_true (of_decide_eq_true hr).bad) hb (decide_eq_true hkind)
    obtain rfl : u = b := Option.some.inj (hu.symm.trans hfirst)
    simp only [hkind, if_true, Option.some.injEq, exists_eq_left', Fault.code, returnedAs_err_eq_iff,
      true_and]
  · -- the first bad one is on its over side, which has no code in what is returned
    simp only [hkind, if_false, Option.some.injEq, exists_eq_left', Fault.code, returnedAs_err_ne,
      false_and]

/-- Nothing of the backlight is looked at, or nothing is found: no status, and no current that
falls short of the product as it is kept. -/
def BacklightQuiet (cfg : PwrCfg) (info : PwrInfo) : Prop :=
  cfg.BacklightOn → firstStatus cfg info = none ∧ cfg.ledNumber.toInt ≤ 6 ∧
    ¬UnderBy 10#16 (cfg.ledTotal.bmod 65536) info.iVbl.toInt

/-- What is returned with the protection on. -/
theorem powerCheckVbl_on (hon : cfg.BacklightOn) :
    powerCheckVbl cfg info = match firstStatus cfg info with
      | some status => some (status.toNat + 32 : Int)
      | none =>
        if cfg.ledNumber.toInt ≤ 6 then
          some (vblCurrentRet (cfg.ledTotal.bmod 65536) info.iVbl.toInt)
        else none := by
  rw [powerCheckVbl_eq, if_pos hon]
  rfl

theorem powerCheckVbl_zero_iff (cfg : PwrCfg) (info : PwrInfo) :
    powerCheckVbl cfg info = some 0 ↔ BacklightQuiet cfg info := by
  by_cases hon : cfg.BacklightOn
  · rw [powerCheckVbl_on hon, BacklightQuiet]
    simp only [hon, true_imp_iff]
    cases firstStatus cfg info with
    | some status =>
      -- a status is never returned as 0
      have hne : (status.toNat : Int) + 32 ≠ 0 := by omega
      simp [hne]
    | none =>
      by_cases hsix : cfg.ledNumber.toInt ≤ 6
      · by_cases hunder : UnderBy 10#16 (cfg.ledTotal.bmod 65536) info.iVbl.toInt <;>
          simp [hsix, vblCurrentRet, hunder]
      · simp [hsix]
  · simp [powerCheckVbl_eq, BacklightQuiet, hon]

/-- The code of a status is right up to the one behind the last constant. -/
theorem status_code_iff {status : Byte} (h : status ≠ 0) :
    (status.toNat : Int) + 32 = (Fault.status status).code ↔ status.toNat ≤ 7 := by
  have hpos : status.toNat ≠ 0 := fun hzero => h (BitVec.eq_of_toNat_eq hzero)
  rw [Fault.code]
  generalize status.toNat = n at hpos ⊢
  by_cases hn : n ≤ 6
  · interval_cases n <;> simp [ledStatus, LedStatus.err, pwrCheckErrVblOpen] at hpos ⊢
  · -- 7 comes out as the constant for other errors, which is the one behind the last status
    have hnone : ledStatus n = none := by
      unfold ledStatus
      split <;> first | omega | rfl
    rw [hnone]
    show (n : Int) + 32 = pwrCheckOther ↔ _
    rw [pwrCheckOther]
    omega

/-- A rail's code is none of those from 32 on, and neither is that of a current 35. -/
theorem rail_code_lt (r : Rail) (kind : PwrCheckErr) : (Fault.rail r kind).code < 32 := by
  cases r <;> cases kind <;> decide

/-- A fault of the backlight is named if no rail is bad, and it is one of the strings' with a
status up to the one behind the last constant. -/
theorem named_backlight_iff (hloud : ¬BacklightQuiet cfg info) :
    (∃ ret, powerCheckVbl cfg info = some ret ∧ Named ret (firstFault cfg info)) ↔
      firstBad cfg info = none ∧ cfg.BacklightOn ∧
        ∃ status, firstStatus cfg info = some status ∧ status.toNat ≤ 7 := by
  have hon : cfg.BacklightOn := by
    by_contra hoff
    exact hloud fun hon => absurd hon hoff
  simp only [powerCheckVbl_on hon, named_iff, firstFault]
  cases hstatus : firstStatus cfg info with
  | some status =>
    have hset : status ≠ 0 := by simpa using List.find?_some hstatus
    cases hbad : firstBad cfg info with
    | some r =>
      -- a bad rail on its over side comes first, and is not returned
      have := rail_code_lt r (if Under (cfg.rail r) (info.rail r) then .uv else .ov)
      simp only [Option.some.injEq, exists_eq_left', reduceCtorEq, false_and, iff_false]
      exact fun h => absurd h (by omega)
    | none =>
      simp only [backlightFault, hon, if_true, hstatus, Option.some.injEq, exists_eq_left',
        status_code_iff hset, true_and]
  | none =>
    -- the current: what is returned is the constant of a status
    simp only [reduceCtorEq, false_and, exists_false, and_false, iff_false, not_exists, not_and]
    intro ret hret fault hfault hcode
    have hsix : cfg.ledNumber.toInt ≤ 6 := by
      by_contra hsix
      rw [if_neg hsix] at hret
      exact absurd hret (by simp)
    have hunder : UnderBy 10#16 (cfg.ledTotal.bmod 65536) info.iVbl.toInt := by
      by_contra hunder
      exact hloud fun _ => ⟨hstatus, hsix, hunder⟩
    rw [if_pos hsix, vblCurrentRet, if_pos hunder] at hret
    obtain rfl := Option.some.inj hret
    cases hbad : firstBad cfg info with
    | some r =>
      rw [hbad] at hfault
      obtain rfl := Option.some.inj hfault
      have := rail_code_lt r (if Under (cfg.rail r) (info.rail r) then .uv else .ov)
      omega
    | none =>
      rw [hbad] at hfault
      simp only [backlightFault, if_pos hon, hstatus] at hfault
      split_ifs at hfault
      · obtain rfl := Option.some.inj hfault
        exact absurd hcode (by decide)
      · obtain rfl := Option.some.inj hfault
        exact absurd hcode (by decide)

/-- **When the first fault is named**: with a rail on its under side, if that is the first bad
one, and is not `VDDIO`; without, if nothing is returned of the backlight, or no rail is bad and
the first status that is set is at most 7. -/
theorem namesFault_iff (cfg : PwrCfg) (info : PwrInfo) :
    NamesFault cfg info ↔
      (∃ r, firstBad cfg info = some r ∧ Under (cfg.rail r) (info.rail r) ∧ r ≠ .vddio) ∨
      ((∀ r, ¬Under (cfg.rail r) (info.rail r)) ∧
        (BacklightQuiet cfg info ∨ (firstBad cfg info = none ∧ cfg.BacklightOn ∧
          ∃ status, firstStatus cfg info = some status ∧ status.toNat ≤ 7))) := by
  cases hu : Rail.checked.find? (fun r => Under (cfg.rail r) (info.rail r)) with
  | some u =>
    have hunder := under_of_find? hu
    have hne : checkPowerEquitable cfg info ≠ 0 := by
      rw [checkPowerEquitable_eq, hu]
      exact returnedAs_err_ne_zero u
    rw [← named_rail_iff hu]
    constructor
    · exact fun h => Or.inl (h.rails hne)
    · rintro (h | ⟨hnone, -⟩)
      · exact ⟨fun _ => h, fun hzero => absurd hzero hne⟩
      · exact absurd hunder (hnone u)
  | none =>
    have hnone : ∀ r, ¬Under (cfg.rail r) (info.rail r) := by
      intro r h
      exact absurd (decide_eq_true h) (List.find?_eq_none.mp hu r r.mem_checked)
    have hzero : checkPowerEquitable cfg info = 0 := by
      rw [checkPowerEquitable_eq, hu]
    -- the rails return 0, and all depends on the backlight
    by_cases hquiet : BacklightQuiet cfg info
    · refine ⟨fun _ => Or.inr ⟨hnone, Or.inl hquiet⟩, fun _ => ⟨fun h => absurd hzero h, ?_⟩⟩
      exact fun _ h => absurd ((powerCheckVbl_zero_iff cfg info).mpr hquiet) h
    · have hloud : powerCheckVbl cfg info ≠ some 0 := by
        intro h
        exact hquiet ((powerCheckVbl_zero_iff cfg info).mp h)
      constructor
      · exact fun h => Or.inr ⟨hnone, Or.inr ((named_backlight_iff hquiet).mp (h.backlight hzero hloud))⟩
      · rintro (⟨r, -, hunder, -⟩ | ⟨-, h | h⟩)
        · exact absurd hunder (hnone r)
        · exact absurd h hquiet
        · exact ⟨fun h => absurd hzero h, fun _ _ => (named_backlight_iff hquiet).mpr h⟩

/-- VDDIO set to 1800, and nothing there. -/
def lowVddioCfg : PwrCfg := ⟨1800, 0, 0, 0, 0, 0, 0, 0, 0⟩

def lowVddioInfo : PwrInfo :=
  ⟨0, 0, 0, 0, 0, 0, 0, .replicate 6 0, .replicate 7 0, 0, 0, 0, 0⟩

/-- It is returned as an under-voltage of `VDD`. -/
theorem lowVddio_not_namesFault : ¬NamesFault lowVddioCfg lowVddioInfo := by
  intro h
  obtain ⟨fault, hfound, hcode, -⟩ := h.rails (by decide)
  have hfirst : firstFault lowVddioCfg lowVddioInfo = some (.rail .vddio .uv) := by decide
  obtain rfl := Option.some.inj (hfirst.symm.trans hfound)
  exact absurd hcode (by decide)

end PgClient.Power
