import PgClient.Lib.PartialRun

/-!
# The flicker search

`z_auto_flick_2` of `mipiflick.c` tries one VCOM after the other and reads the flicker
value of each from the probe; `channelFlickTask` starts it and writes what it has found.

* `moveVcom_inRange_iff` — a turn stays in the range if its step fits into it.
* `flickTask_inRange_iff` — when all that is written is in the range.
* `flickTask_measured` — when what is reported has been measured.
-/

namespace PgClient.Mipi

open PartialRun

/-! ## The code -/

/-- `(int)INVALID_FLICK_VALUE`. -/
def invalidFlickValue : Int := 99999

def probeStatuOk : Int := 0

def probeStatuOutRange : Int := -50

def probeStatuOtherError : Int := -200

/-- What `ca310_capture_flick_data` gives: its status, and the value times 100 as an `int`.
It sets the value to `FLOAT_INVALID_FLICK_VALUE` before it asks the probe. -/
structure Capture where
  statu : Int
  flick : Int
  invalid : statu ≠ probeStatuOk → flick = invalidFlickValue

/-- `z_flick_test`: what it returns, and the flicker value. -/
def zFlickTest (c : Capture) : Int × Int :=
  if c.statu = probeStatuOk then (probeStatuOk, c.flick)
  else if c.statu = probeStatuOutRange then (probeStatuOutRange, invalidFlickValue)
  else (probeStatuOtherError, invalidFlickValue)

/-- What `get_current_vcom_info` gives; the flicker limits times 100. No sum below leaves
an `int` as long as the steps fit into the range. -/
structure VcomInfo where
  minvalue : Int
  maxvalue : Int
  initVcom : Int
  minOkFlick : Int
  maxOkFlick : Int

/-- The arguments of `z_auto_flick_2` that change from turn to turn. -/
structure FlickState where
  lastVcom : Int
  lastFlick : Int
  findDirection : Int
  flickErrorCnt : Nat
  changeDirectionCnt : Nat

def changeDirect (direction : Int) : Int := if direction = -1 then 1 else -1

/-- `s_max_error_cnt`. -/
def maxErrorCnt : Nat := 10

/-- `s_max_change_direct_cnt`. -/
def maxChangeDirectCnt : Nat := 5

/-- The flicker is too large to get a right value. -/
def tooLarge (lastFlick : Int) : Prop := lastFlick < 0 ∨ invalidFlickValue ≤ lastFlick

instance (lastFlick : Int) : Decidable (tooLarge lastFlick) := inferInstanceAs (Decidable (_ ∨ _))

/-- `step`, by the last value. -/
def flickStep (lastFlick : Int) : Int :=
  if tooLarge lastFlick then 10
  else if 5000 < lastFlick then 5
  else if 2000 < lastFlick then 3
  else 1

/-- The range end the search does not go to: with the step 10 it is included. -/
def inside (step x y : Int) : Prop := if step = 10 then x ≤ y else x < y

instance (step x y : Int) : Decidable (inside step x y) := inferInstanceAs (Decidable (ite ..))

/-- The next VCOM, the direction, and how often it has changed. -/
structure Move where
  vcom : Int
  findDirection : Int
  changeDirectionCnt : Nat

/-- The first half of `z_auto_flick_2`; its five branches differ in the step. -/
def moveVcom (info : VcomInfo) (s : FlickState) : Move :=
  let step := flickStep s.lastFlick
  if s.findDirection = -1 then
    if info.minvalue + step < s.lastVcom ∧ inside step s.lastVcom info.maxvalue then
      ⟨s.lastVcom - step, s.findDirection, s.changeDirectionCnt⟩
    -- find to left end
    else ⟨info.minvalue + step, changeDirect s.findDirection, s.changeDirectionCnt + 1⟩
  else if inside step info.minvalue s.lastVcom ∧ s.lastVcom < info.maxvalue - step then
    ⟨s.lastVcom + step, s.findDirection, s.changeDirectionCnt⟩
  -- find to right end
  else ⟨info.maxvalue - step, changeDirect s.findDirection, s.changeDirectionCnt + 1⟩

/-- The flicker has become larger. -/
def worse (s : FlickState) (flick : Int) : Prop := 0 < flick ∧ 0 < s.lastFlick ∧ s.lastFlick < flick

instance (s : FlickState) (flick : Int) : Decidable (worse s flick) :=
  inferInstanceAs (Decidable (_ ∧ _))

/-- The direction behind the measurement, and how often it has changed. -/
def turnAround (s : FlickState) (m : Move) (flick : Int) : Int × Nat :=
  if worse s flick then
    (if m.findDirection = 0 then -1 else -m.findDirection, m.changeDirectionCnt + 1)
  else (m.findDirection, m.changeDirectionCnt)

def errorCnt (s : FlickState) : Nat := s.flickErrorCnt + if tooLarge s.lastFlick then 1 else 0

/-- Step 1, and the value before was smaller. -/
def foundLast (s : FlickState) (m : Move) (flick : Int) : Prop :=
  worse s flick ∧ flickStep s.lastFlick = 1 ∧ 1 ≤ m.changeDirectionCnt

instance (s : FlickState) (m : Move) (flick : Int) : Decidable (foundLast s m flick) :=
  inferInstanceAs (Decidable (_ ∧ _))

def foundNow (info : VcomInfo) (flick : Int) : Prop := 0 < flick ∧ flick < info.minOkFlick

instance (info : VcomInfo) (flick : Int) : Decidable (foundNow info flick) :=
  inferInstanceAs (Decidable (_ ∧ _))

/-- The search has turned five times, and the value will do. -/
def foundRight (info : VcomInfo) (s : FlickState) (m : Move) (flick : Int) : Prop :=
  0 < flick ∧ flick < info.maxOkFlick ∧ maxChangeDirectCnt ≤ (turnAround s m flick).2

instance (info : VcomInfo) (s : FlickState) (m : Move) (flick : Int) :
    Decidable (foundRight info s m flick) := inferInstanceAs (Decidable (_ ∧ _))

def tenErrors (s : FlickState) (flick : Int) : Prop :=
  maxErrorCnt ≤ errorCnt s ∧ invalidFlickValue ≤ flick

instance (s : FlickState) (flick : Int) : Decidable (tenErrors s flick) :=
  inferInstanceAs (Decidable (_ ∧ _))

/-- How the search ends: with `*p_find_vcom` and `*p_find_flick` set; after ten errors;
or after five turns. -/
inductive FlickEnd
  | found (vcom flick : Int)
  | failed
  | gaveUp

/-- What `z_auto_flick_2` returns. -/
def FlickEnd.ret : FlickEnd → Int
  | .found _ _ => 0
  | .failed => 0
  | .gaveUp => -1

/-- What `*p_find_vcom` and `*p_find_flick` are, with what they were before. -/
def FlickEnd.find (old : Int × Int) : FlickEnd → Int × Int
  | .found vcom flick => (vcom, flick)
  | .failed => old
  | .gaveUp => old

/-- The second half of `z_auto_flick_2`, behind the measurement. -/
def judge (info : VcomInfo) (s : FlickState) (m : Move) (flick : Int) : FlickEnd ⊕ FlickState :=
  if foundLast s m flick then .inl (.found s.lastVcom s.lastFlick)
  else if foundNow info flick then .inl (.found m.vcom flick)
  else if foundRight info s m flick then
    .inl (if s.lastFlick < flick then .found s.lastVcom s.lastFlick else .found m.vcom flick)
  else if tenErrors s flick then .inl .failed
  else if maxChangeDirectCnt ≤ (turnAround s m flick).2 then .inl .gaveUp
  else .inr ⟨m.vcom, flick, (turnAround s m flick).1, errorCnt s, (turnAround s m flick).2⟩

/-- `z_auto_flick_2` with these captures, one for a turn: the VCOMs written and what was
captured with them, and how it ends, if it does. -/
def zAutoFlick2 (info : VcomInfo) :
    List Capture → FlickState → List (Int × Capture) × Option FlickEnd
  | [], _ => ([], none)
  | c :: cs, s =>
    let m := moveVcom info s
    match judge info s m (zFlickTest c).2 with
    | .inl e => ([(m.vcom, c)], some e)
    | .inr s' =>
      let r := zAutoFlick2 info cs s'
      ((m.vcom, c) :: r.1, r.2)

/-- A turn of the search as a step: undefined once it has returned. -/
def searchTurn (info : VcomInfo) (c : Capture) (s : FlickState) : Option FlickState :=
  match judge info s (moveVcom info s) (zFlickTest c).2 with
  | .inl _ => none
  | .inr s' => some s'

/-- What `channelFlickTask` does: the VCOMs it writes, what is captured with which VCOM,
and what it hands to `mipi_channel_set_vcom_and_flick`. -/
structure FlickTask where
  writes : List Int
  captures : List (Int × Capture)
  stored : Option (Int × Int)

/-- The arguments of the first turn. -/
def firstTurn (info : VcomInfo) (second : Capture) : FlickState :=
  ⟨info.initVcom, second.flick, 0, 0, 0⟩

/-- What is written behind the search, in a build with `USED_IC_MANAGER` only. -/
def writeFound (usedIcManager : Bool) : Option FlickEnd → List Int
  | some e => if usedIcManager ∧ e.ret = 0 then [(e.find (0, 0)).1] else []
  | none => []

/-- One round of `channelFlickTask`. It captures twice with the first VCOM, and goes on
with the second value, whatever its status is. -/
def channelFlickTask (usedIcManager : Bool) (info : VcomInfo) (first second : Capture)
    (captures : List Capture) : FlickTask :=
  let r := zAutoFlick2 info captures (firstTurn info second)
  { writes := info.initVcom :: (r.1.map Prod.fst ++ writeFound usedIcManager r.2)
    captures := (info.initVcom, first) :: (info.initVcom, second) :: r.1
    stored := r.2.map (FlickEnd.find (0, 0)) }

/-! ## The range -/

def InRange (info : VcomInfo) (vcom : Int) : Prop := info.minvalue ≤ vcom ∧ vcom ≤ info.maxvalue

/-- The search returns 0 and has found nothing. -/
def ErrorExit (info : VcomInfo) (c : Capture) (s : FlickState) : Prop :=
  tenErrors s c.flick ∧ ¬foundLast s (moveVcom info s) c.flick ∧ ¬foundNow info c.flick ∧
    ¬foundRight info s (moveVcom info s) c.flick

/-- The step fits into the range; and so does 0, where it is written unset. -/
def StaysIn (usedIcManager : Bool) (info : VcomInfo) (c : Capture) (s : FlickState) : Prop :=
  flickStep s.lastFlick ≤ info.maxvalue - info.minvalue ∧
    (usedIcManager → ErrorExit info c s → InRange info 0)

/-- The value of a failure is the invalid one in any case. -/
theorem zFlickTest_flick (c : Capture) : (zFlickTest c).2 = c.flick := by
  unfold zFlickTest
  split_ifs with hok hout
  · rfl
  · exact (c.invalid hok).symm
  · exact (c.invalid hok).symm

/-- There are four steps. -/
theorem flickStep_cases (lastFlick : Int) :
    flickStep lastFlick = 10 ∨ flickStep lastFlick = 5 ∨ flickStep lastFlick = 3 ∨
      flickStep lastFlick = 1 := by
  unfold flickStep
  split_ifs <;> simp

/-- With or without the end itself, the order is kept. -/
theorem inside_le {step x y : Int} (h : inside step x y) : x ≤ y := by
  unfold inside at h
  split_ifs at h
  · exact h
  · exact Int.le_of_lt h

/-- **A turn stays in the range exactly if its step fits**: where it does not, the search
turns at once, and beyond the other end. -/
theorem moveVcom_inRange_iff {info : VcomInfo} {s : FlickState} (h : InRange info s.lastVcom) :
    InRange info (moveVcom info s).vcom ↔ flickStep s.lastFlick ≤ info.maxvalue - info.minvalue := by
  obtain ⟨hmin, hmax⟩ := h
  -- the four widths of a step
  have hpos : 0 < flickStep s.lastFlick := by
    rcases flickStep_cases s.lastFlick with h | h | h | h <;> omega
  unfold InRange moveVcom
  -- to the left, or to the right; on, or back by one step
  by_cases hleft : s.findDirection = -1
  · simp only [if_pos hleft]
    split_ifs with hgo
    · have := inside_le hgo.2
      constructor <;> intro _ <;> dsimp only at * <;> omega
    · constructor <;> intro _ <;> dsimp only at * <;> omega
  · simp only [if_neg hleft]
    split_ifs with hgo
    · have := inside_le hgo.1
      constructor <;> intro _ <;> dsimp only at * <;> omega
    · constructor <;> intro _ <;> dsimp only at * <;> omega

/-- How a turn ends the search. -/
theorem judge_inl {info : VcomInfo} {s : FlickState} {m : Move} {flick : Int} {e : FlickEnd}
    (h : judge info s m flick = .inl e) :
    e = .found s.lastVcom s.lastFlick ∨ e = .found m.vcom flick ∨
      (e = .failed ∧ tenErrors s flick ∧ ¬foundLast s m flick ∧ ¬foundNow info flick ∧
        ¬foundRight info s m flick) ∨ e = .gaveUp := by
  unfold judge at h
  split_ifs at h with hlast hnow hright hless hten hfive
  · exact .inl (Sum.inl.inj h).symm
  · exact .inr (.inl (Sum.inl.inj h).symm)
  · exact .inl (Sum.inl.inj h).symm
  · exact .inr (.inl (Sum.inl.inj h).symm)
  · exact .inr (.inr (.inl ⟨(Sum.inl.inj h).symm, hten, hlast, hnow, hright⟩))
  · exact .inr (.inr (.inr (Sum.inl.inj h).symm))

/-- Ten errors end the search if nothing else does. -/
theorem judge_failed {info : VcomInfo} {s : FlickState} {c : Capture} (h : ErrorExit info c s) :
    judge info s (moveVcom info s) c.flick = .inl .failed := by
  obtain ⟨hten, hlast, hnow, hright⟩ := h
  rw [judge, if_neg hlast, if_neg hnow, if_neg hright, if_pos hten]

/-- What a turn that goes on hands to the next one. -/
theorem judge_inr {info : VcomInfo} {s s' : FlickState} {m : Move} {flick : Int}
    (h : judge info s m flick = .inr s') : s'.lastVcom = m.vcom ∧ s'.lastFlick = flick := by
  unfold judge at h
  split_ifs at h
  obtain rfl := Sum.inr.inj h
  exact ⟨rfl, rfl⟩

/-- What a turn writes, and what is written behind it if it ends the search. -/
def TurnStays (usedIcManager : Bool) (info : VcomInfo) (c : Capture) (s : FlickState) : Prop :=
  InRange info (moveVcom info s).vcom ∧
    ∀ e, judge info s (moveVcom info s) c.flick = .inl e →
      ∀ v ∈ writeFound usedIcManager (some e), InRange info v

/-- **All that is written is in the range exactly if each turn stays in it.** -/
theorem writes_iff (usedIcManager : Bool) (info : VcomInfo) (captures : List Capture)
    (s : FlickState) :
    (∀ v ∈ (zAutoFlick2 info captures s).1.map Prod.fst ++
        writeFound usedIcManager (zAutoFlick2 info captures s).2, InRange info v) ↔
      Along (searchTurn info) (TurnStays usedIcManager info) captures s := by
  induction captures generalizing s with
  | nil => simp [zAutoFlick2, writeFound, Along]
  | cons c captures ih =>
    rw [Along, zAutoFlick2, searchTurn, TurnStays, zFlickTest_flick]
    cases hjudge : judge info s (moveVcom info s) c.flick with
    | inl e =>
      -- the last turn
      simp
    | inr s' =>
      have hnext : (∀ s'', some s' = some s'' →
          Along (searchTurn info) (TurnStays usedIcManager info) captures s'') ↔
          Along (searchTurn info) (TurnStays usedIcManager info) captures s' :=
        ⟨fun h => h s' rfl, fun h _ heq => Option.some.inj heq ▸ h⟩
      dsimp only
      rw [List.map_cons, List.cons_append, List.forall_mem_cons, ih s', hnext]
      simp

/-- A turn from inside the range stays in it exactly if its step fits. -/
theorem turnStays_iff (usedIcManager : Bool) (info : VcomInfo) (c : Capture) (s : FlickState)
    (h : InRange info s.lastVcom) :
    TurnStays usedIcManager info c s ↔ StaysIn usedIcManager info c s := by
  unfold TurnStays StaysIn
  rw [moveVcom_inRange_iff h]
  constructor
  · rintro ⟨hstep, hend⟩
    refine ⟨hstep, fun hused herror => hend _ (judge_failed herror) 0 ?_⟩
    simp [writeFound, hused, FlickEnd.ret, FlickEnd.find]
  -- what is written at the end was found inside, but for the 0 of a search with errors
  · rintro ⟨hstep, herror⟩
    refine ⟨hstep, ?_⟩
    intro e he v hv
    have hv' : usedIcManager = true ∧ e.ret = 0 ∧ v = (e.find (0, 0)).1 := by
      rw [writeFound] at hv
      split_ifs at hv with hused
      · exact ⟨hused.1, hused.2, List.mem_singleton.mp hv⟩
      · cases hv
    obtain ⟨hused, hret, rfl⟩ := hv'
    -- the VCOM of this turn, that of the last one, the errors and no result
    rcases judge_inl he with rfl | rfl | ⟨rfl, hexit⟩ | rfl
    · exact h
    · exact (moveVcom_inRange_iff h).mpr hstep
    · exact herror hused hexit
    · cases hret

/-- **When the search stays in the range**: exactly if every step it takes fits into it,
and, where what it has found is written, 0 is in it should the search end with errors. -/
theorem flickTask_inRange_iff (usedIcManager : Bool) {info : VcomInfo}
    (hinit : info.minvalue ≤ info.initVcom ∧ info.initVcom ≤ info.maxvalue)
    (first second : Capture) (captures : List Capture) :
    (∀ v ∈ (channelFlickTask usedIcManager info first second captures).writes, InRange info v) ↔
      Along (searchTurn info) (StaysIn usedIcManager info) captures (firstTurn info second) := by
  -- a turn that goes on starts from the VCOM that was written last
  have hkeeps : ∀ c s s', InRange info s.lastVcom → StaysIn usedIcManager info c s →
      searchTurn info c s = some s' → InRange info s'.lastVcom := by
    intro c s s' hs hstays hturn
    unfold searchTurn at hturn
    split at hturn
    · cases hturn
    · next hjudge =>
      obtain rfl := Option.some.inj hturn
      rw [(judge_inr hjudge).1]
      exact (moveVcom_inRange_iff hs).mpr hstays.1
  have hfirst : InRange info (firstTurn info second).lastVcom := hinit
  rw [← along_congr (turnStays_iff usedIcManager info) hkeeps captures hfirst, ← writes_iff]
  exact List.forall_mem_cons.trans (and_iff_right hinit)

/-- The range of an 8-bit VCOM. -/
def wideInfo : VcomInfo := ⟨0, 255, 100, 300, 1000⟩

/-- A capture that succeeds. -/
def Capture.good (flick : Int) : Capture := ⟨probeStatuOk, flick, fun h => absurd rfl h⟩

/-- One that does not. -/
def Capture.bad : Capture := ⟨probeStatuOutRange, invalidFlickValue, fun _ => rfl⟩

/-- The search goes up with smaller and smaller steps, turns around behind a capture that
fails, and comes down to a value that will do. -/
def upAndDown : List Capture := [.good 4000, .good 2500, .bad, .good 900, .good 200]

/-- What the turns begin with, after a first value of 6000. -/
def upAndDownStates : List FlickState :=
  [⟨100, 6000, 0, 0, 0⟩, ⟨105, 4000, 0, 0, 0⟩, ⟨108, 2500, 0, 0, 0⟩, ⟨111, 99999, -1, 0, 1⟩,
    ⟨101, 900, -1, 1, 1⟩]

/-- What holds of the five turns with their states holds along the search. -/
theorem along_upAndDown {Q : Capture → FlickState → Prop}
    (h : ∀ p ∈ upAndDown.zip upAndDownStates, Q p.1 p.2) :
    Along (searchTurn wideInfo) Q upAndDown (firstTurn wideInfo (.good 6000)) := by
  -- the first turn compares with the capture before the search
  refine ⟨h (.good 4000, ⟨100, 6000, 0, 0, 0⟩) (by simp [upAndDown, upAndDownStates]), ?_⟩
  intro s₁ h₁
  obtain rfl := Option.some.inj h₁
  refine ⟨h (.good 2500, ⟨105, 4000, 0, 0, 0⟩) (by simp [upAndDown, upAndDownStates]), ?_⟩
  intro s₂ h₂
  obtain rfl := Option.some.inj h₂
  refine ⟨h (.bad, ⟨108, 2500, 0, 0, 0⟩) (by simp [upAndDown, upAndDownStates]), ?_⟩
  intro s₃ h₃
  obtain rfl := Option.some.inj h₃
  refine ⟨h (.good 900, ⟨111, 99999, -1, 0, 1⟩) (by simp [upAndDown, upAndDownStates]), ?_⟩
  intro s₄ h₄
  obtain rfl := Option.some.inj h₄
  exact ⟨h (.good 200, ⟨101, 900, -1, 1, 1⟩) (by simp [upAndDown, upAndDownStates]),
    fun _ _ => trivial⟩

/-- Seven writes: the first VCOM, the five of the search, and what it has found. -/
theorem flickTask_wide_inRange :
    (channelFlickTask true wideInfo (.good 6000) (.good 6000) upAndDown).writes =
        [100, 105, 108, 111, 101, 100, 100] ∧
      ∀ v ∈ (channelFlickTask true wideInfo (.good 6000) (.good 6000) upAndDown).writes,
        InRange wideInfo v := by
  refine ⟨by decide, (@flickTask_inRange_iff true wideInfo (by decide) (.good 6000) (.good 6000)
    upAndDown).mpr (along_upAndDown fun p hp => ⟨?_, fun _ _ => ?_⟩)⟩
  · revert p
    decide
  · show (0 : Int) ≤ 0 ∧ (0 : Int) ≤ 255
    decide

/-- A range of six VCOMs: the first step of ten leaves it. -/
theorem narrow_not_inRange : ¬∀ (info : VcomInfo) (first second : Capture) (captures : List Capture),
    info.minvalue ≤ info.initVcom ∧ info.initVcom ≤ info.maxvalue →
    ∀ v ∈ (channelFlickTask false info first second captures).writes, InRange info v := by
  intro h
  have hleft := h ⟨0, 5, 3, 300, 1000⟩ .bad .bad [.bad] (by decide) (-5) (by decide)
  exact absurd hleft.1 (by decide)

/-! ## What has been measured -/

/-- The probe gave this value with this VCOM. -/
def Measured (captures : List (Int × Capture)) (vcom flick : Int) : Prop :=
  ∃ c, (vcom, c) ∈ captures ∧ c.statu = probeStatuOk ∧ c.flick = flick

/-- The search ends after five turns. -/
def GivesUp (info : VcomInfo) (c : Capture) (s : FlickState) : Prop :=
  maxChangeDirectCnt ≤ (turnAround s (moveVcom info s) c.flick).2 ∧ ¬tenErrors s c.flick ∧
    ¬foundLast s (moveVcom info s) c.flick ∧ ¬foundNow info c.flick ∧
    ¬foundRight info s (moveVcom info s) c.flick

/-- The capture succeeds, or what stands for a failure is above the limits. -/
def Told (info : VcomInfo) (c : Capture) : Prop :=
  c.statu = probeStatuOk ∨
    (info.minOkFlick ≤ invalidFlickValue ∧ info.maxOkFlick ≤ invalidFlickValue)

/-- The turn finds something, if it ends the search. -/
structure Concludes (info : VcomInfo) (c : Capture) (s : FlickState) : Prop where
  told : Told info c
  noErrorExit : ¬ErrorExit info c s
  goesOn : ¬GivesUp info c s

/-- The last value has been measured, or stands for a failure. -/
def LastKnown (info : VcomInfo) (captures : List (Int × Capture)) (s : FlickState) : Prop :=
  Measured captures s.lastVcom s.lastFlick ∨
    (s.lastFlick = invalidFlickValue ∧ info.maxOkFlick ≤ invalidFlickValue)

/-- What has been measured stays so. -/
theorem Measured.append {captures : List (Int × Capture)} {vcom flick : Int}
    (h : Measured captures vcom flick) (captures' : List (Int × Capture)) :
    Measured (captures ++ captures') vcom flick := by
  obtain ⟨c, hmem, hok, hflick⟩ := h
  exact ⟨c, List.mem_append_left _ hmem, hok, hflick⟩

/-- What a turn has captured is known to the next one. -/
theorem Told.lastKnown {info : VcomInfo} {c : Capture} (h : Told info c)
    {captures : List (Int × Capture)} {s : FlickState} (hmem : (s.lastVcom, c) ∈ captures)
    (hflick : s.lastFlick = c.flick) : LastKnown info captures s := by
  by_cases hok : c.statu = probeStatuOk
  · exact .inl ⟨c, hmem, hok, hflick.symm⟩
  · exact .inr ⟨hflick.trans (c.invalid hok), (h.resolve_left hok).2⟩

/-- A turn that ends the search reports what has been measured. -/
theorem judge_measured {info : VcomInfo} {c : Capture} {s : FlickState}
    {captures : List (Int × Capture)} (hlast : LastKnown info captures s)
    (h : Concludes info c s) {e : FlickEnd}
    (hend : judge info s (moveVcom info s) c.flick = .inl e) :
    ∃ vcom flick, e = .found vcom flick ∧
      Measured (captures ++ [((moveVcom info s).vcom, c)]) vcom flick := by
  obtain ⟨htold, herror, hgives⟩ := h
  have hnow : c.statu = probeStatuOk →
      Measured (captures ++ [((moveVcom info s).vcom, c)]) (moveVcom info s).vcom c.flick :=
    fun hok => ⟨c, by simp, hok, rfl⟩
  have hfailed : c.statu ≠ probeStatuOk → ¬(c.flick < info.minOkFlick ∨ c.flick < info.maxOkFlick) := by
    intro hbad hless
    obtain ⟨hmin, hmax⟩ := htold.resolve_left hbad
    have := c.invalid hbad
    omega
  unfold judge at hend
  split_ifs at hend with hfound hfoundNow hright hless hten hfive <;> obtain rfl := Sum.inl.inj hend
  · -- with the step 1 the last value is no failure
    refine ⟨_, _, rfl, (hlast.resolve_right fun hinvalid => ?_).append _⟩
    have hstep := hfound.2.1
    rw [hinvalid.1] at hstep
    exact absurd hstep (by decide)
  · refine ⟨_, _, rfl, hnow ?_⟩
    by_contra hbad
    exact hfailed hbad (.inl hfoundNow.2)
  · refine ⟨_, _, rfl, (hlast.resolve_right fun hinvalid => ?_).append _⟩
    have := hright.2.1
    omega
  · refine ⟨_, _, rfl, hnow ?_⟩
    by_contra hbad
    exact hfailed hbad (.inr hright.2.1)
  · exact absurd ⟨hten, hfound, hfoundNow, hright⟩ herror
  · exact absurd ⟨hfive, hten, hfound, hfoundNow, hright⟩ hgives

/-- **A search of turns that conclude ends with a measured result.** -/
theorem zAutoFlick2_measured {info : VcomInfo} {captures : List Capture} {s : FlickState}
    {before : List (Int × Capture)} (hlast : LastKnown info before s)
    (h : Along (searchTurn info) (Concludes info) captures s) {e : FlickEnd}
    (hend : (zAutoFlick2 info captures s).2 = some e) :
    ∃ vcom flick, e = .found vcom flick ∧
      Measured (before ++ (zAutoFlick2 info captures s).1) vcom flick := by
  -- on the captures: what is known comes from the captures of all turns so far
  induction captures generalizing s before with
  | nil => cases hend
  | cons c captures ih =>
    obtain ⟨hturn, hrest⟩ := h
    rw [zAutoFlick2, zFlickTest_flick] at hend ⊢
    rw [searchTurn, zFlickTest_flick] at hrest
    cases hjudge : judge info s (moveVcom info s) c.flick with
    | inl e' =>
      rw [hjudge] at hend
      obtain rfl := Option.some.inj hend
      exact judge_measured hlast hturn hjudge
    -- the search goes on, and this capture is the last known one
    | inr s' =>
      rw [hjudge] at hend hrest
      obtain ⟨hvcom, hflick⟩ := judge_inr hjudge
      have hknown : LastKnown info (before ++ [((moveVcom info s).vcom, c)]) s' :=
        hturn.told.lastKnown (by rw [hvcom]; simp) hflick
      have hmeasured := ih hknown (hrest s' rfl) hend
      rwa [List.append_assoc] at hmeasured

/-- **What is reported has been measured**, as long as no turn ends the search with errors
or gives it up, and no failed capture is taken for a small enough value. -/
theorem flickTask_measured (usedIcManager : Bool) {info : VcomInfo} (first : Capture)
    {second : Capture} (hsecond : Told info second) {captures : List Capture}
    (hturns : Along (searchTurn info) (Concludes info) captures (firstTurn info second)) :
    (∀ e, (zAutoFlick2 info captures (firstTurn info second)).2 = some e → e.ret = 0 → ∀ old,
      Measured (channelFlickTask usedIcManager info first second captures).captures
        (e.find old).1 (e.find old).2) ∧
    (∀ p, (channelFlickTask usedIcManager info first second captures).stored = some p →
      Measured (channelFlickTask usedIcManager info first second captures).captures p.1 p.2) ∧
    ∀ v ∈ writeFound usedIcManager (zAutoFlick2 info captures (firstTurn info second)).2,
      ∃ flick, Measured (channelFlickTask usedIcManager info first second captures).captures
        v flick := by
  have hknown : LastKnown info [(info.initVcom, first), (info.initVcom, second)]
      (firstTurn info second) := hsecond.lastKnown (by simp [firstTurn]) rfl
  -- every result comes from how the search ended
  have hfound : ∀ e, (zAutoFlick2 info captures (firstTurn info second)).2 = some e →
      ∀ old, Measured (channelFlickTask usedIcManager info first second captures).captures
        (e.find old).1 (e.find old).2 := by
    intro e he old
    obtain ⟨vcom, flick, rfl, hmeasured⟩ := zAutoFlick2_measured hknown hturns he
    exact hmeasured
  refine ⟨fun e he _ old => hfound e he old, ?_, ?_⟩
  · intro p hp
    obtain ⟨e, he, rfl⟩ := Option.map_eq_some_iff.mp hp
    exact hfound e he (0, 0)
  · intro v hv
    cases he : (zAutoFlick2 info captures (firstTurn info second)).2 with
    | none =>
      rw [he] at hv
      cases hv
    | some e =>
      rw [he, writeFound] at hv
      split_ifs at hv
      · obtain rfl := List.mem_singleton.mp hv
        exact ⟨_, hfound e he (0, 0)⟩
      · cases hv

/-- What is found, stored and written behind the search is the last capture. -/
theorem flickTask_wide_measured :
    (channelFlickTask true wideInfo (.good 6000) (.good 6000) upAndDown).stored = some (100, 200) ∧
      Measured (channelFlickTask true wideInfo (.good 6000) (.good 6000) upAndDown).captures
        100 200 := by
  have hturns : Along (searchTurn wideInfo) (Concludes wideInfo) upAndDown
      (firstTurn wideInfo (.good 6000)) := by
    have hten : ∀ p ∈ upAndDown.zip upAndDownStates, ¬tenErrors p.2 p.1.flick := by decide
    have hfive : ∀ p ∈ upAndDown.zip upAndDownStates,
        ¬maxChangeDirectCnt ≤ (turnAround p.2 (moveVcom wideInfo p.2) p.1.flick).2 := by decide
    exact along_upAndDown fun p hp =>
      ⟨.inr (by decide), fun h => hten p hp h.1, fun h => hfive p hp h.1⟩
  exact ⟨by decide, (flickTask_measured true (.good 6000) (.inl rfl) hturns).2.1 (100, 200) (by decide)⟩

/-- Ten captures that fail: the search returns 0, and leaves the results as they were. -/
theorem badCaptures_not_measured :
    ¬∀ (info : VcomInfo) (first second : Capture) (captures : List Capture) (e : FlickEnd),
      (zAutoFlick2 info captures (firstTurn info second)).2 = some e → e.ret = 0 →
      Measured (channelFlickTask false info first second captures).captures
        (e.find (0, 0)).1 (e.find (0, 0)).2 := by
  intro h
  obtain ⟨c, hmem, hok, -⟩ := h wideInfo .bad .bad (List.replicate 10 .bad) .failed rfl rfl
  have hbad : ∀ p ∈ (channelFlickTask false wideInfo .bad .bad (List.replicate 10 .bad)).captures,
      p.2.statu = probeStatuOutRange := by decide
  exact absurd (hok.symm.trans (hbad _ hmem)) (by decide)

end PgClient.Mipi
