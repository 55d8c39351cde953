import Mathlib.Data.BitVec
import PgClient.Lib.Deadlines
import PgClient.Lib.PartialRun

/-!
# The timers of `MsOS_timer.c`

A list of timers, and the task that looks at each of them again and again. The clock counts the
milliseconds in 32 bits; the instants are numbers that do not wrap. Everything is done under one
semaphore, so that a call and a scan are one step each.

* `expired_iff` — what the task compares, in numbers that do not wrap.
* `look_onTime_iff` — when a look at a timer is right.
* `onTime_iff` — when every callback comes on time, along any calls and scans.
-/

namespace PgClient.Pgos.Timers

open PartialRun Deadlines

/-- `MSOS_timer`. -/
structure Timer where
  /-- Its address. -/
  id : Nat
  bStartTimer : Bool
  firstTimeMs : BitVec 32
  periodTimeMs : BitVec 32
  /-- 0 is NULL. -/
  pTimerCb : Nat
  initTimeMs : BitVec 32
  times : BitVec 32
  /-- The instant of the last start. This and what follows is a record that the code does not
  have. -/
  start : Nat
  /-- The instants since then at which the task looked at the timer. -/
  scans : List Nat
  /-- Those of the callbacks. -/
  calls : List Nat

/-- `MsOS_GetSystemTime`. -/
def getSystemTime (now : Nat) : BitVec 32 := BitVec.ofNat 32 now

/-! ## The code -/

namespace Timer

variable (timer : Timer)

/-- The timer is started again. -/
def restart (bStartTimer : Bool) (now : Nat) : Timer :=
  { timer with
    bStartTimer := bStartTimer
    initTimeMs := getSystemTime now
    times := 0
    start := now
    scans := []
    calls := [] }

/-- `TimerProcess` finds that the timer has run out. -/
def expired (timeNow : BitVec 32) : Bool :=
  if timer.times = 0 then timer.initTimeMs + timer.firstTimeMs ≤ timeNow
  else timer.periodTimeMs ≠ 0 ∧
    timer.initTimeMs + timer.firstTimeMs + timer.periodTimeMs * timer.times ≤ timeNow

/-- `TimerProcess` looks at the timer. -/
def look (now : Nat) : Timer :=
  if timer.bStartTimer then
    let timer := { timer with scans := timer.scans ++ [now] }
    if timer.expired (getSystemTime now) then
      { timer with
        times := if timer.times = 0 then 1 else timer.times + 1
        calls := if timer.pTimerCb ≠ 0 then timer.calls ++ [now] else timer.calls }
    else timer
  else timer

end Timer

/-- `pCur` goes through the list up to the timer with this address. -/
def modifyTimer (u32TimerId : Nat) (f : Timer → Timer) (timers : List Timer) : List Timer :=
  timers.modify (timers.findIdx fun timer => timer.id = u32TimerId) f

/-- A call, or a scan of the task; `now` is the instant, in a scan for each place of the list. -/
inductive Op
  | createTimer (pTimer pTimerCb : Nat) (u32FirstTimeMs u32PeriodTimeMs : BitVec 32)
    (bStartTimer : Bool) (garbage : BitVec 32) (now : Nat)
  | startTimer (u32TimerId now : Nat)
  | stopTimer (u32TimerId now : Nat)
  | resetTimer (u32TimerId : Nat) (u32FirstTimeMs u32PeriodTimeMs : BitVec 32)
    (bStartTimer : Bool) (now : Nat)
  | deleteTimer (u32TimerId : Nat)
  | scan (now : Nat → Nat)

/-- `MsOS_CreateTimer` and the others; `pTimer` is what `MsOS_AllocateMemory` gives, and `garbage`
what is in it. -/
def Op.run : Op → List Timer → List Timer
  | .createTimer pTimer pTimerCb u32FirstTimeMs u32PeriodTimeMs bStartTimer garbage now, timers =>
    if pTimer = 0 then timers
    else
      timers ++ [⟨pTimer, bStartTimer, u32FirstTimeMs, u32PeriodTimeMs, pTimerCb,
        if bStartTimer then getSystemTime now else garbage, 0, now, [], []⟩]
  | .startTimer u32TimerId now, timers =>
    modifyTimer u32TimerId (fun timer => timer.restart true now) timers
  | .stopTimer u32TimerId now, timers =>
    modifyTimer u32TimerId (fun timer => timer.restart false now) timers
  | .resetTimer u32TimerId u32FirstTimeMs u32PeriodTimeMs bStartTimer now, timers =>
    modifyTimer u32TimerId (fun timer =>
      { timer with
        firstTimeMs := u32FirstTimeMs
        periodTimeMs := u32PeriodTimeMs }.restart bStartTimer now) timers
  | .deleteTimer u32TimerId, timers => timers.eraseP fun timer => timer.id = u32TimerId
  | .scan now, timers => timers.mapIdx fun i timer => timer.look (now i)

/-! ## Callbacks on time -/

namespace Timer

variable (timer : Timer)

/-- The instant of the callback after `k` others. -/
def deadline (k : Nat) : Nat :=
  timer.start + timer.firstTimeMs.toNat + timer.periodTimeMs.toNat * k

/-- It is due; without a period there is one only. -/
def Due (k now : Nat) : Prop := (k = 0 ∨ timer.periodTimeMs ≠ 0) ∧ timer.deadline k ≤ now

instance : ∀ k now, Decidable (timer.Due k now) := fun _ _ => inferInstanceAs (Decidable (_ ∧ _))

/-- Each callback since the start is at the first scan at which it is due. -/
def OnTime : Prop :=
  timer.bStartTimer → timer.pTimerCb ≠ 0 → Fires timer.Due 0 timer.scans timer.calls

/-- The next deadline and the instant are in one period of the clock; or the one that is in a later
period has the larger count, too. -/
def InOrder (now : Nat) : Prop :=
  let deadline := timer.deadline timer.calls.length
  deadline / 2 ^ 32 = now / 2 ^ 32 ∨
    (deadline / 2 ^ 32 < now / 2 ^ 32 ∧ deadline % 2 ^ 32 ≤ now % 2 ^ 32) ∨
    (now / 2 ^ 32 < deadline / 2 ^ 32 ∧ now % 2 ^ 32 < deadline % 2 ^ 32)

/-- The look at the timer is at an instant that is in order. -/
def Looked (now : Nat) : Prop :=
  timer.bStartTimer → timer.pTimerCb ≠ 0 → (timer.calls = [] ∨ timer.periodTimeMs ≠ 0) →
    timer.InOrder now

/-- What the timer holds, as long as its callbacks are on time. -/
structure Ok : Prop where
  onTime : timer.OnTime
  init : timer.bStartTimer → timer.initTimeMs = BitVec.ofNat 32 timer.start
  times : timer.pTimerCb ≠ 0 → timer.times = BitVec.ofNat 32 timer.calls.length
  single : timer.pTimerCb ≠ 0 → timer.periodTimeMs = 0 → timer.calls.length ≤ 1

end Timer

section Looks

variable {timer : Timer}

/-- The comparison of the counts is the one of the instants. -/
theorem inOrder_iff (now : Nat) : timer.InOrder now ↔
    (timer.deadline timer.calls.length % 2 ^ 32 ≤ now % 2 ^ 32 ↔
      timer.deadline timer.calls.length ≤ now) := by
  unfold Timer.InOrder
  generalize timer.deadline timer.calls.length = deadline
  constructor
  · intro h
    omega
  · intro h
    omega

/-- **What `TimerProcess` compares**, in numbers that do not wrap. -/
theorem expired_iff (h : timer.Ok) (hstart : timer.bStartTimer) (hcb : timer.pTimerCb ≠ 0)
    (now : Nat) : timer.expired (getSystemTime now) ↔
      (timer.calls.length = 0 ∨ timer.periodTimeMs ≠ 0) ∧
        timer.deadline timer.calls.length % 2 ^ 32 ≤ now % 2 ^ 32 := by
  have hinit := h.init hstart
  have htimes := h.times hcb
  have hdeadline : timer.initTimeMs + timer.firstTimeMs + timer.periodTimeMs * timer.times =
      BitVec.ofNat 32 (timer.deadline timer.calls.length) := by
    rw [hinit, htimes, Timer.deadline, BitVec.ofNat_add, BitVec.ofNat_add, BitVec.ofNat_mul,
      BitVec.ofNat_toNat, BitVec.ofNat_toNat, BitVec.setWidth_eq, BitVec.setWidth_eq]
  have hexpired : timer.expired (getSystemTime now) ↔
      (timer.times = 0 ∨ timer.periodTimeMs ≠ 0) ∧
        timer.initTimeMs + timer.firstTimeMs + timer.periodTimeMs * timer.times ≤
          getSystemTime now := by
    unfold Timer.expired
    split_ifs with hzero
    · rw [hzero, mul_zero, add_zero, decide_eq_true_iff]
      exact ⟨fun hle => ⟨.inl rfl, hle⟩, And.right⟩
    · rw [or_iff_right hzero, decide_eq_true_iff]
  -- the count of the callbacks wraps only where there is a period
  have hcount : (timer.times = 0 ∨ timer.periodTimeMs ≠ 0) ↔
      (timer.calls.length = 0 ∨ timer.periodTimeMs ≠ 0) := by
    by_cases hperiod : timer.periodTimeMs = 0
    · have hsingle := h.single hcb hperiod
      rw [or_iff_left (not_not.mpr hperiod), or_iff_left (not_not.mpr hperiod), htimes]
      rcases Nat.le_one_iff_eq_zero_or_eq_one.mp hsingle with hlen | hlen <;> rw [hlen] <;> decide
    · exact iff_of_true (.inr hperiod) (.inr hperiod)
  rw [hexpired, hcount, hdeadline, BitVec.le_def, getSystemTime, BitVec.toNat_ofNat,
    BitVec.toNat_ofNat]

/-- What a look at a timer changes. -/
theorem look_eq (hstart : timer.bStartTimer) (now : Nat) :
    timer.look now = { timer with
      scans := timer.scans ++ [now]
      times := if timer.expired (getSystemTime now) then timer.times + 1 else timer.times
      calls := if timer.expired (getSystemTime now) ∧ timer.pTimerCb ≠ 0 then timer.calls ++ [now]
        else timer.calls } := by
  -- the scan that is noted does not change what is expired
  have hsame : Timer.expired { timer with scans := timer.scans ++ [now] } (getSystemTime now) =
      timer.expired (getSystemTime now) := rfl
  unfold Timer.look
  rw [if_pos hstart]
  dsimp only
  rw [hsame]
  by_cases hexpired : timer.expired (getSystemTime now) = true
  · by_cases hzero : timer.times = 0 <;> by_cases hcb : timer.pTimerCb = 0 <;>
      simp [hexpired, hzero, hcb]
  · simp [hexpired]

/-- A timer that is off is passed over. -/
theorem look_of_not_started (hstart : ¬timer.bStartTimer = true) (now : Nat) :
    timer.look now = timer := if_neg hstart

/-- A look that is in order finds what is due. -/
theorem expired_iff_due (h : timer.Ok) (hstart : timer.bStartTimer) (hcb : timer.pTimerCb ≠ 0)
    (now : Nat) : (timer.expired (getSystemTime now) ↔ timer.Due timer.calls.length now) ↔
      timer.Looked now := by
  have hempty : timer.calls.length = 0 ↔ timer.calls = [] := List.length_eq_zero_iff
  rw [expired_iff h hstart hcb, Timer.Due, Timer.Looked, inOrder_iff, hempty]
  constructor
  · intro hiff _ _ hmore
    rwa [and_iff_right hmore, and_iff_right hmore] at hiff
  · intro hlooked
    exact and_congr_right fun hmore => hlooked hstart hcb hmore

/-- **When a look is right.** -/
theorem look_onTime_iff (h : timer.Ok) (now : Nat) :
    (timer.look now).OnTime ↔ timer.Looked now := by
  by_cases hstart : timer.bStartTimer = true
  case neg =>
    rw [look_of_not_started hstart]
    exact iff_of_true h.onTime fun h => absurd h hstart
  by_cases hcb : timer.pTimerCb = 0
  case pos =>
    rw [look_eq hstart]
    exact iff_of_true (fun _ h => absurd hcb h) fun _ h => absurd hcb h
  have hcalls := fires_iff.mp (h.onTime hstart hcb)
  have hscan : fires timer.Due 0 (timer.scans ++ [now]) = fires timer.Due 0 timer.scans ++
      if timer.Due (0 + (fires timer.Due 0 timer.scans).length) now then [now] else [] :=
    fires_concat timer.scans now
  rw [← hcalls, Nat.zero_add] at hscan
  rw [← expired_iff_due h hstart hcb, look_eq hstart]
  -- one more scan is one more call on both sides, or on none
  have honTime : Fires timer.Due 0 (timer.scans ++ [now])
      (if timer.expired (getSystemTime now) ∧ timer.pTimerCb ≠ 0 then timer.calls ++ [now]
        else timer.calls) ↔
      (timer.expired (getSystemTime now) ↔ timer.Due timer.calls.length now) := by
    rw [fires_iff, hscan]
    by_cases hexpired : timer.expired (getSystemTime now) = true <;>
      by_cases hdue : timer.Due timer.calls.length now <;> simp [hexpired, hdue, hcb]
  exact ⟨fun h => honTime.mp (h hstart hcb), fun h _ _ => honTime.mpr h⟩

/-- A look that is in order keeps the timer. -/
theorem look_ok (h : timer.Ok) (now : Nat) (hlooked : timer.Looked now) : (timer.look now).Ok := by
  by_cases hstart : timer.bStartTimer = true
  case neg =>
    rw [look_of_not_started hstart]
    exact h
  refine ⟨(look_onTime_iff h now).mpr hlooked, ?_, ?_, ?_⟩
  -- the count goes with the calls
  · rw [look_eq hstart]
    exact h.init
  · rw [look_eq hstart]
    intro hcb
    have htimes := h.times hcb
    by_cases hexpired : timer.expired (getSystemTime now) = true
    · simp [hexpired, show timer.pTimerCb ≠ 0 from hcb, htimes, BitVec.ofNat_add]
    · simp [hexpired, htimes]
  · rw [look_eq hstart]
    intro hcb hperiod
    have hcb' : timer.pTimerCb ≠ 0 := hcb
    have hperiod' : timer.periodTimeMs = 0 := hperiod
    by_cases hexpired : timer.expired (getSystemTime now) = true
    -- without a period only the first one expires
    · have hfirst : timer.calls.length = 0 :=
        ((expired_iff h hstart hcb now).mp hexpired).1.resolve_right (not_not.mpr hperiod')
      simp [hexpired, hcb', hfirst]
    · simpa [hexpired] using h.single hcb hperiod'

end Looks

/-! ## Calls and scans -/

/-- A timer that is started again has nothing due. -/
theorem restart_ok (timer : Timer) (bStartTimer : Bool) (now : Nat) :
    (timer.restart bStartTimer now).Ok where
  onTime _ _ := .none nofun
  init _ := rfl
  times _ := rfl
  single _ _ := Nat.zero_le 1

/-- All timers are on time after the step. -/
def StepOnTime (op : Op) (timers : List Timer) : Prop := ∀ timer ∈ op.run timers, timer.OnTime

/-- A scan looks at the timers at instants that are in order. -/
def StepInOrder : Op → List Timer → Prop
  | .scan now, timers => ∀ (i : Nat) (timer : Timer), timers[i]? = some timer → timer.Looked (now i)
  | _, _ => True

/-- A change of the timers is one of the timers that are there. -/
theorem mem_modifyTimer {u32TimerId : Nat} {f : Timer → Timer} {timers : List Timer}
    {timer : Timer} (h : timer ∈ modifyTimer u32TimerId f timers) :
    timer ∈ timers ∨ ∃ timer', timer = f timer' := by
  obtain ⟨i, hi⟩ := List.mem_iff_getElem?.mp h
  rw [modifyTimer, List.getElem?_modify] at hi
  obtain ⟨timer', htimer', heq⟩ := Option.map_eq_some_iff.mp hi
  split at heq
  · exact .inr ⟨timer', heq.symm⟩
  · exact .inl (heq ▸ List.mem_of_getElem? htimer')

/-- A step keeps the timers, if it is in order. -/
theorem run_ok {op : Op} {timers : List Timer} (h : ∀ timer ∈ timers, timer.Ok)
    (hop : StepInOrder op timers) : ∀ timer ∈ op.run timers, timer.Ok := by
  intro timer hmem
  cases op with
  | createTimer pTimer pTimerCb u32FirstTimeMs u32PeriodTimeMs bStartTimer garbage now =>
    rw [Op.run] at hmem
    by_cases hnull : pTimer = 0
    case pos =>
      rw [if_pos hnull] at hmem
      exact h timer hmem
    rw [if_neg hnull] at hmem
    obtain hmem | hmem := List.mem_append.mp hmem
    · exact h timer hmem
    obtain rfl := List.mem_singleton.mp hmem
    -- what was in the memory stays in a timer that is not started only
    exact ⟨fun _ _ => .none nofun, fun hstart => if_pos (show bStartTimer = true from hstart),
      fun _ => rfl, fun _ _ => Nat.zero_le 1⟩
  | startTimer u32TimerId now =>
    obtain hmem | ⟨timer', rfl⟩ := mem_modifyTimer hmem
    · exact h timer hmem
    · exact restart_ok _ _ _
  | stopTimer u32TimerId now =>
    obtain hmem | ⟨timer', rfl⟩ := mem_modifyTimer hmem
    · exact h timer hmem
    · exact restart_ok _ _ _
  | resetTimer u32TimerId u32FirstTimeMs u32PeriodTimeMs bStartTimer now =>
    obtain hmem | ⟨timer', rfl⟩ := mem_modifyTimer hmem
    · exact h timer hmem
    · exact restart_ok _ _ _
  | deleteTimer u32TimerId => exact h timer (List.mem_of_mem_eraseP hmem)
  | scan now =>
    obtain ⟨i, hi⟩ := List.mem_iff_getElem?.mp hmem
    rw [Op.run, List.getElem?_mapIdx] at hi
    obtain ⟨timer', htimer', rfl⟩ := Option.map_eq_some_iff.mp hi
    exact look_ok (h timer' (List.mem_of_getElem? htimer')) (now i) (hop i timer' htimer')

/-- **When a step is on time.** -/
theorem stepOnTime_iff {op : Op} {timers : List Timer} (h : ∀ timer ∈ timers, timer.Ok) :
    StepOnTime op timers ↔ StepInOrder op timers := by
  constructor
  · intro honTime
    cases op with
    | scan now =>
      intro i timer hi
      refine (look_onTime_iff (h timer (List.mem_of_getElem? hi)) (now i)).mp (honTime _ ?_)
      -- the timer after its look is in the new list
      have hlook : (Op.run (.scan now) timers)[i]? = some (timer.look (now i)) := by
        rw [Op.run, List.getElem?_mapIdx, hi]
        rfl
      exact List.mem_of_getElem? hlook
    | createTimer | startTimer | stopTimer | resetTimer | deleteTimer => trivial
  · exact fun hop timer hmem => (run_ok h hop timer hmem).onTime

/-- **When the callbacks are on time**, along any calls and scans. -/
theorem onTime_iff (ops : List Op) :
    Along (fun op timers => some (op.run timers)) StepOnTime ops [] ↔
      Along (fun op timers => some (op.run timers)) StepInOrder ops [] := by
  refine along_congr (fun op timers (h : ∀ timer ∈ timers, timer.Ok) => stepOnTime_iff h)
    (fun op timers timers' h hop hrun => ?_) ops nofun
  exact Option.some.inj hrun ▸ run_ok h hop

/-- A timer of 20 ms is started 10 ms before the clock wraps, and scanned 1 ms later. -/
def earlyOps : List Op :=
  [.createTimer 1 1 20 0 true 0 4294967286, .scan fun _ => 4294967287]

/-- Its callback comes 19 ms early. -/
theorem early_not_onTime :
    ¬Along (fun op timers => some (op.run timers)) StepOnTime earlyOps [] := by
  intro h
  have hscan := (h.2 _ rfl).1
  have honTime := hscan _ List.mem_cons_self rfl (by decide)
  exact absurd (fires_iff.mp honTime) (by decide)

end PgClient.Pgos.Timers
