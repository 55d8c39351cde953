import PgClient.Lib.Timeline
import PgClient.OpenShort.Gate

/-!
# The order of the panel's signals

`doIcNonePowerTiming` switches five signals of both sides of the panel with the power, each after
its own delay in milliseconds. A loop counts them; in each turn it compares all five delays with
the count, so that a delay that is not met in its turn would never be met.

The delays are `short`s, so the count, an `int`, does not overflow.

* `occurrences_timingLoop`, `countP_timingLoop` — what the loop does from a count on.
* `doIcNonePowerTiming_sequenced` — every signal is driven once, in its tick.
-/

namespace PgClient.Pg

open Power OpenShort Timeline

/-! ## The code -/

/-- The five signals, in the order of the loop. -/
inductive Signal
  | ud
  | lr
  | mode
  | stby
  | rst
  deriving DecidableEq

def Signal.all : List Signal := [.ud, .lr, .mode, .stby, .rst]

/-- `GPIO_PIN_UD_L` and the others. -/
def Signal.pin : Signal → TtlLvdsChannel → Nat
  | .ud, .left => 54
  | .lr, .left => 56
  | .mode, .left => 60
  | .stby, .left => 57
  | .rst, .left => 11
  | .ud, .right => 61
  | .lr, .right => 63
  | .mode, .right => 72
  | .stby, .right => 64
  | .rst, .right => 10

/-- The part `gpio seq` of `s1103PwrCfgDb`. -/
structure GpioSeq where
  udOpenDelay : Short
  udCloseDelay : Short
  lrOpenDelay : Short
  lrCloseDelay : Short
  modeOpenDelay : Short
  modeCloseDelay : Short
  stbyOpenDelay : Short
  stbyCloseDelay : Short
  rstOpenDelay : Short
  rstCloseDelay : Short

/-- `udTime` and the others. -/
def GpioSeq.time (cfg : GpioSeq) (bOn : Bool) : Signal → Int
  | .ud => (if bOn then cfg.udOpenDelay else cfg.udCloseDelay).toInt
  | .lr => (if bOn then cfg.lrOpenDelay else cfg.lrCloseDelay).toInt
  | .mode => (if bOn then cfg.modeOpenDelay else cfg.modeCloseDelay).toInt
  | .stby => (if bOn then cfg.stbyOpenDelay else cfg.stbyCloseDelay).toInt
  | .rst => (if bOn then cfg.rstOpenDelay else cfg.rstCloseDelay).toInt

/-- A delay is of 15 bits. -/
theorem GpioSeq.time_lt (cfg : GpioSeq) (bOn : Bool) (s : Signal) : cfg.time bOn s < 32768 := by
  cases s <;> exact BitVec.toInt_lt

/-- A signal is driven on both sides. -/
def drive (s : Signal) (bOn : Bool) : List Event :=
  [.gpioSetOutputValue (s.pin .left) bOn.toNat, .gpioSetOutputValue (s.pin .right) bOn.toNat]

/-- The comparisons of a turn. -/
def timingTick (cfg : GpioSeq) (bOn : Bool) (deadLine : Nat) : List Event :=
  Signal.all.flatMap fun s => if cfg.time bOn s = deadLine then drive s bOn else []

/-- The loop, from a count on. -/
def timingLoop (cfg : GpioSeq) (bOn : Bool) (deadLine : Nat) : List Event :=
  timingTick cfg bOn deadLine ++ .msleep 1 ::
    if h : ∀ s ∈ Signal.all, cfg.time bOn s < (deadLine + 1 : Nat) then []
    else timingLoop cfg bOn (deadLine + 1)
termination_by 32768 - deadLine
decreasing_by
  push Not at h
  obtain ⟨s, -, hs⟩ := h
  have hlt := cfg.time_lt bOn s
  omega

/-- The pins of a side are set to 0 before the panel is opened. -/
def clearSide (channel : TtlLvdsChannel) : List Event :=
  (channelEnableGpio channel :: gpios channel).map fun pin => .gpioSetOutputValue pin 0

def doIcNonePowerTiming (cfg : GpioSeq) (bOn : Bool) : List Event :=
  [.msleep 55] ++ (if bOn then clearSide .left ++ clearSide .right else []) ++
    timingLoop cfg bOn 0 ++
    if bOn then []
    else
      [.gpioSetOutputValue (channelEnableGpio .left) 1,
        .gpioSetOutputValue (channelEnableGpio .right) 1]

/-! ## What it is for -/

deriving instance DecidableEq for Event

/-- A millisecond of the loop. -/
def isTick (e : Event) : Bool := e = .msleep 1

/-- A signal goes to its level on one side. -/
def edge (s : Signal) (channel : TtlLvdsChannel) (bOn : Bool) : Event :=
  .gpioSetOutputValue (s.pin channel) bOn.toNat

/-- The largest delay. -/
def longest (time : Signal → Int) : Int :=
  max (time .ud) (max (time .lr) (max (time .mode) (max (time .stby) (time .rst))))

/-- Every signal is driven to its level once on each side, in the tick of its delay; the loop
takes one tick more than the largest delay; and the edges are in the order of the delays. -/
structure Sequenced (time : Signal → Int) (bOn : Bool) (log : List Event) : Prop where
  once : ∀ s channel, occurrences isTick (edge s channel bOn) 0 log = [(time s).toNat]
  ticks : (log.countP isTick : Int) = longest time + 1
  ordered : ∀ s s' channel channel' (i j : Nat), log[i]? = some (edge s channel bOn) →
    log[j]? = some (edge s' channel' bOn) → time s < time s' → i < j

/-! ## A turn -/

/-- Every signal is driven. -/
theorem Signal.mem_all (s : Signal) : s ∈ Signal.all := by
  cases s <;> decide

/-- No two signals share a pin. -/
theorem Signal.pin_inj {s s' : Signal} {channel channel' : TtlLvdsChannel}
    (h : s.pin channel = s'.pin channel') : s = s' ∧ channel = channel' := by
  cases s <;> cases channel <;> cases s' <;> cases channel' <;> revert h <;> decide

/-- An edge belongs to one signal of one side. -/
theorem edge_eq_iff {s s' : Signal} {channel channel' : TtlLvdsChannel} {bOn : Bool} :
    edge s channel bOn = edge s' channel' bOn ↔ s = s' ∧ channel = channel' := by
  constructor
  · intro h
    injection h with hpin
    exact Signal.pin_inj hpin
  · rintro ⟨rfl, rfl⟩
    rfl

variable {cfg : GpioSeq} {bOn : Bool} {s : Signal} {channel : TtlLvdsChannel}

/-- Driving a signal takes no time. -/
theorem countP_drive (s : Signal) (bOn : Bool) : (drive s bOn).countP isTick = 0 := rfl

/-- Driving a signal makes its own edge and no other. -/
theorem occurrences_drive (s' : Signal) (n : Nat) :
    occurrences isTick (edge s channel bOn) n (drive s' bOn) = if s' = s then [n] else [] := by
  have hdrive : drive s' bOn = [edge s' .left bOn, edge s' .right bOn] := rfl
  simp only [hdrive, occurrences, edge_eq_iff]
  cases channel <;> by_cases hs : s' = s <;> simp [hs, isTick, edge]

/-- Neither does looking whether it is due. -/
theorem countP_timed (d : Nat) (s : Signal) :
    (if cfg.time bOn s = d then drive s bOn else []).countP isTick = 0 := by
  split_ifs
  · exact countP_drive s bOn
  · rfl

/-- A turn takes no time but its tick. -/
theorem countP_timingTick (d : Nat) : (timingTick cfg bOn d).countP isTick = 0 := by
  rw [List.countP_eq_zero]
  intro e he
  obtain ⟨s, -, hs⟩ := List.mem_flatMap.mp he
  exact List.countP_eq_zero.mp (countP_timed d s) e hs

/-- In a turn, the signals whose delay is the count are driven. -/
theorem occurrences_timingTick (d n : Nat) :
    occurrences isTick (edge s channel bOn) n (timingTick cfg bOn d) =
      if cfg.time bOn s = d then [n] else [] := by
  have hone : ∀ s', occurrences isTick (edge s channel bOn) n
      (if cfg.time bOn s' = d then drive s' bOn else []) =
        if s' = s then (if cfg.time bOn s = d then [n] else []) else [] := by
    intro s'
    -- another signal's edge is another event
    by_cases hs : s' = s
    · subst hs
      rw [if_pos rfl]
      split_ifs
      · rw [occurrences_drive, if_pos rfl]
      · rfl
    · rw [if_neg hs]
      split_ifs
      · rw [occurrences_drive, if_neg hs]
      · rfl
  rw [timingTick, occurrences_flatMap (countP_timed d)]
  simp only [hone, Signal.all]
  cases s <;> simp

/-! ## The loop -/

/-- A tick moves what follows one millisecond on. -/
theorem occurrences_msleep (n : Nat) (log : List Event) :
    occurrences isTick (edge s channel bOn) n (.msleep 1 :: log) =
      occurrences isTick (edge s channel bOn) (n + 1) log := rfl

/-- From a count on, a signal is driven in the tick of its delay, if that is still to come. -/
theorem occurrences_timingLoop (d : Nat) :
    occurrences isTick (edge s channel bOn) d (timingLoop cfg bOn d) =
      if d ≤ cfg.time bOn s then [(cfg.time bOn s).toNat] else [] := by
  induction d using timingLoop.induct cfg bOn with
  | case1 d ih =>
    rw [timingLoop, occurrences_append, occurrences_timingTick, countP_timingTick,
      occurrences_msleep, Nat.add_zero]
    by_cases hdone : ∀ s ∈ Signal.all, cfg.time bOn s < (d + 1 : Nat)
    · -- the last turn: the delay is the count, or it was met before
      have hs := hdone s s.mem_all
      rw [dif_pos hdone, occurrences, List.append_nil]
      by_cases heq : cfg.time bOn s = d
      · rw [if_pos heq, if_pos heq.ge, heq, Int.toNat_natCast]
      · rw [if_neg heq, if_neg (by omega)]
    · rw [dif_neg hdone, ih hdone]
      by_cases heq : cfg.time bOn s = d
      · rw [if_pos heq, if_neg (by omega), if_pos heq.ge, heq, Int.toNat_natCast, List.append_nil]
      · rw [if_neg heq, List.nil_append]
        congr 1
        rw [eq_iff_iff]
        omega

/-- From a count on, as many ticks as are left to the largest delay, and one more. -/
theorem countP_timingLoop (d : Nat) (h : d ≤ longest (cfg.time bOn)) :
    ((timingLoop cfg bOn d).countP isTick : Int) = longest (cfg.time bOn) + 1 - d := by
  induction d using timingLoop.induct cfg bOn with
  | case1 d ih =>
    rw [timingLoop, List.countP_append, countP_timingTick, List.countP_cons_of_pos rfl]
    by_cases hdone : ∀ s ∈ Signal.all, cfg.time bOn s < (d + 1 : Nat)
    · -- no delay is larger than the count
      have hle : longest (cfg.time bOn) ≤ d := by
        simp only [Signal.all, List.forall_mem_cons] at hdone
        unfold longest
        omega
      rw [dif_pos hdone, List.countP_nil]
      omega
    · have hlt : (d + 1 : Nat) ≤ longest (cfg.time bOn) := by
        push Not at hdone
        obtain ⟨s, -, hs⟩ := hdone
        have hlongest : cfg.time bOn s ≤ longest (cfg.time bOn) := by
          cases s <;> simp [longest]
        omega
      rw [dif_neg hdone]
      have := ih hdone hlt
      omega

/-! ## The whole call -/

/-- Before the loop no signal goes to its level. -/
theorem occurrences_before (n : Nat) :
    occurrences isTick (edge s channel bOn) n
      ([.msleep 55] ++ if bOn then clearSide .left ++ clearSide .right else []) = [] := by
  refine occurrences_eq_nil ?_ n
  cases bOn with
  | false => simp [edge]
  | true =>
    -- the pins are set to 0 there, and the level is 1
    cases s <;> cases channel <;> decide

/-- Behind the loop no signal is driven. -/
theorem occurrences_behind (n : Nat) :
    occurrences isTick (edge s channel bOn) n
      (if bOn then [] else [.gpioSetOutputValue (channelEnableGpio .left) 1,
        .gpioSetOutputValue (channelEnableGpio .right) 1]) = [] := by
  refine occurrences_eq_nil ?_ n
  cases bOn with
  | false => cases s <;> cases channel <;> decide
  | true => simp

/-- Before it there is no tick. -/
theorem countP_before (bOn : Bool) :
    (([.msleep 55] ++ if bOn then clearSide .left ++ clearSide .right else []) : List Event).countP
      isTick = 0 := by
  cases bOn <;> decide

/-- Behind it there is none. -/
theorem countP_behind (bOn : Bool) :
    (if bOn then [] else [.gpioSetOutputValue (channelEnableGpio .left) 1,
      .gpioSetOutputValue (channelEnableGpio .right) 1] : List Event).countP isTick = 0 := by
  cases bOn <;> decide

/-- **The signals are sequenced** for all delays that are not negative. -/
theorem doIcNonePowerTiming_sequenced (cfg : GpioSeq) (bOn : Bool)
    (hdelays : ∀ s, 0 ≤ cfg.time bOn s) :
    Sequenced (cfg.time bOn) bOn (doIcNonePowerTiming cfg bOn) := by
  -- each edge is made once, in the turn of its delay
  have honce : ∀ s channel, occurrences isTick (edge s channel bOn) 0 (doIcNonePowerTiming cfg bOn) =
      [(cfg.time bOn s).toNat] := by
    intro s channel
    rw [doIcNonePowerTiming, occurrences_append, occurrences_append, occurrences_before,
      countP_before, Nat.zero_add, occurrences_timingLoop, occurrences_behind,
      if_pos (by exact_mod_cast hdelays s)]
    rfl
  refine ⟨honce, ?_, ?_⟩
  -- the loop ticks as often as the longest delay says
  · have hlongest : (0 : Nat) ≤ longest (cfg.time bOn) := by
      have := hdelays .ud
      unfold longest
      omega
    rw [doIcNonePowerTiming, List.countP_append, List.countP_append, countP_before, countP_behind]
    have := countP_timingLoop 0 hlongest
    omega
  · intro s s' channel channel' i j hi hj hlt
    have hs := hdelays s
    exact lt_of_time_lt hi hj (honce s channel) (honce s' channel') (by omega)

/-- `RST` three milliseconds behind the others, which go up at once. -/
theorem doIcNonePowerTiming_rstLast :
    let cfg : GpioSeq := ⟨0, 0, 0, 0, 0, 0, 0, 0, 3, 0⟩
    (∀ s, 0 ≤ cfg.time true s) ∧ Sequenced (cfg.time true) true (doIcNonePowerTiming cfg true) :=
  have hdelays : ∀ s, 0 ≤ (⟨0, 0, 0, 0, 0, 0, 0, 0, 3, 0⟩ : GpioSeq).time true s := by
    intro s
    cases s <;> decide
  ⟨hdelays, doIcNonePowerTiming_sequenced _ _ hdelays⟩

end PgClient.Pg
