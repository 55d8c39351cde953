import Mathlib.Algebra.Order.Ring.Rat
import Mathlib.Data.Rat.Cast.Order
import Mathlib.Tactic.NormNum
import PgClient.Pg.Device

/-!
# The open/short test

`openshort.c`. Before a TTL panel is powered, every pin and every GPIO of both
sides is driven in turn and the voltage read back. A reading below the open
limit or above the short limit is a fault; the sides without one may be
powered, and the PC is told of every fault.

* `run_testSide` — what the test of one side returns, and tells the PC.
* `gate_iff` — the result and the pins are right for all readings; the test
  keeps its whole promise exactly when no GPIO reads inside the limits: for such
  a one it reports a short.
-/

namespace PgClient.OpenShort

open DeviceLog Pg Power

/-- `MAX_OPEN_SHORT_PIN_NUMS`. -/
def maxOpenShortPinNums : Nat := 28

/-- `PWR_CHANNEL_ALL` and the two after it. -/
def pwrChannelVal : PwrChannel → Int
  | .all => 1
  | .left => 2
  | .right => 3

/-! ## The test -/

def openShortSingalNotifyToPc (pin : Nat) (status : PinStatu) : Call Unit :=
  clientNotifyMsg notifyErrorOpenShortCheck (.pin pin status)

def openShortGpioNotifyToPc (pin : Nat) (status : PinStatu) : Call Unit :=
  match status with
  | .opened => clientNotifyMsg notifyErrorOpenShortCheck (.gpio pin .opened)
  | .shorted => clientNotifyMsg notifyErrorOpenShortCheck (.gpio pin .shorted)
  | .ok => pure ()

/-- The GPIOs of a side that are tested, in order: `UD`, `LR`, `MODE`, `STBY`, `RST`. -/
def gpios : TtlLvdsChannel → List Nat
  | .left => [54, 56, 60, 57, 11]
  | .right => [61, 63, 72, 64, 10]

/-- `CHANNEL_ENABLE_GPIO_L` and `_R`. -/
def channelEnableGpio : TtlLvdsChannel → Nat
  | .left => 70
  | .right => 58

/-- All of them are set to 0. -/
def clearGpios : List Nat → Call Unit
  | [] => pure ()
  | gpio :: rest => do
    gpioSetOutputValue gpio 0
    clearGpios rest

def resetShortGpio (channel : TtlLvdsChannel) : Call Unit :=
  clearGpios (channelEnableGpio channel :: gpios channel)

/-- `value * 0.1`, exactly. -/
def shortValue (value : BitVec 16) : ℚ := value.toNat / 10

variable (pMonitorCfg : MonitorCfg)

/-- A GPIO that reads inside the limits is reported like one above them. -/
def checkGpioShort (channel : TtlLvdsChannel) (gpioIndex : Nat) : Call Int := do
  -- only the GPIO under test is high while the value is read
  gpioSetOutputValue gpioIndex 1
  msleep 50
  let value ← mcuReadOpenShortData channel
  gpioSetOutputValue gpioIndex 0
  if shortValue value < pMonitorCfg.openShortCheckOpenValue then
    openShortGpioNotifyToPc gpioIndex .opened
    pure 1
  else if shortValue value > pMonitorCfg.openShortCheckShortValue then
    openShortGpioNotifyToPc gpioIndex .shorted
    pure 1
  else
    -- a reading inside the window is told as shorted too, though it is not counted
    openShortGpioNotifyToPc gpioIndex .shorted
    pure 0

/-- The body of the loop over the pins: what it adds to `checkRet`. -/
def checkPin (devChannel : TtlLvdsChannel) (i : Nat) : Call Int := do
  sp6SetOpenShortData devChannel (1 <<< i)
  msleep 100
  let value ← mcuReadOpenShortData devChannel
  if shortValue value < pMonitorCfg.openShortCheckOpenValue then
    openShortSingalNotifyToPc i .opened
    pure 1
  else if shortValue value > pMonitorCfg.openShortCheckShortValue then
    openShortSingalNotifyToPc i .shorted
    pure 1
  else
    openShortSingalNotifyToPc i .ok
    pure 0

/-- `checkRet` after these checks. -/
def checkAll {α : Type} (check : α → Call Int) : List α → Int → Call Int
  | [], checkRet => pure checkRet
  | a :: rest, checkRet => do
    let ret ← check a
    checkAll check rest (checkRet + ret)

/-- The pins of a side. -/
def testPins (devChannel : TtlLvdsChannel) : Call Int := do
  sp6SetOpenShortData devChannel 0
  msleep 100
  let _ ← mcuReadOpenShortData devChannel
  let checkRet ← checkAll (checkPin pMonitorCfg devChannel) (List.range maxOpenShortPinNums) 0
  sp6SetOpenShortData devChannel 0
  msleep 100
  pure checkRet

/-- The GPIOs of a side. -/
def testGpios (devChannel : TtlLvdsChannel) (checkRet : Int) : Call Int := do
  resetShortGpio devChannel
  msleep 100
  let _ ← mcuReadOpenShortData devChannel
  msleep 100
  checkAll (checkGpioShort pMonitorCfg devChannel) (gpios devChannel) checkRet

def notifyFailed (devChannel : TtlLvdsChannel) (checkRet : Int) : Call Unit :=
  if checkRet ≠ 0 then clientNotifyMsg 0 (.failed devChannel) else pure ()

/-- The body of the loop over the sides: `checkRet` of the side. -/
def testSide (devChannel : TtlLvdsChannel) : Call Int := do
  clientNotifyMsg 0 (.testing devChannel)
  let checkRet ← testPins pMonitorCfg devChannel
  let checkRet ← testGpios pMonitorCfg devChannel checkRet
  notifyFailed devChannel checkRet
  clientNotifyMsg 0 .line
  pure checkRet

def openShortTestSingalAndIo : Call Int := do
  emit .sp6EntryOpenShortMode
  emit .sp6OpenTtlSignal
  msleep 100
  let left ← testSide pMonitorCfg .left
  let right ← testSide pMonitorCfg .right
  msleep 200
  emit .sp6CloseTtlSignal
  emit .sp6LeaveOpenShortMode
  -- a side is clean if its count is 0; the result names the clean sides
  if left = 0 ∧ right = 0 then pure (pwrChannelVal .all)
  else if left = 0 then pure (pwrChannelVal .left)
  else if right = 0 then pure (pwrChannelVal .right)
  else pure (-1)

/-! ## What the test should be -/

/-- The reading is below the open limit. -/
def Opened (value : BitVec 16) : Prop := shortValue value < pMonitorCfg.openShortCheckOpenValue

/-- The reading is above the short limit. -/
def Shorted (value : BitVec 16) : Prop := pMonitorCfg.openShortCheckShortValue < shortValue value

def Outside (value : BitVec 16) : Prop := Opened pMonitorCfg value ∨ Shorted pMonitorCfg value

instance (value : BitVec 16) : Decidable (Opened pMonitorCfg value) :=
  inferInstanceAs (Decidable (_ < _))

instance (value : BitVec 16) : Decidable (Shorted pMonitorCfg value) :=
  inferInstanceAs (Decidable (_ < _))

instance (value : BitVec 16) : Decidable (Outside pMonitorCfg value) :=
  inferInstanceAs (Decidable (_ ∨ _))

/-- The first reading of a side; a side takes 35 of them. -/
def firstReading : TtlLvdsChannel → Nat
  | .left => 0
  | .right => 35

/-- The reading while pin `i` of the side is driven. -/
def pinReading (w : Board) (channel : TtlLvdsChannel) (i : Nat) : BitVec 16 :=
  w.reply (firstReading channel + (1 + i))

/-- The reading while the `k`-th GPIO of the side is driven. -/
def gpioReading (w : Board) (channel : TtlLvdsChannel) (k : Nat) : BitVec 16 :=
  w.reply (firstReading channel + (30 + k))

/-- No pin or GPIO of the side reads outside the limits. -/
def Clean (w : Board) (channel : TtlLvdsChannel) : Prop :=
  (∀ i, i < maxOpenShortPinNums → ¬ Outside pMonitorCfg (pinReading w channel i)) ∧
    ∀ k, k < 5 → ¬ Outside pMonitorCfg (gpioReading w channel k)

instance (w : Board) (channel : TtlLvdsChannel) : Decidable (Clean pMonitorCfg w channel) :=
  inferInstanceAs (Decidable (_ ∧ _))

/-- The messages to the PC. -/
def toPc : Event → Option (Int × PcMsg)
  | .clientNotifyMsg msgFlag msg => some (msgFlag, msg)
  | _ => none

/-- The side that a message announces. -/
def announced : PcMsg → Option TtlLvdsChannel
  | .testing channel => some channel
  | _ => none

/-- The faults the PC is told, with the side that was announced last. -/
def faults : Option TtlLvdsChannel → List (Int × PcMsg) → List (Option TtlLvdsChannel × PcMsg)
  | _, [] => []
  | channel, (msgFlag, msg) :: rest =>
    match announced msg with
    | some channel => faults (some channel) rest
    | none =>
      if msgFlag = notifyErrorOpenShortCheck then (channel, msg) :: faults channel rest
      else faults channel rest

/-- The faults told by a run. -/
def told (w w' : Board) : List (Option TtlLvdsChannel × PcMsg) :=
  faults none ((w'.log.drop w.log.length).filterMap toPc)

/-- The result names the clean sides. -/
def ResultSound (w : Board) (val : Int) : Prop :=
  (val = pwrChannelVal .all ↔ Clean pMonitorCfg w .left ∧ Clean pMonitorCfg w .right) ∧
  (val = pwrChannelVal .left ↔ Clean pMonitorCfg w .left ∧ ¬ Clean pMonitorCfg w .right) ∧
  (val = pwrChannelVal .right ↔ ¬ Clean pMonitorCfg w .left ∧ Clean pMonitorCfg w .right) ∧
  (val = -1 ↔ ¬ Clean pMonitorCfg w .left ∧ ¬ Clean pMonitorCfg w .right)

/-- A pin is reported exactly for its own reading. -/
def PinsSound (w w' : Board) : Prop :=
  ∀ channel i, i < maxOpenShortPinNums →
    ((some channel, .pin i .opened) ∈ told w w' ↔ Opened pMonitorCfg (pinReading w channel i)) ∧
    ((some channel, .pin i .shorted) ∈ told w w' ↔ Shorted pMonitorCfg (pinReading w channel i))

/-- A GPIO is reported exactly for its own reading. -/
def GpiosSound (w w' : Board) : Prop :=
  ∀ channel k gpio, (gpios channel)[k]? = some gpio →
    ((some channel, .gpio gpio .opened) ∈ told w w' ↔
      Opened pMonitorCfg (gpioReading w channel k)) ∧
    ((some channel, .gpio gpio .shorted) ∈ told w w' ↔
      Shorted pMonitorCfg (gpioReading w channel k))

/-- The test returns the clean sides and tells the PC of the faults there are. -/
def GateSound (w : Board) : Prop :=
  ∃ val w', openShortTestSingalAndIo pMonitorCfg w = .ok val w' ∧
    ResultSound pMonitorCfg w val ∧ PinsSound pMonitorCfg w w' ∧ GpiosSound pMonitorCfg w w'

/-! ## One side -/

variable {pMonitorCfg}

/-- What the PC is told of a pin. -/
def pinStatu (pMonitorCfg : MonitorCfg) (value : BitVec 16) : PinStatu :=
  if Opened pMonitorCfg value then .opened
  else if Shorted pMonitorCfg value then .shorted
  else .ok

/-- What the PC is told of a GPIO. -/
def gpioStatu (pMonitorCfg : MonitorCfg) (value : BitVec 16) : PinStatu :=
  if Opened pMonitorCfg value then .opened else .shorted

/-- A check of one reading: it counts one outside the limits, and tells the PC
one thing of it. -/
def OneReading {α : Type} (pMonitorCfg : MonitorCfg) (check : α → Call Int)
    (tells : α → BitVec 16 → PcMsg) : Prop :=
  ∀ a w, ∃ es, check a w =
      .ok (if Outside pMonitorCfg (w.reply 0) then 1 else 0) (w.after 1 es) ∧
    es.filterMap toPc = [(notifyErrorOpenShortCheck, tells a (w.reply 0))]

theorem checkPin_oneReading (devChannel : TtlLvdsChannel) :
    OneReading pMonitorCfg (checkPin pMonitorCfg devChannel)
      fun i value => .pin i (pinStatu pMonitorCfg value) := by
  intro i w
  unfold checkPin openShortSingalNotifyToPc pinStatu Outside Opened Shorted
  by_cases hopen : shortValue (w.reply 0) < pMonitorCfg.openShortCheckOpenValue
  · exact ⟨_, by simp [hopen]; rfl, by simp [hopen]; rfl⟩
  · by_cases hshort : pMonitorCfg.openShortCheckShortValue < shortValue (w.reply 0)
    · exact ⟨_, by simp [hopen, hshort]; rfl, by simp [hopen, hshort]; rfl⟩
    · exact ⟨_, by simp [hopen, hshort]; rfl, by simp [hopen, hshort]; rfl⟩

theorem checkGpioShort_oneReading (channel : TtlLvdsChannel) :
    OneReading pMonitorCfg (checkGpioShort pMonitorCfg channel)
      fun gpio value => .gpio gpio (gpioStatu pMonitorCfg value) := by
  intro gpio w
  unfold checkGpioShort openShortGpioNotifyToPc gpioStatu Outside Opened Shorted
  by_cases hopen : shortValue (w.reply 0) < pMonitorCfg.openShortCheckOpenValue
  · exact ⟨_, by simp [hopen]; rfl, by simp [hopen]; rfl⟩
  · by_cases hshort : pMonitorCfg.openShortCheckShortValue < shortValue (w.reply 0)
    · exact ⟨_, by simp [hopen, hshort]; rfl, by simp [hopen]; rfl⟩
    · exact ⟨_, by simp [hopen, hshort]; rfl, by simp [hopen]; rfl⟩

/-- The checks of a list take one reading each. -/
theorem run_checkAll {α : Type} {check : α → Call Int} {tells : α → BitVec 16 → PcMsg}
    (h : OneReading pMonitorCfg check tells) (as : List α) (checkRet : Int) (w : Board) :
    ∃ es, checkAll check as checkRet w =
        .ok (checkRet + (as.zipIdx.countP fun p => Outside pMonitorCfg (w.reply p.2) : Nat))
          (w.after as.length es) ∧
      es.filterMap toPc =
        as.zipIdx.map fun p => (notifyErrorOpenShortCheck, tells p.1 (w.reply p.2)) := by
  -- on the list, from the reading that comes next
  induction as generalizing checkRet w with
  | nil => exact ⟨[], by simp [checkAll], rfl⟩
  | cons a as ih =>
    obtain ⟨es, hcheck, hes⟩ := h a w
    obtain ⟨fs, hrest, hfs⟩ := ih (checkRet + if Outside pMonitorCfg (w.reply 0) then 1 else 0)
      (w.after 1 es)
    refine ⟨es ++ fs, ?_, ?_⟩
    · simp only [checkAll, run_bind, hcheck, hrest, World.after_after, World.after_reply]
      rw [List.zipIdx_cons, List.countP_cons, List.zipIdx_succ, List.countP_map,
        List.length_cons, Nat.add_comm 1]
      congr 1
      simp only [Function.comp_def, Nat.add_comm _ 1, decide_eq_true_eq]
      -- the first reading counts for itself, the others one place further on
      split_ifs <;> push_cast <;> omega
    · rw [List.filterMap_append, hes, hfs, List.zipIdx_cons, List.zipIdx_succ]
      simp [Nat.add_comm]

theorem run_clearGpios (gpios : List Nat) (w : Board) :
    clearGpios gpios w =
      .ok () (w.after 0 (gpios.map fun gpio => .gpioSetOutputValue gpio 0)) := by
  induction gpios generalizing w with
  | nil => simp [clearGpios]
  | cons gpio rest ih => simp [clearGpios, ih]

/-- The readings of a side outside the limits, when it is tested from here. -/
def badReadings (pMonitorCfg : MonitorCfg) (channel : TtlLvdsChannel) (w : Board) : Nat :=
  ((List.range maxOpenShortPinNums).zipIdx.countP
    fun p => Outside pMonitorCfg (w.reply (1 + p.2))) +
  (gpios channel).zipIdx.countP fun p => Outside pMonitorCfg (w.reply (30 + p.2))

/-- What the PC is told of a side that is tested from here. -/
def sideFaults (pMonitorCfg : MonitorCfg) (channel : TtlLvdsChannel) (w : Board) : List PcMsg :=
  ((List.range maxOpenShortPinNums).zipIdx.map
    fun p => .pin p.1 (pinStatu pMonitorCfg (w.reply (1 + p.2)))) ++
  (gpios channel).zipIdx.map fun p => .gpio p.1 (gpioStatu pMonitorCfg (w.reply (30 + p.2)))

/-- Faults are told of the side announced last. -/
theorem faults_append {channel : Option TtlLvdsChannel} {msgs : List PcMsg}
    (h : ∀ msg ∈ msgs, announced msg = none) (rest : List (Int × PcMsg)) :
    faults channel (msgs.map (fun msg => (notifyErrorOpenShortCheck, msg)) ++ rest) =
      msgs.map (fun msg => (channel, msg)) ++ faults channel rest := by
  induction msgs with
  | nil => rfl
  | cons msg msgs ih =>
    rw [List.forall_mem_cons] at h
    simp [faults, h.1, ih h.2]

theorem announced_sideFaults {channel : TtlLvdsChannel} {w : Board} :
    ∀ msg ∈ sideFaults pMonitorCfg channel w, announced msg = none := by
  intro msg hmsg
  simp only [sideFaults, List.mem_append, List.mem_map] at hmsg
  rcases hmsg with ⟨p, -, rfl⟩ | ⟨p, -, rfl⟩ <;> rfl

/-- The messages of a side, with what may be said after the checks. -/
theorem faults_side (pMonitorCfg : MonitorCfg) (channel : TtlLvdsChannel) (w : Board)
    (before : Option TtlLvdsChannel) (tail : List PcMsg) (rest : List (Int × PcMsg))
    (htail : ∀ msg ∈ tail, msg = .failed channel ∨ msg = .line) :
    faults before ((0, .testing channel) ::
      ((sideFaults pMonitorCfg channel w).map (fun msg => (notifyErrorOpenShortCheck, msg)) ++
        (tail.map (fun msg => (0, msg)) ++ rest))) =
      (sideFaults pMonitorCfg channel w).map (fun msg => (some channel, msg)) ++
        faults (some channel) rest := by
  -- none of a side's faults announces another side
  simp only [faults, announced, faults_append announced_sideFaults, List.append_cancel_left_eq]
  induction tail with
  | nil => rfl
  | cons msg tail ih =>
    rw [List.forall_mem_cons] at htail
    rcases htail.1 with rfl | rfl <;> exact ih htail.2

/-- All pins of a side are read once, and each bad one is reported. -/
theorem run_testPins (channel : TtlLvdsChannel) (w : Board) :
    ∃ es, testPins pMonitorCfg channel w =
        .ok ((List.range maxOpenShortPinNums).zipIdx.countP
          fun p => Outside pMonitorCfg (w.reply (1 + p.2)) : Nat) (w.after 29 es) ∧
      es.filterMap toPc = (List.range maxOpenShortPinNums).zipIdx.map fun p =>
        (notifyErrorOpenShortCheck, .pin p.1 (pinStatu pMonitorCfg (w.reply (1 + p.2)))) := by
  obtain ⟨es, hrun, hes⟩ := run_checkAll (@checkPin_oneReading pMonitorCfg channel)
    (List.range maxOpenShortPinNums) 0 (w.after 1 [.sp6SetOpenShortData channel 0, .msleep 100,
      .mcuReadOpenShortData channel (w.reply 0)])
  unfold testPins
  simp only [run_bind, run_sp6SetOpenShortData, run_msleep, run_mcuReadOpenShortData,
    World.after_after, List.cons_append, List.nil_append, World.after_reply, hrun, run_pure,
    Int.zero_add]
  refine ⟨_, rfl, ?_⟩
  -- the reading made before the pins are driven is thrown away
  simp only [World.after_reply] at hes
  simp [List.filterMap_cons, toPc, hes]

/-- So are its five lines. -/
theorem run_testGpios (channel : TtlLvdsChannel) (checkRet : Int) (w : Board) :
    ∃ es, testGpios pMonitorCfg channel checkRet w =
        .ok (checkRet + ((gpios channel).zipIdx.countP
          fun p => Outside pMonitorCfg (w.reply (1 + p.2)) : Nat)) (w.after 6 es) ∧
      es.filterMap toPc = (gpios channel).zipIdx.map fun p =>
        (notifyErrorOpenShortCheck, .gpio p.1 (gpioStatu pMonitorCfg (w.reply (1 + p.2)))) := by
  -- what precedes the five checks tells the PC nothing
  obtain ⟨pre, hpre, hnone⟩ : ∃ pre, (∀ f : Int → Call Int,
      (do
        resetShortGpio channel
        msleep 100
        let _ ← mcuReadOpenShortData channel
        msleep 100
        f checkRet) w = f checkRet (w.after 1 pre)) ∧ pre.filterMap toPc = [] := by
    refine ⟨_, fun f => by simp [resetShortGpio, run_clearGpios]; rfl, ?_⟩
    cases channel <;> rfl
  obtain ⟨es, hrun, hes⟩ := run_checkAll
    (@checkGpioShort_oneReading pMonitorCfg channel) (gpios channel) checkRet
    (w.after 1 pre)
  -- each side has its own five GPIOs
  have hlen : (gpios channel).length = 5 := by cases channel <;> rfl
  refine ⟨pre ++ es, ?_, ?_⟩
  · unfold testGpios
    rw [hpre (checkAll (checkGpioShort pMonitorCfg channel) (gpios channel)), hrun, hlen]
    simp
  · rw [List.filterMap_append, hnone, hes]
    simp

/-- **One side**: the readings outside the limits are counted, and the PC is told
something of every reading. -/
theorem run_testSide (pMonitorCfg : MonitorCfg) (channel : TtlLvdsChannel) (w : Board) :
    ∃ es, testSide pMonitorCfg channel w =
        .ok (badReadings pMonitorCfg channel w) (w.after 35 es) ∧
      ∀ before rest, faults before (es.filterMap toPc ++ rest) =
        (sideFaults pMonitorCfg channel w).map (fun msg => (some channel, msg)) ++
          faults (some channel) rest := by
  obtain ⟨ps, hpins, hps⟩ := @run_testPins pMonitorCfg channel
    (w.after 0 [.clientNotifyMsg 0 (.testing channel)])
  obtain ⟨gs, hgpios, hgs⟩ := @run_testGpios pMonitorCfg channel
    ((List.range maxOpenShortPinNums).zipIdx.countP
      fun p => Outside pMonitorCfg (w.reply (1 + p.2)) : Nat)
    (w.after 29 (.clientNotifyMsg 0 (.testing channel) :: ps))
  simp only [World.after_reply, World.after_after, Nat.zero_add, List.cons_append,
    List.nil_append, ← Nat.add_assoc, Nat.reduceAdd] at hpins hps hgpios hgs
  -- the messages of the checks are the faults of the side
  have htold : ps.filterMap toPc ++ gs.filterMap toPc =
      (sideFaults pMonitorCfg channel w).map fun msg => (notifyErrorOpenShortCheck, msg) := by
    simp only [sideFaults, List.map_append, List.map_map, hps, hgs]
    rfl
  unfold testSide notifyFailed
  simp only [run_bind, run_clientNotifyMsg, hpins, hgpios, run_ite, run_pure, World.after_after]
  -- a bad side has one message more, which is no fault
  split_ifs with hbad
  · refine ⟨_, by simp [badReadings]; rfl, ?_⟩
    intro before rest
    have := faults_side pMonitorCfg channel w before [.failed channel, .line] rest (by simp)
    rw [← htold] at this
    simpa [List.filterMap_cons, toPc] using this
  · refine ⟨_, by simp [badReadings]; rfl, ?_⟩
    intro before rest
    have := faults_side pMonitorCfg channel w before [.line] rest (by simp)
    rw [← htold] at this
    simpa [List.filterMap_cons, toPc] using this

/-! ## The readings of a side -/

section Side

variable {w : Board} {channel : TtlLvdsChannel} {es : List Event}

/-- Five pins on a side. -/
theorem gpios_length (channel : TtlLvdsChannel) : (gpios channel).length = 5 := by
  cases channel <;> rfl

/-- No reading is bad exactly where the side is clean. -/
theorem badReadings_eq_zero_iff :
    badReadings pMonitorCfg channel (w.after (firstReading channel) es) = 0 ↔
      Clean pMonitorCfg w channel := by
  unfold badReadings Clean pinReading gpioReading
  -- the counts run over positions; a position is the pin, or an index into the GPIOs
  simp only [World.after_reply, Nat.add_eq_zero_iff, List.countP_eq_zero, decide_eq_true_eq,
    Prod.forall, List.mk_mem_zipIdx_iff_getElem?]
  constructor
  · rintro ⟨hpins, hgpios⟩
    refine ⟨fun i hi => hpins i i (by simp [hi]), ?_⟩
    intro k hk
    have hk' : k < (gpios channel).length := by rwa [gpios_length]
    exact hgpios _ k (List.getElem?_eq_getElem hk')
  · rintro ⟨hpins, hgpios⟩
    constructor
    · intro a i ha
      obtain ⟨hi, -⟩ := List.getElem?_eq_some_iff.mp ha
      exact hpins i (by simpa using hi)
    · intro a k ha
      obtain ⟨hk, -⟩ := List.getElem?_eq_some_iff.mp ha
      exact hgpios k (by rwa [gpios_length] at hk)

theorem pin_mem_sideFaults {i : Nat} (hi : i < maxOpenShortPinNums) {status : PinStatu} :
    .pin i status ∈ sideFaults pMonitorCfg channel (w.after (firstReading channel) es) ↔
      pinStatu pMonitorCfg (pinReading w channel i) = status := by
  unfold sideFaults pinReading
  simp only [World.after_reply, List.mem_append, List.mem_map, Prod.exists,
    List.mk_mem_zipIdx_iff_getElem?, reduceCtorEq, and_false, exists_false, or_false,
    PcMsg.pin.injEq]
  constructor
  · rintro ⟨a, k, hk, rfl, hstatus⟩
    obtain ⟨-, rfl⟩ := List.getElem?_eq_some_iff.mp hk
    simpa using hstatus
  · intro hstatus
    exact ⟨i, i, by simp [hi], rfl, hstatus⟩

theorem gpio_mem_sideFaults {k gpio : Nat} (hk : (gpios channel)[k]? = some gpio)
    {status : PinStatu} :
    .gpio gpio status ∈ sideFaults pMonitorCfg channel (w.after (firstReading channel) es) ↔
      gpioStatu pMonitorCfg (gpioReading w channel k) = status := by
  have hnodup : (gpios channel).Nodup := by cases channel <;> decide
  unfold sideFaults gpioReading
  simp only [World.after_reply, List.mem_append, List.mem_map, Prod.exists,
    List.mk_mem_zipIdx_iff_getElem?, reduceCtorEq, and_false, exists_false, false_or,
    PcMsg.gpio.injEq]
  constructor
  · rintro ⟨a, k', hk', rfl, hstatus⟩
    -- the GPIOs of a side are different ones
    obtain ⟨hlt, -⟩ := List.getElem?_eq_some_iff.mp hk
    obtain rfl := (List.getElem?_inj hlt hnodup).mp (hk.trans hk'.symm)
    exact hstatus
  · intro hstatus
    exact ⟨gpio, k, hk, rfl, hstatus⟩

end Side

section Statu

variable {value : BitVec 16}

theorem Shorted.not_opened (h : Shorted pMonitorCfg value)
    (hlimits : pMonitorCfg.openShortCheckOpenValue ≤ pMonitorCfg.openShortCheckShortValue) :
    ¬ Opened pMonitorCfg value := by
  unfold Opened Shorted at *
  have : (pMonitorCfg.openShortCheckOpenValue : ℚ) ≤ pMonitorCfg.openShortCheckShortValue := by
    exact_mod_cast hlimits
  exact not_lt.mpr (this.trans h.le)

theorem pinStatu_opened_iff : pinStatu pMonitorCfg value = .opened ↔ Opened pMonitorCfg value := by
  unfold pinStatu
  split_ifs <;> simp_all

theorem pinStatu_shorted_iff
    (hlimits : pMonitorCfg.openShortCheckOpenValue ≤ pMonitorCfg.openShortCheckShortValue) :
    pinStatu pMonitorCfg value = .shorted ↔ Shorted pMonitorCfg value := by
  unfold pinStatu
  split_ifs with hopen hshort
  · simpa using fun hshort => Shorted.not_opened hshort hlimits hopen
  · simpa using hshort
  · simpa using hshort

theorem gpioStatu_opened_iff : gpioStatu pMonitorCfg value = .opened ↔ Opened pMonitorCfg value := by
  unfold gpioStatu
  split_ifs <;> simp_all

theorem gpioStatu_shorted_iff :
    gpioStatu pMonitorCfg value = .shorted ↔ ¬ Opened pMonitorCfg value := by
  unfold gpioStatu
  split_ifs <;> simp_all

end Statu

/-! ## The whole test -/

/-- The result and what is told, by side. -/
theorem run_openShortTestSingalAndIo (pMonitorCfg : MonitorCfg) (w : Board) :
    ∃ val w', openShortTestSingalAndIo pMonitorCfg w = .ok val w' ∧
      ResultSound pMonitorCfg w val ∧
      ∀ channel msg, (some channel, msg) ∈ told w w' ↔
        msg ∈ sideFaults pMonitorCfg channel (w.after (firstReading channel) []) := by
  obtain ⟨ls, hleft, hls⟩ := run_testSide pMonitorCfg .left
    (w.after 0 [.sp6EntryOpenShortMode, .sp6OpenTtlSignal, .msleep 100])
  obtain ⟨rs, hright, hrs⟩ := run_testSide pMonitorCfg .right
    (w.after 35 (.sp6EntryOpenShortMode :: .sp6OpenTtlSignal :: .msleep 100 :: ls))
  -- a side's count is 0 exactly if all its readings are in the window
  have hcleanL : ((badReadings pMonitorCfg .left
      (w.after 0 [.sp6EntryOpenShortMode, .sp6OpenTtlSignal, .msleep 100]) : Nat) : Int) = 0 ↔
        Clean pMonitorCfg w .left :=
    Int.natCast_eq_zero.trans badReadings_eq_zero_iff
  have hcleanR : ((badReadings pMonitorCfg .right
      (w.after 35 (.sp6EntryOpenShortMode :: .sp6OpenTtlSignal :: .msleep 100 :: ls)) : Nat) :
        Int) = 0 ↔ Clean pMonitorCfg w .right :=
    Int.natCast_eq_zero.trans badReadings_eq_zero_iff
  unfold openShortTestSingalAndIo
  simp only [run_bind, run_emit, run_msleep, World.after_after, List.cons_append, List.nil_append,
    hleft, Nat.zero_add, hright, hcleanL, hcleanR, run_ite, run_pure]
  refine ⟨if Clean pMonitorCfg w .left ∧ Clean pMonitorCfg w .right then pwrChannelVal .all
    else if Clean pMonitorCfg w .left then pwrChannelVal .left
    else if Clean pMonitorCfg w .right then pwrChannelVal .right else -1, _,
    by split_ifs <;> rfl, ?_, ?_⟩
  · -- by which of the two sides are clean
    unfold ResultSound
    by_cases hl : Clean pMonitorCfg w .left <;> by_cases hr : Clean pMonitorCfg w .right <;>
      simp [hl, hr, pwrChannelVal]
  · intro channel msg
    rw [told, World.after_log, List.drop_left]
    simp only [List.filterMap_cons, List.filterMap_append, List.filterMap_nil, List.append_assoc,
      toPc, hls, hrs]
    -- the left side's messages come first, so the right ones are told under its own heading
    cases channel with
    | left =>
      simp [faults]
      rfl
    | right =>
      simp [faults]
      rfl

theorem GateSound.outside {w : Board} (h : GateSound pMonitorCfg w) (channel : TtlLvdsChannel)
    {k : Nat} (hk : k < 5) : Outside pMonitorCfg (gpioReading w channel k) := by
  obtain ⟨val, w', hrun, -, htold⟩ := run_openShortTestSingalAndIo pMonitorCfg w
  obtain ⟨val', w'', hrun', -, -, hgpios⟩ := h
  obtain ⟨rfl, rfl⟩ := EStateM.Result.ok.inj (hrun.symm.trans hrun')
  obtain ⟨gpio, hgpio⟩ : ∃ gpio, (gpios channel)[k]? = some gpio :=
    ⟨_, List.getElem?_eq_getElem (by rwa [gpios_length])⟩
  -- every GPIO is told to be opened or shorted, and a sound report means it is one of them
  have hshort := (hgpios channel k gpio hgpio).2
  rw [htold, gpio_mem_sideFaults hgpio, gpioStatu_shorted_iff] at hshort
  by_cases hopen : Opened pMonitorCfg (gpioReading w channel k)
  · exact .inl hopen
  · exact .inr (hshort.mp hopen)

/-- For every reading the test returns the clean sides and tells of the pins what they read. -/
theorem exists_run_pinsSound (pMonitorCfg : MonitorCfg) (w : Board)
    (hlimits : pMonitorCfg.openShortCheckOpenValue ≤ pMonitorCfg.openShortCheckShortValue) :
    ∃ val w', openShortTestSingalAndIo pMonitorCfg w = .ok val w' ∧
      ResultSound pMonitorCfg w val ∧ PinsSound pMonitorCfg w w' := by
  obtain ⟨val, w', hrun, hresult, htold⟩ := run_openShortTestSingalAndIo pMonitorCfg w
  refine ⟨val, w', hrun, hresult, ?_⟩
  intro channel i hi
  rw [htold, htold, pin_mem_sideFaults hi, pin_mem_sideFaults hi]
  exact ⟨pinStatu_opened_iff, pinStatu_shorted_iff hlimits⟩

/-- **The open/short gate**: with limits in order, the test returns the clean sides and
reports every pin for what it reads, whatever the readings are; and it reports every GPIO for
what it reads exactly when every GPIO of both sides reads outside the limits. -/
theorem gate_iff (pMonitorCfg : MonitorCfg) (w : Board)
    (hlimits : pMonitorCfg.openShortCheckOpenValue ≤ pMonitorCfg.openShortCheckShortValue) :
    (∃ val w', openShortTestSingalAndIo pMonitorCfg w = .ok val w' ∧
      ResultSound pMonitorCfg w val ∧ PinsSound pMonitorCfg w w') ∧
    (GateSound pMonitorCfg w ↔
      ∀ channel k, k < 5 → Outside pMonitorCfg (gpioReading w channel k)) := by
  have hpins := exists_run_pinsSound pMonitorCfg w hlimits
  refine ⟨hpins, fun h channel k hk => h.outside channel hk, fun houtside => ?_⟩
  obtain ⟨val, w', hrun, hresult, htold⟩ := run_openShortTestSingalAndIo pMonitorCfg w
  obtain ⟨val', w'', hrun', -, hpins⟩ := hpins
  obtain ⟨rfl, rfl⟩ := EStateM.Result.ok.inj (hrun.symm.trans hrun')
  refine ⟨val, w', hrun, hresult, hpins, ?_⟩
  intro channel k gpio hgpio
  rw [htold, htold, gpio_mem_sideFaults hgpio, gpio_mem_sideFaults hgpio]
  -- what is not open is told to be shorted, so it must be
  refine ⟨gpioStatu_opened_iff, gpioStatu_shorted_iff.trans ⟨?_, fun h => h.not_opened hlimits⟩⟩
  obtain ⟨hk, -⟩ := List.getElem?_eq_some_iff.mp hgpio
  rw [gpios_length] at hk
  exact (houtside channel k hk).resolve_left

/-- Limits of 5 and 100. -/
def limits : MonitorCfg where
  ntcEnable := 0
  openShortEnable := 1
  openShortCheckOpenValue := 5
  openShortCheckShortValue := 100

/-- A panel with these readings. -/
def panel (answers : Nat → BitVec 16) : Board where
  answers := answers
  asked := 0
  log := []
  mem :=
    { setup := ⟨4, limits, 0, 0, fun _ => true⟩
      pgPwrStatus := 0
      pgCurPtnId := 0
      bPwrUpdatePaused := true
      bNtcCheckPaused := true
      boxCurState := ⟨1, 0, 2, "", 0⟩
      sBoxPowerOnStatus := some 0
      mCurrentModuleFilename := "" }

/-- A panel where every reading is the same. -/
def flatPanel (value : BitVec 16) : Board := panel fun _ => value

/-- A panel with 50 everywhere on the left, of which nothing is connected on the right. -/
def halfPanel : Board := panel fun n => if n < 35 then 500 else 0

/-- One side of it is clean, the other is not. -/
theorem clean_halfPanel : Clean limits halfPanel .left ∧ ¬ Clean limits halfPanel .right := by
  -- 500 lies between the limits, 0 below them
  have hfine : ¬ Outside limits 500 := by
    have hnat : (500 : BitVec 16).toNat = 500 := rfl
    simp only [Outside, Opened, Shorted, shortValue, limits, hnat]
    norm_num
  have hopen : Outside limits 0 := .inl (by simp [Opened, shortValue, limits])
  refine ⟨⟨fun i hi => ?_, fun k hk => ?_⟩, fun h => h.1 0 (by decide) ?_⟩
  · have hi : i < 28 := hi
    have hread : pinReading halfPanel .left i = 500 := by
      simp [pinReading, firstReading, halfPanel, panel, World.reply]
      omega
    rwa [hread]
  · have hread : gpioReading halfPanel .left k = 500 := by
      simp [gpioReading, firstReading, halfPanel, panel, World.reply]
      omega
    rwa [hread]
  · have hread : pinReading halfPanel .right 0 = 0 := rfl
    rwa [hread]

/-- Of a panel whose left side alone is clean the left side may be powered, and every pin is told
as it reads; but its good GPIOs are told to be shorted. Where nothing is connected at all every
line reads open, and that is told. -/
theorem gate_halves :
    (∃ w', openShortTestSingalAndIo limits halfPanel = .ok (pwrChannelVal .left) w' ∧
      PinsSound limits halfPanel w') ∧
    ¬ GateSound limits halfPanel ∧ GateSound limits (flatPanel 0) := by
  refine ⟨?_, fun h => ?_, ?_⟩
  · obtain ⟨val, w', hrun, hresult, hpins⟩ := (gate_iff limits halfPanel (by decide)).1
    obtain rfl := hresult.2.1.mpr clean_halfPanel
    exact ⟨w', hrun, hpins⟩
  · exact clean_halfPanel.1.2 0 (by decide)
      ((gate_iff limits halfPanel (by decide)).2.mp h .left 0 (by decide))
  · refine (gate_iff limits (flatPanel 0) (by decide)).2.mpr fun channel k hk => ?_
    exact .inl (by simp [Opened, shortValue, limits, gpioReading, flatPanel, panel, World.reply])

/-- A panel without a fault: 50 everywhere. The GPIOs are reported shorted. -/
theorem faultless_not_gateSound : ¬ GateSound limits (flatPanel 500) := by
  intro h
  have houtside := h.outside .left (show 0 < 5 by decide)
  revert houtside
  simp [Outside, Opened, Shorted, shortValue, limits, gpioReading, flatPanel, panel, World.reply]
  norm_num

end PgClient.OpenShort
