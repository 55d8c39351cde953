import PgClient.Gpio.Pins
import PgClient.Lib.TwoWire

/-!
# The bit-banged I2C

`virtualI2cCtrl.cpp`, on its three pins: the clock, the data, and the direction of the data
line's driver. The pauses are left out. `hi_unf_i2c.c` gives each controller its own three pins.

A slave is connected. It pulls the data line low, or leaves it alone, from one falling edge of the
clock to the next one. The data line is pulled up.

* `start_high`, `start_low`, `exchange_high`, `exchange_low`, `rcv_spec`, `stop_spec` — what the
  steps of a transaction say on the bus.
-/

namespace PgClient.I2c

open Function (update)
open Gpio TwoWire

/-! ## The pins -/

/-- `LCM1_I2C_SDA` and the others of a controller. -/
inductive I2cPin
  | sda
  | sck
  | sdaDir
  deriving DecidableEq

abbrev Pins := I2cPin → Pin

/-- What is on the other side of the pins. -/
structure Bus where
  /-- The falling edges of the clock. -/
  falls : Nat
  watcher : Watcher

abbrev Board := Gpio.Board I2cPin Bus

/-- What the slave does after so many falling edges; `false` is a line that is pulled low. -/
abbrev Slave := Nat → Bool

/-- The level that the data line would have without the slave. -/
def masterLevel (p : Pins) : Bool := if (p .sdaDir).level then (p .sda).level else true

def levels (slave : Slave) (falls : Nat) (p : Pins) : Levels :=
  ⟨masterLevel p && slave falls, (p .sck).level⟩

/-- The pins before and after an access. At a falling edge of the clock the slave goes on. -/
def observe (slave : Slave) (p p' : Pins) (s : Bus) : Bus :=
  let watcher := s.watcher.feed (levels slave s.falls p')
  if (p .sck).level && !(p' .sck).level then
    ⟨s.falls + 1, watcher.feed (levels slave (s.falls + 1) p')⟩
  else ⟨s.falls, watcher⟩

/-! ## The code -/

variable (slave : Slave)

/-- `HI_UNF_GPIO_ReadBit` of the data pin: its own level if it is driven; that of the line, unless
the driver is an output. -/
def readBit (b : Board) : Bool :=
  if (b.pins .sda).dir && (b.pins .sda).enabled then (b.pins .sda).value
  else if (b.pins .sdaDir).level then true
  else slave b.side.falls

/-- `_writeOneBit`. -/
abbrev writeBit (pin : I2cPin) (value : Bool) : Board → Board :=
  writeOneBit (observe slave) pin value

/-- `_readOneBit` of the data pin. -/
def readOneBit (b : Board) : Bool × Board :=
  let b := setDirBit (observe slave) .sda true b
  (readBit slave b, b)

/-- `virtualI2cCtrlGpioInit`, as `virtualI2cCtrlSetGpio` calls it. -/
def virtualI2cCtrlGpioInit (b : Board) : Board :=
  let b := setDirBit (observe slave) .sda false b
  let b := setDirBit (observe slave) .sck false b
  let b := setDirBit (observe slave) .sdaDir false b
  let b := writeBit slave .sck true b
  writeBit slave .sda false b

def virtualI2cCtrlStart (b : Board) : Board :=
  let b := writeBit slave .sdaDir true b
  let b := writeBit slave .sck true b
  let b := writeBit slave .sda true b
  writeBit slave .sda false b

/-- One turn of `virtualI2cCtrlSend`. -/
def sendTurn (value : BitVec 8) (b : Board) (i : Nat) : Board :=
  let b := writeBit slave .sck false b
  let b := writeBit slave .sda (value.getLsbD (8 - i - 1)) b
  let b := writeBit slave .sck true b
  writeBit slave .sck false b

def virtualI2cCtrlSend (value : BitVec 8) (b : Board) : Board :=
  (List.range 8).foldl (sendTurn slave value) (writeBit slave .sdaDir true b)

/-- One turn of `virtualI2cCtrlRcv`. -/
def rcvTurn (r : BitVec 8 × Board) (i : Nat) : BitVec 8 × Board :=
  let b := writeBit slave .sck false r.2
  let b := writeBit slave .sck true b
  let (bit, b) := readOneBit slave b
  (r.1 ||| (BitVec.ofBool bit).setWidth 8 <<< (8 - i - 1), writeBit slave .sck false b)

def virtualI2cCtrlRcv (b : Board) : BitVec 8 × Board :=
  (List.range 8).foldl (rcvTurn slave) (0, writeBit slave .sdaDir false b)

def virtualI2cCtrlStop (b : Board) : Board :=
  let b := writeBit slave .sdaDir true b
  let b := writeBit slave .sda false b
  let b := writeBit slave .sck true b
  writeBit slave .sda true b

def virtualI2cWaitAck (b : Board) : Bool × Board :=
  let b := writeBit slave .sdaDir false b
  let b := writeBit slave .sck true b
  let (ack, b) := readOneBit slave b
  -- `I2C_ACK` is 0
  (ack == false, writeBit slave .sck false b)

/-- `I2C_WRITE_MODE` and `I2C_READ_MDOE`. -/
inductive Mode
  | write
  | read

def Mode.value : Mode → BitVec 32
  | .write => 0
  | .read => 1

/-- The slave address and the RW bit. -/
def msbData (slaveAddr : BitVec 8) (mode : Mode) : BitVec 8 :=
  (((slaveAddr.setWidth 32 <<< 1) &&& 0xff) ||| mode.value).setWidth 8

/-- The steps of `virtualI2cCtrlWrite` up to the one that breaks off. -/
def writeSteps (slaveAddr regAddr value : BitVec 8) (b : Board) : Int × Board :=
  let b := virtualI2cCtrlStart slave b
  let b := virtualI2cCtrlSend slave (msbData slaveAddr .write) b
  match virtualI2cWaitAck slave b with
  | (false, b) => (-1, b)
  | (true, b) =>
    let b := virtualI2cCtrlSend slave regAddr b
    match virtualI2cWaitAck slave b with
    | (false, b) => (-1, b)
    | (true, b) =>
      let b := virtualI2cCtrlSend slave value b
      match virtualI2cWaitAck slave b with
      | (false, b) => (-1, b)
      | (true, b) => (0, b)

def virtualI2cCtrlWrite (slaveAddr regAddr value : BitVec 8) (b : Board) : Int × Board :=
  let r := writeSteps slave slaveAddr regAddr value b
  (r.1, virtualI2cCtrlStop slave r.2)

/-- The steps of `virtualI2cCtrlRead` up to the one that breaks off, with what is in `*pValue`;
it may be NULL. -/
def readSteps (slaveAddr regAddr : BitVec 8) (pValue : Option (BitVec 8)) (b : Board) :
    Int × Option (BitVec 8) × Board :=
  match pValue with
  | none => (-1, none, b)
  | some old =>
    let b := virtualI2cCtrlStart slave b
    let b := virtualI2cCtrlSend slave (msbData slaveAddr .write) b
    match virtualI2cWaitAck slave b with
    | (false, b) => (-1, some old, b)
    | (true, b) =>
      let b := virtualI2cCtrlSend slave regAddr b
      match virtualI2cWaitAck slave b with
      | (false, b) => (-1, some old, b)
      | (true, b) =>
        let b := virtualI2cCtrlStart slave b
        let b := virtualI2cCtrlSend slave (msbData slaveAddr .read) b
        match virtualI2cWaitAck slave b with
        | (false, b) => (-1, some old, b)
        | (true, b) =>
          let (value, b) := virtualI2cCtrlRcv slave b
          match virtualI2cWaitAck slave b with
          | (true, b) => (-1, some value, b)
          | (false, b) => (0, some value, b)

def virtualI2cCtrlRead (slaveAddr regAddr : BitVec 8) (pValue : Option (BitVec 8)) (b : Board) :
    Int × Option (BitVec 8) × Board :=
  let r := readSteps slave slaveAddr regAddr pValue b
  (r.1, r.2.1, virtualI2cCtrlStop slave r.2.2)

/-! ## Between two accesses -/

section Accesses

variable (sda dir : Pin) (clk : Bool) (n : Nat) (p : Option Bool) (s : List Symbol) (v : Bool)

/-- The pins, with a clock that is an output. -/
def pinsOf : Pins
  | .sda => sda
  | .sck => ⟨true, true, clk⟩
  | .sdaDir => dir

@[simp] theorem update_pinsOf_sda (x : Pin) :
    update (pinsOf sda dir clk) .sda x = pinsOf x dir clk := by
  funext pin
  cases pin <;> rfl

@[simp] theorem update_pinsOf_sdaDir (x : Pin) :
    update (pinsOf sda dir clk) .sdaDir x = pinsOf sda x clk := by
  funext pin
  cases pin <;> rfl

@[simp] theorem update_pinsOf_sck :
    update (pinsOf sda dir clk) .sck ⟨true, true, v⟩ = pinsOf sda dir v := by
  funext pin
  cases pin <;> rfl

/-- The board between two accesses: the watcher has seen the levels of the lines. -/
def boardOf : Board :=
  ⟨pinsOf sda dir clk, n, ⟨levels slave n (pinsOf sda dir clk), p, s⟩⟩

/-- While the clock is low, an access to another pin says nothing. -/
theorem access_sda_low (f : Pin → Pin) :
    access (observe slave) .sda f (boardOf slave sda dir false n p s) =
      boardOf slave (f sda) dir false n p s := by
  simp [access, boardOf, observe, levels, pinsOf]

/-- The direction pin is not on the bus: with the clock low a change of it is not seen. -/
theorem access_sdaDir_low (f : Pin → Pin) :
    access (observe slave) .sdaDir f (boardOf slave sda dir false n p s) =
      boardOf slave sda (f dir) false n p s := by
  simp [access, boardOf, observe, levels, pinsOf]

/-- With the clock low the data line may change. -/
theorem writeBit_sda_low :
    writeBit slave .sda v (boardOf slave sda dir false n p s) =
      boardOf slave ⟨true, true, v⟩ dir false n p s := by
  simp only [writeOneBit, Gpio.writeBit, enable, setDirBit, access_sda_low, Bool.not_false]

theorem writeBit_sdaDir_low :
    writeBit slave .sdaDir v (boardOf slave sda dir false n p s) =
      boardOf slave sda ⟨true, true, v⟩ false n p s := by
  simp only [writeOneBit, Gpio.writeBit, enable, setDirBit, access_sdaDir_low, Bool.not_false]

/-- At the rising edge the data line is taken. -/
theorem writeBit_sck_rise :
    writeBit slave .sck true (boardOf slave sda dir false n p s) =
      boardOf slave sda dir true n (some (masterLevel (pinsOf sda dir true) && slave n)) s := by
  simp [writeOneBit, Gpio.writeBit, enable, setDirBit, access, boardOf, observe, levels, pinsOf]

/-- A falling clock ends the bit that was sampled. -/
theorem writeBit_sck_fall :
    writeBit slave .sck false (boardOf slave sda dir true n p s) =
      boardOf slave sda dir false (n + 1) none (s ++ p.toList.map .bit) := by
  simp [writeOneBit, Gpio.writeBit, enable, setDirBit, access, boardOf, observe, levels, pinsOf]

/-- A write of the level the clock has is not seen. -/
theorem writeBit_sck_same :
    writeBit slave .sck clk (boardOf slave sda dir clk n p s) =
      boardOf slave sda dir clk n p s := by
  simp [writeOneBit, Gpio.writeBit, enable, setDirBit, access, boardOf, observe, levels, pinsOf]

end Accesses

/-! ## The steps of a transaction -/

section Steps

variable {slave : Slave} (sda dir : Pin) (n : Nat) (s : List Symbol)

/-- A pin that is driven. -/
def driven (v : Bool) : Pin := ⟨true, true, v⟩

/-- The symbols of a start. A data pin that drives an old 0, while the clock is high, says a start
and a stop before it. -/
def starts (latch : Bool) : List Symbol := if latch then [.start] else [.start, .stop, .start]

/-- The bits of a byte that is sent, with one falling edge for each. -/
theorem foldl_sendTurn (value : BitVec 8) (k : Nat) (hfree : ∀ i < k, slave (n + i) = true) :
    (List.range k).foldl (sendTurn slave value) (boardOf slave sda (driven true) false n none s) =
      boardOf slave (if k = 0 then sda else driven (value.getLsbD (8 - (k - 1) - 1)))
        (driven true) false (n + k) none
        (s ++ (List.range k).map fun i => .bit (value.getLsbD (8 - i - 1))) := by
  induction k with
  | zero => simp
  | succ k ih =>
    rw [List.range_succ, List.foldl_append, ih fun i hi => hfree i (by omega), List.foldl_cons,
      List.foldl_nil]
    simp only [sendTurn, writeBit_sck_same, writeBit_sda_low, writeBit_sck_rise,
      writeBit_sck_fall, hfree k (by omega)]
    simp [masterLevel, pinsOf, driven, Nat.add_assoc]

/-- **A byte is sent** after an acknowledge. -/
theorem send_low (value : BitVec 8) (hfree : ∀ i < 8, slave (n + i) = true) :
    virtualI2cCtrlSend slave value (boardOf slave sda dir false n none s) =
      boardOf slave (driven (value.getLsbD 0)) (driven true) false (n + 8) none
        (s ++ byte value) := by
  rw [virtualI2cCtrlSend, writeBit_sdaDir_low]
  exact foldl_sendTurn sda n s value 8 hfree

/-- A bit after a start begins with the clock high, and so with its fall. -/
theorem sendTurn_high (value : BitVec 8) (i : Nat) :
    sendTurn slave value (boardOf slave sda dir true n none s) i =
      sendTurn slave value (boardOf slave sda dir false (n + 1) none s) i := by
  simp [sendTurn, writeBit_sck_fall, writeBit_sck_same]

/-- The first byte is sent after a start, with one more falling edge. -/
theorem send_high (value : BitVec 8) (hfree : ∀ i < 8, slave (n + 1 + i) = true) :
    virtualI2cCtrlSend slave value (boardOf slave sda (driven true) true n none s) =
      boardOf slave (driven (value.getLsbD 0)) (driven true) false (n + 9) none
        (s ++ byte value) := by
  have hdir : writeBit slave .sdaDir true (boardOf slave sda (driven true) true n none s) =
      boardOf slave sda (driven true) true n none s := by
    simp [writeOneBit, Gpio.writeBit, enable, setDirBit, access, boardOf, observe, levels, pinsOf,
      driven]
  have hlow := send_low sda (driven true) (n + 1) s value hfree
  rw [virtualI2cCtrlSend, writeBit_sdaDir_low] at hlow
  rw [virtualI2cCtrlSend, hdir, List.range_succ_eq_map, List.foldl_cons, sendTurn_high]
  rw [List.range_succ_eq_map, List.foldl_cons] at hlow
  exact hlow

/-- The data line is released, and read: the level is the slave's. -/
theorem readOneBit_released (p : Option Bool) :
    readOneBit slave (boardOf slave sda (driven false) true n p s) =
      (slave n, boardOf slave ⟨false, sda.enabled, sda.value⟩ (driven false) true n p s) := by
  simp [readOneBit, readBit, setDirBit, access, boardOf, observe, levels, masterLevel, pinsOf,
    driven]

/-- **The acknowledge** is the slave's, and takes one clock. -/
theorem waitAck_spec :
    virtualI2cWaitAck slave (boardOf slave sda dir false n none s) =
      (!slave n, boardOf slave ⟨false, sda.enabled, sda.value⟩ (driven false) false (n + 1) none
        (s ++ [.bit (slave n)])) := by
  have hdriven : (⟨true, true, false⟩ : Pin) = driven false := rfl
  simp only [virtualI2cWaitAck, writeBit_sdaDir_low, writeBit_sck_rise, hdriven,
    readOneBit_released, writeBit_sck_fall]
  simp [masterLevel, pinsOf, driven]

/-- A byte, and the acknowledge of the slave after it. -/
theorem exchange_low (value : BitVec 8) (hfree : ∀ i < 8, slave (n + i) = true) :
    virtualI2cWaitAck slave (virtualI2cCtrlSend slave value
        (boardOf slave sda dir false n none s)) =
      (!slave (n + 8), boardOf slave ⟨false, true, value.getLsbD 0⟩ (driven false) false (n + 9) none
        (s ++ (byte value ++ [.bit (slave (n + 8))]))) := by
  rw [send_low _ _ _ _ _ hfree, waitAck_spec, List.append_assoc]
  rfl

/-- A byte and its acknowledge behind a start or a byte that was received. -/
theorem exchange_high (value : BitVec 8) (hfree : ∀ i < 8, slave (n + 1 + i) = true) :
    virtualI2cWaitAck slave (virtualI2cCtrlSend slave value
        (boardOf slave sda (driven true) true n none s)) =
      (!slave (n + 9), boardOf slave ⟨false, true, value.getLsbD 0⟩ (driven false) false (n + 10) none
        (s ++ (byte value ++ [.bit (slave (n + 9))]))) := by
  rw [send_high _ _ _ _ hfree, waitAck_spec, List.append_assoc]
  rfl

/-- The bits of a byte that is received, the most significant first. -/
theorem foldl_rcvTurn (k : Nat) (hk : k ≤ 8) :
    ∃ value sda', (List.range k).foldl (rcvTurn slave)
        (0, boardOf slave sda (driven false) false n none s) =
      (value, boardOf slave sda' (driven false) false (n + k) none
        (s ++ (List.range k).map fun i => .bit (slave (n + i)))) ∧
      ∀ j, value.getLsbD j = (decide (j < 8 ∧ 8 - 1 - j < k) && slave (n + (8 - 1 - j))) := by
  induction k with
  | zero => exact ⟨0, sda, by simp, by simp⟩
  | succ k ih =>
    obtain ⟨value, sda', hrun, hbits⟩ := ih (by omega)
    refine ⟨value ||| (BitVec.ofBool (slave (n + k))).setWidth 8 <<< (8 - k - 1),
      ⟨false, sda'.enabled, sda'.value⟩, ?_, ?_⟩
    · rw [List.range_succ, List.foldl_append, hrun, List.foldl_cons, List.foldl_nil]
      simp only [rcvTurn, writeBit_sck_same, writeBit_sck_rise, readOneBit_released,
        writeBit_sck_fall]
      simp [masterLevel, pinsOf, driven, Nat.add_assoc]
    · intro j
      rw [BitVec.getLsbD_or, hbits j, getLsbD_bit _ (by omega)]
      -- the bit of this turn is the one at `8 - k - 1`
      by_cases hj : j = 8 - k - 1
      · subst hj
        have hback : 8 - 1 - (8 - k - 1) = k := by omega
        simp [hback, show 8 - k - 1 < 8 by omega]
      · have hsame : (j < 8 ∧ 8 - 1 - j < k) ↔ (j < 8 ∧ 8 - 1 - j < k + 1) := by omega
        simp [hj, hsame]

/-- **A byte is received**: it is the one that the slave presents. -/
theorem rcv_spec (data : BitVec 8) (hdata : ∀ i < 8, slave (n + i) = data.getLsbD (8 - i - 1)) :
    ∃ sda', virtualI2cCtrlRcv slave (boardOf slave sda dir false n none s) =
      (data, boardOf slave sda' (driven false) false (n + 8) none (s ++ byte data)) := by
  obtain ⟨value, sda', hrun, hbits⟩ := @foldl_rcvTurn slave sda n s 8 le_rfl
  -- the value has the slave's bits, the highest first
  have hvalue : value = data := by
    apply BitVec.eq_of_getLsbD_eq
    intro j hj
    rw [hbits j, hdata _ (by omega)]
    simp [hj, show 8 - (8 - 1 - j) - 1 = j by omega, show 8 - 1 - j < 8 by omega]
  -- the bus carries the same bits
  have hsymbols : (List.range 8).map (fun i => Symbol.bit (slave (n + i))) = byte data := by
    apply List.map_congr_left
    intro i hi
    rw [hdata i (List.mem_range.mp hi)]
  refine ⟨sda', ?_⟩
  rw [virtualI2cCtrlRcv, writeBit_sdaDir_low, ← hsymbols, ← hvalue]
  exact hrun

/-- **Stop**. -/
theorem stop_spec (hfree : slave n = true) :
    virtualI2cCtrlStop slave (boardOf slave sda dir false n none s) =
      boardOf slave (driven true) (driven true) true n none (s ++ [.stop]) := by
  simp only [virtualI2cCtrlStop, writeBit_sdaDir_low, writeBit_sda_low, writeBit_sck_rise]
  simp [writeOneBit, Gpio.writeBit, enable, setDirBit, access, boardOf, observe, levels,
    masterLevel, pinsOf, driven, hfree]

/-- While the clock is high, a data pin that becomes an output drives its old value first. -/
theorem writeBit_sda_true (p : Option Bool) (hfree : slave n = true) (dirBit latch : Bool) :
    writeBit slave .sda true (boardOf slave ⟨dirBit, true, latch⟩ (driven true) true n p s) =
      boardOf slave (driven true) (driven true) true n (if latch then p else none)
        (s ++ if latch then [] else if dirBit then [.stop] else [.start, .stop]) := by
  cases dirBit <;> cases latch <;>
    simp [writeOneBit, Gpio.writeBit, enable, setDirBit, access, boardOf, observe, levels,
      masterLevel, pinsOf, driven, hfree]

/-- The data line goes down under a high clock: a start. -/
theorem writeBit_sda_false (p : Option Bool) (hfree : slave n = true) :
    writeBit slave .sda false (boardOf slave (driven true) (driven true) true n p s) =
      boardOf slave (driven false) (driven true) true n none (s ++ [.start]) := by
  simp [writeOneBit, Gpio.writeBit, enable, setDirBit, access, boardOf, observe, levels,
    masterLevel, pinsOf, driven, hfree]

/-- The driver says nothing as long as the data pin is high. -/
theorem writeBit_sdaDir_high (p : Option Bool) (h : sda.level = true) :
    writeBit slave .sdaDir true (boardOf slave sda dir true n p s) =
      boardOf slave sda (driven true) true n p s := by
  simp [writeOneBit, Gpio.writeBit, enable, setDirBit, access, boardOf, observe, levels,
    masterLevel, pinsOf, driven, h]

/-- A driver that is switched on says a start if the data pin is low. -/
theorem writeBit_sdaDir_start (hfree : slave n = true) :
    writeBit slave .sdaDir true
        (boardOf slave (driven false) (driven false) true n none s) =
      boardOf slave (driven false) (driven true) true n none (s ++ [.start]) := by
  simp [writeOneBit, Gpio.writeBit, enable, setDirBit, access, boardOf, observe, levels,
    masterLevel, pinsOf, driven, hfree]

/-- **A start in between**: the data pin was an input. -/
theorem start_low (hfree : slave n = true) (latch : Bool) :
    virtualI2cCtrlStart slave (boardOf slave ⟨false, true, latch⟩ dir false n none s) =
      boardOf slave (driven false) (driven true) true n none (s ++ starts latch) := by
  have hdriven : (⟨true, true, true⟩ : Pin) = driven true := rfl
  simp only [virtualI2cCtrlStart, writeBit_sdaDir_low, writeBit_sck_rise, hdriven,
    writeBit_sda_true _ _ _ hfree, writeBit_sda_false _ _ _ hfree]
  cases latch <;> simp [starts]

/-- **The first start**, on a bus where both lines are high. -/
theorem start_high (hfree : slave n = true) (henabled : sda.enabled = true)
    (hidle : masterLevel (pinsOf sda dir true) = true) :
    virtualI2cCtrlStart slave (boardOf slave sda dir true n none s) =
      boardOf slave (driven false) (driven true) true n none (s ++ starts sda.value) := by
  obtain ⟨dirBit, enabled, latch⟩ := sda
  obtain rfl : enabled = true := henabled
  by_cases hlevel : Pin.level ⟨dirBit, true, latch⟩ = true
  · rw [virtualI2cCtrlStart, writeBit_sdaDir_high _ _ _ _ _ hlevel, writeBit_sck_same,
      writeBit_sda_true _ _ _ hfree, writeBit_sda_false _ _ _ hfree]
    cases latch <;> cases dirBit <;> simp_all [starts]
  · -- the driver is off, and the data pin low
    obtain ⟨rfl, rfl⟩ : dirBit = true ∧ latch = false := by
      cases dirBit <;> cases latch <;> simp_all
    have hdir : dir = driven false := by
      obtain ⟨dirDir, dirEnabled, dirValue⟩ := dir
      revert hidle
      cases dirDir <;> cases dirEnabled <;> cases dirValue <;> decide
    subst hdir
    have hsecond : writeBit slave .sda true
        (boardOf slave (driven false) (driven true) true n none (s ++ [.start])) =
          boardOf slave (driven true) (driven true) true n none (s ++ [.start] ++ [.stop]) :=
      writeBit_sda_true n _ none hfree true false
    rw [show (⟨true, true, false⟩ : Pin) = driven false from rfl, virtualI2cCtrlStart,
      writeBit_sdaDir_start n s hfree, writeBit_sck_same, hsecond, writeBit_sda_false _ _ _ hfree]
    simp [starts, driven]

end Steps

end PgClient.I2c
