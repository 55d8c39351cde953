import PgClient.I2c.VirtualI2c

/-!
# I2C transactions

What `virtualI2cCtrlWrite` and `virtualI2cCtrlRead` say on the bus, against a slave that
acknowledges any of the bytes, and what they return.

* `write_spec`, `read_spec` — the symbols, the result and `*pValue`.
* `ready_reached` — the clock stays an output along all calls.
* `transacts_iff` — a transaction is the one of the bytes if and only if the output of the data pin
  is high before each start; otherwise a start and a stop come first.
-/

namespace PgClient.I2c

open Gpio TwoWire

/-! ## Transactions -/

/-- The acknowledges of a slave that is written to. -/
structure WriteAnswers where
  slaveAddr : Bool
  regAddr : Bool
  value : Bool

/-- It acknowledges after the eighth bit of a byte. -/
def WriteAnswers.slave (a : WriteAnswers) : Slave := fun n =>
  if n = 9 then !a.slaveAddr
  else if n = 18 then !a.regAddr
  else if n = 27 then !a.value
  else true

/-- The acknowledges of a slave that is read, and what it presents. -/
structure ReadAnswers where
  slaveAddr : Bool
  regAddr : Bool
  again : Bool
  data : BitVec 8
  /-- The data line in the clock after the data, which is for the controller to acknowledge in. -/
  last : Bool

def ReadAnswers.slave (a : ReadAnswers) : Slave := fun n =>
  if n = 9 then !a.slaveAddr
  else if n = 18 then !a.regAddr
  else if n = 28 then !a.again
  else if a.again ∧ 29 ≤ n ∧ n < 37 then a.data.getLsbD (36 - n)
  else if a.again ∧ n = 37 then a.last
  else true

/-- A byte and its acknowledge clock; what follows is cut off without an acknowledge. -/
def acknowledged (value : BitVec 8) (ack : Bool) (rest : List Symbol) : List Symbol :=
  byte value ++ [.bit !ack] ++ if ack then rest else []

/-- The slave address times 2, and the mode. -/
def addressed (slaveAddr : BitVec 8) (mode : Nat) : BitVec 8 :=
  BitVec.ofNat 8 (slaveAddr.toNat * 2 + mode)

/-- A write, after the symbols of its start. -/
def writeSymbols (first : List Symbol) (slaveAddr regAddr value : BitVec 8) (a : WriteAnswers) :
    List Symbol :=
  first ++ acknowledged (addressed slaveAddr 0) a.slaveAddr
    (acknowledged regAddr a.regAddr (acknowledged value a.value [])) ++ [.stop]

/-- A read, with the symbols of its two starts. -/
def readSymbols (first again : List Symbol) (slaveAddr regAddr : BitVec 8) (a : ReadAnswers) :
    List Symbol :=
  first ++ acknowledged (addressed slaveAddr 0) a.slaveAddr
    (acknowledged regAddr a.regAddr
      (again ++ acknowledged (addressed slaveAddr 1) a.again (byte a.data ++ [.bit a.last]))) ++
    [.stop]

/-- Both lines are high. -/
def Idle (p : Pins) : Prop := masterLevel p = true ∧ (p .sck).level = true

/-- A watcher that starts with these pins. -/
def watched (slave : Slave) (p : Pins) : Board := ⟨p, 0, ⟨levels slave 0 p, none, []⟩⟩

/-- A write does what it should. -/
structure Writes (p : Pins) (slaveAddr regAddr value : BitVec 8) (a : WriteAnswers) : Prop where
  symbols : (virtualI2cCtrlWrite a.slave slaveAddr regAddr value
    (watched a.slave p)).2.side.watcher.symbols = writeSymbols [.start] slaveAddr regAddr value a
  result : (virtualI2cCtrlWrite a.slave slaveAddr regAddr value (watched a.slave p)).1 = 0 ↔
    a.slaveAddr ∧ a.regAddr ∧ a.value
  idle : Idle (virtualI2cCtrlWrite a.slave slaveAddr regAddr value (watched a.slave p)).2.pins

/-- A read does what it should, whatever is in `*pValue` before. -/
structure Reads (p : Pins) (slaveAddr regAddr old : BitVec 8) (a : ReadAnswers) : Prop where
  symbols : (virtualI2cCtrlRead a.slave slaveAddr regAddr (some old)
    (watched a.slave p)).2.2.side.watcher.symbols =
      readSymbols [.start] [.start] slaveAddr regAddr a
  result : (virtualI2cCtrlRead a.slave slaveAddr regAddr (some old) (watched a.slave p)).1 = 0 ↔
    a.slaveAddr ∧ a.regAddr ∧ a.again ∧ a.last
  value : (virtualI2cCtrlRead a.slave slaveAddr regAddr (some old) (watched a.slave p)).1 = 0 →
    (virtualI2cCtrlRead a.slave slaveAddr regAddr (some old) (watched a.slave p)).2.1 = some a.data
  idle : Idle (virtualI2cCtrlRead a.slave slaveAddr regAddr (some old)
    (watched a.slave p)).2.2.pins

/-- The pins of a controller. -/
structure Ready (p : Pins) : Prop where
  sck : ∃ v, p .sck = ⟨true, true, v⟩
  sda : (p .sda).enabled = true

/-! ## The slave -/

/-- Between the acknowledges the slave leaves the line alone. -/
theorem WriteAnswers.slave_free (a : WriteAnswers) {n : Nat} (h9 : n ≠ 9) (h18 : n ≠ 18)
    (h27 : n ≠ 27) : a.slave n = true := by
  rw [WriteAnswers.slave, if_neg h9, if_neg h18, if_neg h27]

/-- So it does in a read, but for the data it was asked for. -/
theorem ReadAnswers.slave_free (a : ReadAnswers) {n : Nat} (h9 : n ≠ 9) (h18 : n ≠ 18)
    (h28 : n ≠ 28) (hdata : a.again = true → n < 29 ∨ 37 < n) : a.slave n = true := by
  rw [ReadAnswers.slave, if_neg h9, if_neg h18, if_neg h28, if_neg (by grind), if_neg (by grind)]

/-- The data goes out with the upper bit first. -/
theorem ReadAnswers.slave_data (a : ReadAnswers) (hagain : a.again = true) {i : Nat} (hi : i < 8) :
    a.slave (29 + i) = a.data.getLsbD (8 - i - 1) := by
  rw [ReadAnswers.slave, if_neg (by omega), if_neg (by omega), if_neg (by omega),
    if_pos (by grind), show 36 - (29 + i) = 8 - i - 1 by omega]

/-! ## What the transactions say -/

/-- The address byte of a write ends in 0. -/
theorem msbData_write (slaveAddr : BitVec 8) :
    msbData slaveAddr .write = addressed slaveAddr 0 := by
  have hmask : ∀ n : Nat, n &&& 255 = n % 256 := fun n => Nat.and_two_pow_sub_one_eq_mod n 8
  apply BitVec.eq_of_toNat_eq
  simp [msbData, addressed, Mode.value, Nat.shiftLeft_eq, hmask]

/-- That of a read ends in 1. -/
theorem msbData_read (slaveAddr : BitVec 8) :
    msbData slaveAddr .read = addressed slaveAddr 1 := by
  have hmask : ∀ n : Nat, n &&& 255 = n % 256 := fun n => Nat.and_two_pow_sub_one_eq_mod n 8
  -- the RW bit goes to a place that is free
  have hbit : ∀ n : Nat, n * 2 % 256 ||| 1 = (n * 2 + 1) % 256 := by
    intro n
    rw [show n * 2 % 256 = 2 ^ 1 * (n % 128) by omega,
      ← Nat.two_pow_add_eq_or_of_lt (by decide)]
    omega
  apply BitVec.eq_of_toNat_eq
  simp [msbData, addressed, Mode.value, Nat.shiftLeft_eq, hmask, hbit]

/-- A ready and idle bus as a board. -/
theorem watched_eq_boardOf {p : Pins} (hready : Ready p) (hidle : Idle p) (slave : Slave) :
    watched slave p = boardOf slave (p .sda) (p .sdaDir) true 0 none [] := by
  obtain ⟨v, hsck⟩ := hready.sck
  have hv : v = true := by simpa [hsck] using hidle.2
  have hpins : p = pinsOf (p .sda) (p .sdaDir) true := by
    funext pin
    cases pin <;> simp [pinsOf, hsck, hv]
  rw [watched, boardOf, ← hpins]

/-- The steps of a write end with the clock low. -/
theorem writeSteps_spec {p : Pins} (hready : Ready p) (hidle : Idle p)
    (slaveAddr regAddr value : BitVec 8) (a : WriteAnswers) :
    ∃ sda n, a.slave n = true ∧ writeSteps a.slave slaveAddr regAddr value (watched a.slave p) =
      (if a.slaveAddr ∧ a.regAddr ∧ a.value then 0 else -1,
        boardOf a.slave sda (driven false) false n none
          (starts (p .sda).value ++ acknowledged (addressed slaveAddr 0) a.slaveAddr
            (acknowledged regAddr a.regAddr (acknowledged value a.value [])))) := by
  have hmaster : masterLevel (pinsOf (p .sda) (p .sdaDir) true) = true := hidle.1
  have hfree : ∀ m, (m = 1 ∨ m = 10 ∨ m = 19) → ∀ i < 8, a.slave (m + i) = true :=
    fun m hm i hi => a.slave_free (by omega) (by omega) (by omega)
  -- the start condition and the slave's address
  rw [watched_eq_boardOf hready hidle, writeSteps, start_high _ _ _ _ rfl hready.sda hmaster,
    exchange_high _ _ _ _ (hfree 1 (by omega)), msbData_write,
    show a.slave (0 + 9) = !a.slaveAddr from rfl, List.nil_append]
  cases a₁ : a.slaveAddr with
  | false =>
    exact ⟨⟨false, true, (addressed slaveAddr 0).getLsbD 0⟩, 10,
      a.slave_free (by omega) (by omega) (by omega), by simp [acknowledged]⟩
  | true =>
    simp only [Bool.not_not]
    -- the register's address
    rw [exchange_low _ _ _ _ _ (hfree 10 (by omega)),
      show a.slave (0 + 10 + 8) = !a.regAddr from rfl]
    cases a₂ : a.regAddr with
    | false =>
      exact ⟨⟨false, true, regAddr.getLsbD 0⟩, 19,
        a.slave_free (by omega) (by omega) (by omega), by simp [acknowledged]⟩
    | true =>
      simp only [Bool.not_not]
      -- the value
      rw [exchange_low _ _ _ _ _ (hfree 19 (by omega)),
        show a.slave (0 + 10 + 9 + 8) = !a.value from rfl]
      cases a₃ : a.value with
      | false =>
        exact ⟨⟨false, true, value.getLsbD 0⟩, 28,
          a.slave_free (by omega) (by omega) (by omega), by simp [acknowledged]⟩
      | true =>
        exact ⟨⟨false, true, value.getLsbD 0⟩, 28,
          a.slave_free (by omega) (by omega) (by omega), by simp [acknowledged]⟩

/-- **What a write says**, and what it returns. -/
theorem write_spec {p : Pins} (hready : Ready p) (hidle : Idle p)
    (slaveAddr regAddr value : BitVec 8) (a : WriteAnswers) :
    ∃ n, virtualI2cCtrlWrite a.slave slaveAddr regAddr value (watched a.slave p) =
      (if a.slaveAddr ∧ a.regAddr ∧ a.value then 0 else -1,
        boardOf a.slave (driven true) (driven true) true n none
          (writeSymbols (starts (p .sda).value) slaveAddr regAddr value a)) := by
  obtain ⟨sda, n, hfree, hsteps⟩ := writeSteps_spec hready hidle slaveAddr regAddr value a
  exact ⟨n, by rw [virtualI2cCtrlWrite, hsteps, stop_spec _ _ _ _ hfree, writeSymbols]⟩

/-- The steps of a read end with the clock low. -/
theorem readSteps_spec {p : Pins} (hready : Ready p) (hidle : Idle p)
    (slaveAddr regAddr old : BitVec 8) (a : ReadAnswers) :
    ∃ sda n, a.slave n = true ∧
      readSteps a.slave slaveAddr regAddr (some old) (watched a.slave p) =
        (if a.slaveAddr ∧ a.regAddr ∧ a.again ∧ a.last then 0 else -1,
          some (if a.slaveAddr ∧ a.regAddr ∧ a.again then a.data else old),
          boardOf a.slave sda (driven false) false n none
            (starts (p .sda).value ++ acknowledged (addressed slaveAddr 0) a.slaveAddr
              (acknowledged regAddr a.regAddr
                (starts (regAddr.getLsbD 0) ++
                  acknowledged (addressed slaveAddr 1) a.again
                    (byte a.data ++ [.bit a.last]))))) := by
  have hmaster : masterLevel (pinsOf (p .sda) (p .sdaDir) true) = true := hidle.1
  have hfree : ∀ m, (m = 1 ∨ m = 10 ∨ m = 20) → ∀ i < 8, a.slave (m + i) = true :=
    fun m hm i hi => a.slave_free (by omega) (by omega) (by omega) (by omega)
  have hfirst : a.slave 0 = true :=
    a.slave_free (by omega) (by omega) (by omega) (by omega)
  -- the start condition and the slave's address
  rw [watched_eq_boardOf hready hidle, readSteps, start_high _ _ _ _ hfirst hready.sda hmaster,
    exchange_high _ _ _ _ (hfree 1 (by omega)), msbData_write,
    show a.slave (0 + 9) = !a.slaveAddr from rfl, List.nil_append]
  cases a₁ : a.slaveAddr with
  | false =>
    exact ⟨⟨false, true, (addressed slaveAddr 0).getLsbD 0⟩, 10,
      a.slave_free (by omega) (by omega) (by omega) (by omega), by simp [acknowledged]⟩
  | true =>
    simp only [Bool.not_not]
    -- the register's address
    rw [exchange_low _ _ _ _ _ (hfree 10 (by omega)),
      show a.slave (0 + 10 + 8) = !a.regAddr from rfl]
    cases a₂ : a.regAddr with
    | false =>
      exact ⟨⟨false, true, regAddr.getLsbD 0⟩, 19,
        a.slave_free (by omega) (by omega) (by omega) (by omega), by simp [acknowledged]⟩
    | true =>
      simp only [Bool.not_not]
      -- the start that is not one when the last bit was low, and the address to read from
      rw [start_low _ _ _ (a.slave_free (by omega) (by omega) (by omega) (by omega)),
        exchange_high _ _ _ _ (hfree 20 (by omega)), msbData_read,
        show a.slave (0 + 10 + 9 + 9) = !a.again from rfl]
      cases a₃ : a.again with
      | false =>
        exact ⟨⟨false, true, (addressed slaveAddr 1).getLsbD 0⟩, 29,
          a.slave_free (by omega) (by omega) (by omega) (by simp [a₃]), by simp [acknowledged]⟩
      | true =>
        simp only [Bool.not_not]
        -- the slave drives the data
        obtain ⟨sda', hrcv⟩ := rcv_spec ⟨false, true, (addressed slaveAddr 1).getLsbD 0⟩
          (driven false) (0 + 10 + 9 + 10) _ a.data fun i hi => a.slave_data a₃ hi
        rw [hrcv, waitAck_spec, show a.slave (0 + 10 + 9 + 10 + 8) = a.last by
          simp [ReadAnswers.slave, a₃]]
        cases a₄ : a.last with
        | false =>
          exact ⟨⟨false, sda'.enabled, sda'.value⟩, 38,
            a.slave_free (by omega) (by omega) (by omega) (by omega), by simp [acknowledged]⟩
        | true =>
          exact ⟨⟨false, sda'.enabled, sda'.value⟩, 38,
            a.slave_free (by omega) (by omega) (by omega) (by omega), by simp [acknowledged]⟩

/-- **What a read says**, what it returns, and what is in `*pValue` then. -/
theorem read_spec {p : Pins} (hready : Ready p) (hidle : Idle p)
    (slaveAddr regAddr old : BitVec 8) (a : ReadAnswers) :
    ∃ n, virtualI2cCtrlRead a.slave slaveAddr regAddr (some old) (watched a.slave p) =
      (if a.slaveAddr ∧ a.regAddr ∧ a.again ∧ a.last then 0 else -1,
        some (if a.slaveAddr ∧ a.regAddr ∧ a.again then a.data else old),
        boardOf a.slave (driven true) (driven true) true n none
          (readSymbols (starts (p .sda).value) (starts (regAddr.getLsbD 0)) slaveAddr regAddr a)) := by
  obtain ⟨sda, n, hfree, hsteps⟩ := readSteps_spec hready hidle slaveAddr regAddr old a
  exact ⟨n, by rw [virtualI2cCtrlRead, hsteps, stop_spec _ _ _ _ hfree, readSymbols]⟩

/-! ## Any calls -/

section Calls

variable {slave : Slave} {b b' : Board}

/-- A pin that is driven and enabled is ready. -/
theorem Ready.update {p : Pins} (h : Ready p) (pin : I2cPin) (v : Bool) :
    Ready (Function.update p pin ⟨true, true, v⟩) := by
  obtain ⟨u, hsck⟩ := h.sck
  cases pin with
  | sda => exact ⟨⟨u, hsck⟩, rfl⟩
  | sck => exact ⟨⟨v, rfl⟩, h.sda⟩
  | sdaDir => exact ⟨⟨u, hsck⟩, h.sda⟩

/-- Each access leaves the pins ready; first a write of a pin. -/
theorem Ready.writeBit (h : Ready b.pins) (pin : I2cPin) (v : Bool) :
    Ready (writeBit slave pin v b).pins := by
  rw [writeOneBit_pins]
  exact h.update pin v

/-- A read of the data line. -/
theorem Ready.readOneBit (h : Ready b.pins) : Ready (readOneBit slave b).2.pins :=
  ⟨h.sck, h.sda⟩

/-- A start. -/
theorem Ready.start (h : Ready b.pins) : Ready (virtualI2cCtrlStart slave b).pins :=
  (((h.writeBit _ _).writeBit _ _).writeBit _ _).writeBit _ _

/-- A stop. -/
theorem Ready.stop (h : Ready b.pins) : Ready (virtualI2cCtrlStop slave b).pins :=
  (((h.writeBit _ _).writeBit _ _).writeBit _ _).writeBit _ _

/-- A byte that is sent. -/
theorem Ready.send (h : Ready b.pins) (value : BitVec 8) :
    Ready (virtualI2cCtrlSend slave value b).pins :=
  List.foldlRecOn (motive := fun b : Board => Ready b.pins) _ _ (h.writeBit _ _) fun _ hb _ _ =>
    (((hb.writeBit _ _).writeBit _ _).writeBit _ _).writeBit _ _

/-- A byte that is received. -/
theorem Ready.rcv (h : Ready b.pins) : Ready (virtualI2cCtrlRcv slave b).2.pins :=
  List.foldlRecOn (motive := fun r : BitVec 8 × Board => Ready r.2.pins) _ _ (h.writeBit _ _)
    fun _ hr _ _ => (((hr.writeBit _ _).writeBit _ _).readOneBit).writeBit _ _

/-- The wait for an acknowledge. -/
theorem Ready.waitAck (h : Ready b.pins) {ack : Bool}
    (hack : virtualI2cWaitAck slave b = (ack, b')) : Ready b'.pins := by
  rw [show b' = (virtualI2cWaitAck slave b).2 by rw [hack]]
  exact ((h.writeBit _ _).writeBit _ _).readOneBit.writeBit _ _

/-- A write, wherever it gives up. -/
theorem Ready.writeSteps (h : Ready b.pins) (slaveAddr regAddr value : BitVec 8) :
    Ready (writeSteps slave slaveAddr regAddr value b).2.pins := by
  unfold I2c.writeSteps
  dsimp only
  -- each acknowledge that is missing ends it with the pins as they are then
  split
  · next hack₁ => exact (h.start.send _).waitAck hack₁
  next hack₁ =>
  have h₁ := (h.start.send _).waitAck hack₁
  split
  · next hack₂ => exact (h₁.send _).waitAck hack₂
  next hack₂ =>
  have h₂ := (h₁.send _).waitAck hack₂
  split
  · next hack₃ => exact (h₂.send _).waitAck hack₃
  · next hack₃ => exact (h₂.send _).waitAck hack₃

/-- A read, wherever it gives up. -/
theorem Ready.readSteps (h : Ready b.pins) (slaveAddr regAddr : BitVec 8)
    (pValue : Option (BitVec 8)) : Ready (readSteps slave slaveAddr regAddr pValue b).2.2.pins := by
  unfold I2c.readSteps
  cases pValue with
  | none => exact h
  | some old =>
    dsimp only
    -- each acknowledge that is missing ends it with the pins as they are then
    split
    · next hack₁ => exact (h.start.send _).waitAck hack₁
    next hack₁ =>
    have h₁ := (h.start.send _).waitAck hack₁
    split
    · next hack₂ => exact (h₁.send _).waitAck hack₂
    next hack₂ =>
    have h₂ := (h₁.send _).waitAck hack₂
    split
    · next hack₃ => exact (h₂.start.send _).waitAck hack₃
    next hack₃ =>
    have h₃ := (h₂.start.send _).waitAck hack₃
    split
    · next hack₄ => exact h₃.rcv.waitAck hack₄
    · next hack₄ => exact h₃.rcv.waitAck hack₄

end Calls

/-- A call on a controller, and the slave that it meets. -/
inductive Call
  | write (slave : Slave) (slaveAddr regAddr value : BitVec 8)
  | read (slave : Slave) (slaveAddr regAddr : BitVec 8) (pValue : Option (BitVec 8))

def Call.step (p : Pins) : Call → Pins
  | .write slave slaveAddr regAddr value =>
    (virtualI2cCtrlWrite slave slaveAddr regAddr value (watched slave p)).2.pins
  | .read slave slaveAddr regAddr pValue =>
    (virtualI2cCtrlRead slave slaveAddr regAddr pValue (watched slave p)).2.2.pins

/-- The pins after any calls on a controller that was initialised. -/
def reached (p₀ : Pins) (calls : List Call) : Pins :=
  calls.foldl Call.step (virtualI2cCtrlGpioInit (fun _ => true) (watched (fun _ => true) p₀)).pins

/-- **After any calls the pins are ready.** -/
theorem ready_reached (p₀ : Pins) (calls : List Call) : Ready (reached p₀ calls) := by
  refine List.foldlRecOn (motive := Ready) _ _ ?_ ?_
  · refine ⟨⟨true, ?_⟩, ?_⟩
    · rfl
    · rfl
  · intro p hp call _
    cases call with
    | write slave slaveAddr regAddr value => exact (Ready.writeSteps hp slaveAddr regAddr value).stop
    | read slave slaveAddr regAddr pValue => exact (Ready.readSteps hp slaveAddr regAddr pValue).stop

/-! ## When the transactions are right -/

/-- A write and a read do what they should. -/
structure Transacts (p : Pins) (slaveAddr regAddr value old : BitVec 8) (w : WriteAnswers)
    (r : ReadAnswers) : Prop where
  write : Writes p slaveAddr regAddr value w
  read : Reads p slaveAddr regAddr old r

/-- A start is one symbol, and three where the line has to be released first. -/
theorem length_starts (latch : Bool) : (starts latch).length = if latch then 1 else 3 := by
  cases latch <;> rfl

/-- What follows an acknowledge that does not come is left out. -/
theorem length_acknowledged (value : BitVec 8) (ack : Bool) (rest : List Symbol) :
    (acknowledged value ack rest).length = 9 + if ack then rest.length else 0 := by
  cases ack with
  | false => rfl
  | true =>
    simp [acknowledged, byte]
    omega

/-- What is said before a start shows: there is more of it. -/
theorem writeSymbols_eq_iff {latch : Bool} {slaveAddr regAddr value : BitVec 8}
    {a : WriteAnswers} :
    writeSymbols (starts latch) slaveAddr regAddr value a =
      writeSymbols [.start] slaveAddr regAddr value a ↔ latch = true := by
  constructor
  · intro h
    -- a start that was seen twice makes the symbols one more
    have hlength := congrArg List.length h
    simp only [writeSymbols, List.length_append, length_starts, List.length_cons,
      List.length_nil] at hlength
    split at hlength
    · assumption
    · omega
  · rintro rfl
    rfl

/-- A read is as it should be if its starts are; the second is only made behind two acknowledges. -/
theorem readSymbols_eq_iff {first again : Bool} {slaveAddr regAddr : BitVec 8} {a : ReadAnswers} :
    readSymbols (starts first) (starts again) slaveAddr regAddr a =
      readSymbols [.start] [.start] slaveAddr regAddr a ↔
        first = true ∧ (a.slaveAddr ∧ a.regAddr → again = true) := by
  constructor
  · intro h
    have hlength := congrArg List.length h
    simp only [readSymbols, List.length_append, length_acknowledged, length_starts,
      List.length_cons] at hlength
    split_ifs at hlength <;> grind
  · rintro ⟨rfl, hagain⟩
    by_cases hboth : a.slaveAddr = true ∧ a.regAddr = true
    · rw [hagain hboth]
      rfl
    · -- the second start is cut off
      cases h₁ : a.slaveAddr <;> cases h₂ : a.regAddr <;>
        simp_all [readSymbols, acknowledged, starts]

/-- A write is right if and only if the data pin's output is high before it. -/
theorem writes_iff {p : Pins} (hready : Ready p) (hidle : Idle p)
    (slaveAddr regAddr value : BitVec 8) (a : WriteAnswers) :
    Writes p slaveAddr regAddr value a ↔ (p .sda).value = true := by
  obtain ⟨n, hwrite⟩ := write_spec hready hidle slaveAddr regAddr value a
  constructor
  · intro h
    have hsymbols := h.symbols
    rw [hwrite] at hsymbols
    exact writeSymbols_eq_iff.mp hsymbols
  -- the answer and the value never go wrong
  · intro hlatch
    refine ⟨?_, ?_, ?_⟩
    · rw [hwrite]
      exact writeSymbols_eq_iff.mpr hlatch
    · rw [hwrite]
      simp
    · rw [hwrite]
      exact ⟨rfl, rfl⟩

/-- A read is right if and only if the data pin's output is high before each of its starts. -/
theorem reads_iff {p : Pins} (hready : Ready p) (hidle : Idle p)
    (slaveAddr regAddr old : BitVec 8) (a : ReadAnswers) :
    Reads p slaveAddr regAddr old a ↔
      (p .sda).value = true ∧ (a.slaveAddr ∧ a.regAddr → regAddr.getLsbD 0 = true) := by
  obtain ⟨n, hread⟩ := read_spec hready hidle slaveAddr regAddr old a
  constructor
  -- as in a write, but the second start comes behind the register's address
  · intro h
    have hsymbols := h.symbols
    rw [hread] at hsymbols
    exact readSymbols_eq_iff.mp hsymbols
  · intro hlatch
    refine ⟨?_, ?_, ?_, ?_⟩
    · rw [hread]
      exact readSymbols_eq_iff.mpr hlatch
    · rw [hread]
      simp
    · rw [hread]
      simp +contextual
    · rw [hread]
      exact ⟨rfl, rfl⟩

/-- On an idle bus with ready pins both transactions are decided by the data pin and the
register. -/
theorem transacts_iff_of_ready {p : Pins} (hready : Ready p) (hidle : Idle p)
    (slaveAddr regAddr value old : BitVec 8) (w : WriteAnswers) (r : ReadAnswers) :
    Transacts p slaveAddr regAddr value old w r ↔
      (p .sda).value = true ∧ (r.slaveAddr ∧ r.regAddr → regAddr.getLsbD 0 = true) := by
  constructor
  · rintro ⟨-, hread⟩
    exact (reads_iff hready hidle slaveAddr regAddr old r).mp hread
  · intro h
    exact ⟨(writes_iff hready hidle slaveAddr regAddr value w).mpr h.1,
      (reads_iff hready hidle slaveAddr regAddr old r).mpr h⟩

/-- **When transactions are right**, on an idle bus after any calls: the output of the data pin is
high, and the register address that a read acknowledges is odd. -/
theorem transacts_iff {p₀ : Pins} {calls : List Call} (hidle : Idle (reached p₀ calls))
    (slaveAddr regAddr value old : BitVec 8) (w : WriteAnswers) (r : ReadAnswers) :
    Transacts (reached p₀ calls) slaveAddr regAddr value old w r ↔
      ((reached p₀ calls) .sda).value = true ∧
        (r.slaveAddr ∧ r.regAddr → regAddr.getLsbD 0 = true) :=
  transacts_iff_of_ready (ready_reached p₀ calls) hidle slaveAddr regAddr value old w r

/-- The pins at reset. -/
def resetPins : Pins := fun _ => ⟨false, false, false⟩

/-- A write that nobody acknowledges. -/
def unanswered : Call := .write (fun _ => true) 0 0 0

/-- A write that nobody acknowledges leaves the bus idle. -/
theorem idle_unanswered : Idle (reached resetPins [unanswered]) := by
  constructor <;> decide

/-- Register 1 is written and read, with all acknowledges. -/
theorem transacts_iff_one :
    Transacts (reached resetPins [unanswered]) 0x1a 1 0x55 0 ⟨true, true, true⟩
      ⟨true, true, true, 0x55, true⟩ :=
  (transacts_iff idle_unanswered _ _ _ _ _ _).mpr ⟨by decide, fun _ => by decide⟩

/-- Register 0 is read, with all acknowledges. -/
theorem even_not_transacts :
    ¬Transacts (reached resetPins [unanswered]) 0x1a 0 0 0 ⟨true, true, true⟩
      ⟨true, true, true, 0x55, true⟩ := by
  intro h
  have hodd := ((transacts_iff_of_ready (ready_reached resetPins [unanswered]) idle_unanswered
    0x1a 0 0 0 _ _).mp h).2 ⟨rfl, rfl⟩
  exact absurd hodd (by decide)

end PgClient.I2c
