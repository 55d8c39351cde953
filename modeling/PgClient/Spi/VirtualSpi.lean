import Mathlib.Data.BitVec
import PgClient.Gpio.Pins
import PgClient.Lib.PartialRun

/-!
# The bit-banged SPI

`virtualSpiCtrl.cpp`, on the pins that `hi_unf_spi.c` gives to it: one pair of channels has its own
five pins, and with three lines the data is read where it is written. The pauses are left out, but
not the division that computes them.

A slave is connected. It samples the level of the data line on the active edge of the clock, takes
what it samples while the chip select is low, and presents one bit after the other, the next one
with each rising edge.

* `sampled_write`, `read_value` — what the slave takes, and what is read.
* `run_ready` — the clock stays an output along all calls.
* `transfers_iff` — words go both ways if and only if the frequency is not 0 and the word that is
  read is ORed into no bit that it does not have.
-/

namespace PgClient.Spi

open Function (update)
open PartialRun Gpio

/-! ## The pins -/

/-- `LCM1_SPI_MOSI` and the others of a pair of channels. -/
inductive SpiPin
  | mosi
  | sck
  | cs
  | miso
  | mosiDir
  deriving DecidableEq

abbrev Pins := SpiPin → Pin

/-- The slave. -/
structure Slave where
  /-- The data line at the active edges of the clock. -/
  sampled : List Bool
  /-- What it took: the same, while the chip select was low. -/
  taken : List Bool
  /-- The rising edges of the clock. -/
  pulses : Nat

abbrev Board := Gpio.Board SpiPin Slave

def edgeRise : BitVec 32 := 0

/-- The data line at the slave: the pin, if its driver is set to be an output. -/
def dataLine (p : Pins) : Bool := if (p .mosiDir).level then (p .mosi).level else true

/-- The slave sees the clock before and after an access. -/
def observe (edge : BitVec 32) (p p' : Pins) (s : Slave) : Slave :=
  let rises := !(p .sck).level && (p' .sck).level
  let falls := (p .sck).level && !(p' .sck).level
  let active := if edge = edgeRise then rises else falls
  { sampled := if active then s.sampled ++ [dataLine p'] else s.sampled
    taken := if active && !(p' .cs).level then s.taken ++ [dataLine p'] else s.taken
    pulses := if rises then s.pulses + 1 else s.pulses }

/-! ## The code -/

/-- `virtualSpiCtrl_t`. -/
structure VirtualSpiCtrl where
  freq : BitVec 32
  edge : BitVec 32
  writeGpio : SpiPin
  writeDirGpio : SpiPin
  readGpio : SpiPin
  csGpio : SpiPin
  clkGpio : SpiPin
  byteFormat : BitVec 32

variable (present : Nat → Bool) (c : VirtualSpiCtrl)

/-- `HI_UNF_GPIO_ReadBit`: a pin has its own level if it is driven; the data line has that of the
slave unless the driver is an output. -/
def readBit (pin : SpiPin) (b : Board) : Bool :=
  if (b.pins pin).dir && (b.pins pin).enabled then (b.pins pin).value
  else if pin = .mosi ∧ (b.pins .mosiDir).level then true
  else present b.side.pulses

/-- One turn of `virtualSpiCtrlWrite`. -/
def writeTurn (value : BitVec 32) (b : Board) (i : Nat) : Board :=
  let offset := c.byteFormat.toNat - i - 1
  if c.edge = edgeRise then
    let b := writeOneBit (observe c.edge) c.clkGpio false b
    let b := writeOneBit (observe c.edge) c.writeGpio (value.getLsbD offset) b
    writeOneBit (observe c.edge) c.clkGpio true b
  else
    let b := writeOneBit (observe c.edge) c.clkGpio true b
    let b := writeOneBit (observe c.edge) c.writeGpio (value.getLsbD offset) b
    writeOneBit (observe c.edge) c.clkGpio false b

/-- `virtualSpiCtrlWrite`; `none` is the division by 0. -/
def virtualSpiCtrlWrite (value : BitVec 32) (b : Board) : Option (Int × Board) :=
  if c.freq = 0 then none
  else
    let b := writeOneBit (observe c.edge) c.writeDirGpio true b
    some (0, (List.range c.byteFormat.toNat).foldl (writeTurn c value) b)

/-- One turn of `virtualSpiCtrlRead`. -/
def readTurn (r : Board × BitVec 32) (i : Nat) : Board × BitVec 32 :=
  let offset := c.byteFormat.toNat - i - 1
  let b := writeOneBit (observe c.edge) c.clkGpio false r.1
  -- `_readOneBit`
  let b := setDirBit (observe c.edge) c.readGpio true b
  let bit : BitVec 32 := (BitVec.ofBool (readBit present c.readGpio b)).setWidth 32
  (writeOneBit (observe c.edge) c.clkGpio true b, r.2 ||| (bit <<< offset))

/-- `virtualSpiCtrlRead`; `pValue` is NULL, or what is there. -/
def virtualSpiCtrlRead (pValue : Option (BitVec 32)) (b : Board) :
    Option (Int × Option (BitVec 32) × Board) :=
  match pValue with
  | none => some (-1, none, b)
  | some value =>
    if c.freq = 0 then none
    else
      let b := if c.writeGpio = c.readGpio then
          let b := writeOneBit (observe c.edge) c.writeGpio false b
          writeOneBit (observe c.edge) c.writeDirGpio false b
        else b
      let r := (List.range c.byteFormat.toNat).foldl (readTurn present c) (b, value)
      some (0, some r.2, r.1)

def virtualSpiCtrlSetByteFormat (byteFormat : BitVec 32) : VirtualSpiCtrl :=
  if byteFormat.toNat < 1 ∨ 32 < byteFormat.toNat then c else { c with byteFormat := byteFormat }

def virtualSpiCtrlSetCsState (value : BitVec 32) (b : Board) : Option Board :=
  if c.freq = 0 then none
  else some (writeOneBit (observe c.edge) c.csGpio (value.getLsbD 0) b)

def virtualSpiCtrlGpioInit (b : Board) : Board :=
  let b := setDirBit (observe c.edge) c.writeGpio false b
  let b := setDirBit (observe c.edge) c.readGpio true b
  let b := setDirBit (observe c.edge) c.clkGpio false b
  let b := setDirBit (observe c.edge) c.csGpio false b
  let b := writeOneBit (observe c.edge) c.csGpio true b
  let b := writeOneBit (observe c.edge) c.clkGpio true b
  writeOneBit (observe c.edge) c.writeGpio true b

/-- `VSPI_MODE_E`. -/
inductive VspiMode
  | wire3Line
  | wire4Line
  deriving DecidableEq

/-- `virtualSpiCtrlSetGpio`, as `vspiCtrlSetMode` calls it. -/
def vspiCtrlSetMode (mode : VspiMode) (b : Board) : VirtualSpiCtrl × Board :=
  let c := { c with
    writeGpio := .mosi
    readGpio := match mode with
      | .wire3Line => .mosi
      | .wire4Line => .miso
    csGpio := .cs
    clkGpio := .sck
    writeDirGpio := .mosiDir }
  (c, virtualSpiCtrlGpioInit c b)

/-- The part of `spiCtrlInit` for a controller: its defaults, other than the frequency, and three
lines. -/
def spiCtrlInit (b : Board) : VirtualSpiCtrl × Board :=
  vspiCtrlSetMode ⟨500000, edgeRise, .mosi, .mosi, .mosi, .mosi, .mosi, 8⟩ .wire3Line b

/-! ## Calls -/

/-- A call on a controller. -/
inductive Call
  | setFreq (freq : BitVec 32)
  | setEdge (edge : BitVec 32)
  | setByteFormat (byteFormat : BitVec 32)
  | setMode (mode : VspiMode)
  | setCsState (value : BitVec 32)
  | write (value : BitVec 32)
  | read (pValue : Option (BitVec 32))

def Call.step : Call → VirtualSpiCtrl × Board → Option (VirtualSpiCtrl × Board)
  | .setFreq freq, (c, b) => some ({ c with freq := freq }, b)
  | .setEdge edge, (c, b) => some ({ c with edge := edge }, b)
  | .setByteFormat byteFormat, (c, b) => some (virtualSpiCtrlSetByteFormat c byteFormat, b)
  | .setMode mode, (c, b) => some (vspiCtrlSetMode c mode b)
  | .setCsState value, (c, b) => (virtualSpiCtrlSetCsState c value b).map fun b => (c, b)
  | .write value, (c, b) => (virtualSpiCtrlWrite c value b).map fun r => (c, r.2)
  | .read pValue, (c, b) => (virtualSpiCtrlRead present c pValue b).map fun r => (c, r.2.2)

/-! ## What a word is -/

/-- The low `n` bits of a word, the most significant first. -/
def wordBits (value : BitVec 32) (n : Nat) : List Bool :=
  (List.range n).map fun i => value.getLsbD (n - i - 1)

/-- The number that bits spell, the most significant first. -/
def spelled (bits : List Bool) : BitVec 32 := (BitVec.ofBoolListBE bits).setWidth 32

/-- The next `n` bits of the slave. -/
def presented (b : Board) (n : Nat) : List Bool :=
  (List.range n).map fun i => present (b.side.pulses + i)

/-- A word goes to the slave, and one comes from it. -/
structure Transfers (b : Board) (value old : BitVec 32) : Prop where
  write : ∃ b', virtualSpiCtrlWrite c value b = some (0, b') ∧
    b'.side.sampled = b.side.sampled ++ wordBits value c.byteFormat.toNat
  read : ∃ b', virtualSpiCtrlRead present c (some old) b =
    some (0, some (spelled (presented present b c.byteFormat.toNat)), b')

/-! ## What the slave sees -/

section Sees

variable {edge : BitVec 32} {b : Board} {v : Bool}

/-- Without an edge of the clock the slave stays as it is. -/
theorem observe_still {p p' : Pins} (h : (p .sck).level = (p' .sck).level) (s : Slave) :
    observe edge p p' s = s := by
  simp [observe, h]

/-- The clock is an output, at a level. -/
def Clocked (b : Board) (v : Bool) : Prop := b.pins .sck = ⟨true, true, v⟩

/-- Only the clock's pin is watched: another pin's direction leaves the slave. -/
theorem setDirBit_side {pin : SpiPin} (hpin : pin ≠ .sck) (bInput : Bool) :
    (setDirBit (observe edge) pin bInput b).side = b.side :=
  observe_still (by rw [Function.update_of_ne hpin.symm]) _

/-- Another pin's value leaves the slave. -/
theorem writeOneBit_side_of_ne {pin : SpiPin} (hpin : pin ≠ .sck) (value : Bool) :
    (writeOneBit (observe edge) pin value b).side = b.side := by
  rw [writeOneBit_side]
  -- none of the three accesses is one to the clock
  simp only [observe_still, Function.update_of_ne hpin.symm]

/-- The clock keeps its level when another pin is written. -/
theorem Clocked.writeOneBit_of_ne (h : Clocked b v) {pin : SpiPin} (hpin : pin ≠ .sck)
    (value : Bool) : Clocked (writeOneBit (observe edge) pin value b) v := by
  rw [Clocked, writeOneBit_pins, Function.update_of_ne hpin.symm]
  exact h

/-- The clock keeps its level when another pin is turned. -/
theorem Clocked.setDirBit_of_ne (h : Clocked b v) {pin : SpiPin} (hpin : pin ≠ .sck)
    (bInput : Bool) : Clocked (setDirBit (observe edge) pin bInput b) v := by
  rw [Clocked, setDirBit_pins, Function.update_of_ne hpin.symm]
  exact h

/-- The clock has the level that is written to it. -/
theorem clocked_writeOneBit (b : Board) (value : Bool) :
    Clocked (writeOneBit (observe edge) .sck value b) value := by
  rw [Clocked, writeOneBit_pins, Function.update_self]

/-- A clock that is an output is seen to go from its level to the new one. -/
theorem Clocked.writeOneBit_side (h : Clocked b v) (value : Bool) :
    (writeOneBit (observe edge) .sck value b).side =
      observe edge b.pins (update b.pins .sck ⟨true, true, value⟩) b.side := by
  have hsame : ∀ p : Pin, p = ⟨true, true, v⟩ → update b.pins .sck p = b.pins := by
    intro p hp
    rw [hp, ← h, Function.update_eq_self]
  rw [Gpio.writeOneBit_side]
  simp only [hsame { b.pins .sck with dir := true } (by rw [h]),
    hsame ⟨true, true, (b.pins .sck).value⟩ (by rw [h])]
  rw [observe_still rfl, observe_still rfl]

end Sees

/-! ## The word that is written -/

/-- The pins of a controller are those of its channels, and its word size is one that
`virtualSpiCtrlSetByteFormat` accepts. -/
structure Wired (c : VirtualSpiCtrl) : Prop where
  write : c.writeGpio = .mosi
  read : c.readGpio = .mosi ∨ c.readGpio = .miso
  cs : c.csGpio = .cs
  clk : c.clkGpio = .sck
  writeDir : c.writeDirGpio = .mosiDir
  one_le : 1 ≤ c.byteFormat.toNat
  le : c.byteFormat.toNat ≤ 32

/-- The driver of the data line is an output. -/
def Driving (b : Board) : Prop := b.pins .mosiDir = ⟨true, true, true⟩

section Write

variable {c : VirtualSpiCtrl} {b : Board} {v : Bool}

/-- In a turn the slave takes one bit. -/
theorem writeTurn_spec (hc : Wired c) (hclk : Clocked b v) (hdir : Driving b) (value : BitVec 32)
    (i : Nat) :
    (∃ v', Clocked (writeTurn c value b i) v') ∧ Driving (writeTurn c value b i) ∧
      (writeTurn c value b i).side.sampled =
        b.side.sampled ++ [value.getLsbD (c.byteFormat.toNat - i - 1)] := by
  unfold Driving at hdir
  unfold writeTurn
  rw [hc.clk, hc.write]
  -- the data changes while the clock is away from the edge the slave samples at
  split_ifs with hedge
  · refine ⟨⟨true, clocked_writeOneBit _ _⟩, ?_, ?_⟩
    · simp [Driving, hdir]
    · rw [((clocked_writeOneBit b false).writeOneBit_of_ne (by decide) _).writeOneBit_side,
        writeOneBit_side_of_ne (by decide), hclk.writeOneBit_side]
      simp [observe, hedge, dataLine, hdir]
  · refine ⟨⟨false, clocked_writeOneBit _ _⟩, ?_, ?_⟩
    · simp [Driving, hdir]
    · rw [((clocked_writeOneBit b true).writeOneBit_of_ne (by decide) _).writeOneBit_side,
        writeOneBit_side_of_ne (by decide), hclk.writeOneBit_side]
      simp [observe, hedge, dataLine, hdir]

/-- The turns of a word: the slave takes its bits, the most significant first. -/
theorem foldl_writeTurn (hc : Wired c) (hclk : Clocked b v) (hdir : Driving b) (value : BitVec 32)
    (k : Nat) :
    (∃ v', Clocked ((List.range k).foldl (writeTurn c value) b) v') ∧
      Driving ((List.range k).foldl (writeTurn c value) b) ∧
      ((List.range k).foldl (writeTurn c value) b).side.sampled =
        b.side.sampled ++
          (List.range k).map fun i => value.getLsbD (c.byteFormat.toNat - i - 1) := by
  induction k with
  | zero => exact ⟨⟨v, hclk⟩, hdir, by simp⟩
  | succ k ih =>
    obtain ⟨⟨v', hclk'⟩, hdir', hsampled⟩ := ih
    -- the next bit joins those taken
    obtain ⟨hclk'', hdir'', hturn⟩ := writeTurn_spec hc hclk' hdir' value k
    rw [List.range_succ, List.foldl_append, List.map_append]
    refine ⟨hclk'', hdir'', ?_⟩
    rw [List.foldl_cons, List.foldl_nil, hturn, hsampled, List.append_assoc]
    rfl

/-- **The slave takes the word**, the most significant bit first. -/
theorem sampled_write (hc : Wired c) (hclk : Clocked b v) (hfreq : c.freq ≠ 0)
    (value : BitVec 32) :
    ∃ b' v', virtualSpiCtrlWrite c value b = some (0, b') ∧ Clocked b' v' ∧
      b'.side.sampled = b.side.sampled ++ wordBits value c.byteFormat.toNat := by
  -- the direction is set first, which is no clock
  have hclk₁ : Clocked (writeOneBit (observe c.edge) .mosiDir true b) v :=
    hclk.writeOneBit_of_ne (by decide) true
  have hdir₁ : Driving (writeOneBit (observe c.edge) .mosiDir true b) := by
    rw [Driving, writeOneBit_pins, Function.update_self]
  obtain ⟨⟨v', hclk'⟩, -, hsampled⟩ :=
    foldl_writeTurn hc hclk₁ hdir₁ value c.byteFormat.toNat
  refine ⟨_, v', by rw [virtualSpiCtrlWrite, if_neg hfreq], ?_, ?_⟩
  · rw [hc.writeDir]
    exact hclk'
  · rw [hc.writeDir, hsampled, writeOneBit_side_of_ne (by decide)]
    rfl

end Write

/-! ## The word that is read -/

section Read

variable (present : Nat → Bool) {c : VirtualSpiCtrl} {b : Board} {v : Bool}

/-- A read of the slave: the driver of the data line is an input, if that is the line to read. -/
def Listening (c : VirtualSpiCtrl) (b : Board) : Prop :=
  c.readGpio = .mosi → b.pins .mosiDir = ⟨true, true, false⟩

/-- In a turn one bit of the slave is added. -/
theorem readTurn_spec (hc : Wired c) (hclk : Clocked b v) (hlisten : Listening c b)
    (value : BitVec 32) (i : Nat) :
    Clocked (readTurn present c (b, value) i).1 true ∧
      Listening c (readTurn present c (b, value) i).1 ∧
      (readTurn present c (b, value) i).1.side.pulses = b.side.pulses + 1 ∧
      (readTurn present c (b, value) i).2 =
        value ||| ((BitVec.ofBool (present b.side.pulses)).setWidth 32 <<<
          (c.byteFormat.toNat - i - 1)) := by
  have hread : c.readGpio ≠ .sck := by
    rcases hc.read with h | h <;> rw [h] <;> decide
  have hlow : Clocked (writeOneBit (observe c.edge) .sck false b) false :=
    clocked_writeOneBit b false
  have hlow' : Clocked (setDirBit (observe c.edge) c.readGpio true
      (writeOneBit (observe c.edge) .sck false b)) false := hlow.setDirBit_of_ne hread true
  -- the falling edge is no pulse
  have hpulses : (writeOneBit (observe c.edge) .sck false b).side.pulses = b.side.pulses := by
    rw [hclk.writeOneBit_side]
    simp [observe]
  unfold readTurn
  rw [hc.clk]
  refine ⟨clocked_writeOneBit _ _, ?_, ?_, ?_⟩
  · intro hmosi
    have := hlisten hmosi
    simp [hmosi, this]
  · rw [hlow'.writeOneBit_side, setDirBit_side hread]
    simp only [Clocked] at hlow'
    simp [observe, hpulses, hlow']
  · -- the pin is an input, and the driver does not hold it
    have hbit : readBit present c.readGpio
        (setDirBit (observe c.edge) c.readGpio true (writeOneBit (observe c.edge) .sck false b)) =
          present b.side.pulses := by
      rw [readBit, setDirBit_side hread, hpulses]
      rcases hc.read with h | h
      · have := hlisten h
        simp [h, this]
      · simp [h]
    simp only [hbit]

/-- The turns of a word: the bits of the slave are ORed in, from the most significant one on. -/
theorem foldl_readTurn (hc : Wired c) (hclk : Clocked b v) (hlisten : Listening c b)
    (old : BitVec 32) {k : Nat} (hk : k ≤ c.byteFormat.toNat) :
    (∃ v', Clocked ((List.range k).foldl (readTurn present c) (b, old)).1 v') ∧
      Listening c ((List.range k).foldl (readTurn present c) (b, old)).1 ∧
      ((List.range k).foldl (readTurn present c) (b, old)).1.side.pulses = b.side.pulses + k ∧
      ∀ j, ((List.range k).foldl (readTurn present c) (b, old)).2.getLsbD j =
        (old.getLsbD j || (decide (j < c.byteFormat.toNat ∧ c.byteFormat.toNat - 1 - j < k) &&
          present (b.side.pulses + (c.byteFormat.toNat - 1 - j)))) := by
  induction k with
  | zero => exact ⟨⟨v, hclk⟩, hlisten, rfl, by simp⟩
  | succ k ih =>
    obtain ⟨⟨v', hclk'⟩, hlisten', hpulses, hvalue⟩ := ih (by omega)
    rw [List.range_succ, List.foldl_append]
    generalize (List.range k).foldl (readTurn present c) (b, old) = r at *
    obtain ⟨b', value⟩ := r
    obtain ⟨hclk'', hlisten'', hpulses'', hturn⟩ :=
      readTurn_spec present hc hclk' hlisten' value k
    rw [List.foldl_cons, List.foldl_nil]
    refine ⟨⟨true, hclk''⟩, hlisten'', by rw [hpulses'', hpulses, Nat.add_assoc], ?_⟩
    intro j
    have hle := hc.le
    rw [hturn, BitVec.getLsbD_or, hvalue j, getLsbD_bit _ (by omega), hpulses, Bool.or_assoc]
    congr 1
    -- the bit of this turn is the one at `byteFormat - k - 1`
    by_cases hj : j = c.byteFormat.toNat - k - 1
    · subst hj
      have hback : c.byteFormat.toNat - 1 - (c.byteFormat.toNat - k - 1) = k := by omega
      simp [hback, show c.byteFormat.toNat - k - 1 < c.byteFormat.toNat by omega]
    · have hsame : (j < c.byteFormat.toNat ∧ c.byteFormat.toNat - 1 - j < k) ↔
          (j < c.byteFormat.toNat ∧ c.byteFormat.toNat - 1 - j < k + 1) := by omega
      simp [hj, hsame]

/-- The bits of the word that is read are those presented, the first one highest. -/
theorem getLsbD_spelled (j : Nat) (hn : c.byteFormat.toNat ≤ 32) :
    (spelled (presented present b c.byteFormat.toNat)).getLsbD j =
      (decide (j < c.byteFormat.toNat) &&
        present (b.side.pulses + (c.byteFormat.toNat - 1 - j))) := by
  rw [spelled, BitVec.getLsbD_setWidth, BitVec.getLsbD_ofBoolListBE]
  by_cases hj : j < c.byteFormat.toNat
  · have hword : j < 32 := by omega
    have hbit : c.byteFormat.toNat - 1 - j < c.byteFormat.toNat := by omega
    simp [presented, hj, hword, hbit]
  · simp [presented, hj]

/-- **The word of the slave is ORed** into what `*pValue` holds. -/
theorem read_value (hc : Wired c) (hclk : Clocked b v) (hfreq : c.freq ≠ 0) (old : BitVec 32) :
    ∃ b' v', virtualSpiCtrlRead present c (some old) b =
      some (0, some (old ||| spelled (presented present b c.byteFormat.toNat)), b') ∧
        Clocked b' v' := by
  -- the driver of the data line is an input if the data is read there
  obtain ⟨b₁, hb₁, hclk₁, hlisten₁, hpulses₁⟩ : ∃ b₁,
      (if c.writeGpio = c.readGpio then
        writeOneBit (observe c.edge) c.writeDirGpio false
          (writeOneBit (observe c.edge) c.writeGpio false b)
      else b) = b₁ ∧ Clocked b₁ v ∧ Listening c b₁ ∧ b₁.side.pulses = b.side.pulses := by
    rw [hc.write, hc.writeDir]
    split_ifs with hthree
    · refine ⟨_, rfl, ?_, ?_, ?_⟩
      · exact (hclk.writeOneBit_of_ne (by decide) false).writeOneBit_of_ne (by decide) false
      · intro _
        rw [writeOneBit_pins, Function.update_self]
      · rw [writeOneBit_side_of_ne (by decide), writeOneBit_side_of_ne (by decide)]
    · exact ⟨b, rfl, hclk, fun h => absurd h.symm hthree, rfl⟩
  obtain ⟨⟨v', hclk'⟩, -, -, hvalue⟩ :=
    foldl_readTurn present hc hclk₁ hlisten₁ old le_rfl
  refine ⟨_, v', ?_, hclk'⟩
  simp only [virtualSpiCtrlRead, if_neg hfreq, hb₁]
  congr 3
  apply congrArg some
  apply BitVec.eq_of_getLsbD_eq
  intro j hj
  rw [hvalue j, BitVec.getLsbD_or, getLsbD_spelled present j hc.le, hpulses₁]
  congr 2
  rw [decide_eq_decide]
  omega

end Read

/-! ## Any calls -/

/-- The pins are wired, and the clock is an output. -/
def Ready (s : VirtualSpiCtrl × Board) : Prop := Wired s.1 ∧ ∃ v, Clocked s.2 v

/-- A mode that is set leaves the bus ready. -/
theorem ready_setMode {c : VirtualSpiCtrl} (h1 : 1 ≤ c.byteFormat.toNat)
    (h32 : c.byteFormat.toNat ≤ 32) (mode : VspiMode) (b : Board) :
    Ready (vspiCtrlSetMode c mode b) := by
  refine ⟨⟨rfl, ?_, rfl, rfl, rfl, h1, h32⟩, true, ?_⟩
  · cases mode with
    | wire3Line => exact .inl rfl
    | wire4Line => exact .inr rfl
  · exact (clocked_writeOneBit _ true).writeOneBit_of_ne (show SpiPin.mosi ≠ .sck by decide) true

/-- The bus is ready once it is initialised. -/
theorem ready_spiCtrlInit (b : Board) : Ready (spiCtrlInit b) :=
  ready_setMode (by decide) (by decide) .wire3Line b

/-- A call keeps the controller ready. -/
theorem ready_step (present : Nat → Bool) (call : Call) (s s' : VirtualSpiCtrl × Board)
    (hs : Ready s) (hstep : call.step present s = some s') : Ready s' := by
  obtain ⟨c, b⟩ := s
  obtain ⟨hc, v, hclk⟩ := hs
  cases call with
  | setFreq freq =>
    obtain rfl := Option.some.inj hstep
    exact ⟨⟨hc.write, hc.read, hc.cs, hc.clk, hc.writeDir, hc.one_le, hc.le⟩, v, hclk⟩
  | setEdge edge =>
    obtain rfl := Option.some.inj hstep
    exact ⟨⟨hc.write, hc.read, hc.cs, hc.clk, hc.writeDir, hc.one_le, hc.le⟩, v, hclk⟩
  | setByteFormat byteFormat =>
    obtain rfl := Option.some.inj hstep
    refine ⟨?_, v, hclk⟩
    -- a size outside 1 to 32 is refused
    unfold virtualSpiCtrlSetByteFormat
    split_ifs with hrange
    · exact hc
    · exact ⟨hc.write, hc.read, hc.cs, hc.clk, hc.writeDir, by simp only; omega, by simp only; omega⟩
  | setMode mode =>
    obtain rfl := Option.some.inj hstep
    exact ready_setMode hc.one_le hc.le mode b
  | setCsState value =>
    obtain ⟨b', hb', rfl⟩ := Option.map_eq_some_iff.mp hstep
    unfold virtualSpiCtrlSetCsState at hb'
    split_ifs at hb'
    obtain rfl := Option.some.inj hb'
    rw [hc.cs]
    exact ⟨hc, v, hclk.writeOneBit_of_ne (by decide) _⟩
  | write value =>
    obtain ⟨r, hr, rfl⟩ := Option.map_eq_some_iff.mp hstep
    have hfreq : c.freq ≠ 0 := by
      intro h0
      rw [virtualSpiCtrlWrite, if_pos h0] at hr
      exact nomatch hr
    obtain ⟨b', v', hwrite, hclk', -⟩ := sampled_write hc hclk hfreq value
    obtain rfl := Option.some.inj (hwrite.symm.trans hr)
    exact ⟨hc, v', hclk'⟩
  | read pValue =>
    obtain ⟨r, hr, rfl⟩ := Option.map_eq_some_iff.mp hstep
    cases pValue with
    | none =>
      obtain rfl := Option.some.inj hr
      exact ⟨hc, v, hclk⟩
    | some old =>
      have hfreq : c.freq ≠ 0 := by
        intro h0
        simp only [virtualSpiCtrlRead, if_pos h0, reduceCtorEq] at hr
      obtain ⟨b', v', hread, hclk'⟩ := read_value present hc hclk hfreq old
      obtain rfl := Option.some.inj (hread.symm.trans hr)
      exact ⟨hc, v', hclk'⟩

/-- The bus is ready after any calls. -/
theorem run_ready {present : Nat → Bool} {calls : List Call} {b₀ : Board}
    {s : VirtualSpiCtrl × Board}
    (hrun : runAll (Call.step present) calls (spiCtrlInit b₀) = some s) : Ready s :=
  runAll_inv (ready_step present) (ready_spiCtrlInit b₀) hrun

/-! ## When words are transferred -/

/-- A word holds the bits of another. -/
theorem or_eq_right_iff {x y : BitVec 32} :
    x ||| y = y ↔ ∀ i, x.getLsbD i = true → y.getLsbD i = true := by
  constructor
  · intro h i hi
    rw [← h, BitVec.getLsbD_or, hi, Bool.true_or]
  · intro h
    apply BitVec.eq_of_getLsbD_eq
    intro i _
    rw [BitVec.getLsbD_or]
    cases hx : x.getLsbD i with
    | false => rw [Bool.false_or]
    | true => rw [h i hx, Bool.true_or]

/-- A ready controller transfers words if its frequency is not 0 and what is in `*pValue` has no
bit that the word of the slave does not have. -/
theorem transfers_iff_of_ready {present : Nat → Bool} {c : VirtualSpiCtrl} {b : Board}
    (hready : Ready (c, b)) (value old : BitVec 32) :
    Transfers present c b value old ↔ c.freq ≠ 0 ∧ ∀ i, old.getLsbD i = true →
      (spelled (presented present b c.byteFormat.toNat)).getLsbD i = true := by
  obtain ⟨hc, v, hclk⟩ := hready
  rw [← or_eq_right_iff]
  constructor
  · rintro ⟨⟨b', hwrite, -⟩, b'', hread⟩
    -- at frequency 0 nothing is written
    have hfreq : c.freq ≠ 0 := by
      intro h0
      rw [virtualSpiCtrlWrite, if_pos h0] at hwrite
      exact nomatch hwrite
    obtain ⟨b₁, v₁, hread₁, -⟩ := read_value present hc hclk hfreq old
    have heq := Option.some.inj (hread₁.symm.trans hread)
    exact ⟨hfreq, Option.some.inj (Prod.mk.inj (Prod.mk.inj heq).2).1⟩
  · rintro ⟨hfreq, hold⟩
    obtain ⟨b', v', hwrite, -, hsampled⟩ := sampled_write hc hclk hfreq value
    obtain ⟨b'', v'', hread, -⟩ := read_value present hc hclk hfreq old
    rw [hold] at hread
    exact ⟨⟨b', hwrite, hsampled⟩, b'', hread⟩

/-- **When words are transferred**, after any calls on a controller. -/
theorem transfers_iff {present : Nat → Bool} {calls : List Call} {b₀ b : Board}
    {c : VirtualSpiCtrl}
    (hrun : runAll (Call.step present) calls (spiCtrlInit b₀) = some (c, b))
    (value old : BitVec 32) :
    Transfers present c b value old ↔ c.freq ≠ 0 ∧ ∀ i, old.getLsbD i = true →
      (spelled (presented present b c.byteFormat.toNat)).getLsbD i = true :=
  transfers_iff_of_ready (run_ready hrun) value old

/-- The pins at reset. -/
def resetBoard : Board := ⟨fun _ => ⟨false, false, false⟩, ⟨[], [], 0⟩⟩

/-- A word of ones is read into a variable that is 0. -/
theorem transfers_iff_ones :
    let s := spiCtrlInit resetBoard
    Transfers (fun _ => true) s.1 s.2 0xA5 0 ↔ s.1.freq ≠ 0 ∧ ∀ i, (0 : BitVec 32).getLsbD i = true →
      (spelled (presented (fun _ => true) s.2 s.1.byteFormat.toNat)).getLsbD i = true :=
  @transfers_iff _ [] resetBoard _ _ rfl _ _

/-- A word of zeros, read into a variable that still holds 1. -/
theorem reused_not_transfers :
    ¬Transfers (fun _ => false) (spiCtrlInit resetBoard).1 (spiCtrlInit resetBoard).2 0 1 := by
  intro h
  have hbit := ((transfers_iff_of_ready (ready_spiCtrlInit resetBoard) 0 1).mp h).2 0 (by decide)
  exact absurd hbit (by decide)

end PgClient.Spi
