import PgClient.Spi.VirtualSpi

/-!
# What goes over the wire

The bit-banged SPI as its slave sees it: the bits it has taken while it was selected, whether it is
selected, and the size of a word. Between words the clock rests at its high level, so that only words
are taken.

* `Wire` — the abstract line; a word is written to a slave that is selected, or not at all.
* `run_wire` — the controller and its pins do what the line does.
-/

namespace PgClient.Spi

open Function (update)
open PartialRun Gpio

/-- The line. -/
structure Wire where
  /-- The bits that the slave has taken. -/
  taken : List Bool
  selected : Bool
  /-- The bits of a word. -/
  format : Nat
  deriving DecidableEq

/-- The calls that do not change the clock by themselves, and writes. -/
def Wire.step : Call → Wire → Option Wire
  | .setMode _, w => some { w with selected := false }
  | .setByteFormat byteFormat, w =>
    some (if byteFormat.toNat < 1 ∨ 32 < byteFormat.toNat then w
      else { w with format := byteFormat.toNat })
  | .setCsState value, w => some { w with selected := !value.getLsbD 0 }
  | .write value, w =>
    if w.selected then some { w with taken := w.taken ++ wordBits value w.format } else none
  | _, _ => none

/-- A controller at the end of a word: it samples on the rising edge, and the clock is high. -/
structure Resting (s : VirtualSpiCtrl × Board) : Prop where
  wired : Wired s.1
  edge : s.1.edge = edgeRise
  freq : s.1.freq ≠ 0
  clk : Clocked s.2 true

/-- The controller and the pins stand for the line. -/
structure Carries (s : VirtualSpiCtrl × Board) (w : Wire) : Prop where
  resting : Resting s
  taken : s.2.side.taken = w.taken
  /-- The chip select is low when the slave is selected. -/
  selected : (s.2.pins .cs).level = !w.selected
  format : s.1.byteFormat.toNat = w.format

section Steps

variable {c : VirtualSpiCtrl} {b : Board} {edge : BitVec 32}

/-- Only its own pin changes the selection. -/
theorem writeOneBit_cs {pin : SpiPin} (hpin : pin ≠ .cs) (value : Bool) (b : Board) :
    (writeOneBit (observe edge) pin value b).pins .cs = b.pins .cs := by
  rw [writeOneBit_pins, Function.update_of_ne hpin.symm]

/-- A clock that is high and driven high again has no edge. -/
theorem writeOneBit_clk_side (h : Clocked b true) :
    (writeOneBit (observe edge) .sck true b).side = b.side := by
  rw [h.writeOneBit_side]
  exact observe_still (by rw [Function.update_self, h]) _

/-- An output that is set to be an output stays as it is. -/
theorem setDirBit_clk (h : Clocked b true) : setDirBit (observe edge) .sck false b = b := by
  have hsame : update b.pins .sck { b.pins .sck with dir := !false } = b.pins := by
    have hpin : ({ b.pins .sck with dir := !false } : Pin) = b.pins .sck := by
      unfold Clocked at h
      simp only [h, Bool.not_false]
    rw [hpin, Function.update_eq_self]
  rw [setDirBit, access, hsame, observe_still rfl]

/-- A turn of a word leaves the clock high, and the chip select alone. -/
theorem writeTurn_rest (hc : Wired c) (hedge : c.edge = edgeRise) (value : BitVec 32) (b : Board)
    (i : Nat) : Clocked (writeTurn c value b i) true ∧
      (writeTurn c value b i).pins .cs = b.pins .cs := by
  unfold writeTurn
  rw [hc.clk, hc.write, if_pos hedge]
  refine ⟨clocked_writeOneBit _ _, ?_⟩
  rw [writeOneBit_cs (by decide), writeOneBit_cs (by decide), writeOneBit_cs (by decide)]

/-- Behind each bit the clock is high again and the selection is as it was. -/
theorem foldl_writeTurn_rest (hc : Wired c) (hedge : c.edge = edgeRise) (value : BitVec 32)
    (h : Clocked b true) (k : Nat) :
    Clocked ((List.range k).foldl (writeTurn c value) b) true ∧
      ((List.range k).foldl (writeTurn c value) b).pins .cs = b.pins .cs := by
  -- the induction is on the bits that were sent
  induction k with
  | zero => exact ⟨h, rfl⟩
  | succ k ih =>
    obtain ⟨hclk, hcs⟩ :=
      writeTurn_rest hc hedge value ((List.range k).foldl (writeTurn c value) b) k
    rw [List.range_succ, List.foldl_append, List.foldl_cons, List.foldl_nil]
    exact ⟨hclk, hcs.trans ih.2⟩

/-- In a turn a slave that is selected takes one bit. -/
theorem writeTurn_taken (hc : Wired c) (hedge : c.edge = edgeRise) (hclk : Clocked b true)
    (hdir : Driving b) (hcs : (b.pins .cs).level = false) (value : BitVec 32) (i : Nat) :
    (writeTurn c value b i).side.taken =
      b.side.taken ++ [value.getLsbD (c.byteFormat.toNat - i - 1)] := by
  unfold Driving at hdir
  unfold writeTurn
  rw [hc.clk, hc.write, if_pos hedge,
    ((clocked_writeOneBit b false).writeOneBit_of_ne (by decide) _).writeOneBit_side,
    writeOneBit_side_of_ne (by decide), hclk.writeOneBit_side]
  -- the clock falls, the data line is set, and the clock rises
  simp [observe, hedge, dataLine, hdir, hcs]

/-- While it is selected, the slave takes the bits of the word from the highest on. -/
theorem foldl_writeTurn_taken (hc : Wired c) (hedge : c.edge = edgeRise) (hclk : Clocked b true)
    (hdir : Driving b) (hcs : (b.pins .cs).level = false) (value : BitVec 32) (k : Nat) :
    ((List.range k).foldl (writeTurn c value) b).side.taken =
      b.side.taken ++ (List.range k).map fun i => value.getLsbD (c.byteFormat.toNat - i - 1) := by
  -- the clock rests, the driver is an output and the slave is selected before every turn
  induction k with
  | zero => exact (List.append_nil _).symm
  | succ k ih =>
    obtain ⟨hclk', hcs'⟩ := foldl_writeTurn_rest hc hedge value hclk k
    obtain ⟨-, hdir', -⟩ := foldl_writeTurn hc hclk hdir value k
    rw [List.range_succ, List.foldl_append, List.map_append, List.foldl_cons, List.foldl_nil,
      writeTurn_taken hc hedge hclk' hdir' (by rw [hcs', hcs]), ih, List.append_assoc]
    rfl

/-- **A word to a slave that is selected**: it takes its bits, and stays selected. -/
theorem taken_write (hc : Wired c) (hedge : c.edge = edgeRise) (hfreq : c.freq ≠ 0)
    (hclk : Clocked b true) (hcs : (b.pins .cs).level = false) (value : BitVec 32) :
    ∃ b', virtualSpiCtrlWrite c value b = some (0, b') ∧ Clocked b' true ∧
      (b'.pins .cs).level = false ∧
      b'.side.taken = b.side.taken ++ wordBits value c.byteFormat.toNat := by
  -- the direction is set first; it leaves the clock and the chip select alone
  have hclk₁ : Clocked (writeOneBit (observe c.edge) .mosiDir true b) true :=
    hclk.writeOneBit_of_ne (by decide) true
  have hdir₁ : Driving (writeOneBit (observe c.edge) .mosiDir true b) := by
    rw [Driving, writeOneBit_pins, Function.update_self]
  have hcs₁ : ((writeOneBit (observe c.edge) .mosiDir true b).pins .cs).level = false := by
    rw [writeOneBit_cs (by decide), hcs]
  obtain ⟨hclk', hcs'⟩ := foldl_writeTurn_rest hc hedge value hclk₁ c.byteFormat.toNat
  refine ⟨_, by rw [virtualSpiCtrlWrite, if_neg hfreq], ?_, ?_, ?_⟩
  · rw [hc.writeDir]
    exact hclk'
  · rw [hc.writeDir, hcs', hcs₁]
  · rw [hc.writeDir, foldl_writeTurn_taken hc hedge hclk₁ hdir₁ hcs₁,
      writeOneBit_side_of_ne (by decide)]
    rfl

/-- The set-up of the pins: no bit is taken, and the slave is not selected. -/
theorem gpioInit_rest (hc : Wired c) (hb : Clocked b true) :
    Clocked (virtualSpiCtrlGpioInit c b) true ∧ (virtualSpiCtrlGpioInit c b).side = b.side ∧
      ((virtualSpiCtrlGpioInit c b).pins .cs).level = true := by
  have hread : c.readGpio ≠ .sck := by
    rcases hc.read with h | h <;> rw [h] <;> decide
  unfold virtualSpiCtrlGpioInit
  rw [hc.write, hc.clk, hc.cs]
  have hdir : ∀ {b : Board} {pin : SpiPin}, Clocked b true → pin ≠ .sck → ∀ bInput,
      Clocked (setDirBit (observe c.edge) pin bInput b) true :=
    fun h hpin bInput => h.setDirBit_of_ne hpin bInput
  -- the clock, behind the first two accesses
  have hclk₂ := hdir (hdir hb (show SpiPin.mosi ≠ .sck by decide) false) hread true
  have hclk₄ := hdir hclk₂ (show SpiPin.cs ≠ .sck by decide) false
  have hclk₅ : Clocked (writeOneBit (observe c.edge) .cs true _) true :=
    hclk₄.writeOneBit_of_ne (by decide) true
  dsimp only
  rw [setDirBit_clk hclk₂]
  refine ⟨?_, ?_, ?_⟩
  · exact (clocked_writeOneBit _ true).writeOneBit_of_ne (show SpiPin.mosi ≠ .sck by decide) true
  · rw [writeOneBit_side_of_ne (by decide), writeOneBit_clk_side hclk₅,
      writeOneBit_side_of_ne (by decide), setDirBit_side (by decide), setDirBit_side hread,
      setDirBit_side (by decide)]
  · rw [writeOneBit_cs (by decide), writeOneBit_cs (by decide), writeOneBit_pins,
      Function.update_self]
    rfl

end Steps

/-- The controller as `spiCtrlInit` leaves it. -/
theorem resting_spiCtrlInit (b : Board) : Resting (spiCtrlInit b) where
  wired := (ready_spiCtrlInit b).1
  edge := rfl
  freq := show (500000 : BitVec 32) ≠ 0 by decide
  clk := (clocked_writeOneBit _ true).writeOneBit_of_ne (show SpiPin.mosi ≠ .sck by decide) true

/-- What the slave of a controller sees. -/
def wireOf (s : VirtualSpiCtrl × Board) : Wire :=
  ⟨s.2.side.taken, !(s.2.pins .cs).level, s.1.byteFormat.toNat⟩

/-- A resting bus carries the wire that is read off it. -/
theorem carries_wireOf {s : VirtualSpiCtrl × Board} (h : Resting s) : Carries s (wireOf s) :=
  ⟨h, rfl, (Bool.not_not _).symm, rfl⟩

/-- It carries no other. -/
theorem Carries.wireOf_eq {s : VirtualSpiCtrl × Board} {w : Wire} (h : Carries s w) :
    wireOf s = w := by
  rw [wireOf, h.taken, h.selected, h.format, Bool.not_not]

/-- **The controller follows the line.** -/
theorem carries_step (present : Nat → Bool) (call : Call) (s : VirtualSpiCtrl × Board)
    (w w' : Wire) (h : Carries s w) (hstep : w.step call = some w') :
    ∃ s', call.step present s = some s' ∧ Carries s' w' := by
  obtain ⟨c, b⟩ := s
  obtain ⟨⟨hc, hedge, hfreq, hclk⟩, htaken, hselected, hformat⟩ := h
  cases call with
  -- these calls are none of the line
  | setFreq freq => cases hstep
  | setEdge edge => cases hstep
  | read pValue => cases hstep
  | setMode mode =>
    obtain rfl := Option.some.inj hstep
    -- the pins are set up anew, and are left as they were
    have hwired := (ready_setMode hc.one_le hc.le mode b).1
    obtain ⟨hclk', hside, hcs⟩ := gpioInit_rest hwired hclk
    exact ⟨_, rfl, ⟨hwired, hedge, hfreq, hclk'⟩, (congrArg Slave.taken hside).trans htaken, hcs,
      hformat⟩
  | setByteFormat byteFormat =>
    obtain rfl := Option.some.inj hstep
    refine ⟨_, rfl, ?_⟩
    unfold virtualSpiCtrlSetByteFormat
    split
    · exact ⟨⟨hc, hedge, hfreq, hclk⟩, htaken, hselected, hformat⟩
    · exact ⟨⟨⟨hc.write, hc.read, hc.cs, hc.clk, hc.writeDir, by simp only; omega,
        by simp only; omega⟩, hedge, hfreq, hclk⟩, htaken, hselected, rfl⟩
  | setCsState value =>
    obtain rfl := Option.some.inj hstep
    have hcs : c.csGpio = .cs := hc.cs
    have hcall : (Call.setCsState value).step present (c, b) =
        some (c, writeOneBit (observe c.edge) .cs (value.getLsbD 0) b) := by
      rw [Call.step, virtualSpiCtrlSetCsState, if_neg hfreq, hcs]
      rfl
    -- only the chip select changes, and it is no edge of the clock
    refine ⟨_, hcall, ⟨hc, hedge, hfreq, hclk.writeOneBit_of_ne (by decide) _⟩, ?_, ?_, hformat⟩
    · exact (congrArg Slave.taken (writeOneBit_side_of_ne (by decide) _)).trans htaken
    · show Pin.level ((writeOneBit (observe c.edge) .cs (value.getLsbD 0) b).pins .cs) = _
      rw [writeOneBit_pins, Function.update_self, Bool.not_not]
      rfl
  | write value =>
    rw [Wire.step] at hstep
    split at hstep
    · next hsel =>
      obtain rfl := Option.some.inj hstep
      have hcs : (b.pins .cs).level = false := by rw [hselected, hsel, Bool.not_true]
      obtain ⟨b', hwrite, hclk', hcs', hbits⟩ := taken_write hc hedge hfreq hclk hcs value
      refine ⟨(c, b'), by rw [Call.step, hwrite]; rfl, ⟨hc, hedge, hfreq, hclk'⟩, ?_, ?_, hformat⟩
      · show b'.side.taken = _
        rw [hbits, htaken, hformat]
      · show (b'.pins .cs).level = _
        rw [hcs', hsel, Bool.not_true]
    · cases hstep

/-- **A run of calls**, if the line allows it. -/
theorem run_wire (present : Nat → Bool) {calls : List Call} {s : VirtualSpiCtrl × Board} {w : Wire}
    (hs : Resting s) (hrun : runAll Wire.step calls (wireOf s) = some w) :
    ∃ s', runAll (Call.step present) calls s = some s' ∧ Resting s' ∧ wireOf s' = w := by
  obtain ⟨s', hrun', h'⟩ := runAll_sim (carries_step present) (carries_wireOf hs) hrun
  exact ⟨s', hrun', h'.resting, h'.wireOf_eq⟩

end PgClient.Spi
