import Mathlib.Data.BitVec
import Mathlib.Logic.Function.Basic

/-!
# GPIO pins

The pins of `gpioCtrl.cpp`: each has a bit in the direction, the enable and the output registers,
and drives its output when it is an enabled output. A pin that is not driven is pulled up.

What is connected to the pins sees their levels after every access. It is a state of its own, and
`observe` says how it goes on from the pins before an access and after it.
-/

namespace PgClient.Gpio

open Function (update)

/-- The three registers, at the offset of a pin. -/
structure Pin where
  dir : Bool
  enabled : Bool
  value : Bool
  deriving DecidableEq

def Pin.level (p : Pin) : Bool := if p.dir && p.enabled then p.value else true

/-- An output shows its value where it is enabled. -/
@[simp] theorem Pin.level_driven (v : Bool) : Pin.level ⟨true, true, v⟩ = v := rfl
@[simp] theorem Pin.level_input (e v : Bool) : Pin.level ⟨false, e, v⟩ = true := rfl

/-- The pins, and what is connected to them. -/
structure Board (ι σ : Type) where
  pins : ι → Pin
  side : σ

variable {ι σ : Type} [DecidableEq ι] (observe : (ι → Pin) → (ι → Pin) → σ → σ)

/-- One access to a register. -/
def access (pin : ι) (f : Pin → Pin) (b : Board ι σ) : Board ι σ :=
  let pins := update b.pins pin (f (b.pins pin))
  ⟨pins, observe b.pins pins b.side⟩

/-- `HI_UNF_GPIO_SetDirBit`. -/
def setDirBit (pin : ι) (bInput : Bool) : Board ι σ → Board ι σ :=
  access observe pin fun p => { p with dir := !bInput }

/-- `HI_UNF_GPIO_Enable`. -/
def enable (pin : ι) (bEnable : Bool) : Board ι σ → Board ι σ :=
  access observe pin fun p => { p with enabled := bEnable }

/-- `HI_UNF_GPIO_WriteBit`. -/
def writeBit (pin : ι) (bHighVolt : Bool) : Board ι σ → Board ι σ :=
  access observe pin fun p => { p with value := bHighVolt }

/-- `_writeOneBit` of the two bit-banged controllers, and `gpio_set_output_value`. -/
def writeOneBit (pin : ι) (value : Bool) (b : Board ι σ) : Board ι σ :=
  writeBit observe pin value (enable observe pin true (setDirBit observe pin false b))

variable (b : Board ι σ) (pin : ι) (value : Bool)

/-- Only the direction of the pin is changed. -/
@[simp] theorem setDirBit_pins (bInput : Bool) :
    (setDirBit observe pin bInput b).pins =
      update b.pins pin { b.pins pin with dir := !bInput } := rfl

/-- Afterwards the pin drives its value. -/
@[simp] theorem writeOneBit_pins :
    (writeOneBit observe pin value b).pins = update b.pins pin ⟨true, true, value⟩ := by
  simp [writeOneBit, writeBit, enable, setDirBit, access]

/-- What is connected sees the pin become an output, be enabled, and go to its value. -/
theorem writeOneBit_side :
    (writeOneBit observe pin value b).side =
      let p₁ := update b.pins pin { b.pins pin with dir := true }
      let p₂ := update b.pins pin ⟨true, true, (b.pins pin).value⟩
      observe p₂ (update b.pins pin ⟨true, true, value⟩)
        (observe p₁ p₂ (observe b.pins p₁ b.side)) := by
  simp [writeOneBit, writeBit, enable, setDirBit, access]

/-- A bit that was read, shifted to its place in a word. -/
theorem getLsbD_bit {w : Nat} (x : Bool) {k j : Nat} (hk : k < w) :
    ((BitVec.ofBool x).setWidth w <<< k : BitVec w).getLsbD j = (decide (j = k) && x) := by
  rw [BitVec.getLsbD_shiftLeft, BitVec.getLsbD_setWidth, BitVec.getLsbD_ofBool]
  rcases lt_trichotomy j k with h | rfl | h
  · simp [h, h.ne]
  · simp [hk, Nat.zero_lt_of_lt hk]
  · simp [h.ne', show j - k ≠ 0 by omega]

end PgClient.Gpio
