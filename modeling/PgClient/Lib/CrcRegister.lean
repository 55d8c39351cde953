import Mathlib.Data.BitVec
import Mathlib.Logic.Function.Iterate

/-!
# CRC registers — reflected shift registers over `BitVec w`

A reflected CRC is a shift register: one clock moves the state one place
down and, when the bit that falls out is set, adds the polynomial. Bytes
are added into the low end of the state, eight clocks each.

The clock is linear over exclusive or, and it is injective as soon as the
polynomial has its top bit set (the bit that fell out can be read off the
top bit of the next state). Both together give the burst-error property:
two byte strings that differ only inside a window no wider than the
register leave it in different states.

Main results:

* `clock_xor` / `clock_injective` — linearity and injectivity of one clock.
* `run_state_injective` — a fixed byte string maps states injectively.
* `run_eq_iterate` — a window no wider than the register is one addition
  of its packed word followed by all its clocks.
* `run_burst` — the burst-error property.
-/

namespace CrcRegister

variable {w : Nat}

/-- One clock of the register. -/
def clock (poly s : BitVec w) : BitVec w :=
  (s >>> 1) ^^^ (if s.getLsbD 0 then poly else 0#w)

/-- One byte: added into the low end of the state, then eight clocks. -/
def step (poly s : BitVec w) (b : BitVec 8) : BitVec w :=
  (clock poly)^[8] (s ^^^ b.setWidth w)

/-- A byte string from the state `s`. -/
def run (poly s : BitVec w) (bs : List (BitVec 8)) : BitVec w :=
  bs.foldl (step poly) s

@[simp] theorem run_nil (poly s : BitVec w) : run poly s [] = s := rfl

@[simp] theorem run_cons (poly s : BitVec w) (b : BitVec 8) (bs : List (BitVec 8)) :
    run poly s (b :: bs) = run poly (step poly s b) bs := rfl

/-- The register goes on from where the first bytes left it. -/
theorem run_append (poly s : BitVec w) (as bs : List (BitVec 8)) :
    run poly s (as ++ bs) = run poly (run poly s as) bs := by
  simp [run, List.foldl_append]

/-! ## Linearity -/

/-- A clock is linear over exclusive or. -/
theorem clock_xor (poly s t : BitVec w) :
    clock poly (s ^^^ t) = clock poly s ^^^ clock poly t := by
  unfold clock
  apply BitVec.eq_of_getLsbD_eq
  intro i hi
  cases hs : s.getLsbD 0 <;> cases ht : t.getLsbD 0 <;>
    cases hp : poly.getLsbD i <;> simp [hs, ht, hp]

/-- A register of zeros stays one. -/
@[simp] theorem clock_zero (poly : BitVec w) : clock poly 0#w = 0#w := by
  simp [clock]

/-- So is any number of clocks. -/
theorem iterate_clock_xor (poly : BitVec w) (n : Nat) (s t : BitVec w) :
    (clock poly)^[n] (s ^^^ t) = (clock poly)^[n] s ^^^ (clock poly)^[n] t := by
  induction n generalizing s t with
  | zero => rfl
  | succ n ih => simp only [Function.iterate_succ_apply, clock_xor, ih]

/-! ## Injectivity -/

/-- The bit that fell out is the top bit of the next state. -/
theorem clock_top (poly s : BitVec w) (hw : 0 < w) (hpoly : poly.getLsbD (w - 1) = true) :
    (clock poly s).getLsbD (w - 1) = s.getLsbD 0 := by
  have hout : s.getLsbD (1 + (w - 1)) = false := BitVec.getLsbD_of_ge s _ (by omega)
  cases hs : s.getLsbD 0 <;> simp [clock, hs, hpoly, hout]

/-- With the top bit in the polynomial no two states have the same next one. -/
theorem clock_injective (poly : BitVec w) (hw : 0 < w)
    (hpoly : poly.getLsbD (w - 1) = true) : Function.Injective (clock poly) := by
  intro s t h
  -- the top bit of the next state is the bit that was shifted out
  have h0 : s.getLsbD 0 = t.getLsbD 0 := by
    rw [← clock_top poly s hw hpoly, ← clock_top poly t hw hpoly, h]
  apply BitVec.eq_of_getLsbD_eq
  intro i hi
  cases i with
  | zero => exact h0
  | succ i =>
    -- so the polynomial was added in both or in neither
    have hbit := congrArg (fun x : BitVec w => x.getLsbD i) h
    simp only [clock, BitVec.getLsbD_xor, BitVec.getLsbD_ushiftRight, h0] at hbit
    rw [Nat.add_comm 1 i] at hbit
    exact Bool.xor_left_inj.mp hbit

/-- So a byte does not bring two states together either. -/
theorem step_injective (poly : BitVec w) (hw : 0 < w)
    (hpoly : poly.getLsbD (w - 1) = true) (b : BitVec 8) :
    Function.Injective fun s => step poly s b := by
  intro s t h
  have h' := (clock_injective poly hw hpoly).iterate 8 h
  simpa using congrArg (· ^^^ b.setWidth w) h'

/-- A fixed byte string maps states injectively. -/
theorem run_state_injective (poly : BitVec w) (hw : 0 < w)
    (hpoly : poly.getLsbD (w - 1) = true) (bs : List (BitVec 8)) :
    Function.Injective fun s => run poly s bs := by
  induction bs with
  | nil => exact fun _ _ h => h
  | cons b bs ih => exact fun _ _ h => step_injective poly hw hpoly b (ih h)

/-! ## Windows no wider than the register -/

/-- A state whose low `n` bits are clear only moves down for `n` clocks. -/
theorem iterate_clock_of_low_clear (poly s : BitVec w) :
    ∀ n, (∀ i < n, s.getLsbD i = false) → (clock poly)^[n] s = s >>> n
  | 0, _ => by simp
  | n + 1, h => by
    rw [Function.iterate_succ_apply',
      iterate_clock_of_low_clear poly s n fun i hi => h i (by omega)]
    have hbit : (s >>> n).getLsbD 0 = false := by simpa using h n (by omega)
    simp only [clock, hbit, Bool.false_eq_true, if_false, BitVec.xor_zero,
      BitVec.shiftRight_add]

/-- The word a window of bytes spells, first byte lowest. -/
def pack (w : Nat) : List (BitVec 8) → BitVec w
  | [] => 0#w
  | b :: bs => b.setWidth w ^^^ (pack w bs <<< 8)

/-- A packed window reaches no bit above its last byte. -/
theorem pack_getLsbD_of_ge (bs : List (BitVec 8)) (i : Nat) (hi : 8 * bs.length ≤ i) :
    (pack w bs).getLsbD i = false := by
  induction bs generalizing i with
  | nil => simp [pack]
  | cons b bs ih =>
    simp only [List.length_cons] at hi
    have hb : b.getLsbD i = false := BitVec.getLsbD_of_ge b i (by omega)
    simp [pack, hb, ih (i - 8) (by omega)]

/-- A window no wider than the register is its packed word, added at once
and followed by all its clocks. -/
theorem run_eq_iterate (poly s : BitVec w) (bs : List (BitVec 8))
    (hfit : 8 * bs.length ≤ w) :
    run poly s bs = (clock poly)^[8 * bs.length] (s ^^^ pack w bs) := by
  induction bs generalizing s with
  | nil => simp [pack]
  | cons b bs ih =>
    simp only [List.length_cons] at hfit
    have hlow : ∀ i < 8, (pack w bs <<< 8).getLsbD i = false := by
      intro i hi
      simp [hi]
    -- the later bytes sit above the eight clocks of `b`, so these only move them down
    have hdown : (clock poly)^[8] (pack w bs <<< 8) = pack w bs := by
      rw [iterate_clock_of_low_clear poly _ 8 hlow]
      apply BitVec.eq_of_getLsbD_eq
      intro i hi
      simp only [BitVec.getLsbD_ushiftRight, BitVec.getLsbD_shiftLeft]
      by_cases hw : 8 + i < w
      · simp [hw]
      · simp [hw, pack_getLsbD_of_ge bs i (by omega)]
    rw [run_cons, ih _ (by omega), step, List.length_cons, Nat.mul_succ,
      Function.iterate_add_apply, pack, ← BitVec.xor_assoc,
      iterate_clock_xor poly 8 _ (pack w bs <<< 8), hdown]

/-- Packing is injective on windows of one length that fit the register. -/
theorem pack_injective {as bs : List (BitVec 8)} (hlen : as.length = bs.length)
    (hfit : 8 * as.length ≤ w) (h : pack w as = pack w bs) : as = bs := by
  induction as generalizing bs with
  | nil => exact (List.length_eq_zero_iff.mp hlen.symm).symm
  | cons a as ih =>
    obtain ⟨b, bs, rfl⟩ := List.exists_cons_of_length_eq_add_one hlen.symm
    simp only [List.length_cons, Nat.add_right_cancel_iff] at hlen hfit
    have hbits : ∀ i, (pack w (a :: as)).getLsbD i = (pack w (b :: bs)).getLsbD i :=
      fun i => by rw [h]
    simp only [pack, BitVec.getLsbD_xor, BitVec.getLsbD_setWidth,
      BitVec.getLsbD_shiftLeft] at hbits
    -- the low eight bits are those of the first byte,
    have hhead : a = b := by
      apply BitVec.eq_of_getLsbD_eq
      intro i hi
      simpa [hi, show i < w by omega] using hbits i
    -- and the bits above them those of the rest
    have htail : pack w as = pack w bs := by
      apply BitVec.eq_of_getLsbD_eq
      intro i hi
      by_cases hw : i + 8 < w
      · have ha : a.getLsbD (i + 8) = false := BitVec.getLsbD_of_ge a _ (by omega)
        have hb : b.getLsbD (i + 8) = false := BitVec.getLsbD_of_ge b _ (by omega)
        simpa [hw, ha, hb, show ¬ i + 8 < 8 by omega] using hbits (i + 8)
      · rw [pack_getLsbD_of_ge as i (by omega), pack_getLsbD_of_ge bs i (by omega)]
    rw [hhead, ih hlen (by omega) htail]

/-- **Burst errors are seen.** Two byte strings that differ only inside a
window no wider than the register leave different states. -/
theorem run_burst (poly s : BitVec w) (hpoly : poly.getLsbD (w - 1) = true)
    (pre post : List (BitVec 8)) {as bs : List (BitVec 8)} (hlen : as.length = bs.length)
    (hfit : 8 * as.length ≤ w)
    (h : run poly s (pre ++ as ++ post) = run poly s (pre ++ bs ++ post)) : as = bs := by
  have hw : 0 < w := by
    by_contra hzero
    obtain rfl : w = 0 := by omega
    simp at hpoly
  rw [run_append, run_append, run_append poly s (pre ++ bs), run_append poly s pre] at h
  -- what follows the window does not bring two states together
  have hmid := run_state_injective poly hw hpoly post h
  rw [run_eq_iterate poly _ as hfit, run_eq_iterate poly _ bs (hlen ▸ hfit), ← hlen] at hmid
  have hsum := (clock_injective poly hw hpoly).iterate _ hmid
  -- the state before it is the same in both
  have hpack : pack w as = pack w bs := by
    have := congrArg (run poly s pre ^^^ ·) hsum
    simpa [← BitVec.xor_assoc] using this
  exact pack_injective hlen hfit hpack

end CrcRegister
