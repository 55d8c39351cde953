import PgClient.Lib.CrcRegister

/-!
# CRC-32 of the transport layers

`crc32Le` embeds `crc32_le` of `util.c`. The state is an `unsigned long`,
32 bits wide on the ARM target; `CRCPOLY_LE` serves both as the polynomial
and, at every call, as the initial state.

`crc32Le_burst` brings the burst-error property of `CrcRegister` down to
it: a change inside four consecutive bytes always changes the checksum.
-/

namespace PgClient

/-- `unsigned char`. -/
abbrev Byte := BitVec 8

namespace Numerals

/-- How a byte is found in a list. -/
scoped instance lawfulBEq_byte : LawfulBEq Byte := inferInstance

/-- The four channels are numerals of `Fin 4`. -/
scoped instance neZero_channels : NeZero 4 := ⟨Nat.succ_ne_zero 3⟩

end Numerals

/-- `CRCPOLY_LE`. -/
def crcPolyLe : BitVec 32 := 0xedb88320#32

/-- The inner loop body: `crc = (crc >> 1) ^ ((crc & 1) ? CRCPOLY_LE : 0)`. -/
def crcShift (crc : BitVec 32) : BitVec 32 :=
  (crc >>> 1) ^^^ (if crc &&& 1#32 ≠ 0#32 then crcPolyLe else 0#32)

/-- The inner loop `for (i = 0; i < n; i++)`. -/
def crcShifts : Nat → BitVec 32 → BitVec 32
  | 0, crc => crc
  | n + 1, crc => crcShifts n (crcShift crc)

/-- `crc32_le`: the outer loop over the bytes. -/
def crc32Le (crc : BitVec 32) : List Byte → BitVec 32
  | [] => crc
  | p :: ps => crc32Le (crcShifts 8 (crc ^^^ p.setWidth 32)) ps

/-- A shift of the source is a clock of the register. -/
theorem crcShift_eq_clock (crc : BitVec 32) :
    crcShift crc = CrcRegister.clock crcPolyLe crc := by
  have hbit : (crc &&& 1#32 ≠ 0#32) ↔ crc.getLsbD 0 = true := by
    rw [BitVec.and_one_eq_setWidth_ofBool_getLsbD]
    cases crc.getLsbD 0 <;> decide
  simp only [crcShift, CrcRegister.clock, hbit]

/-- So are eight of them in a row. -/
theorem crcShifts_eq_iterate (n : Nat) (crc : BitVec 32) :
    crcShifts n crc = (CrcRegister.clock crcPolyLe)^[n] crc := by
  induction n generalizing crc with
  | zero => rfl
  | succ n ih => rw [crcShifts, ih, crcShift_eq_clock, Function.iterate_succ_apply]

/-- `crc32_le` is the CRC register run over the bytes. -/
theorem crc32Le_eq_run (crc : BitVec 32) (ps : List Byte) :
    crc32Le crc ps = CrcRegister.run crcPolyLe crc ps := by
  induction ps generalizing crc with
  | nil => rfl
  | cons p ps ih =>
    rw [crc32Le, ih, crcShifts_eq_iterate, CrcRegister.run_cons, CrcRegister.step]

/-- A change inside four consecutive bytes changes the checksum. -/
theorem crc32Le_burst (crc : BitVec 32) (pre post : List Byte) {old new : List Byte}
    (hlen : old.length = new.length) (hfit : old.length ≤ 4) (hne : old ≠ new) :
    crc32Le crc (pre ++ old ++ post) ≠ crc32Le crc (pre ++ new ++ post) := by
  intro h
  rw [crc32Le_eq_run, crc32Le_eq_run] at h
  exact hne (CrcRegister.run_burst crcPolyLe crc (by decide) pre post hlen (by omega) h)

end PgClient
