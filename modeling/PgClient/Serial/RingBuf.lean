import PgClient.Lib.PartialRun
import PgClient.Lib.RingBuffer
import PgClient.Util.Crc32

/-!
# The ring buffer of the serial devices

`ringBuf.h`: a ring of bytes with a read and a write position, and no count. Equal
positions mean an empty ring, but a write may use every byte of it.

* `ringBufWrite_accepted`, `takeOut_eq` — what a write appends, and what a read or a
  clone copies.
* `ringBuf_fifo_iff` — which runs are those of a byte queue.
-/

namespace PgClient.Serial

open PartialRun
open RingBuffer (blit slice contents)

/-- `ringbuf_t`; the positions and the length are `unsigned int`. -/
structure Ringbuf where
  read : Nat
  write : Nat
  len : Nat
  pData : List Byte
  deriving DecidableEq

/-! ## The code -/

/-- `ringBufInit`; `none` is the return value -1. -/
def ringBufInit (length : Nat) : Option Ringbuf :=
  if length ≤ 2 then none else some ⟨0, 0, length, List.replicate length 0⟩

/-- `ringBufClear`. -/
def ringBufClear (b : Ringbuf) : Ringbuf :=
  { b with read := 0, write := 0, pData := List.replicate b.len 0 }

def ringBufAvailableBytesForWrite (b : Ringbuf) : Nat :=
  if b.write > b.read then b.len - b.write + b.read
  else if b.write = b.read then b.len
  else b.read - b.write

def ringBufAvailableBytesForRead (b : Ringbuf) : Nat :=
  if b.write > b.read then b.write - b.read
  else if b.write = b.read then 0
  else b.len - b.read + b.write

/-- `memcpy` into the buffer, undefined outside of it. -/
def copyIn (pData : List Byte) (off : Nat) (data : List Byte) : Option (List Byte) :=
  if off + data.length ≤ pData.length then some (blit pData off data) else none

/-- `memcpy` out of the buffer. -/
def copyOut (pData : List Byte) (off n : Nat) : Option (List Byte) :=
  if off + n ≤ pData.length then some (slice pData off n) else none

/-- `ringBufWrite`: what it returns, and the buffer. -/
def ringBufWrite (b : Ringbuf) (data : List Byte) : Option (Nat × Ringbuf) :=
  let length := data.length
  if ringBufAvailableBytesForWrite b < length then some (0, b)
  else
    -- an `unsigned int`, which wraps before it is compared
    let nextWrite := (b.write + length) % 2 ^ 32
    if nextWrite ≥ b.len then do
      let fstSegLen := b.len - b.write
      let secSegLen := length - fstSegLen
      let pData ← copyIn b.pData b.write (data.take fstSegLen)
      let pData ← if secSegLen > 0 then copyIn pData 0 (data.drop fstSegLen) else some pData
      some (length, { b with pData := pData, write := secSegLen })
    else do
      let pData ← copyIn b.pData b.write data
      some (length, { b with pData := pData, write := nextWrite })

/-- The part that `ringBufRead` and `ringBufClone` have in common: the bytes copied, and
`nextRead`. -/
def takeOut (b : Ringbuf) (length : Nat) : Option (List Byte × Nat) :=
  let nextRead := (b.read + length) % 2 ^ 32
  if nextRead ≥ b.len then do
    let fstSegLen := b.len - b.read
    let secSegLen := length - fstSegLen
    let fst ← copyOut b.pData b.read fstSegLen
    let snd ← if secSegLen > 0 then copyOut b.pData 0 secSegLen else some []
    some (fst ++ snd, secSegLen)
  else do
    let out ← copyOut b.pData b.read length
    some (out, nextRead)

/-- `ringBufRead`: the bytes, whose number it returns, and the buffer. -/
def ringBufRead (b : Ringbuf) (length : Nat) : Option (List Byte × Ringbuf) :=
  if ringBufAvailableBytesForRead b < length then some ([], b)
  else do
    let (out, nextRead) ← takeOut b length
    some (out, { b with read := nextRead })

/-- `ringBufClone`. -/
def ringBufClone (b : Ringbuf) (length : Nat) : Option (List Byte) :=
  if ringBufAvailableBytesForRead b < length then some []
  else do
    let (out, _) ← takeOut b length
    some out

/-! ## The bytes in a ring -/

namespace Ringbuf

/-- The number of bytes that can be read. -/
abbrev readable (b : Ringbuf) : Nat := ringBufAvailableBytesForRead b

/-- The bytes that can be read. -/
def bytes (b : Ringbuf) : List Byte := contents b.pData b.read b.readable

/-- A ring that `ringBufInit` has set up and the operations have kept. -/
structure Ok (b : Ringbuf) : Prop where
  pData : b.pData.length = b.len
  read : b.read < b.len
  write : b.write < b.len
  len : b.len < 2 ^ 32

variable {b : Ringbuf}

namespace Ok

/-- The ring never holds as many bytes as it is long. -/
theorem readable_lt (h : b.Ok) : b.readable < b.len := by
  have hr := h.read
  have hw := h.write
  unfold readable ringBufAvailableBytesForRead
  split_ifs <;> omega

/-- What is not readable is free. -/
theorem available_eq (h : b.Ok) : ringBufAvailableBytesForWrite b = b.len - b.readable := by
  have hr := h.read
  have hw := h.write
  unfold readable ringBufAvailableBytesForWrite ringBufAvailableBytesForRead
  split_ifs <;> omega

/-- The write position is where the readable bytes end. -/
theorem write_eq (h : b.Ok) : b.write = (b.read + b.readable) % b.len := by
  have hr := h.read
  have hw := h.write
  have hlt := h.readable_lt
  rcases RingBuffer.mod_cases (show b.read + b.readable < 2 * b.len by omega) with
    ⟨hin, hmod⟩ | ⟨hout, hmod⟩
  · rw [hmod]
    unfold readable ringBufAvailableBytesForRead at hin hlt ⊢
    split_ifs at hin hlt ⊢ <;> omega
  · rw [hmod]
    unfold readable ringBufAvailableBytesForRead at hout hlt ⊢
    split_ifs at hout hlt ⊢ <;> omega

/-- `readable` counts the bytes. -/
theorem length_bytes (h : b.Ok) : b.bytes.length = b.readable := by
  refine RingBuffer.contents_length ?_
  rw [h.pData]
  exact h.readable_lt.le

end Ok

/-- The positions fix the number of readable bytes, up to a full turn. -/
theorem readable_of_write (hr : b.read < b.len) {m : Nat} (hm : m < b.len)
    (hw : b.write = (b.read + m) % b.len) : b.readable = m := by
  rcases RingBuffer.mod_cases (show b.read + m < 2 * b.len by omega) with
    ⟨hin, hmod⟩ | ⟨hout, hmod⟩ <;> rw [hmod] at hw <;>
  · unfold readable ringBufAvailableBytesForRead
    split_ifs <;> omega

end Ringbuf

/-- A new ring is empty. -/
theorem ringBufInit_ok {length : Nat} {b : Ringbuf} (h : ringBufInit length = some b)
    (hlen : length < 2 ^ 32) : b.Ok ∧ b.len = length ∧ b.bytes = [] := by
  unfold ringBufInit at h
  split_ifs at h with hshort
  obtain rfl := Option.some.inj h
  refine ⟨⟨List.length_replicate, ?_, ?_, hlen⟩, rfl, RingBuffer.contents_zero _ _⟩
  · show 0 < length
    omega
  · show 0 < length
    omega

/-- A cleared ring is empty. -/
theorem ringBufClear_ok {b : Ringbuf} (h : b.Ok) :
    (ringBufClear b).Ok ∧ (ringBufClear b).len = b.len ∧ (ringBufClear b).bytes = [] := by
  have hr := h.read
  refine ⟨⟨List.length_replicate, ?_, ?_, h.len⟩, rfl, RingBuffer.contents_zero _ _⟩
  · show 0 < b.len
    omega
  · show 0 < b.len
    omega

/-! ## One operation -/

section Write

variable {b : Ringbuf} {data : List Byte}

/-- A write that does not fit leaves the ring as it is. -/
theorem ringBufWrite_refused (h : b.Ok) (hroom : b.len < b.readable + data.length) :
    ringBufWrite b data = some (0, b) := by
  have hlt := h.readable_lt
  have havail := h.available_eq
  exact if_pos (by omega)

/-- The write position comes to the end of the new bytes. When they fill the ring, that
is the read position. -/
theorem ringBufWrite_accepted (h : b.Ok) (hroom : b.readable + data.length ≤ b.len)
    (hsum : b.write + data.length < 2 ^ 32) :
    ∃ b', ringBufWrite b data = some (data.length, b') ∧ b'.Ok ∧ b'.len = b.len ∧
      b'.read = b.read ∧ b'.write = (b.read + (b.readable + data.length)) % b.len ∧
      contents b'.pData b.read (b.readable + data.length) = b.bytes ++ data := by
  have havail := h.available_eq
  have hw := h.write_eq
  obtain ⟨hdata, hread, hwrite, hlen⟩ := h
  -- the next write position, modulo the capacity
  have hnext : (b.write + data.length) % b.len = (b.read + (b.readable + data.length)) % b.len := by
    rw [hw, Nat.mod_add_mod, Nat.add_assoc]
  rw [← hdata] at hw
  have htake : (data.take (b.len - b.write)).length ≤ b.len - b.write := List.length_take_le ..
  have hdrop : (data.drop (b.len - b.write)).length = data.length - (b.len - b.write) :=
    List.length_drop ..
  unfold ringBufWrite
  dsimp only
  rw [if_neg (by omega), Nat.mod_eq_of_lt hsum]
  by_cases hwrap : b.write + data.length ≥ b.len
  · have hblit : (blit b.pData b.write (data.take (b.len - b.write))).length = b.len := by
      rw [RingBuffer.blit_length (by omega), hdata]
    have htwo := RingBuffer.contents_blit_wrap (by omega) hw (by omega)
      (show b.pData.length ≤ b.write + data.length by omega)
    rw [hdata] at htwo
    have hmod : (b.read + (b.readable + data.length)) % b.len =
        data.length - (b.len - b.write) := by
      rw [← hnext, show b.write + data.length = data.length - (b.len - b.write) + b.len by omega,
        Nat.add_mod_right, Nat.mod_eq_of_lt (by omega)]
    have hlt : data.length - (b.len - b.write) < b.len := by omega
    have hfst : copyIn b.pData b.write (data.take (b.len - b.write)) =
        some (blit b.pData b.write (data.take (b.len - b.write))) := if_pos (by omega)
    rw [if_pos hwrap, hfst]
    by_cases hsnd : data.length - (b.len - b.write) > 0
    · have hcopy : copyIn (blit b.pData b.write (data.take (b.len - b.write))) 0
          (data.drop (b.len - b.write)) = some _ := if_pos (by omega)
      simp only [Option.bind_eq_bind, Option.bind_some, if_pos hsnd, hcopy]
      refine ⟨_, rfl, ⟨?_, hread, hlt, hlen⟩, rfl, rfl, hmod.symm, htwo⟩
      exact (RingBuffer.blit_length (by omega)).trans hblit
    · -- the bytes end with the array, and nothing goes to its start
      have hnil : data.drop (b.len - b.write) = [] := List.drop_eq_nil_of_le (by omega)
      rw [hnil] at htwo
      simp only [Option.bind_eq_bind, Option.bind_some, if_neg hsnd]
      refine ⟨_, rfl, ⟨hblit, hread, hlt, hlen⟩, rfl, rfl, hmod.symm, ?_⟩
      simpa [Ringbuf.bytes, blit] using htwo
  · have hcopy : copyIn b.pData b.write data = some _ := if_pos (by omega)
    rw [if_neg hwrap, hcopy]
    refine ⟨_, rfl, ⟨?_, hread, by simpa using hwrap, hlen⟩, rfl, rfl, ?_, ?_⟩
    · exact (RingBuffer.blit_length (by omega)).trans hdata
    · show b.write + data.length = _
      rw [← hnext, Nat.mod_eq_of_lt (by omega)]
    · exact RingBuffer.contents_blit (by omega) hw (by omega) (by omega)

/-- A sum that wraps is below the write position, and the copy leaves the array. -/
theorem ringBufWrite_wraps (h : b.Ok) (hroom : b.readable + data.length ≤ b.len)
    (hsum : 2 ^ 32 ≤ b.write + data.length) : ringBufWrite b data = none := by
  have havail := h.available_eq
  obtain ⟨hdata, hread, hwrite, hlen⟩ := h
  have hwrap : (b.write + data.length) % 2 ^ 32 = b.write + data.length - 2 ^ 32 := by
    rw [Nat.mod_eq_sub_mod (by omega), Nat.mod_eq_of_lt (by omega)]
  have hcopy : copyIn b.pData b.write data = none := if_neg (by omega)
  unfold ringBufWrite
  dsimp only
  rw [if_neg (by omega), hwrap, if_neg (by omega), hcopy]
  rfl

end Write

section Read

variable {b : Ringbuf} {length : Nat}

/-- The copy is the front of the readable bytes. -/
theorem takeOut_eq (h : b.Ok) (hin : length ≤ b.readable) (hsum : b.read + length < 2 ^ 32) :
    takeOut b length = some (b.bytes.take length, (b.read + length) % b.len) := by
  have hlt := h.readable_lt
  obtain ⟨hdata, hread, hwrite, hlen⟩ := h
  unfold takeOut
  dsimp only
  rw [Nat.mod_eq_of_lt hsum]
  -- the bytes lie on both sides of the end of the buffer, or on one
  by_cases hwrap : b.read + length ≥ b.len
  · have hmod : (b.read + length) % b.len = length - (b.len - b.read) := by
      rw [Nat.mod_eq_sub_mod hwrap, Nat.mod_eq_of_lt (by omega)]
      omega
    have htwo := RingBuffer.slice_wrap_eq_take (by omega)
      (show b.pData.length ≤ b.read + length by omega) hin (by omega)
    rw [hdata] at htwo
    have hfst : copyOut b.pData b.read (b.len - b.read) = some _ := if_pos (by omega)
    rw [if_pos hwrap, hmod, hfst, Ringbuf.bytes, ← htwo]
    -- the second copy is left out where the first one ends at the end of the buffer
    by_cases hsnd : length - (b.len - b.read) > 0
    · have hcopy : copyOut b.pData 0 (length - (b.len - b.read)) = some _ := if_pos (by omega)
      simp only [Option.bind_eq_bind, Option.bind_some, if_pos hsnd, hcopy]
    · simp only [Option.bind_eq_bind, Option.bind_some, if_neg hsnd]
      rw [show length - (b.len - b.read) = 0 by omega]
      simp [slice]
  · have hcopy : copyOut b.pData b.read length = some _ := if_pos (by omega)
    rw [if_neg hwrap, hcopy, Nat.mod_eq_of_lt (by omega), Ringbuf.bytes,
      ← RingBuffer.slice_eq_take (by omega) hin]
    rfl

/-- Where `read + length` wraps around 32 bits, the copy runs behind the ring. -/
theorem takeOut_wraps (h : b.Ok) (hin : length ≤ b.readable) (hsum : 2 ^ 32 ≤ b.read + length) :
    takeOut b length = none := by
  have hlt := h.readable_lt
  obtain ⟨hdata, hread, hwrite, hlen⟩ := h
  have hwrap : (b.read + length) % 2 ^ 32 = b.read + length - 2 ^ 32 := by
    rw [Nat.mod_eq_sub_mod (by omega), Nat.mod_eq_of_lt (by omega)]
  have hcopy : copyOut b.pData b.read length = none := if_neg (by omega)
  unfold takeOut
  dsimp only
  rw [hwrap, if_neg (by omega), hcopy]
  rfl

/-- A read of more than there is returns nothing. -/
theorem ringBufRead_refused (hin : ¬length ≤ b.readable) : ringBufRead b length = some ([], b) :=
  if_pos (not_le.mp hin)

/-- A clone of more than there is returns nothing. -/
theorem ringBufClone_refused (hin : ¬length ≤ b.readable) : ringBufClone b length = some [] :=
  if_pos (not_le.mp hin)

/-- Any other read takes the bytes out. -/
theorem ringBufRead_eq (hin : length ≤ b.readable) : ringBufRead b length =
    (takeOut b length).map fun out => (out.1, { b with read := out.2 }) := by
  rw [ringBufRead, if_neg (not_lt.mpr hin)]
  cases takeOut b length <;> rfl

/-- Any other clone gives the bytes that a read would, and leaves them in. -/
theorem ringBufClone_eq (hin : length ≤ b.readable) :
    ringBufClone b length = (takeOut b length).map Prod.fst := by
  rw [ringBufClone, if_neg (not_lt.mpr hin)]
  cases takeOut b length <;> rfl

/-- A read takes the front off. -/
theorem ringBufRead_accepted (h : b.Ok) (hin : length ≤ b.readable)
    (hsum : b.read + length < 2 ^ 32) :
    ∃ b', ringBufRead b length = some (b.bytes.take length, b') ∧ b'.Ok ∧ b'.len = b.len ∧
      b'.bytes = b.bytes.drop length := by
  have hlt := h.readable_lt
  have hdata := h.pData
  have hpos : 0 < b.len := by omega
  rw [ringBufRead_eq hin, takeOut_eq h hin hsum]
  -- what is readable goes down by what was read
  have hreadable : ({ b with read := (b.read + length) % b.len } : Ringbuf).readable =
      b.readable - length := by
    refine Ringbuf.readable_of_write (Nat.mod_lt _ hpos) ?_ ?_
    · show b.readable - length < b.len
      omega
    · show b.write = ((b.read + length) % b.len + (b.readable - length)) % b.len
      rw [h.write_eq, Nat.mod_add_mod, show b.read + length + (b.readable - length) =
        b.read + b.readable by omega]
  refine ⟨_, rfl, ⟨hdata, Nat.mod_lt _ hpos, h.write, h.len⟩, rfl, ?_⟩
  rw [Ringbuf.bytes, hreadable, Ringbuf.bytes, ← RingBuffer.contents_advance hin (by omega), hdata]

end Read

/-! ## Runs -/

/-- An operation on a ring. -/
inductive RingOp
  | write (data : List Byte)
  | read (length : Nat)
  | clone (length : Nat)

/-- A ring, and the bytes that its writes have accepted and its reads have returned. -/
structure RingRun where
  ring : Ringbuf
  accepted : List Byte
  returned : List Byte

def ringStep : RingOp → RingRun → Option RingRun
  | .write data, s => do
    let (n, ring) ← ringBufWrite s.ring data
    some { s with ring := ring, accepted := s.accepted ++ data.take n }
  | .read length, s => do
    let (out, ring) ← ringBufRead s.ring length
    some { s with ring := ring, returned := s.returned ++ out }
  | .clone length, s => do
    let _ ← ringBufClone s.ring length
    some s

/-- The bytes that a read or a clone of this length gives: as many as were asked for from the
front, or none if there are not so many. -/
def Ringbuf.front (b : Ringbuf) (length : Nat) : List Byte :=
  if length ≤ b.readable then b.bytes.take length else []

/-- The operation is one of a byte queue: a write that fits is accepted as a whole, any other
refused, and an accepted write adds its bytes; a read takes the bytes asked for off the front,
if there are so many, and a clone shows them; the bytes accepted are those returned and those
left. -/
def FifoStep : RingOp → RingRun → Prop
  | .write data, s => ∃ n ring, ringBufWrite s.ring data = some (n, ring) ∧
      n = (if s.ring.readable + data.length ≤ s.ring.len then data.length else 0) ∧
      ring.readable = s.ring.readable + n ∧
      s.accepted ++ data.take n = s.returned ++ ring.bytes
  | .read length, s => ∃ ring, ringBufRead s.ring length = some (s.ring.front length, ring) ∧
      ring.readable + (s.ring.front length).length = s.ring.readable ∧
      s.accepted = s.returned ++ s.ring.front length ++ ring.bytes
  | .clone length, s => ringBufClone s.ring length = some (s.ring.front length)

/-- No accepted write fills the ring to the last byte, and no position and length add up
to more than an `unsigned int` holds. -/
def Fits : RingOp → RingRun → Prop
  | .write data, s => data.length ≤ ringBufAvailableBytesForWrite s.ring →
      s.ring.readable + data.length ≠ s.ring.len ∧ s.ring.write + data.length < 2 ^ 32
  | .read length, s => length ≤ s.ring.readable → s.ring.read + length < 2 ^ 32
  | .clone length, s => length ≤ s.ring.readable → s.ring.read + length < 2 ^ 32

instance decidableFits : ∀ op s, Decidable (Fits op s)
  | .write _, _ => inferInstanceAs (Decidable (_ ≤ _ → _ ∧ _))
  | .read _, _ => inferInstanceAs (Decidable (_ ≤ _ → _ < _))
  | .clone _, _ => inferInstanceAs (Decidable (_ ≤ _ → _ < _))

/-- What has been accepted has been returned or is in the ring. -/
structure RingInv (s : RingRun) : Prop where
  ok : s.ring.Ok
  accepted : s.accepted = s.returned ++ s.ring.bytes

/-- A write is one of a FIFO exactly where it fits. -/
theorem write_fifoStep_iff {s : RingRun} (h : RingInv s) (data : List Byte) :
    FifoStep (.write data) s ↔ Fits (.write data) s := by
  have hlt := h.ok.readable_lt
  have havail := h.ok.available_eq
  by_cases hroom : s.ring.readable + data.length ≤ s.ring.len
  · have hroom' : data.length ≤ ringBufAvailableBytesForWrite s.ring := by omega
    by_cases hsum : s.ring.write + data.length < 2 ^ 32
    · obtain ⟨ring, hrun, hok, hlen, hread, hwrite, hcont⟩ := ringBufWrite_accepted h.ok hroom hsum
      rw [← hread, ← hlen] at hwrite
      constructor
      · rintro ⟨n, ring', hrun', -, hcount, -⟩ -
        obtain ⟨rfl, rfl⟩ := Prod.mk.inj (Option.some.inj (hrun.symm.trans hrun'))
        -- the positions never tell as many bytes as the ring has
        have := hok.readable_lt
        exact ⟨by omega, hsum⟩
      · intro hfits
        have hfill := (hfits hroom').1
        have hcount : ring.readable = s.ring.readable + data.length :=
          Ringbuf.readable_of_write hok.read (by omega) hwrite
        refine ⟨_, ring, hrun, (if_pos hroom).symm, hcount, ?_⟩
        rw [List.take_length, h.accepted, List.append_assoc, ← hcont, Ringbuf.bytes, hcount, hread]
    · constructor
      · rintro ⟨n, ring', hrun', -⟩
        rw [ringBufWrite_wraps h.ok hroom (by omega)] at hrun'
        cases hrun'
      · intro hfits
        exact absurd (hfits hroom').2 hsum
  · -- refused: nothing changes
    have hrefuse := ringBufWrite_refused h.ok (by omega : s.ring.len < s.ring.readable + data.length)
    constructor
    · intro _ hroom'
      omega
    · intro _
      exact ⟨0, s.ring, hrefuse, (if_neg hroom).symm, rfl, by simpa using h.accepted⟩

/-- A read is one of a FIFO exactly where it fits. -/
theorem read_fifoStep_iff {s : RingRun} (h : RingInv s) (length : Nat) :
    FifoStep (.read length) s ↔ Fits (.read length) s := by
  by_cases hin : length ≤ s.ring.readable
  · constructor
    · rintro ⟨ring, hrun, -⟩ -
      -- a position beyond 32 bits makes the copy undefined
      by_contra hsum
      rw [ringBufRead_eq hin, takeOut_wraps h.ok hin (by omega)] at hrun
      cases hrun
    · intro hfits
      obtain ⟨ring, hrun, hok, hlen, hbytes⟩ := ringBufRead_accepted h.ok hin (hfits hin)
      rw [FifoStep, Ringbuf.front, if_pos hin]
      refine ⟨ring, hrun, ?_, ?_⟩
      · rw [← hok.length_bytes, hbytes, ← h.ok.length_bytes, List.length_drop, List.length_take]
        omega
      · rw [hbytes, List.append_assoc, List.take_append_drop, h.accepted]
  · constructor
    · intro _ hin'
      exact absurd hin' hin
    · intro _
      rw [FifoStep, Ringbuf.front, if_neg hin]
      exact ⟨s.ring, ringBufRead_refused hin, rfl, by simpa using h.accepted⟩

/-- A clone is one of a FIFO exactly where it fits. -/
theorem clone_fifoStep_iff {s : RingRun} (h : RingInv s) (length : Nat) :
    FifoStep (.clone length) s ↔ Fits (.clone length) s := by
  by_cases hin : length ≤ s.ring.readable
  · constructor
    · intro hrun _
      -- a position beyond 32 bits makes the copy undefined
      by_contra hsum
      rw [FifoStep, ringBufClone_eq hin, takeOut_wraps h.ok hin (by omega)] at hrun
      cases hrun
    · intro hfits
      rw [FifoStep, Ringbuf.front, if_pos hin, ringBufClone_eq hin, takeOut_eq h.ok hin (hfits hin)]
      rfl
  · constructor
    · intro _ hin'
      exact absurd hin' hin
    · intro _
      rw [FifoStep, Ringbuf.front, if_neg hin]
      exact ringBufClone_refused hin

/-- Every operation is one of a FIFO exactly where it fits. -/
theorem fifoStep_iff (op : RingOp) (s : RingRun) (h : RingInv s) : FifoStep op s ↔ Fits op s := by
  cases op with
  | write data => exact write_fifoStep_iff h data
  | read length => exact read_fifoStep_iff h length
  | clone length => exact clone_fifoStep_iff h length

/-- An operation that fits keeps the ring in order, and what it holds is accounted for. -/
theorem ringStep_inv (op : RingOp) (s s' : RingRun) (h : RingInv s) (hfits : Fits op s)
    (hstep : ringStep op s = some s') : RingInv s' := by
  have hfifo := (fifoStep_iff op s h).mpr hfits
  cases op with
  | write data =>
    obtain ⟨n, ring, hrun, -, -, hacc⟩ := hfifo
    rw [ringStep, hrun] at hstep
    obtain rfl := Option.some.inj hstep
    refine ⟨?_, hacc⟩
    -- a write that does not fit is refused, and the ring stays
    by_cases hroom : s.ring.readable + data.length ≤ s.ring.len
    · have havail := h.ok.available_eq
      obtain ⟨ring', hrun', hok, -⟩ :=
        ringBufWrite_accepted h.ok hroom (hfits (by omega)).2
      obtain ⟨-, rfl⟩ := Prod.mk.inj (Option.some.inj (hrun.symm.trans hrun'))
      exact hok
    · rw [ringBufWrite_refused h.ok (by omega)] at hrun
      obtain ⟨-, rfl⟩ := Prod.mk.inj (Option.some.inj hrun)
      exact h.ok
  | read length =>
    obtain ⟨ring, hrun, -, hacc⟩ := hfifo
    rw [ringStep, hrun] at hstep
    obtain rfl := Option.some.inj hstep
    refine ⟨?_, hacc⟩
    -- a read of more than the ring holds is refused
    by_cases hin : length ≤ s.ring.readable
    · obtain ⟨ring', hrun', hok, -⟩ := ringBufRead_accepted h.ok hin (hfits hin)
      obtain ⟨-, rfl⟩ := Prod.mk.inj (Option.some.inj (hrun.symm.trans hrun'))
      exact hok
    · rw [ringBufRead_refused hin] at hrun
      obtain ⟨-, rfl⟩ := Prod.mk.inj (Option.some.inj hrun)
      exact h.ok
  | clone length =>
    have hrun : ringBufClone s.ring length = some (s.ring.front length) := hfifo
    rw [ringStep, hrun] at hstep
    obtain rfl := Option.some.inj hstep
    exact h

/-- **The ring is a byte queue exactly as long as no write fills it**: then its positions
are equal, and everything in it is lost. -/
theorem ringBuf_fifo_iff {length : Nat} {b : Ringbuf} (h : ringBufInit length = some b)
    (hlen : length < 2 ^ 32) (ops : List RingOp) :
    Along ringStep FifoStep ops ⟨b, [], []⟩ ↔ Along ringStep Fits ops ⟨b, [], []⟩ := by
  obtain ⟨hok, -, hbytes⟩ := ringBufInit_ok h hlen
  exact along_congr fifoStep_iff ringStep_inv ops ⟨hok, by rw [hbytes]; rfl⟩

/-- A run on a ring of four: the second write goes over its end, a third one is refused, as is a
read of more than there is. -/
def fourRun : List RingOp :=
  [.write [1, 2, 3], .clone 2, .read 1, .write [4], .write [5, 6, 7], .read 4, .read 3]

/-- Four bytes through a ring of four. -/
theorem ringBuf_four_fifo :
    ∃ b, ringBufInit 4 = some b ∧ Along ringStep FifoStep fourRun ⟨b, [], []⟩ ∧
      (runAll ringStep fourRun ⟨b, [], []⟩).map RingRun.returned = some [1, 2, 3, 4] := by
  have hinit : ringBufInit 4 = some ⟨0, 0, 4, [0, 0, 0, 0]⟩ := rfl
  exact ⟨_, hinit, (ringBuf_fifo_iff hinit (by decide) fourRun).mpr (by decide), by decide⟩

/-- Four bytes into a ring of four: accepted, and none is there. -/
theorem ringBuf_filled_not_fifo :
    ∃ b, ringBufInit 4 = some b ∧ ¬Along ringStep FifoStep [.write [1, 2, 3, 4]] ⟨b, [], []⟩ := by
  refine ⟨_, rfl, ?_⟩
  rintro ⟨⟨n, ring, hrun, -, hcount, -⟩, -⟩
  have hlost : ringBufWrite ⟨0, 0, 4, [0, 0, 0, 0]⟩ [1, 2, 3, 4] =
      some (4, ⟨0, 0, 4, [1, 2, 3, 4]⟩) := by decide
  obtain ⟨rfl, rfl⟩ := Prod.mk.inj (Option.some.inj (hlost.symm.trans hrun))
  revert hcount
  decide

end PgClient.Serial
