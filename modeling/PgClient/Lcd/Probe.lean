import PgClient.Util.LittleEndian
import Mathlib.Data.List.GetD

/-!
# A reply of the probe

`uart_read_end` of `ca310.c` reads into a buffer of 1024 bytes until a read ends with a carriage
return, or nothing comes any more, and copies what it has to the caller. The caller of a flicker
measurement has 32 bytes for it, and takes them for a text.

* `uartReadLoop_eq` — the buffer holds the reads up to the first that ends with a carriage return.
* `readsBounded_iff` — when all three buffers are long enough, the NUL included.
* `ca310CaptureFlickData_eq_none_iff` — what that means for a measurement.
-/

namespace PgClient.Lcd

open scoped Numerals

/-! ## The code -/

/-- What `read` gives: 1 to `MAX_BUFF_SIZE` bytes. -/
structure Piece where
  bytes : List Byte
  ne : bytes ≠ []
  le : bytes.length ≤ 2048

/-- `buf` and `offset` of `uart_read_end`. -/
structure ReadState where
  buf : Nat → Byte
  offset : Nat

/-- `sizeof(buf)`. -/
def bufSize : Nat := 1024

/-- `uart_read` to `buf + offset`; behind the end of the buffer there is nothing to write to. -/
def uartRead (piece : Piece) (s : ReadState) : Option ReadState :=
  if s.offset + piece.bytes.length ≤ bufSize then
    some ⟨fun i =>
      if s.offset ≤ i ∧ i < s.offset + piece.bytes.length then piece.bytes.getD (i - s.offset) 0
      else s.buf i, s.offset + piece.bytes.length⟩
  else none

/-- The loop of `uart_read_end`; at the end of the reads the time is out, or one has failed. -/
def uartReadLoop : List Piece → ReadState → Option ReadState
  | [], s => some s
  | piece :: reads, s =>
    (uartRead piece s).bind fun s' =>
      if s'.buf (s'.offset - 1) = 0x0D then some s' else uartReadLoop reads s'

/-- `uart_read_end` into a buffer: what it returns, and the buffer then. -/
def uartReadEnd {n : Nat} (reads : List Piece) (pReadBuf : Vector Byte n) :
    Option (Nat × Vector Byte n) :=
  (uartReadLoop reads ⟨fun _ => 0, 0⟩).bind fun s =>
    if s.offset ≤ n then
      some (s.offset, Vector.ofFn fun i => if i.val < s.offset then s.buf i else pReadBuf[i])
    else none

/-- The text at the start of a buffer; without a NUL it has no end. -/
def cstr {n : Nat} (buf : Vector Byte n) : Option (List Byte) :=
  if 0 ∈ buf.toList then some (buf.toList.takeWhile (· ≠ 0)) else none

/-- `strncmp(key, text, n) == 0`. -/
def strncmp (key text : List Byte) (n : Nat) : Bool := key.take n = text.take n

def probeStatuOk : Int := 0

def probeStatuTimeout : Int := -100

def probeStatuOtherError : Int := -200

def probeStatuCommandError : Int := -10

def probeStatuOutRange : Int := -50

def probeStatuLowLumi : Int := -52

/-- `OK00`. -/
def cmdOkKey : List Byte := [0x4F, 0x4B, 0x30, 0x30]

/-- `ER10`. -/
def errInvalidCommand : List Byte := [0x45, 0x52, 0x31, 0x30]

/-- `ER50`. -/
def errValueOut : List Byte := [0x45, 0x52, 0x35, 0x30]

/-- `ER52`. -/
def errLowLumi : List Byte := [0x45, 0x52, 0x35, 0x32]

/-- What a reply says: the status, and the text that `sscanf` takes the value from. -/
def replyStatus (text : List Byte) : Int × Option (List Byte) :=
  if strncmp cmdOkKey text cmdOkKey.length then (probeStatuOk, some text)
  else if strncmp errInvalidCommand text cmdOkKey.length then (probeStatuCommandError, none)
  else if strncmp errValueOut text errValueOut.length then (probeStatuOutRange, none)
  else if strncmp errLowLumi text errLowLumi.length then (probeStatuLowLumi, none)
  else (probeStatuOtherError, none)

/-- `ca310_capture_flick_data`, with a place for the value. -/
def ca310CaptureFlickData (lcdChannel : Int) (reads : List Piece) : Option (Int × Option (List Byte)) :=
  if lcdChannel < 0 ∨ lcdChannel > 2 then some (probeStatuOtherError, none)
  -- there are two probes, 0 and 1
  else if lcdChannel = 2 then none
  else
    (uartReadEnd reads (.replicate 32 0)).bind fun got =>
      if 0 < got.1 then (cstr got.2).map replyStatus else some (probeStatuTimeout, none)

/-! ## What is read -/

/-- The reads up to the first that ends with a carriage return. -/
def taken : List Piece → List Byte
  | [] => []
  | piece :: reads =>
    if piece.bytes.getLast piece.ne = 0x0D then piece.bytes else piece.bytes ++ taken reads

/-- The buffer with these bytes in it. -/
def ReadState.of (got : List Byte) : ReadState := ⟨fun i => got.getD i 0, got.length⟩

theorem uartRead_of (piece : Piece) (got : List Byte) :
    uartRead piece (.of got) =
      if (got ++ piece.bytes).length ≤ bufSize then some (.of (got ++ piece.bytes)) else none := by
  have hbuf : (fun i => if got.length ≤ i ∧ i < got.length + piece.bytes.length then
      piece.bytes.getD (i - got.length) 0 else got.getD i 0) =
      fun i => (got ++ piece.bytes).getD i 0 := by
    funext i
    rcases Nat.lt_or_ge i got.length with hi | hi
    · -- in front of the offset nothing is written
      rw [if_neg (by omega), List.getD_append _ _ _ _ hi]
    · rw [List.getD_append_right _ _ _ _ hi]
      split_ifs with hin
      · rfl
      · -- behind both, where the buffer is still zero
        rw [List.getD_eq_default _ _ hi, List.getD_eq_default _ _ (by omega)]
  unfold uartRead ReadState.of
  simp only [List.length_append, hbuf]

/-- The last byte of a read is the one that is looked at. -/
theorem of_append_last (got : List Byte) (piece : Piece) :
    (ReadState.of (got ++ piece.bytes)).buf ((ReadState.of (got ++ piece.bytes)).offset - 1) =
      piece.bytes.getLast piece.ne := by
  have hne : got ++ piece.bytes ≠ [] := List.append_ne_nil_of_right_ne_nil got piece.ne
  have hlen : (got ++ piece.bytes).length - 1 < (got ++ piece.bytes).length := by
    have := List.length_pos_iff.mpr hne
    omega
  show (got ++ piece.bytes).getD ((got ++ piece.bytes).length - 1) 0 = _
  rw [List.getD_eq_getElem _ _ hlen, ← List.getLast_eq_getElem hne, List.getLast_append_of_ne_nil _ piece.ne]

/-- **The loop reads what is taken**, or runs over the end of the buffer. -/
theorem uartReadLoop_eq (reads : List Piece) {got : List Byte} (hgot : got.length ≤ bufSize) :
    uartReadLoop reads (.of got) =
      if (got ++ taken reads).length ≤ bufSize then some (.of (got ++ taken reads)) else none := by
  induction reads generalizing got with
  | nil => simp [uartReadLoop, taken, hgot]
  | cons piece reads ih =>
    rw [uartReadLoop, uartRead_of, taken]
    by_cases hfits : (got ++ piece.bytes).length ≤ bufSize
    · rw [if_pos hfits, Option.bind_some, of_append_last]
      -- the loop and the definition of `taken` stop at the same read
      by_cases hcr : piece.bytes.getLast piece.ne = 0x0D
      · rw [if_pos hcr, if_pos hcr, if_pos hfits]
      · rw [if_neg hcr, if_neg hcr, ih hfits, List.append_assoc]
    · -- what comes later does not make it shorter
      have hlong : ¬(got ++ if piece.bytes.getLast piece.ne = 0x0D then piece.bytes
          else piece.bytes ++ taken reads).length ≤ bufSize := by
        rw [List.length_append] at hfits ⊢
        split_ifs
        · exact hfits
        · rw [List.length_append]
          omega
      rw [if_neg hfits, if_neg hlong]
      rfl

/-- What a caller with a zeroed buffer gets. -/
theorem uartReadEnd_zeroed {n : Nat} (hn : n ≤ bufSize) (reads : List Piece) :
    uartReadEnd reads (.replicate n 0) =
      if (taken reads).length ≤ n then
        some ((taken reads).length, Vector.ofFn fun i : Fin n => (taken reads).getD i 0)
      else none := by
  have hloop := @uartReadLoop_eq reads [] (Nat.zero_le _)
  rw [List.nil_append] at hloop
  have hinit : (⟨fun _ => 0, 0⟩ : ReadState) = .of [] := rfl
  unfold uartReadEnd
  rw [hinit, hloop]
  by_cases hfits : (taken reads).length ≤ n
  · have hbuf : (fun i : Fin n => if i.val < (taken reads).length then (taken reads).getD i 0
        else (Vector.replicate n (0 : Byte))[i]) = fun i : Fin n => (taken reads).getD i 0 := by
      funext i
      split_ifs with hi
      · rfl
      · -- behind the reply the caller's zeros stay
        rw [List.getD_eq_default _ _ (by omega)]
        simp
    rw [if_pos (hfits.trans hn), if_pos hfits, Option.bind_some]
    show (if (taken reads).length ≤ n then some ((taken reads).length, Vector.ofFn fun i : Fin n =>
      if i.val < (taken reads).length then (taken reads).getD i 0
      else (Vector.replicate n (0 : Byte))[i]) else none) = _
    rw [if_pos hfits, hbuf]
  · -- too much for the caller, or already for the buffer of the read
    rw [if_neg hfits]
    split_ifs
    · rw [Option.bind_some]
      exact if_neg hfits
    · rfl

/-! ## The bounds -/

/-- **A reply is read inside the buffers**: the one of 1024 bytes, and the one of 32 of
`ca310_capture_flick_data`, which is zeros before and has a NUL then. -/
def ReadsBounded (reads : List Piece) : Prop :=
  ∃ recvLen buf, uartReadEnd reads (Vector.replicate 32 0) = some (recvLen, buf) ∧ 0 ∈ buf.toList

/-- A text in a buffer has a NUL behind it, or in it. -/
theorem zero_mem_iff {text : List Byte} {n : Nat} (hlen : text.length ≤ n) :
    0 ∈ (Vector.ofFn fun i : Fin n => text.getD i 0).toList ↔ text.length < n ∨ 0 ∈ text := by
  rw [Vector.mem_toList_iff, Vector.mem_ofFn]
  constructor
  · rintro ⟨i, hi⟩
    rcases Nat.lt_or_ge i text.length with hin | hout
    · rw [List.getD_eq_getElem _ _ hin] at hi
      exact .inr (hi ▸ List.getElem_mem hin)
    · exact .inl (by omega)
  · rintro (hlt | hmem)
    · -- the byte right behind the text
      exact ⟨⟨text.length, hlt⟩, List.getD_eq_default _ _ le_rfl⟩
    · obtain ⟨i, hi, hzero⟩ := List.getElem_of_mem hmem
      exact ⟨⟨i, by omega⟩, (List.getD_eq_getElem _ _ hi).trans hzero⟩

/-- The bytes that are taken fit, and leave room for a NUL or bring one. -/
theorem readsBounded_iff_fits (reads : List Piece) :
    ReadsBounded reads ↔
      (taken reads).length ≤ 32 ∧ ((taken reads).length < 32 ∨ 0 ∈ taken reads) := by
  unfold ReadsBounded
  rw [uartReadEnd_zeroed (show 32 ≤ bufSize by decide)]
  by_cases hfits : (taken reads).length ≤ 32
  -- the buffer was zero, so what is behind the bytes ends the text
  · have hzero := zero_mem_iff hfits
    rw [if_pos hfits, and_iff_right hfits, ← hzero]
    constructor
    · rintro ⟨recvLen, buf, hgot, hnul⟩
      obtain ⟨rfl, rfl⟩ := Prod.mk.inj (Option.some.inj hgot)
      exact hnul
    · exact fun hnul => ⟨_, _, rfl, hnul⟩
  · rw [if_neg hfits]
    exact iff_of_false (by rintro ⟨_, _, hgot, -⟩; cases hgot) fun h => hfits h.1

/-- **When a reply is read inside the buffers**: with fewer than 32 bytes up to the first read that
ends with a carriage return, or with 32, a NUL among them. -/
theorem readsBounded_iff (reads : List Piece) :
    ReadsBounded reads ↔
      (taken reads).length < 32 ∨ ((taken reads).length = 32 ∧ 0 ∈ taken reads) := by
  rw [readsBounded_iff_fits]
  constructor
  · rintro ⟨hfits, hlt | hmem⟩
    · exact .inl hlt
    · exact hfits.lt_or_eq.imp_right fun hfull => ⟨hfull, hmem⟩
  · rintro (hlt | ⟨hfull, hmem⟩)
    · exact ⟨hlt.le, .inl hlt⟩
    · exact ⟨hfull.le, .inr hmem⟩

/-- Sixteen bytes twice, as they may come from any device. -/
theorem twoPieces_not_readsBounded :
    ¬ReadsBounded [⟨List.replicate 16 0x4F, by decide, by decide⟩,
      ⟨List.replicate 15 0x4B ++ [0x0D], by decide, by decide⟩] := by
  rw [readsBounded_iff_fits]
  decide

/-- **A measurement comes to an end** on the two probes for the replies that are read inside the
buffers; on a third one, which the check lets pass, never. -/
theorem ca310CaptureFlickData_eq_none_iff (lcdChannel : Int) (reads : List Piece) :
    ca310CaptureFlickData lcdChannel reads = none ↔
      lcdChannel = 2 ∨ ((lcdChannel = 0 ∨ lcdChannel = 1) ∧ ¬ReadsBounded reads) := by
  unfold ca310CaptureFlickData
  by_cases hrange : lcdChannel < 0 ∨ lcdChannel > 2
  · rw [if_pos hrange]
    exact iff_of_false nofun (by omega)
  rw [if_neg hrange]
  by_cases htwo : lcdChannel = 2
  · -- the subscript is behind the two probes before anything is read
    rw [if_pos htwo]
    exact iff_of_true rfl (.inl htwo)
  have hprobe : lcdChannel = 0 ∨ lcdChannel = 1 := by omega
  rw [if_neg htwo, or_iff_right htwo, and_iff_right hprobe, readsBounded_iff_fits,
    uartReadEnd_zeroed (show 32 ≤ bufSize by decide)]
  by_cases hfits : (taken reads).length ≤ 32
  · rw [if_pos hfits, Option.bind_some]
    by_cases hsome : 0 < (taken reads).length
    · -- the reply is compared with the keys, as a text
      have hnone : cstr (Vector.ofFn fun i : Fin 32 => (taken reads).getD i 0) = none ↔
          ¬((taken reads).length < 32 ∨ 0 ∈ taken reads) := by
        rw [← zero_mem_iff hfits, cstr]
        split_ifs with hnul
        · exact iff_of_false nofun (not_not_intro hnul)
        · exact iff_of_true rfl hnul
      rw [if_pos hsome, Option.map_eq_none_iff, hnone, not_iff_not]
      exact (and_iff_right hfits).symm
    · -- the time is out, and nothing is compared
      rw [if_neg hsome]
      exact iff_of_false nofun (not_not_intro ⟨hfits, .inl (by omega)⟩)
  · rw [if_neg hfits]
    exact iff_of_true rfl fun h => hfits h.1

end PgClient.Lcd
