import PgClient.Lib.PartialRun
import PgClient.Lib.RingBuffer
import PgClient.Util.Crc32

/-!
# Register blocks as text

`client_end_read_gamma` prints a block of registers with two hex digits and a semicolon for
each, and `parse_gamma_reg_data` reads such a text in steps of three characters.

* `clientEndReadGamma_text` — the text, and when it fits `str_data`.
* `parseLoop_hexText` — what is read of it.
* `gammaText_round_trip` — a block is read back from the text that is printed for it.
-/

namespace PgClient.Server.GammaText

open PartialRun
open RingBuffer (blit)

/-! ## Strings in memory -/

/-- `strlen`; `none` when no NUL is in the memory. -/
def strlen (mem : List Byte) : Option Nat :=
  if 0 ∈ mem then some (mem.takeWhile (· ≠ 0)).length else none

/-- `strcat`; `none` when the string does not fit. -/
def strcat (dest src : List Byte) : Option (List Byte) := do
  let n ← strlen dest
  let m ← strlen src
  if n + (m + 1) ≤ dest.length then some (blit dest n (src.take (m + 1))) else none

/-! ## The writer -/

/-- A digit of `%X`. -/
def hexDigit (n : Nat) : Byte :=
  if n < 10 then BitVec.ofNat 8 (0x30 + n) else BitVec.ofNat 8 (0x41 + (n - 10))

/-- The characters of `"%02X;"` for a byte. -/
def hexPiece (x : Byte) : List Byte := [hexDigit (x.toNat / 16), hexDigit (x.toNat % 16), 0x3b]

/-- A turn of the loop: `sprintf` into `cc`, and `strcat`. -/
def appendHex (x : Byte) (strData : List Byte) : Option (List Byte) :=
  strcat strData (hexPiece x ++ [0])

/-- `str_data` of `client_end_read_gamma`. -/
def clientEndReadGamma (data : List Byte) : Option (List Byte) :=
  runAll appendHex data (List.replicate 1000 0)

/-! ## The reader -/

/-- `isspace`. -/
def isSpace (c : Byte) : Bool := c = 0x20 || (0x09 ≤ c && c ≤ 0x0d)

/-- The value of a hex digit of either case. -/
def hexVal (c : Byte) : Option Nat :=
  if 0x30 ≤ c ∧ c ≤ 0x39 then some (c.toNat - 0x30)
  else if 0x41 ≤ c ∧ c ≤ 0x46 then some (c.toNat - 0x41 + 10)
  else if 0x61 ≤ c ∧ c ≤ 0x66 then some (c.toNat - 0x61 + 10)
  else none

/-- `val` after `sscanf(cc, "%02X", &val)`: white space is skipped, and of the two characters
after it the first may be a sign. Where nothing matches it stays 0. -/
def scanHex (cc : List Byte) : BitVec 32 :=
  match ((cc.takeWhile (· ≠ 0)).dropWhile isSpace).take 2 with
  | [c] => BitVec.ofNat 32 ((hexVal c).getD 0)
  | [c, d] =>
    if c = 0x2b then BitVec.ofNat 32 ((hexVal d).getD 0)
    else if c = 0x2d then -BitVec.ofNat 32 ((hexVal d).getD 0)
    else match hexVal c, hexVal d with
      | none, _ => 0
      | some x, none => BitVec.ofNat 32 x
      | some x, some y => BitVec.ofNat 32 (16 * x + y)
  | _ => 0

/-- The loop from `ptr` on: the registers so far, and their number. A text that ends before
its third character is read beyond its NUL. -/
def parseLoop : List Byte → List Byte → Nat → Option (Nat × List Byte)
  | [], _, _ => none
  | c :: rest, buf, len =>
    if c = 0 then some (len, buf)
    else match rest with
      | d :: _ :: rest =>
        if len < buf.length then
          parseLoop rest (buf.set len ((scanHex [c, d, 0]).setWidth 8)) (len + 1)
        else none
      | _ => none

/-- `parse_gamma_reg_data`: what it returns, and the buffer; `none` for `NULL`. -/
def parseGammaRegData (orgData : Option (List Byte)) (buf : List Byte) : Option (Nat × List Byte) :=
  match orgData with
  | none => some (0, buf)
  | some text => parseLoop text buf 0

/-! ## Digits -/

theorem hexVal_hexDigit : ∀ n < 16, hexVal (hexDigit n) = some n := by decide

/-- A digit ends no string, and is neither white space nor a sign. -/
theorem hexDigit_plain : ∀ n < 16, hexDigit n ≠ 0 ∧ isSpace (hexDigit n) = false ∧
    hexDigit n ≠ 0x2b ∧ hexDigit n ≠ 0x2d := by decide

theorem byte_halves (x : Byte) : x.toNat / 16 < 16 ∧ x.toNat % 16 < 16 := by
  have := x.isLt
  omega

theorem hexPiece_plain (x : Byte) : ∀ c ∈ hexPiece x, c ≠ 0 := by
  obtain ⟨hhigh, hlow⟩ := byte_halves x
  intro c hc
  rcases List.mem_cons.mp hc with rfl | hc
  · exact (hexDigit_plain _ hhigh).1
  · rcases List.mem_cons.mp hc with rfl | hc
    · exact (hexDigit_plain _ hlow).1
    · rw [List.mem_singleton.mp hc]
      decide

/-- A string in memory, with any bytes behind its NUL. -/
theorem takeWhile_text {text : List Byte} (hplain : ∀ c ∈ text, c ≠ 0) (tail : List Byte) :
    (text ++ 0 :: tail).takeWhile (· ≠ 0) = text := by
  rw [List.takeWhile_append_of_pos fun c hc => decide_eq_true (hplain c hc)]
  exact List.append_nil text

theorem strlen_text {text : List Byte} (hplain : ∀ c ∈ text, c ≠ 0) (tail : List Byte) :
    strlen (text ++ 0 :: tail) = some text.length := by
  rw [strlen, if_pos (List.mem_append_right _ List.mem_cons_self), takeWhile_text hplain]

/-- **The digits of a byte are scanned as the byte.** -/
theorem scanHex_hexPiece (x : Byte) :
    (scanHex [hexDigit (x.toNat / 16), hexDigit (x.toNat % 16), 0]).setWidth 8 = x := by
  obtain ⟨hhigh, hlow⟩ := byte_halves x
  obtain ⟨-, hspace, hplus, hminus⟩ := hexDigit_plain _ hhigh
  have hplain : ∀ c ∈ [hexDigit (x.toNat / 16), hexDigit (x.toNat % 16)], c ≠ 0 := fun c hc =>
    hexPiece_plain x c (List.mem_append_left [0x3b] hc)
  have htext : ([hexDigit (x.toNat / 16), hexDigit (x.toNat % 16), 0] : List Byte).takeWhile (· ≠ 0) =
      [hexDigit (x.toNat / 16), hexDigit (x.toNat % 16)] := takeWhile_text hplain []
  -- nothing is skipped, and both characters are digits
  have hskip : [hexDigit (x.toNat / 16), hexDigit (x.toNat % 16)].dropWhile isSpace =
      [hexDigit (x.toNat / 16), hexDigit (x.toNat % 16)] := by
    rw [List.dropWhile_cons, hspace]
    rfl
  have hval := Nat.div_add_mod x.toNat 16
  simp only [scanHex, htext, hskip, List.take_succ_cons, List.take_zero, if_neg hplus, if_neg hminus,
    hexVal_hexDigit _ hhigh, hexVal_hexDigit _ hlow, hval]
  apply BitVec.eq_of_toNat_eq
  rw [BitVec.toNat_setWidth, BitVec.toNat_ofNat]
  have := x.isLt
  omega

/-! ## The text -/

/-- The text of a block. -/
def hexText (data : List Byte) : List Byte := data.flatMap hexPiece

theorem length_hexText (data : List Byte) : (hexText data).length = 3 * data.length := by
  induction data with
  | nil => rfl
  | cons x data ih =>
    rw [hexText, List.flatMap_cons, List.length_append, ← hexText, ih, List.length_cons]
    show 3 + _ = _
    omega

theorem hexText_plain (data : List Byte) : ∀ c ∈ hexText data, c ≠ 0 := by
  intro c hc
  obtain ⟨x, -, hx⟩ := List.mem_flatMap.mp hc
  exact hexPiece_plain x c hx

/-- `strcat` to a string with zeros behind it. -/
theorem strcat_text {text piece : List Byte} {n : Nat} (htext : ∀ c ∈ text, c ≠ 0)
    (hpiece : ∀ c ∈ piece, c ≠ 0) (hroom : piece.length ≤ n) :
    strcat (text ++ List.replicate (n + 1) 0) (piece ++ [0]) =
      some ((text ++ piece) ++ List.replicate (n - piece.length + 1) 0) := by
  have htake : (piece ++ [0]).take (piece.length + 1) = piece ++ [0] :=
    List.take_of_length_le (by simp)
  have hlen : (text ++ List.replicate (n + 1) (0 : Byte)).length = text.length + (n + 1) := by
    rw [List.length_append, List.length_replicate]
  -- the string ends at the first of the zeros
  rw [strcat, List.replicate_succ, strlen_text htext, strlen_text hpiece []]
  simp only [Option.bind_eq_bind, Option.bind_some]
  rw [← List.replicate_succ, if_pos (by omega), htake, blit, List.take_left, ← List.drop_drop,
    List.drop_left, List.drop_replicate, List.length_append, List.length_singleton,
    List.replicate_succ, Nat.add_sub_add_right]
  simp only [List.append_assoc, List.singleton_append]

/-- **The text that is built**, where there is room for it. -/
theorem clientEndReadGamma_text {data : List Byte} (hroom : 3 * data.length < 1000) :
    clientEndReadGamma data =
      some (hexText data ++ List.replicate (999 - 3 * data.length + 1) 0) := by
  suffices h : ∀ (rest before : List Byte) (n : Nat), 3 * rest.length ≤ n →
      runAll appendHex rest (hexText before ++ List.replicate (n + 1) 0) =
        some (hexText (before ++ rest) ++ List.replicate (n - 3 * rest.length + 1) 0) by
    exact h data [] 999 (by omega)
  intro rest
  induction rest with
  | nil => exact fun before n _ => by rw [List.append_nil]; rfl
  | cons x rest ih =>
    intro before n hn
    rw [List.length_cons] at hn
    have hpiece : (hexPiece x).length = 3 := rfl
    -- three of the zeros behind the text are overwritten
    have hstep := strcat_text (hexText_plain before) (hexPiece_plain x) (n := n) (by omega)
    have htext : hexText before ++ hexPiece x = hexText (before ++ [x]) := by
      rw [hexText, hexText, List.flatMap_append, List.flatMap_singleton]
    rw [htext, hpiece] at hstep
    rw [runAll, appendHex, hstep, Option.bind_some, ih _ _ (by omega), List.append_assoc,
      List.singleton_append, List.length_cons, Nat.mul_succ, Nat.sub_sub, Nat.add_comm 3]

/-- **What is read of a text**: the bytes, behind those that were read before. -/
theorem parseLoop_hexText (tail : List Byte) : ∀ (rest before after : List Byte),
    rest.length ≤ after.length →
    parseLoop (hexText rest ++ 0 :: tail) (before ++ after) before.length =
      some (before.length + rest.length, before ++ rest ++ after.drop rest.length) := by
  intro rest
  induction rest with
  | nil =>
    intro before after _
    rw [List.append_nil]
    show parseLoop (0 :: tail) _ _ = _
    rw [parseLoop.eq_def]
    rfl
  | cons x rest ih =>
    intro before after hroom
    obtain ⟨y, after, rfl⟩ := List.exists_cons_of_ne_nil (List.length_pos_iff.mp
      (show 0 < after.length by rw [List.length_cons] at hroom; omega))
    have hc := (hexDigit_plain _ (byte_halves x).1).1
    have hnext := ih (before ++ [x]) after (by simpa using hroom)
    -- the byte goes behind those that were read before
    have hset : (before ++ y :: after).set before.length x = before ++ [x] ++ after := by
      rw [List.set_append_right _ _ le_rfl, Nat.sub_self, List.set_cons_zero, List.append_assoc,
        List.singleton_append]
    rw [List.length_append, List.length_singleton] at hnext
    show parseLoop (hexDigit (x.toNat / 16) :: hexDigit (x.toNat % 16) :: 0x3b ::
      (hexText rest ++ 0 :: tail)) _ _ = _
    rw [parseLoop, if_neg hc, scanHex_hexPiece, hset, if_pos (by simp), hnext]
    simp only [List.length_cons, List.append_assoc, List.singleton_append, List.drop_succ_cons,
      Nat.add_assoc, Nat.add_comm 1]

/-- **A block is read back from the text that is printed for it**, from any memory with the
text and its NUL, and into any buffer that has room for the block; and 1000 bytes are enough
for the text. -/
theorem gammaText_round_trip {data : List Byte} (hdata : data.length ≤ 255) :
    ∃ text, clientEndReadGamma data = some (text ++ List.replicate (1000 - text.length) 0) ∧
      text.length = 3 * data.length ∧ (∀ c ∈ text, c ≠ 0) ∧
      ∀ tail buf : List Byte, data.length ≤ buf.length →
        parseGammaRegData (some (text ++ 0 :: tail)) buf =
          some (data.length, data ++ buf.drop data.length) := by
  refine ⟨hexText data, ?_, length_hexText data, hexText_plain data, fun tail buf hroom => ?_⟩
  · rw [clientEndReadGamma_text (by omega), length_hexText,
      show 999 - 3 * data.length + 1 = 1000 - 3 * data.length by omega]
  · have hparse := parseLoop_hexText tail data [] buf hroom
    rwa [List.nil_append, List.nil_append, List.length_nil, Nat.zero_add] at hparse

/-- Two registers. -/
theorem gammaText_round_trip_two :
    ∃ text, clientEndReadGamma [0x0a, 0xf3] = some (text ++ List.replicate (1000 - text.length) 0) ∧
      text.length = 3 * [(0x0a : Byte), 0xf3].length ∧ (∀ c ∈ text, c ≠ 0) ∧
      ∀ tail buf : List Byte, [(0x0a : Byte), 0xf3].length ≤ buf.length →
        parseGammaRegData (some (text ++ 0 :: tail)) buf =
          some ([(0x0a : Byte), 0xf3].length, [0x0a, 0xf3] ++ buf.drop [(0x0a : Byte), 0xf3].length) :=
  gammaText_round_trip (by decide)

end PgClient.Server.GammaText
