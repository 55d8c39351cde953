import PgClient.Serial.Codec

/-!
# The decoder of `comUart.c`

`dataunpack` follows flags and escapes byte by byte.

* `unpackLoop_eq_some_iff` — what the state machine reads, as a grammar (`Reads`).
* `dataunpack_datapack` — the round trip with `datapack`.
-/

namespace PgClient.Serial

/-! ## The code -/

/-- The states of `dataunpack`. -/
inductive FrameState
  | outsideFrame
  | linkEscape
  | insideFrame
  deriving DecidableEq

/-- What a byte does: only the state changes, it is stored, or the frame is refused. -/
inductive UnpackStep
  | skip (state : FrameState)
  | store (state : FrameState) (byte : Byte)
  | frameError

/-- The byte inside a frame; `i` is its index and `nlen` the length. -/
def insideByte (nlen i : Nat) (byte : Byte) : UnpackStep :=
  if byte = 0x7d then .skip .linkEscape
  else if byte = 0x7e then
    if (i : Int) ≠ nlen - 2 then .frameError else .skip .outsideFrame
  else .store .insideFrame byte

/-- The `switch` over the state. -/
def unpackByte (nlen i : Nat) (state : FrameState) (byte : Byte) : UnpackStep :=
  match state with
  | .outsideFrame =>
    -- the first byte that is no flag is already inside
    if byte = 0x7e then .skip .outsideFrame else insideByte nlen i byte
  | .insideFrame => insideByte nlen i byte
  | .linkEscape =>
    if byte = 0x5e then .store .insideFrame (byte ^^^ 0x20)
    else if byte = 0x5d then .store .insideFrame (byte ^^^ 0x20)
    else .frameError

/-- The loop of `dataunpack` from index `i` on; `none` is the return value 0. -/
def unpackLoop (nlen : Nat) : Nat → FrameState → List Byte → List Byte → Option (List Byte)
  | _, _, data, [] => some data
  | i, state, data, byte :: inBuf =>
    match unpackByte nlen i state byte with
    | .skip state => unpackLoop nlen (i + 1) state data inBuf
    | .store state byte => unpackLoop nlen (i + 1) state (data ++ [byte]) inBuf
    | .frameError => none

/-- The end of `dataunpack`. With less than four bytes the length passed to `jcrc32_le` is
negative, and it does not stop before the end of the memory. -/
def unpackCheck (data : List Byte) : Option (Int × List Byte) :=
  if data.length < 4 then none
  else
    let len := data.length - 4
    let crc32 := ~~~jcrc32Le (BitVec.allOnes 32) (data.take len)
    if le32Bytes crc32 = data.drop len then some (len, data) else some (-2, data)

/-- `dataunpack` of the bytes from `inBuf` on: what it returns, and what it has stored.
Reading beyond them is undefined. -/
def dataunpack (inBuf : List Byte) : Option (Int × List Byte) :=
  if inBuf.length < 4 then none
  else if inBuf.getD 0 0 ≠ 0x55 ∧ inBuf.getD 1 0 ≠ 0xaa then some (0, [])
  else
    let nlen := (le16 (inBuf.drop 2)).toNat
    match unpackLoop nlen 0 .outsideFrame [] (RingBuffer.slice inBuf 4 nlen) with
    | none => some (0, [])
    | some data => if inBuf.length < 4 + nlen then none else unpackCheck data

/-! ## What the state machine reads -/

/-- What may stand behind the escaped bytes, and what is stored of it: nothing, a lone
escape, or the closing flag and one byte more. -/
inductive Ending : List Byte → List Byte → Prop
  | none : Ending [] []
  | cut : Ending [0x7d] []
  | flags : Ending [0x7e, 0x7e] []
  | flagCut : Ending [0x7e, 0x7d] []
  | flagByte {b : Byte} (hb : serialStuffing.enc b = .none) : Ending [0x7e, b] [b]

/-- The bytes inside a frame, and what is stored. -/
inductive InsideReads : List Byte → List Byte → Prop
  | ending {e a : List Byte} (he : Ending e a) : InsideReads e a
  | raw {b : Byte} (hb : serialStuffing.enc b = none) {u d : List Byte} (h : InsideReads u d) :
      InsideReads (b :: u) (b :: d)
  | pair {b c : Byte} (hb : serialStuffing.enc b = some c) {u d : List Byte}
      (h : InsideReads u d) : InsideReads (0x7d :: c :: u) (b :: d)

/-- The bytes behind the length, and what is stored. -/
inductive Reads : List Byte → List Byte → Prop
  | flag {t d : List Byte} (h : Reads t d) : Reads (0x7e :: t) d
  | inside {u d : List Byte} (h : InsideReads u d) : Reads u d

/-- Two bytes are escaped, and no others. -/
theorem enc_eq_none_iff {b : Byte} : serialStuffing.enc b = none ↔ b ≠ 0x7d ∧ b ≠ 0x7e := by
  show (if b = 0x7d then some 0x5d else if b = 0x7e then some 0x5e else none) = none ↔ _
  split_ifs <;> simp_all

/-- The code of each. -/
theorem enc_eq_some_iff {b c : Byte} :
    serialStuffing.enc b = some c ↔ (b = 0x7d ∧ c = 0x5d) ∨ (b = 0x7e ∧ c = 0x5e) := by
  show (if b = 0x7d then some 0x5d else if b = 0x7e then some 0x5e else none) = some c ↔ _
  split_ifs <;> simp_all [eq_comm]

section Loop

variable {nlen i : Nat} {acc : List Byte} {u : List Byte}

/-- A byte that is not escaped is read as it is. -/
theorem unpackLoop_raw {b : Byte} (hb : serialStuffing.enc b = none) :
    unpackLoop nlen i .insideFrame acc (b :: u) =
      unpackLoop nlen (i + 1) .insideFrame (acc ++ [b]) u := by
  obtain ⟨h7d, h7e⟩ := enc_eq_none_iff.mp hb
  rw [unpackLoop, unpackByte, insideByte, if_neg h7d, if_neg h7e]

/-- An escaped byte is read with its code. -/
theorem unpackLoop_pair {b c : Byte} (hb : serialStuffing.enc b = some c) :
    unpackLoop nlen i .insideFrame acc (0x7d :: c :: u) =
      unpackLoop nlen (i + 2) .insideFrame (acc ++ [b]) u := by
  obtain ⟨rfl, rfl⟩ | ⟨rfl, rfl⟩ := enc_eq_some_iff.mp hb <;> rfl

/-- An escape before anything but a code ends the loop. -/
theorem unpackLoop_broken {c : Byte} (h5e : c ≠ 0x5e) (h5d : c ≠ 0x5d) :
    unpackLoop nlen i .insideFrame acc (0x7d :: c :: u) = none := by
  rw [unpackLoop, unpackByte, insideByte, if_pos rfl]
  dsimp only
  rw [unpackLoop, unpackByte, if_neg h5e, if_neg h5d]

/-- Outside a frame a byte that is no flag is as if inside. -/
theorem unpackLoop_outside (hu : u.head? ≠ some 0x7e) :
    unpackLoop nlen i .outsideFrame acc u = unpackLoop nlen i .insideFrame acc u := by
  cases u with
  | nil => rfl
  | cons b u =>
    have hb : b ≠ 0x7e := by simpa using hu
    rw [unpackLoop, unpackLoop, unpackByte, unpackByte, if_neg hb]

/-- An ending ends the frame, wherever its flag is expected. -/
theorem unpackLoop_ending {e a : List Byte} (he : Ending e a) (hlen : i + e.length = nlen) :
    unpackLoop nlen i .insideFrame acc e = some (acc ++ a) := by
  -- a flag closes the frame with one byte to go
  have hclose : ∀ b : Byte, i + 2 = nlen →
      unpackLoop nlen i .insideFrame acc [0x7e, b] =
        unpackLoop nlen (i + 1) .outsideFrame acc [b] := by
    intro b hi
    rw [unpackLoop, unpackByte, insideByte, if_neg (by decide), if_pos rfl, if_neg (by omega)]
  cases he with
  | none => simp [unpackLoop]
  | cut => simp [unpackLoop, unpackByte, insideByte]
  | flags =>
    rw [hclose _ hlen]
    simp [unpackLoop, unpackByte]
  | flagCut =>
    rw [hclose _ hlen]
    simp [unpackLoop, unpackByte, insideByte]
  | flagByte hb =>
    have h7e := (enc_eq_none_iff.mp hb).2
    rw [hclose _ hlen, unpackLoop_outside (by simpa using h7e), unpackLoop_raw hb]
    rfl

/-- So the loop reads what the grammar says. -/
theorem unpackLoop_of_insideReads {d : List Byte} (h : InsideReads u d)
    (hlen : i + u.length = nlen) : unpackLoop nlen i .insideFrame acc u = some (acc ++ d) := by
  induction h generalizing i acc with
  | ending he => exact unpackLoop_ending he hlen
  | raw hb _ ih =>
    rw [List.length_cons] at hlen
    rw [unpackLoop_raw hb, ih (by omega), List.append_assoc]
    rfl
  | pair hb _ ih =>
    simp only [List.length_cons] at hlen
    rw [unpackLoop_pair hb, ih (by omega), List.append_assoc]
    rfl

/-- What the loop reads inside a frame is in the grammar. -/
theorem insideReads_of_unpackLoop {r : List Byte} (hlen : i + u.length = nlen)
    (h : unpackLoop nlen i .insideFrame acc u = some r) : ∃ d, r = acc ++ d ∧ InsideReads u d := by
  induction hn : u.length using Nat.strong_induction_on generalizing u i acc with
  | _ n ih =>
    match u, hlen, hn, h with
    | [], _, _, h => exact ⟨[], by simpa [unpackLoop] using h.symm, .ending .none⟩
    | b :: u, hlen, hn, h =>
      rw [List.length_cons] at hlen hn
      cases henc : serialStuffing.enc b with
      | none =>
        rw [unpackLoop_raw henc] at h
        obtain ⟨d, rfl, hd⟩ := ih u.length (by omega) (by omega) h rfl
        exact ⟨b :: d, by simp, .raw henc hd⟩
      | some c =>
        obtain ⟨rfl, -⟩ | ⟨rfl, -⟩ := enc_eq_some_iff.mp henc
        · -- an escape: the pair is complete, broken, or cut off
          match u, hlen, hn, h with
          | [], _, _, h => exact ⟨[], by simpa [unpackLoop, unpackByte, insideByte] using h.symm,
              .ending .cut⟩
          | c :: u, hlen, hn, h =>
            rw [List.length_cons] at hlen hn
            have hpair : ∀ x, serialStuffing.enc x = some c →
                ∃ d, r = acc ++ d ∧ InsideReads (0x7d :: c :: u) d := by
              intro x hx
              rw [unpackLoop_pair hx] at h
              obtain ⟨d, rfl, hd⟩ := ih u.length (by omega) (by omega) h rfl
              exact ⟨x :: d, by simp, .pair hx hd⟩
            by_cases h5e : c = 0x5e
            · subst h5e
              exact hpair 0x7e rfl
            · by_cases h5d : c = 0x5d
              · subst h5d
                exact hpair 0x7d rfl
              · rw [unpackLoop_broken h5e h5d] at h
                cases h
        · -- a flag: only the last but one byte may be one
          by_cases hlast : (i : Int) ≠ nlen - 2
          · simp [unpackLoop, unpackByte, insideByte, hlast] at h
          · rw [unpackLoop, unpackByte, insideByte, if_neg (by decide), if_pos rfl, if_neg hlast] at h
            match u, hlen, h with
            | [x], _, h =>
              cases hx : serialStuffing.enc x with
              | none =>
                have h7e := (enc_eq_none_iff.mp hx).2
                dsimp only at h
                rw [unpackLoop_outside (by simpa using h7e), unpackLoop_raw hx] at h
                exact ⟨[x], by simpa [unpackLoop] using h.symm, .ending (.flagByte hx)⟩
              | some y =>
                obtain ⟨rfl, -⟩ | ⟨rfl, -⟩ := enc_eq_some_iff.mp hx
                · exact ⟨[], by simpa [unpackLoop, unpackByte, insideByte] using h.symm,
                    .ending .flagCut⟩
                · exact ⟨[], by simpa [unpackLoop, unpackByte] using h.symm, .ending .flags⟩
            | [], hlen, _ => simp only [List.length_nil] at hlen; omega
            | _ :: _ :: _, hlen, _ => simp only [List.length_cons] at hlen; omega

end Loop

/-- **The state machine reads the grammar**: behind any number of flags a frame. -/
theorem unpackLoop_eq_some_iff {nlen i : Nat} {t d : List Byte} (hlen : i + t.length = nlen) :
    unpackLoop nlen i .outsideFrame [] t = some d ↔ Reads t d := by
  induction t generalizing i with
  | nil =>
    rw [unpackLoop_outside (by simp)]
    constructor
    · intro h
      obtain ⟨d, rfl, hd⟩ := insideReads_of_unpackLoop hlen h
      exact .inside hd
    · intro h
      cases h with
      | inside h => exact unpackLoop_of_insideReads h hlen
  | cons b t ih =>
    by_cases hb : b = 0x7e
    · subst hb
      have hskip : unpackLoop nlen i .outsideFrame [] (0x7e :: t) =
          unpackLoop nlen (i + 1) .outsideFrame [] t := rfl
      rw [List.length_cons] at hlen
      rw [hskip, ih (by omega)]
      constructor
      · exact .flag
      · -- a frame that begins with its closing flag is another flag before an ending
        rintro (h | h)
        · exact h
        · cases h with
          | raw hraw => exact absurd rfl (enc_eq_none_iff.mp hraw).2
          | ending he =>
            cases he with
            | flags => exact .flag (.inside (.ending .none))
            | flagCut => exact .inside (.ending .cut)
            | flagByte hx => exact .inside (.raw hx (.ending .none))
    · rw [unpackLoop_outside (by simpa using hb)]
      constructor
      · intro h
        obtain ⟨d, rfl, hd⟩ := insideReads_of_unpackLoop hlen h
        exact .inside hd
      · rintro (h | h)
        · exact absurd rfl hb
        · exact unpackLoop_of_insideReads h hlen

/-! ## The grammar and the encoder -/

/-- What is escaped is read back. -/
theorem insideReads_escape (p : List Byte) {e a : List Byte} (he : Ending e a) :
    InsideReads (serialStuffing.escape p ++ e) (p ++ a) := by
  induction p with
  | nil => exact .ending he
  | cons b p ih =>
    cases henc : serialStuffing.enc b with
    | none =>
      rw [serialStuffing.escape_cons_raw henc]
      exact .raw henc ih
    | some c =>
      rw [serialStuffing.escape_cons_enc henc]
      exact .pair henc ih

/-- Inside a frame there are escaped bytes and an ending. -/
theorem InsideReads.exists_escape {u d : List Byte} (h : InsideReads u d) :
    ∃ p e a, u = serialStuffing.escape p ++ e ∧ Ending e a ∧ d = p ++ a := by
  induction h with
  | ending he => exact ⟨[], _, _, rfl, he, rfl⟩
  | @raw b hb _ _ _ ih =>
    obtain ⟨p, e, a, rfl, he, rfl⟩ := ih
    exact ⟨b :: p, e, a, by rw [serialStuffing.escape_cons_raw hb]; rfl, he, rfl⟩
  | @pair b c hb _ _ _ ih =>
    obtain ⟨p, e, a, rfl, he, rfl⟩ := ih
    exact ⟨b :: p, e, a, by rw [serialStuffing.escape_cons_enc hb]; rfl, he, rfl⟩

/-- Flags in front do not matter. -/
theorem reads_flags (k : Nat) {t d : List Byte} (h : Reads t d) :
    Reads (List.replicate k 0x7e ++ t) d := by
  induction k with
  | zero => exact h
  | succ k ih => exact .flag ih

/-- Any body that reads is flags, and a body without one. -/
theorem Reads.exists_flags {t d : List Byte} (h : Reads t d) :
    ∃ k u, t = List.replicate k 0x7e ++ u ∧ InsideReads u d := by
  induction h with
  | flag _ ih =>
    obtain ⟨k, u, rfl, hu⟩ := ih
    exact ⟨k + 1, u, rfl, hu⟩
  | inside h => exact ⟨0, _, rfl, h⟩

/-! ## The round trip -/

/-- `dataunpack` of a message with its header; what is behind the message is not read. -/
theorem dataunpack_append_eq {inBuf : List Byte} (hlen : 4 ≤ inBuf.length)
    (hsign : inBuf.take 2 = [0x55, 0xaa]) (hfield : (le16 (inBuf.drop 2)).toNat + 4 = inBuf.length)
    (rest : List Byte) :
    dataunpack (inBuf ++ rest) =
      match unpackLoop (inBuf.length - 4) 0 .outsideFrame [] (inBuf.drop 4) with
      | none => some (0, [])
      | some data => unpackCheck data := by
  have hfirst : (inBuf ++ rest).getD 0 0 = 0x55 := by
    rw [← List.take_append_drop 2 inBuf, hsign]
    rfl
  -- the signature, the length and the bytes of the frame are the same with more behind it
  have hle : le16 ((inBuf ++ rest).drop 2) = le16 (inBuf.drop 2) := by
    rw [List.drop_append_of_le_length (by omega), ← le16_take_two, List.take_append_of_le_length
      (by rw [List.length_drop]; omega), le16_take_two]
  have hnlen : (le16 ((inBuf ++ rest).drop 2)).toNat = inBuf.length - 4 := by
    rw [hle]
    omega
  have hslice : RingBuffer.slice (inBuf ++ rest) 4 (inBuf.length - 4) = inBuf.drop 4 := by
    rw [RingBuffer.slice, List.drop_append_of_le_length hlen, List.take_append_of_le_length
      (by rw [List.length_drop]), List.take_of_length_le (by rw [List.length_drop])]
  unfold dataunpack
  rw [if_neg (by rw [List.length_append]; omega), if_neg (fun h => h.1 hfirst)]
  simp only [hnlen, hslice]
  split
  · rfl
  · rw [if_neg (by rw [List.length_append]; omega)]

/-- Behind a head that is accepted the state machine runs, and its result is checked. -/
theorem dataunpack_eq {inBuf : List Byte} (hlen : 4 ≤ inBuf.length)
    (hsign : inBuf.take 2 = [0x55, 0xaa]) (hfield : (le16 (inBuf.drop 2)).toNat + 4 = inBuf.length) :
    dataunpack inBuf =
      match unpackLoop (inBuf.length - 4) 0 .outsideFrame [] (inBuf.drop 4) with
      | none => some (0, [])
      | some data => unpackCheck data := by
  have h := dataunpack_append_eq hlen hsign hfield []
  rwa [List.append_nil] at h

/-- The header of a frame. -/
theorem frame_header {body : List Byte} (hlen : (frame body).length ≤ 65539) :
    (frame body).take 2 = [0x55, 0xaa] ∧
      (le16 ((frame body).drop 2)).toNat + 4 = (frame body).length := by
  have hdrop : (frame body).drop 2 = le16Bytes (BitVec.ofNat 16 (body.length + 4)) ++
      ([0x7e, 0x7e] ++ body ++ [0x7e, 0x7e]) := by simp [frame]
  rw [length_frame] at hlen ⊢
  refine ⟨rfl, ?_⟩
  rw [hdrop, le16_le16Bytes, toNat_ofNat_of_lt (by omega)]

/-- The body that `datapack` puts between the flags. -/
def packed (p : List Byte) : List Byte :=
  serialStuffing.escape (p ++ le32Bytes (~~~jcrc32Le (BitVec.allOnes 32) p))

/-- `datapack` frames the packed payload. -/
theorem datapack_eq_frame (p : List Byte) : datapack p = frame (packed p) := by
  rw [datapack_eq, packed, serialStuffing.escape_append]

/-- A checksum that is right is found to be. -/
theorem unpackCheck_packed (p : List Byte) :
    unpackCheck (p ++ le32Bytes (~~~jcrc32Le (BitVec.allOnes 32) p)) =
      some ((p.length : Int), p ++ le32Bytes (~~~jcrc32Le (BitVec.allOnes 32) p)) := by
  have hlen : (p ++ le32Bytes (~~~jcrc32Le (BitVec.allOnes 32) p)).length = p.length + 4 := by
    simp [le32Bytes]
  unfold unpackCheck
  rw [if_neg (by omega)]
  simp only [hlen, Nat.add_sub_cancel, List.take_left, List.drop_left, if_true]

/-- No flag is left in an escaped payload. -/
theorem not_mem_escape (p : List Byte) : 0x7e ∉ serialStuffing.escape p := by
  induction p with
  | nil => nofun
  | cons b p ih =>
    cases henc : serialStuffing.enc b with
    | none =>
      have hb := (enc_eq_none_iff.mp henc).2
      rw [serialStuffing.escape_cons_raw henc]
      exact List.not_mem_cons_of_ne_of_not_mem hb.symm ih
    -- neither an escape nor a code is a flag
    | some c =>
      rw [serialStuffing.escape_cons_enc henc]
      obtain ⟨rfl, rfl⟩ | ⟨rfl, rfl⟩ := enc_eq_some_iff.mp henc <;>
        exact List.not_mem_cons_of_ne_of_not_mem (by decide)
          (List.not_mem_cons_of_ne_of_not_mem (by decide) ih)

/-- The frame adds eight bytes. -/
theorem length_datapack (p : List Byte) : (datapack p).length = (packed p).length + 8 := by
  rw [datapack_eq_frame, length_frame]

/-- The frame is read as the payload and its CRC, whatever is behind it in the buffer. -/
theorem dataunpack_frame {p : List Byte} (hlen : (datapack p).length ≤ 65539) (rest : List Byte) :
    dataunpack (datapack p ++ rest) =
      some ((p.length : Int), p ++ le32Bytes (~~~jcrc32Le (BitVec.allOnes 32) p)) := by
  rw [datapack_eq_frame] at hlen ⊢
  obtain ⟨hsign, hfield⟩ := frame_header hlen
  have hfour : (frame (packed p)).length = (packed p).length + 8 := length_frame _
  have hdrop : (frame (packed p)).drop 4 = [0x7e, 0x7e] ++ packed p ++ [0x7e, 0x7e] := by
    simp [frame, le16Bytes]
  -- two flags, the escaped bytes, and two flags
  have hreads : Reads ((frame (packed p)).drop 4)
      (p ++ le32Bytes (~~~jcrc32Le (BitVec.allOnes 32) p) ++ []) := by
    rw [hdrop, List.append_assoc]
    exact reads_flags 2 (.inside (insideReads_escape _ .flags))
  rw [dataunpack_append_eq (by omega) hsign hfield,
    (unpackLoop_eq_some_iff (by rw [List.length_drop]; omega)).mpr hreads, List.append_nil]
  exact unpackCheck_packed p

/-- **The round trip of the C driver**: `dataunpack` returns the length of the payload and
stores it; the length field fits, the body has no flag, and the frame is at most twice as
long as the payload, and 16 bytes. -/
theorem dataunpack_datapack {p : List Byte} (hlen : (datapack p).length ≤ 65539) :
    (∃ data, dataunpack (datapack p) = some ((p.length : Int), data) ∧ data.take p.length = p) ∧
      (le16 ((datapack p).drop 2)).toNat + 4 = (datapack p).length ∧
      0x7e ∉ RingBuffer.slice (datapack p) 6 ((datapack p).length - 8) ∧
      (datapack p).length ≤ 2 * p.length + 16 := by
  have hunpack := dataunpack_frame hlen []
  rw [List.append_nil] at hunpack
  have hfour := length_datapack p
  refine ⟨⟨_, hunpack, List.take_left⟩, ?_, ?_, ?_⟩
  · rw [datapack_eq_frame] at hlen ⊢
    exact (frame_header hlen).2
  -- between the flags is the escaped payload
  · have hbody : RingBuffer.slice (datapack p) 6 ((datapack p).length - 8) = packed p := by
      rw [hfour, Nat.add_sub_cancel, datapack_eq_frame]
      exact List.take_left
    rw [hbody]
    exact not_mem_escape _
  -- at worst every byte is escaped
  · have hdouble := serialStuffing.length_escape_le (p ++ le32Bytes (~~~jcrc32Le (BitVec.allOnes 32) p))
    have hcrc : (le32Bytes (~~~jcrc32Le (BitVec.allOnes 32) p)).length = 4 := rfl
    rw [List.length_append, hcrc] at hdouble
    rw [hfour, packed]
    omega

/-- Both special bytes, each in front of another. -/
theorem dataunpack_datapack_special :
    (∃ data, dataunpack (datapack [0x7e, 0x01, 0x7d]) = some (3, data) ∧
        data.take 3 = [0x7e, 0x01, 0x7d]) ∧
      (le16 ((datapack [0x7e, 0x01, 0x7d]).drop 2)).toNat + 4 =
        (datapack [0x7e, 0x01, 0x7d]).length ∧
      0x7e ∉ RingBuffer.slice (datapack [0x7e, 0x01, 0x7d]) 6
        ((datapack [0x7e, 0x01, 0x7d]).length - 8) ∧
      (datapack [0x7e, 0x01, 0x7d]).length ≤ 2 * 3 + 16 :=
  @dataunpack_datapack [0x7e, 0x01, 0x7d] (by decide)

end PgClient.Serial
