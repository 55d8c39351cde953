import PgClient.Serial.Unpack

/-!
# The two decoders of the serial links

`dataunpack` follows flags and escapes byte by byte. `doCom2H` takes what lies between
fixed offsets, whatever the flags are, and leaves an escape that is none as it is.

* `SameShape` — the messages that both read alike; `sameShape_of_reads_trimmed` shows
  that there are no others.
* `decodersAgree_iff` — on which messages they agree.
-/

namespace PgClient.Serial

/-! ## What the decoders hand out -/

/-- The payload of `doCom2H`; its caller takes 0 for an error. -/
def com2HPayload (r : Nat × Option (List Byte)) : Option (List Byte) :=
  if r.1 = 0 then none else r.2.map fun pOut => pOut.take r.1

/-- The payload of `dataunpack`; its caller takes 0 and less for an error. -/
def unpackPayload (r : Int × List Byte) : Option (List Byte) :=
  if r.1 ≤ 0 then none else some (r.2.take r.1.toNat)

/-- Both refuse the message, or both return the same payload. -/
def DecodersAgree (pIn : List Byte) : Prop :=
  ∃ r r', doCom2H pIn = some r ∧ dataunpack pIn = some r' ∧ com2HPayload r = unpackPayload r'

/-- A payload that is not empty, and its CRC. -/
def CrcOk (data : List Byte) : Prop :=
  4 < data.length ∧ data.drop (data.length - 4) =
    le32Bytes (~~~crc32Le 0xFFFFFFFF (data.take (data.length - 4)))

instance (data : List Byte) : Decidable (CrcOk data) := inferInstanceAs (Decidable (_ ∧ _))

/-- The payload in front of the CRC, if it is right. -/
def crcPayload (data : List Byte) : Option (List Byte) :=
  if CrcOk data then some (data.take (data.length - 4)) else none

/-- The bytes between the places of the flags. -/
def trimmed (t : List Byte) : List Byte := (t.drop 2).take (t.length - 4)

/-- The bytes behind the length, for which both decoders read the same: flags and escaped
bytes, and at the end flags, one of them perhaps an escape; or the escape of an escape and
another one; or a third flag, and escaped flags only. -/
inductive SameShape : List Byte → Prop
  | flags (p : List Byte) : SameShape ([0x7e, 0x7e] ++ serialStuffing.escape p ++ [0x7e, 0x7e])
  | flagCut (p : List Byte) : SameShape ([0x7e, 0x7e] ++ serialStuffing.escape p ++ [0x7e, 0x7d])
  | escCut (p : List Byte) :
      SameShape ([0x7e, 0x7e] ++ serialStuffing.escape p ++ [0x7d, 0x5d, 0x7d])
  | third (m : Nat) :
      SameShape ([0x7e, 0x7e, 0x7e] ++ serialStuffing.escape (List.replicate m 0x7e))

/-! ## Their results -/

/-- No payload comes out where the checksum is wrong. -/
theorem crcPayload_eq_none_iff {data : List Byte} : crcPayload data = none ↔ ¬CrcOk data := by
  unfold crcPayload
  split_ifs with h <;> simp [h]

/-- From four bytes on `doCom2H` hands out what the checksum vouches for. -/
theorem com2HCheck_eq {data : List Byte} (hlen : 4 ≤ data.length) :
    ∃ r, com2HCheck data = some r ∧ com2HPayload r = crcPayload data := by
  have hdrop : (data.drop (data.length - 4)).length = 4 := by
    rw [List.length_drop]
    omega
  have hcrc : ~~~doCrc32 (data.take (data.length - 4)) = le32 (data.drop (data.length - 4)) ↔
      data.drop (data.length - 4) = le32Bytes (~~~crc32Le 0xFFFFFFFF (data.take (data.length - 4))) := by
    constructor
    · intro h
      rw [← le32Bytes_le32 hdrop, ← h]
      rfl
    · intro h
      rw [h, le32_le32Bytes]
      rfl
  unfold com2HCheck
  rw [if_neg (by omega)]
  dsimp only
  by_cases hok : ~~~doCrc32 (data.take (data.length - 4)) = le32 (data.drop (data.length - 4))
  · rw [if_pos hok]
    refine ⟨_, rfl, ?_⟩
    unfold com2HPayload
    by_cases hzero : data.length - 4 = 0
    · -- four bytes: the payload is empty, and 0 is returned
      rw [if_pos hzero, crcPayload_eq_none_iff.mpr fun h => by have := h.1; omega]
    · rw [if_neg hzero, crcPayload, if_pos ⟨by omega, hcrc.mp hok⟩]
      rfl
  · rw [if_neg hok, crcPayload_eq_none_iff.mpr fun h => hok (hcrc.mpr h.2)]
    exact ⟨_, rfl, rfl⟩

/-- From four bytes on `dataunpack` hands out what the checksum vouches for. -/
theorem unpackCheck_eq {data : List Byte} (hlen : 4 ≤ data.length) :
    ∃ r, unpackCheck data = some r ∧ unpackPayload r = crcPayload data := by
  have hcrc : le32Bytes (~~~jcrc32Le (BitVec.allOnes 32) (data.take (data.length - 4))) =
      data.drop (data.length - 4) ↔
      data.drop (data.length - 4) = le32Bytes (~~~crc32Le 0xFFFFFFFF (data.take (data.length - 4))) :=
    eq_comm
  unfold unpackCheck
  rw [if_neg (by omega)]
  dsimp only
  by_cases hok : le32Bytes (~~~jcrc32Le (BitVec.allOnes 32) (data.take (data.length - 4))) =
      data.drop (data.length - 4)
  · rw [if_pos hok]
    refine ⟨_, rfl, ?_⟩
    unfold unpackPayload
    -- an empty payload is returned as length 0, which is none
    by_cases hzero : data.length - 4 = 0
    · rw [if_pos (by simp [hzero]), crcPayload_eq_none_iff.mpr fun h => by have := h.1; omega]
    · rw [if_neg (by show ¬(((data.length - 4 : Nat) : Int) ≤ 0); omega), crcPayload,
        if_pos ⟨by omega, hcrc.mp hok⟩, Int.toNat_natCast]
  · rw [if_neg hok, crcPayload_eq_none_iff.mpr fun h => hok (hcrc.mpr h.2)]
    exact ⟨_, rfl, rfl⟩

/-- A payload and its CRC are the whole of the decoded bytes. -/
theorem eq_of_crcPayload {data data' p : List Byte} (h : crcPayload data = some p)
    (h' : crcPayload data' = some p) : data = data' := by
  have hparts : ∀ d, crcPayload d = some p → d = p ++ le32Bytes (~~~crc32Le 0xFFFFFFFF p) := by
    intro d hd
    unfold crcPayload at hd
    split_ifs at hd with hok
    obtain rfl := Option.some.inj hd
    rw [← hok.2, List.take_append_drop]
  rw [hparts data h, hparts data' h']

/-! ## Which messages are read alike -/

/-- How the escaped bytes and their ending read without the last two bytes: `c` is common
to both readings, behind it are `r` without those two bytes and `a` with them. -/
inductive Trims : List Byte → List Byte → List Byte → List Byte → Prop
  | same (c : List Byte) {e : List Byte} (he : e = [0x7e, 0x7e] ∨ e = [0x7e, 0x7d]) :
      Trims (serialStuffing.escape c ++ e) c [] []
  | byte (c : List Byte) {x : Byte} (hx : serialStuffing.enc x = none) :
      Trims (serialStuffing.escape c ++ [0x7e, x]) c [] [x]
  | cutPair (c : List Byte) {y z : Byte} (hy : serialStuffing.enc y = some z) :
      Trims (serialStuffing.escape c ++ [0x7d, z, 0x7d]) c [0x7d] [y]
  | cutRaw (c : List Byte) {y : Byte} (hy : serialStuffing.enc y = none) :
      Trims (serialStuffing.escape c ++ [y, 0x7d]) c [] [y]
  | pair (c : List Byte) {y z : Byte} (hy : serialStuffing.enc y = some z) :
      Trims (serialStuffing.escape c ++ [0x7d, z]) c [] [y]
  | pairRaw (c : List Byte) {x y z : Byte} (hx : serialStuffing.enc x = some z)
      (hy : serialStuffing.enc y = none) :
      Trims (serialStuffing.escape c ++ [0x7d, z, y]) c [0x7d] [x, y]
  | rawRaw (c : List Byte) {x y : Byte} (hx : serialStuffing.enc x = none)
      (hy : serialStuffing.enc y = none) :
      Trims (serialStuffing.escape c ++ [x, y]) c [] [x, y]

/-- The bytes without the last two. -/
def dropTwo (w : List Byte) : List Byte := w.take (w.length - 2)

/-- The last two bytes are taken off. -/
theorem dropTwo_append (u : List Byte) (x y : Byte) : dropTwo (u ++ [x, y]) = u := by
  simp [dropTwo]

/-- A third byte from the end stays. -/
theorem dropTwo_append_three (u : List Byte) (x y z : Byte) :
    dropTwo (u ++ [x, y, z]) = u ++ [x] := by
  simp [dropTwo, List.take_append]

/-- A byte behind an escaped payload is left as it is. -/
theorem unescape_escape_raw (p : List Byte) (b : Byte) :
    serialStuffing.unescape (serialStuffing.escape p ++ [b]) = p ++ [b] := by
  rw [serialStuffing.unescape_escape_append]
  rfl

/-- What is left of a trimmed body reads as its covered bytes. -/
theorem Trims.unescape {w c r a : List Byte} (h : Trims w c r a) :
    serialStuffing.unescape (dropTwo w) = c ++ r := by
  cases h with
  | same _ he =>
    rcases he with rfl | rfl <;> rw [dropTwo_append, serialStuffing.unescape_escape, List.append_nil]
  | byte _ _ | cutRaw _ _ | pair _ _ | rawRaw _ _ _ =>
    rw [dropTwo_append, serialStuffing.unescape_escape, List.append_nil]
  | cutPair _ _ | pairRaw _ _ _ => rw [dropTwo_append_three, unescape_escape_raw]

/-- Trimming adds nothing. -/
theorem Trims.length_le {w c r a : List Byte} (h : Trims w c r a) : r.length ≤ a.length := by
  cases h <;> simp

/-- A last byte that is escaped adds two. -/
theorem escape_concat_enc (c : List Byte) {y z : Byte} (hy : serialStuffing.enc y = some z) :
    serialStuffing.escape (c ++ [y]) = serialStuffing.escape c ++ [0x7d, z] := by
  rw [serialStuffing.escape_append, serialStuffing.escape_cons_enc hy]
  rfl

/-- A last byte that is not escaped adds itself. -/
theorem escape_concat_raw (c : List Byte) {y : Byte} (hy : serialStuffing.enc y = none) :
    serialStuffing.escape (c ++ [y]) = serialStuffing.escape c ++ [y] := by
  rw [serialStuffing.escape_append, serialStuffing.escape_cons_raw hy]
  rfl

/-- What is read inside a frame trims in one of these ways. -/
theorem InsideReads.trims {w d : List Byte} (h : InsideReads w d) (hlen : 2 ≤ w.length) :
    ∃ c r a, Trims w c r a ∧ d = c ++ a := by
  obtain ⟨p, e, a, rfl, he, rfl⟩ := h.exists_escape
  cases he with
  | flags => exact ⟨p, [], [], .same p (.inl rfl), rfl⟩
  | flagCut => exact ⟨p, [], [], .same p (.inr rfl), rfl⟩
  | flagByte hx => exact ⟨p, [], _, .byte p hx, rfl⟩
  | cut =>
    -- the lone escape, and the byte in front of it
    rcases p.eq_nil_or_concat' with rfl | ⟨c, y, rfl⟩
    · simp [Stuffing.escape] at hlen
    · rw [List.append_nil]
      cases hy : serialStuffing.enc y with
      | some z =>
        rw [escape_concat_enc c hy, List.append_assoc]
        exact ⟨c, _, _, .cutPair c hy, rfl⟩
      | none =>
        rw [escape_concat_raw c hy, List.append_assoc]
        exact ⟨c, _, _, .cutRaw c hy, rfl⟩
  | none =>
    rcases p.eq_nil_or_concat' with rfl | ⟨c, y, rfl⟩
    · simp [Stuffing.escape] at hlen
    · rw [List.append_nil, List.append_nil]
      cases hy : serialStuffing.enc y with
      | some z =>
        rw [escape_concat_enc c hy]
        exact ⟨c, _, _, .pair c hy, rfl⟩
      | none =>
        -- one byte, and the last of what is before it
        rw [escape_concat_raw c hy] at hlen ⊢
        rcases c.eq_nil_or_concat' with rfl | ⟨c, x, rfl⟩
        · simp [Stuffing.escape] at hlen
        · cases hx : serialStuffing.enc x with
          | some z =>
            rw [escape_concat_enc c hx, List.append_assoc, List.append_assoc]
            exact ⟨c, _, _, .pairRaw c hx hy, rfl⟩
          | none =>
            rw [escape_concat_raw c hx, List.append_assoc, List.append_assoc]
            exact ⟨c, _, _, .rawRaw c hx hy, rfl⟩

/-- The trimmed body is unescaped to no more than the whole one. -/
theorem InsideReads.length_trimmed {w d : List Byte} (h : InsideReads w d) (hlen : 2 ≤ w.length) :
    (serialStuffing.unescape (dropTwo w)).length ≤ d.length := by
  obtain ⟨c, r, a, htrims, rfl⟩ := h.trims hlen
  have := htrims.length_le
  rw [htrims.unescape, List.length_append, List.length_append]
  omega

/-- A byte in front of two others stays. -/
theorem dropTwo_cons (b : Byte) {w : List Byte} (hlen : 2 ≤ w.length) :
    dropTwo (b :: w) = b :: dropTwo w := by
  obtain ⟨n, hn⟩ : ∃ n, w.length - 2 = n := ⟨_, rfl⟩
  have hsucc : (b :: w).length - 2 = n + 1 := by
    rw [List.length_cons]
    omega
  rw [dropTwo, dropTwo, hsucc, hn, List.take_succ_cons]

/-- Bytes in front of two others stay. -/
theorem dropTwo_append_of_le (v : List Byte) {w : List Byte} (hlen : 2 ≤ w.length) :
    dropTwo (v ++ w) = v ++ dropTwo w := by
  induction v with
  | nil => rfl
  | cons b v ih =>
    rw [List.cons_append, dropTwo_cons b (by rw [List.length_append]; omega), ih, List.cons_append]

/-- The same behind the unescaping, if the byte is no escape. -/
theorem unescape_dropTwo_cons {b : Byte} (hb : b ≠ 0x7d) {w : List Byte} (hlen : 2 ≤ w.length) :
    serialStuffing.unescape (dropTwo (b :: w)) = b :: serialStuffing.unescape (dropTwo w) := by
  rw [dropTwo_cons b hlen]
  exact serialStuffing.unescape_cons hb _

/-- The second byte of a pair is not an escape, and not what the pair stands for. -/
theorem enc_ne {b c : Byte} (h : serialStuffing.enc b = some c) : c ≠ 0x7d ∧ c ≠ b := by
  obtain ⟨rfl, rfl⟩ | ⟨rfl, rfl⟩ := enc_eq_some_iff.mp h <;> decide

/-- Behind no flag the state machine reads more than lies between the offsets. -/
theorem InsideReads.ne_noFlag {w d : List Byte} (h : InsideReads w d) (hlen : 8 ≤ w.length) :
    serialStuffing.unescape (dropTwo (w.drop 2)) ≠ d := by
  intro heq
  have hlength := congrArg List.length heq
  cases h with
  | ending he => cases he <;> simp at hlen
  | pair hb h =>
    have := h.length_trimmed (by simp only [List.length_cons] at hlen; omega)
    simp only [List.drop_succ_cons, List.drop_zero, List.length_cons] at hlength
    omega
  | raw hb h =>
    cases h with
    | ending he => cases he <;> simp at hlen
    | raw hb' h =>
      have := h.length_trimmed (by simp only [List.length_cons] at hlen; omega)
      simp only [List.drop_succ_cons, List.drop_zero, List.length_cons] at hlength
      omega
    | pair hb' h =>
      -- the offset lies inside a pair, whose second byte then stands for itself
      simp only [List.length_cons] at hlen
      have := h.length_trimmed (by omega)
      rw [List.drop_succ_cons, List.drop_succ_cons, List.drop_zero,
        unescape_dropTwo_cons (enc_ne hb').1 (by omega)] at hlength
      simp only [List.length_cons] at hlength
      omega

/-- Behind one flag it reads more, too, or another first byte. -/
theorem InsideReads.ne_oneFlag {w d : List Byte} (h : InsideReads w d) (hlen : 7 ≤ w.length) :
    serialStuffing.unescape (dropTwo (w.drop 1)) ≠ d := by
  intro heq
  -- by the first symbol of the body
  cases h with
  | ending he => cases he <;> simp at hlen
  | raw hb h =>
    have hlength := congrArg List.length heq
    have := h.length_trimmed (by simp only [List.length_cons] at hlen; omega)
    simp only [List.drop_succ_cons, List.drop_zero, List.length_cons] at hlength
    omega
  | pair hb h =>
    simp only [List.length_cons] at hlen
    rw [List.drop_succ_cons, List.drop_zero, unescape_dropTwo_cons (enc_ne hb).1 (by omega)] at heq
    exact (enc_ne hb).2 (List.cons.inj heq).1

/-- Flags in front are left as they are. -/
theorem unescape_flags (k : Nat) (bs : List Byte) :
    serialStuffing.unescape (List.replicate k 0x7e ++ bs) =
      List.replicate k 0x7e ++ serialStuffing.unescape bs := by
  induction k with
  | zero => rfl
  | succ k ih =>
    rw [List.replicate_succ, List.cons_append, List.cons_append, ← ih]
    exact serialStuffing.unescape_cons (by decide) _

/-- A list that can be shifted by one element has only that one. -/
theorem eq_replicate_of_shift {b y : Byte} {c : List Byte} (h : b :: c = c ++ [y]) :
    y = b ∧ c = List.replicate c.length b := by
  induction c with
  | nil => exact ⟨(List.cons.inj h).1.symm, rfl⟩
  | cons x c ih =>
    obtain ⟨rfl, hrest⟩ := List.cons.inj h
    obtain ⟨rfl, hc⟩ := ih hrest
    refine ⟨rfl, ?_⟩
    rw [List.length_cons, List.replicate_succ, ← hc]

/-- Unescaping adds nothing. -/
theorem InsideReads.length_le {u d : List Byte} (h : InsideReads u d) : d.length ≤ u.length := by
  induction h with
  | ending he => cases he <;> simp
  | raw _ _ ih => simpa using ih
  | pair _ _ ih => simp only [List.length_cons]; omega

/-- Trimming takes two bytes off either end. -/
theorem trimmed_eq_dropTwo (t : List Byte) : trimmed t = dropTwo (t.drop 2) := by
  rw [trimmed, dropTwo, List.length_drop, Nat.sub_sub]

/-- Flags without two bytes behind them are more than what is read. -/
theorem ne_onlyFlags {k : Nat} {u d : List Byte} (h : InsideReads u d) (hu : u.length < 2)
    (hlen : 8 ≤ k + u.length) :
    serialStuffing.unescape (trimmed (List.replicate k 0x7e ++ u)) ≠ d := by
  intro heq
  -- trimming leaves flags only
  have htrimmed : trimmed (List.replicate k 0x7e ++ u) = List.replicate (k + u.length - 4) 0x7e ++ [] := by
    rw [trimmed, List.append_nil, List.length_append, List.length_replicate,
      List.drop_append_of_le_length (by rw [List.length_replicate]; omega), List.drop_replicate,
      List.take_append_of_le_length (by rw [List.length_replicate]; omega), List.take_replicate]
    congr 1
    omega
  have hd := h.length_le
  rw [htrimmed, unescape_flags] at heq
  have hlength := congrArg List.length heq
  rw [List.length_append, List.length_replicate] at hlength
  omega

/-- Behind two flags and more, what both read alike ends in one of four ways. -/
theorem sameShape_of_trims {j : Nat} {u c r a : List Byte} (h : Trims u c r a)
    (heq : List.replicate j 0x7e ++ (c ++ r) = c ++ a) :
    SameShape (List.replicate (j + 2) 0x7e ++ u) := by
  have hlength := congrArg List.length heq
  have hcount := congrArg (List.count 0x7e) heq
  simp only [List.length_append, List.length_replicate, List.count_append,
    List.count_replicate_self] at hlength hcount
  -- a byte that needs no escape is no flag
  have hraw : ∀ {b : Byte}, serialStuffing.enc b = none → List.count (0x7e : Byte) [b] = 0 :=
    fun hb => List.count_eq_zero.mpr fun hmem =>
      (enc_eq_none_iff.mp hb).2 (List.mem_singleton.mp hmem).symm
  cases h with
  | same _ he =>
    obtain rfl : j = 0 := by simpa using hlength
    rcases he with rfl | rfl
    · exact .flags c
    · exact .flagCut c
  | byte _ hx =>
    simp only [hraw hx, List.length_nil, List.length_singleton, List.count_nil] at hlength hcount
    omega
  | cutRaw _ hy =>
    simp only [hraw hy, List.length_nil, List.length_singleton, List.count_nil] at hlength hcount
    omega
  | cutPair _ hy =>
    obtain rfl : j = 0 := by simpa using hlength
    obtain rfl := (List.cons.inj (List.append_cancel_left heq)).1
    obtain rfl : _ = (0x5d : Byte) := (Option.some.inj hy).symm
    exact .escCut c
  | @pair _ y z hy =>
    obtain rfl : j = 1 := by simpa [Nat.add_comm] using hlength
    have hshift : 0x7e :: c = c ++ [y] := by
      rw [← heq, List.append_nil]
      rfl
    obtain ⟨rfl, hc⟩ := eq_replicate_of_shift hshift
    have hpair : serialStuffing.escape c ++ [0x7d, z] =
        serialStuffing.escape (List.replicate (c.length + 1) 0x7e) := by
      rw [← escape_concat_enc c hy, List.replicate_succ', ← hc]
    rw [hpair]
    exact .third _
  | @pairRaw _ x y z _ hy =>
    -- the last byte is an escape in one, and needs none in the other
    have hlast := congrArg List.getLast? heq
    have hy' : y ≠ 0x7d := (enc_eq_none_iff.mp hy).1
    rw [← List.append_assoc] at hlast
    simp at hlast
    exact absurd hlast.symm hy'
  | @rawRaw _ x y hx hy =>
    have htwo : List.count (0x7e : Byte) [x, y] = 0 := by
      rw [show [x, y] = [x] ++ [y] from rfl, List.count_append, hraw hx, hraw hy]
    simp only [htwo, List.length_nil, List.length_cons, List.count_nil] at hlength hcount
    omega

/-- **No other shapes**: what both read alike has one of the four. -/
theorem sameShape_of_reads_trimmed {t d : List Byte} (h : Reads t d) (hlen : 8 ≤ t.length)
    (heq : serialStuffing.unescape (trimmed t) = d) : SameShape t := by
  obtain ⟨k, u, rfl, hu⟩ := h.exists_flags
  rw [List.length_append, List.length_replicate] at hlen
  -- no flag, one flag, and two or more
  match k, hlen, heq with
  | 0, hlen, heq =>
    rw [trimmed_eq_dropTwo] at heq
    exact absurd heq (hu.ne_noFlag (by omega))
  | 1, hlen, heq =>
    rw [trimmed_eq_dropTwo] at heq
    exact absurd heq (hu.ne_oneFlag (by omega))
  | j + 2, hlen, heq =>
    by_cases htwo : u.length < 2
    · exact absurd heq (ne_onlyFlags hu htwo hlen)
    · obtain ⟨c, r, a, htrims, rfl⟩ := hu.trims (by omega)
      -- two of the flags are the ones trimming takes off
      have hskip : List.drop 2 (List.replicate (j + 2) 0x7e ++ u) = List.replicate j 0x7e ++ u := rfl
      refine sameShape_of_trims htrims ?_
      rw [← heq, trimmed_eq_dropTwo, hskip, dropTwo_append_of_le _ (by omega), unescape_flags,
        htrims.unescape]

/-- What has one of the shapes is read, and as what lies between the offsets. -/
theorem SameShape.reads {t : List Byte} (h : SameShape t) (hlen : 8 ≤ t.length) :
    Reads t (serialStuffing.unescape (trimmed t)) := by
  have htrimmed : ∀ w : List Byte, trimmed ([0x7e, 0x7e] ++ w) = dropTwo w :=
    fun w => trimmed_eq_dropTwo _
  cases h with
  | flags p =>
    rw [List.append_assoc, htrimmed, dropTwo_append, serialStuffing.unescape_escape]
    have hreads := reads_flags 2 (.inside (insideReads_escape p .flags))
    rwa [List.append_nil] at hreads
  | flagCut p =>
    rw [List.append_assoc, htrimmed, dropTwo_append, serialStuffing.unescape_escape]
    have hreads := reads_flags 2 (.inside (insideReads_escape p .flagCut))
    rwa [List.append_nil] at hreads
  | escCut p =>
    -- the escape that is cut off hides the end of the pair before it
    rw [List.append_assoc, htrimmed, dropTwo_append_three, unescape_escape_raw]
    have hreads := reads_flags 2 (.inside (insideReads_escape (p ++ [0x7d]) .cut))
    rw [escape_concat_enc (z := 0x5d) p rfl, List.append_nil] at hreads
    rwa [List.append_assoc] at hreads
  | third m =>
    cases m with
    | zero => simp [Stuffing.escape] at hlen
    | succ m =>
      have hreads := reads_flags 3 (.inside (insideReads_escape (List.replicate (m + 1) 0x7e) .none))
      have hpair : serialStuffing.escape (List.replicate (m + 1) 0x7e) =
          serialStuffing.escape (List.replicate m 0x7e) ++ [0x7d, 0x5e] := by
        rw [List.replicate_succ', escape_concat_enc _ rfl]
      -- the third flag takes the place of the escaped one at the end
      have hvalue : serialStuffing.unescape (dropTwo (List.replicate 1 0x7e ++
          serialStuffing.escape (List.replicate (m + 1) 0x7e))) = List.replicate (m + 1) 0x7e := by
        rw [hpair, ← List.append_assoc, dropTwo_append, unescape_flags,
          serialStuffing.unescape_escape]
        rfl
      rw [List.append_nil, List.append_nil] at hreads
      rw [trimmed_eq_dropTwo]
      exact hvalue.symm ▸ hreads

/-! ## Where they agree -/

/-- What `doCom2H` makes of a message with its header. -/
theorem doCom2H_eq {pIn : List Byte} (hsign : pIn.take 2 = [0x55, 0xaa])
    (hfield : (le16 (pIn.drop 2)).toNat + 4 = pIn.length) (hlen : 12 ≤ pIn.length) :
    doCom2H pIn = com2HCheck (serialStuffing.unescape (trimmed (pIn.drop 4))) := by
  have hparts : pIn = [0x55, 0xaa] ++ pIn.drop 2 := by rw [← hsign, List.take_append_drop]
  have hle : le16 (RingBuffer.slice pIn 2 2) = le16 (pIn.drop 2) := le16_take_two _
  have hslice : RingBuffer.slice pIn 6 (pIn.length - 4 - 4) = trimmed (pIn.drop 4) := by
    rw [trimmed, List.length_drop, List.drop_drop]
    rfl
  have hnlen : (le16 (pIn.drop 2)).toNat = pIn.length - 4 := by omega
  unfold doCom2H
  rw [if_neg (by show ¬pIn.length < 12; omega), if_neg (by rw [hparts]; simp)]
  simp only [hle, hnlen, hslice, com2HLoop_eq_unescape]
  rw [if_neg (by omega)]

/-- Neither reading is shorter than a CRC. -/
def LongEnough (t : List Byte) : Prop :=
  4 ≤ (serialStuffing.unescape (trimmed t)).length ∧ ∀ d, Reads t d → 4 ≤ d.length

/-- No reading ends with its CRC. -/
def NoCrc (t : List Byte) : Prop :=
  ¬CrcOk (serialStuffing.unescape (trimmed t)) ∧ ∀ d, Reads t d → ¬CrcOk d

/-- With what they read, they agree if both refuse it or it is the same. -/
theorem crcPayload_eq_iff {data data' : List Byte} :
    crcPayload data = crcPayload data' ↔ data = data' ∨ (¬CrcOk data ∧ ¬CrcOk data') := by
  constructor
  · intro h
    -- both are refused, or both handed out
    cases hp : crcPayload data with
    | none =>
      rw [hp] at h
      exact .inr ⟨crcPayload_eq_none_iff.mp hp, crcPayload_eq_none_iff.mp h.symm⟩
    | some p =>
      rw [hp] at h
      exact .inl (eq_of_crcPayload hp h.symm)
  · rintro (rfl | ⟨h, h'⟩)
    · rfl
    · rw [crcPayload_eq_none_iff.mpr h, crcPayload_eq_none_iff.mpr h']

/-- Where `doCom2H` is defined, four bytes were there. -/
theorem com2HCheck_defined {data : List Byte} {r : Nat × Option (List Byte)}
    (h : com2HCheck data = some r) : 4 ≤ data.length ∧ com2HPayload r = crcPayload data := by
  have hlen : 4 ≤ data.length := by
    by_contra hshort
    rw [com2HCheck, if_pos (by omega)] at h
    cases h
  obtain ⟨_, hr, hpay⟩ := com2HCheck_eq hlen
  obtain rfl := Option.some.inj (h.symm.trans hr)
  exact ⟨hlen, hpay⟩

/-- Where `dataunpack` is defined, four bytes were there. -/
theorem unpackCheck_defined {data : List Byte} {r : Int × List Byte} (h : unpackCheck data = some r) :
    4 ≤ data.length ∧ unpackPayload r = crcPayload data := by
  have hlen : 4 ≤ data.length := by
    by_contra hshort
    rw [unpackCheck, if_pos (by omega)] at h
    cases h
  obtain ⟨_, hr, hpay⟩ := unpackCheck_eq hlen
  obtain rfl := Option.some.inj (h.symm.trans hr)
  exact ⟨hlen, hpay⟩

/-- A body reads in one way only. -/
theorem Reads.unique {t d d' : List Byte} (h : Reads t d) (h' : Reads t d') : d = d' := by
  have hloop : ∀ d, unpackLoop t.length 0 .outsideFrame [] t = some d ↔ Reads t d :=
    fun _ => unpackLoop_eq_some_iff (Nat.zero_add _)
  exact Option.some.inj (((hloop d).mpr h).symm.trans ((hloop d').mpr h'))

/-- **Where the decoders agree**: neither is left with less than a CRC, and the bytes have
one of the shapes that both read alike, or no CRC is right. -/
theorem decodersAgree_iff {pIn : List Byte} (hsign : pIn.take 2 = [0x55, 0xaa])
    (hfield : (le16 (pIn.drop 2)).toNat + 4 = pIn.length) (hlen : pktSerialHeaderLen ≤ pIn.length) :
    DecodersAgree pIn ↔
      LongEnough (pIn.drop 4) ∧ (SameShape (pIn.drop 4) ∨ NoCrc (pIn.drop 4)) := by
  have hlen' : 12 ≤ pIn.length := hlen
  have hdrop : 8 ≤ (pIn.drop 4).length := by
    rw [List.length_drop]
    omega
  have hloop : ∀ d, unpackLoop (pIn.length - 4) 0 .outsideFrame [] (pIn.drop 4) = some d ↔
      Reads (pIn.drop 4) d := fun d => unpackLoop_eq_some_iff (by rw [List.length_drop]; omega)
  unfold DecodersAgree LongEnough NoCrc
  rw [doCom2H_eq hsign hfield hlen', dataunpack_eq (by omega) hsign hfield]
  cases hread : unpackLoop (pIn.length - 4) 0 .outsideFrame [] (pIn.drop 4) with
  | none =>
    -- the state machine refuses the bytes, so they have none of the shapes
    have hno : ∀ d, ¬Reads (pIn.drop 4) d := fun d h => by
      rw [(hloop d).mpr h] at hread
      cases hread
    constructor
    · rintro ⟨r, r', hr, hr', hsame⟩
      obtain rfl := Option.some.inj hr'
      obtain ⟨hlong, hpay⟩ := com2HCheck_defined hr
      exact ⟨⟨hlong, fun d h => absurd h (hno d)⟩,
        .inr ⟨crcPayload_eq_none_iff.mp (hpay.symm.trans hsame), fun d h => absurd h (hno d)⟩⟩
    · rintro ⟨⟨hlong, -⟩, hshape | ⟨hcrc, -⟩⟩
      · exact absurd (hshape.reads hdrop) (hno _)
      · obtain ⟨r, hr, hpay⟩ := com2HCheck_eq hlong
        exact ⟨r, _, hr, rfl, hpay.trans (crcPayload_eq_none_iff.mpr hcrc)⟩
  | some data =>
    have hreads := (hloop data).mp hread
    constructor
    · rintro ⟨r, r', hr, hr', hsame⟩
      obtain ⟨hlong, hpay⟩ := com2HCheck_defined hr
      obtain ⟨hlong', hpay'⟩ := unpackCheck_defined hr'
      refine ⟨⟨hlong, fun d h => hreads.unique h ▸ hlong'⟩, ?_⟩
      rcases crcPayload_eq_iff.mp (hpay.symm.trans (hsame.trans hpay')) with heq | ⟨hcrc, hcrc'⟩
      · exact .inl (sameShape_of_reads_trimmed hreads hdrop heq)
      · exact .inr ⟨hcrc, fun d h => hreads.unique h ▸ hcrc'⟩
    · rintro ⟨⟨hlong, hlong'⟩, hagree⟩
      obtain ⟨r, hr, hpay⟩ := com2HCheck_eq hlong
      obtain ⟨r', hr', hpay'⟩ := unpackCheck_eq (hlong' data hreads)
      refine ⟨r, r', hr, hr', hpay.trans (Eq.trans (crcPayload_eq_iff.mpr ?_) hpay'.symm)⟩
      rcases hagree with hshape | ⟨hcrc, hcrc'⟩
      · exact .inl ((hshape.reads hdrop).unique hreads)
      · exact .inr ⟨hcrc, hcrc' data hreads⟩

/-- A frame of `datapack`: both return its payload. -/
theorem decodersAgree_datapack : DecodersAgree (datapack [0x7e, 0x01]) := by
  have hdrop : (datapack [0x7e, 0x01]).drop 4 = [0x7e, 0x7e] ++ packed [0x7e, 0x01] ++ [0x7e, 0x7e] := by
    decide
  have hshape : SameShape ((datapack [0x7e, 0x01]).drop 4) := hdrop ▸ .flags _
  refine (decodersAgree_iff (by decide) (by decide) (by decide)).mpr ⟨⟨by decide, ?_⟩, .inl hshape⟩
  intro d hd
  rw [← (hshape.reads (by decide)).unique hd]
  decide

/-- A payload and its CRC where no flags are: `doCom2H` takes them, `dataunpack` takes the
two bytes in front and the two behind as well. -/
def flagless : List Byte :=
  [0x55, 0xaa, 0x09, 0x00, 0x00, 0x00, 0x01, 0x1b, 0xdf, 0x05, 0xa5, 0x00, 0x00]

/-- A message without its flags is read by one of the decoders only. -/
theorem flagless_not_agree : ¬∀ pIn : List Byte, pIn.take 2 = [0x55, 0xaa] →
    (le16 (pIn.drop 2)).toNat + 4 = pIn.length → pktSerialHeaderLen ≤ pIn.length →
    DecodersAgree pIn := by
  intro h
  obtain ⟨r, r', hr, hr', hsame⟩ := h flagless (by decide) (by decide) (by decide)
  have hcom : doCom2H flagless = some (1, some [0x01, 0x1b, 0xdf, 0x05, 0xa5]) := by decide
  have hunpack : dataunpack flagless = some (-2, flagless.drop 4) := by decide
  obtain rfl := Option.some.inj (hr.symm.trans hcom)
  obtain rfl := Option.some.inj (hr'.symm.trans hunpack)
  revert hsame
  decide

end PgClient.Serial
