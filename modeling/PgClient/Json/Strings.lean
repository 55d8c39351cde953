import PgClient.Lib.BlockReader
import PgClient.Server.GammaText
import PgClient.Util.Text

/-!
# Strings of JSON texts

`parse_string` and `print_string_ptr` of `cJSON.c`. A text is read from a block of memory that
need not end with a NUL: the payload of a message does not.

* `printStringPtr_eq` — what is printed, and that the memory for it is enough.
* `parseString_quoted` — a string is read back from what is printed of it, and fits what is
  allocated for it.
-/

namespace PgClient.Json

open BlockReader Reader Text
open Server.GammaText (hexVal)

def quote : Byte := 0x22

def backslash : Byte := 0x5c

/-! ## The reader -/

/-- `parse_hex4` at `p[k]`, with so many digits to go. -/
def hexLoop : Nat → Nat → Nat → Reader Byte Nat
  | 0, _, h => pure h
  | n + 1, k, h => do
    match hexVal (← look k) with
    | some d => hexLoop n (k + 1) (16 * h + d)
    | none => pure 0

def parseHex4 (k : Nat) : Reader Byte Nat := hexLoop 4 k 0

/-- `*ptr2++ = …` for some bytes, behind those that are in the block of `cap` bytes. -/
def put (cap : Nat) (out bytes : List Byte) : Reader Byte (List Byte) :=
  if out.length + bytes.length ≤ cap then pure (out ++ bytes) else crash

/-- The bytes behind the first one, from the last to the first. -/
def continuation : Nat → Nat → List Byte
  | 0, _ => []
  | k + 1, uc => continuation k (uc / 64) ++ [(BitVec.ofNat 8 uc ||| 0x80) &&& 0xbf]

/-- `firstByteMark`. -/
def firstByteMark (len : Nat) : Byte :=
  [0x00, 0x00, 0xc0, 0xe0, 0xf0, 0xf8, 0xfc].getD len 0

/-- The bytes of a code point. -/
def encodeUtf8 (uc : Nat) : List Byte :=
  let len := if uc < 0x80 then 1 else if uc < 0x800 then 2 else if uc < 0x10000 then 3 else 4
  (BitVec.ofNat 8 (uc / 64 ^ (len - 1)) ||| firstByteMark len) :: continuation (len - 1) uc

/-- The code point of a pair of surrogates. -/
def surrogates (uc uc2 : Nat) : Nat := 0x10000 + (uc % 0x400 * 0x400 + uc2 % 0x400)

/-- `case 'u'`: the pointer is at the `u`, and is left at the last character that is used. -/
def unescapeU (cap : Nat) (out : List Byte) : Reader Byte (List Byte) := do
  let uc ← parseHex4 1
  advance 4
  if 0xdc00 ≤ uc ∧ uc ≤ 0xdfff ∨ uc = 0 then pure out
  else if 0xd800 ≤ uc ∧ uc ≤ 0xdbff then
    if (← look 1) ≠ backslash then pure out
    else if (← look 2) ≠ ch 'u' then pure out
    else do
      let uc2 ← parseHex4 3
      advance 6
      if uc2 < 0xdc00 ∨ 0xdfff < uc2 then pure out
      else put cap out (encodeUtf8 (surrogates uc uc2))
  else put cap out (encodeUtf8 uc)

/-- What stands for the character behind a backslash, but for `u`. -/
def unescaped (c : Byte) : Byte :=
  if c = ch 'b' then 0x08
  else if c = ch 'f' then 0x0c
  else if c = ch 'n' then 0x0a
  else if c = ch 'r' then 0x0d
  else if c = ch 't' then 0x09
  else c

/-- A turn of the loop that fills `out`. -/
def unescapeTurn (cap : Nat) (out : List Byte) : Reader Byte (List Byte ⊕ List Byte) := do
  let c ← look 0
  if c = quote ∨ c = 0 then pure (.inr out)
  else if c ≠ backslash then do
    let out ← put cap out [c]
    advance 1
    pure (.inl out)
  else do
    advance 1
    let e ← look 0
    let out ← if e = ch 'u' then unescapeU cap out else put cap out [unescaped e]
    advance 1
    pure (.inl out)

/-- A turn of the loop that counts the characters: what is behind a backslash is not looked at. -/
def lengthTurn (len : Nat) : Reader Byte (Nat ⊕ Nat) := do
  let c ← look 0
  if c = quote ∨ c = 0 then pure (.inr len)
  else do
    advance (if c = backslash then 2 else 1)
    pure (.inl (len + 1))

/-- `parse_string`; the result is what `valuestring` points to. -/
def parseString : Reader Byte (List Byte) := do
  if (← look 0) ≠ quote then giveUp
  else do
    advance 1
    let len ← ahead (loop lengthTurn 0)
    let out ← loop (unescapeTurn (len + 1)) []
    let out ← put (len + 1) out [0]
    advance (if (← look 0) = quote then 1 else 0)
    pure (cstr out)

/-! ## The writer -/

/-- A digit of `%x`. -/
def hexDigit (n : Nat) : Byte :=
  if n < 10 then BitVec.ofNat 8 (0x30 + n) else BitVec.ofNat 8 (0x61 + (n - 10))

/-- The letter that is put for a character behind a backslash. -/
def letter (c : Byte) : Option Byte :=
  if c = backslash then some backslash
  else if c = quote then some quote
  else if c = 0x08 then some (ch 'b')
  else if c = 0x0c then some (ch 'f')
  else if c = 0x0a then some (ch 'n')
  else if c = 0x0d then some (ch 'r')
  else if c = 0x09 then some (ch 't')
  else none

/-- What is put for a character. -/
def escaped (c : Byte) : List Byte :=
  if 31 < c ∧ c ≠ quote ∧ c ≠ backslash then [c]
  else match letter c with
    | some l => [backslash, l]
    -- `sprintf(ptr2, "u%04x", token)`
    | none => [backslash, ch 'u', hexDigit 0, hexDigit 0, hexDigit (c.toNat / 16),
        hexDigit (c.toNat % 16)]

/-- What a character is counted as. -/
def escapedLen (c : Byte) : Nat := if (letter c).isSome then 2 else if c < 32 then 6 else 1

/-- The characters that set `flag`. -/
def needsEscape (c : Byte) : Bool := (0 < c && c < 32) || c = quote || c = backslash

/-- `print_string_ptr` into a block of its own; `none` is an access outside of it, or the
dereference of NULL. -/
def printStringPtr (str : Option (List Byte)) : Option (List Byte) := do
  let str ← str
  if str.any needsEscape then
    let len := str.foldl (fun len c => len + escapedLen c) 0
    let out := quote :: str.flatMap escaped ++ [quote]
    if out.length + 1 ≤ len + 3 then some out else none
  else some (quote :: str ++ [quote])

/-! ## What is printed -/

/-- A string in quotes. -/
def quoted (str : List Byte) : List Byte := quote :: str.flatMap escaped ++ [quote]

/-- A byte that prints as it is has no letter. -/
theorem letter_of_plain {c : Byte} (h : 31 < c ∧ c ≠ quote ∧ c ≠ backslash) : letter c = none := by
  obtain ⟨hc, hq, hb⟩ := h
  have hne : ∀ k : Byte, k ≤ 31 → c ≠ k := fun k hk heq => by
    rw [heq] at hc
    exact absurd hk (BitVec.not_le.mpr hc)
  rw [letter, if_neg hb, if_neg hq, if_neg (hne _ (by decide)), if_neg (hne _ (by decide)),
    if_neg (hne _ (by decide)), if_neg (hne _ (by decide)), if_neg (hne _ (by decide))]

/-- What is put for a character is as long as it is counted. -/
theorem length_escaped (c : Byte) : (escaped c).length = escapedLen c := by
  rw [escaped, escapedLen]
  by_cases h : 31 < c ∧ c ≠ quote ∧ c ≠ backslash
  · have hlow : ¬ c < 32 := by
      have := h.1
      bv_omega
    rw [if_pos h, letter_of_plain h, if_neg hlow]
    rfl
  · rw [if_neg h]
    cases hl : letter c with
    | some l => rfl
    | none =>
      -- neither quote nor backslash has no letter
      have hlow : c < 32 := by
        by_contra hge
        have hgt : 31 < c := by bv_omega
        by_cases hq : c = quote
        · rw [hq] at hl
          exact absurd hl (by decide)
        · by_cases hb : c = backslash
          · rw [hb] at hl
            exact absurd hl (by decide)
          · exact h ⟨hgt, hq, hb⟩
      rw [if_pos hlow]
      rfl

/-- The length that is counted is that of the escaped text. -/
theorem foldl_escapedLen (str : List Byte) (n : Nat) :
    str.foldl (fun len c => len + escapedLen c) n = n + (str.flatMap escaped).length := by
  induction str generalizing n with
  | nil => rfl
  | cons c str ih =>
    rw [List.foldl_cons, ih, List.flatMap_cons, List.length_append, length_escaped]
    omega

/-- Where the test finds nothing to escape, the byte stays as it is. -/
theorem escaped_of_not_needs {c : Byte} (hc : c ≠ 0) (h : needsEscape c = false) :
    escaped c = [c] := by
  simp only [needsEscape, Bool.or_eq_false_iff, Bool.and_eq_false_iff, decide_eq_false_iff_not] at h
  obtain ⟨⟨hlow, hq⟩, hb⟩ := h
  refine if_pos ⟨?_, hq, hb⟩
  bv_omega

/-- **What is printed of a string**: with the escapes, if there are any, and without, it is the
same text, and the block that is allocated has room for it and its NUL. -/
theorem printStringPtr_eq {str : List Byte} (hplain : Plain str) :
    printStringPtr (some str) = some (quoted str) := by
  simp only [printStringPtr, Option.bind_eq_bind, Option.bind_some]
  split
  · rw [if_pos]
    · rfl
    · rw [foldl_escapedLen, List.cons_append, List.length_cons, List.length_append,
        List.length_singleton]
      omega
  · next hany =>
    -- no character is escaped
    have hself : str.flatMap escaped = str := by
      have hmap : ∀ c ∈ str, escaped c = [c] := fun c hc =>
        escaped_of_not_needs (hplain c hc) (Bool.eq_false_iff.mpr fun h =>
          hany (List.any_eq_true.mpr ⟨c, hc, h⟩))
      rw [List.flatMap_congr hmap, List.flatMap_singleton']
    rw [quoted, hself]

/-! ## What is read of it -/

/-- The count ends at the closing quote. -/
theorem lengthLoop_quote (len : Nat) (m : List Byte) :
    loop lengthTurn len (quote :: m) = .ok len (quote :: m) := by
  apply loop_of_inr
  simp [lengthTurn]

/-- A plain byte counts one. -/
theorem lengthLoop_plain {c : Byte} (hq : c ≠ quote) (hz : c ≠ 0) (hb : c ≠ backslash) (len : Nat)
    (m : List Byte) : loop lengthTurn len (c :: m) = loop lengthTurn (len + 1) m := by
  refine loop_of_inl ?_ (Nat.lt_succ_self m.length)
  rw [lengthTurn, look_bind_cons, if_neg (not_or_intro hq hz), if_neg hb, advance_bind_cons]
  rfl

/-- Plain bytes count one each. -/
theorem lengthLoop_plains {p : List Byte} (h : ∀ c ∈ p, c ≠ quote ∧ c ≠ 0 ∧ c ≠ backslash)
    (len : Nat) (m : List Byte) :
    loop lengthTurn len (p ++ m) = loop lengthTurn (len + p.length) m := by
  induction p generalizing len with
  | nil => rfl
  | cons c p ih =>
    obtain ⟨⟨hq, hz, hb⟩, hrest⟩ := List.forall_mem_cons.mp h
    rw [List.cons_append, lengthLoop_plain hq hz hb, ih hrest, List.length_cons,
      Nat.add_right_comm, Nat.add_assoc]

/-- An escape and the byte behind it count one. -/
theorem lengthLoop_escape (c : Byte) (len : Nat) (m : List Byte) :
    loop lengthTurn len (backslash :: c :: m) = loop lengthTurn (len + 1) m := by
  refine loop_of_inl ?_ (show m.length < m.length + 2 by omega)
  rw [lengthTurn, look_bind_cons, if_neg (by decide), if_pos rfl,
    bind_ok (advance_apply (k := 2) (by simp))]
  rfl

/-- Bytes for which there is room are put behind the others. -/
theorem put_apply {cap : Nat} {out bytes : List Byte} (h : out.length + bytes.length ≤ cap)
    (m : List Byte) : put cap out bytes m = .ok (out ++ bytes) m := by
  rw [put, if_pos h]
  rfl

section Unescape

variable {cap : Nat} {out : List Byte}

/-- Unescaping ends at the closing quote. -/
theorem unescapeLoop_quote (m : List Byte) :
    loop (unescapeTurn cap) out (quote :: m) = .ok out (quote :: m) := by
  apply loop_of_inr
  simp [unescapeTurn]

/-- A plain byte is copied. -/
theorem unescapeLoop_plain {c : Byte} (hq : c ≠ quote) (hz : c ≠ 0) (hb : c ≠ backslash)
    (hroom : out.length + 1 ≤ cap) (m : List Byte) :
    loop (unescapeTurn cap) out (c :: m) = loop (unescapeTurn cap) (out ++ [c]) m := by
  refine loop_of_inl ?_ (Nat.lt_succ_self m.length)
  rw [unescapeTurn, look_bind_cons, if_neg (not_or_intro hq hz), if_pos hb,
    bind_ok (put_apply hroom _), advance_bind_cons]
  rfl

/-- A backslash and a letter are one byte. -/
theorem unescapeLoop_letter {e : Byte} (hu : e ≠ ch 'u') (hroom : out.length + 1 ≤ cap)
    (m : List Byte) : loop (unescapeTurn cap) out (backslash :: e :: m) =
      loop (unescapeTurn cap) (out ++ [unescaped e]) m := by
  refine loop_of_inl ?_ (show m.length < m.length + 2 by omega)
  rw [unescapeTurn, look_bind_cons, if_neg (by decide), if_neg (by simp), advance_bind_cons,
    look_bind_cons, if_neg hu, bind_ok (put_apply hroom _)]
  dsimp only
  rw [advance_bind_cons]
  rfl

/-- The four digits of a code point. -/
theorem parseHex4_digits {a b c d : Byte} {va vb vc vd : Nat} (ha : hexVal a = some va)
    (hb : hexVal b = some vb) (hc : hexVal c = some vc) (hd : hexVal d = some vd) (x : Byte)
    (m : List Byte) : parseHex4 1 (x :: a :: b :: c :: d :: m) =
      .ok (16 * (16 * (16 * va + vb) + vc) + vd) (x :: a :: b :: c :: d :: m) := by
  simp only [parseHex4, hexLoop]
  rw [look_bind rfl, ha]
  simp only
  rw [look_bind rfl, hb]
  simp only
  rw [look_bind rfl, hc]
  simp only
  rw [look_bind rfl, hd]
  simp

/-- Four hexadecimal digits are a character below the surrogates, in UTF-8. -/
theorem unescapeLoop_hex {a b c d : Byte} {va vb vc vd : Nat} (ha : hexVal a = some va)
    (hb : hexVal b = some vb) (hc : hexVal c = some vc) (hd : hexVal d = some vd) {uc : Nat}
    (huc : 16 * (16 * (16 * va + vb) + vc) + vd = uc) (hpos : uc ≠ 0) (hlow : uc < 0xd800)
    (hroom : out.length + (encodeUtf8 uc).length ≤ cap) (m : List Byte) :
    loop (unescapeTurn cap) out (backslash :: ch 'u' :: a :: b :: c :: d :: m) =
      loop (unescapeTurn cap) (out ++ encodeUtf8 uc) m := by
  refine loop_of_inl ?_ (show m.length < m.length + 6 by omega)
  -- the pointer is left at the last digit
  have hhex : unescapeU cap out (ch 'u' :: a :: b :: c :: d :: m) =
      .ok (out ++ encodeUtf8 uc) (d :: m) := by
    rw [unescapeU, bind_ok (parseHex4_digits ha hb hc hd _ m), huc,
      bind_ok (advance_apply (k := 4) (by simp)), if_neg (by omega), if_neg (by omega),
      put_apply hroom]
    rfl
  rw [unescapeTurn, look_bind_cons, if_neg (by decide), if_neg (by simp), advance_bind_cons,
    look_bind_cons, if_pos rfl, bind_ok hhex]
  dsimp only
  rw [advance_bind_cons]
  rfl

end Unescape

/-- A letter stands for the byte it was chosen for. -/
theorem unescaped_letter {c l : Byte} (h : letter c = some l) : unescaped l = c ∧ l ≠ ch 'u' := by
  rw [letter] at h
  repeat' split at h
  all_goals cases h
  all_goals subst_vars
  all_goals decide

/-- A hexadecimal digit is read back. -/
theorem hexVal_hexDigit : ∀ n < 16, hexVal (hexDigit n) = some n := by decide

/-- A character is its own code point below 128. -/
theorem encodeUtf8_of_lt {n : Nat} (h : n < 0x80) : encodeUtf8 n = [BitVec.ofNat 8 n] := by
  rw [encodeUtf8]
  simp only [if_pos h, Nat.sub_self, pow_zero, Nat.div_one, continuation]
  exact congrArg (· :: []) (BitVec.or_zero)

/-- What is put for a character is one turn of either loop. -/
theorem loops_escaped {c : Byte} (hc : c ≠ 0) :
    (∀ (len : Nat) (m : List Byte), ∃ k, loop lengthTurn len (escaped c ++ m) =
      loop lengthTurn (len + 1 + k) m) ∧
    ∀ {cap : Nat} {out : List Byte}, out.length + 1 ≤ cap → ∀ m : List Byte,
      loop (unescapeTurn cap) out (escaped c ++ m) = loop (unescapeTurn cap) (out ++ [c]) m := by
  rw [escaped]
  -- a character is put as it is, as a letter behind a backslash, or as `\u` with four digits
  by_cases h : 31 < c ∧ c ≠ quote ∧ c ≠ backslash
  · rw [if_pos h]
    exact ⟨fun len m => ⟨0, lengthLoop_plain h.2.1 hc h.2.2 len m⟩,
      fun hroom m => unescapeLoop_plain h.2.1 hc h.2.2 hroom m⟩
  · rw [if_neg h]
    cases hl : letter c with
    | some l =>
      obtain ⟨hback, hu⟩ := unescaped_letter hl
      refine ⟨fun len m => ⟨0, lengthLoop_escape l len m⟩, fun hroom m => ?_⟩
      rw [← hback]
      exact unescapeLoop_letter hu hroom m
    | none =>
      -- there is no letter for it and it is not put as it is, so it is a control character
      have hlow : c.toNat < 32 := by
        have hlen := length_escaped c
        rw [escaped, if_neg h, hl, escapedLen, hl] at hlen
        by_contra hge
        rw [if_neg (by simp), if_neg (by bv_omega)] at hlen
        cases hlen
      have hhigh := hexVal_hexDigit _ (show c.toNat / 16 < 16 by omega)
      have hrest := hexVal_hexDigit _ (Nat.mod_lt c.toNat (show 0 < 16 by decide))
      have hzero := hexVal_hexDigit 0 (by decide)
      have hcode : 16 * (16 * (16 * 0 + 0) + c.toNat / 16) + c.toNat % 16 = c.toNat := by omega
      have hpos : c.toNat ≠ 0 := fun heq => hc (BitVec.eq_of_toNat_eq heq)
      have hutf := encodeUtf8_of_lt (show c.toNat < 0x80 by omega)
      rw [BitVec.ofNat_toNat, BitVec.setWidth_eq] at hutf
      constructor
      · -- the backslash and the `u` are counted as one, the digits one by one
        intro len m
        have hdigit : ∀ n < 16, hexDigit n ≠ quote ∧ hexDigit n ≠ 0 ∧ hexDigit n ≠ backslash := by
          decide
        have hplain : ∀ d ∈ [hexDigit 0, hexDigit 0, hexDigit (c.toNat / 16), hexDigit (c.toNat % 16)],
            d ≠ quote ∧ d ≠ 0 ∧ d ≠ backslash := by
          simp only [List.forall_mem_cons, List.not_mem_nil, false_implies, implies_true, and_true]
          exact ⟨hdigit 0 (by decide), hdigit 0 (by decide), hdigit _ (by omega), hdigit _ (by omega)⟩
        exact ⟨4, (lengthLoop_escape _ len _).trans (lengthLoop_plains hplain (len + 1) m)⟩
      · -- a code below 0x80 is one byte of UTF-8
        intro cap out hroom m
        have hhex := unescapeLoop_hex hzero hzero hhigh hrest hcode hpos (by omega)
          (show out.length + _ ≤ cap by rw [hutf]; exact hroom) m
        rw [hutf] at hhex
        exact hhex

/-- The length that is counted has room for the string. -/
theorem lengthLoop_quoted {str : List Byte} (hplain : Plain str) (len : Nat) (tail : List Byte) :
    ∃ k, loop lengthTurn len (str.flatMap escaped ++ quote :: tail) =
      .ok (len + str.length + k) (quote :: tail) := by
  induction str generalizing len with
  | nil => exact ⟨0, lengthLoop_quote len tail⟩
  | cons c str ih =>
    -- each character counts one, and what its escape counts beyond that
    obtain ⟨k, hk⟩ := (loops_escaped (hplain c List.mem_cons_self)).1 len
      (str.flatMap escaped ++ quote :: tail)
    obtain ⟨k', hk'⟩ := ih (fun d hd => hplain d (List.mem_cons_of_mem c hd)) (len + 1 + k)
    refine ⟨k + k', ?_⟩
    rw [List.flatMap_cons, List.append_assoc, hk, hk', List.length_cons]
    congr 1
    omega

/-- What was escaped is unescaped to the text it was made from. -/
theorem unescapeLoop_quoted {str : List Byte} (hplain : Plain str) {cap : Nat} {out : List Byte}
    (hroom : out.length + str.length ≤ cap) (tail : List Byte) :
    loop (unescapeTurn cap) out (str.flatMap escaped ++ quote :: tail) =
      .ok (out ++ str) (quote :: tail) := by
  induction str generalizing out with
  | nil =>
    rw [List.append_nil]
    exact unescapeLoop_quote tail
  | cons c str ih =>
    -- there is room for the character, and for the others behind it
    rw [List.length_cons] at hroom
    rw [List.flatMap_cons, List.append_assoc,
      (loops_escaped (hplain c List.mem_cons_self)).2 (by omega),
      ih (fun d hd => hplain d (List.mem_cons_of_mem c hd)) (by simp; omega), List.append_assoc,
      List.singleton_append]

/-- **A string is read back from what is printed of it**: every byte but NUL may be in it, any
memory may follow it, and it fits the block that is allocated for it. -/
theorem parseString_quoted {str : List Byte} (hplain : Plain str) (tail : List Byte) :
    parseString (quoted str ++ tail) = .ok str tail := by
  obtain ⟨k, hlen⟩ := lengthLoop_quoted hplain 0 tail
  have htext : quoted str ++ tail = quote :: (str.flatMap escaped ++ quote :: tail) := by
    rw [quoted, List.cons_append, List.cons_append, List.append_assoc, List.singleton_append]
  rw [htext, parseString, look_bind_cons, if_neg (by simp), advance_bind_cons]
  -- the first loop only measures: it looks ahead
  have hahead : ahead (loop lengthTurn 0) (str.flatMap escaped ++ quote :: tail) =
      .ok (0 + str.length + k) (str.flatMap escaped ++ quote :: tail) := by
    rw [ahead, hlen]
  -- the block is one larger than what was counted, and no escape is counted too low
  have hroom : ([] : List Byte).length + str.length ≤ 0 + str.length + k + 1 := by
    rw [List.length_nil]
    omega
  have hfill := unescapeLoop_quoted hplain hroom tail
  rw [List.nil_append] at hfill
  rw [bind_ok hahead, bind_ok hfill, bind_ok (put_apply (by simp) _), look_bind_cons,
    if_pos rfl, advance_bind_cons, pure_apply, cstr_append hplain]

/-! ## Any text -/

/-- Putting bytes reads nothing. -/
theorem proper_put (cap : Nat) (out bytes : List Byte) : Proper (put cap out bytes) :=
  .ite (proper_pure _) proper_crash

/-- Putting bytes comes back. -/
theorem ends_put (n cap : Nat) (out bytes : List Byte) : Ends n (put cap out bytes) :=
  .ite (ends_pure n _) (ends_crash n)

/-- The digits are read forward. -/
theorem proper_hexLoop (n k h : Nat) : Proper (hexLoop n k h) := by
  induction n generalizing k h with
  | zero => exact proper_pure h
  | succ n ih =>
    refine (proper_look k).bind fun c => ?_
    split
    · exact ih _ _
    · exact proper_pure 0

/-- The digits come to an end. -/
theorem ends_hexLoop (b n k h : Nat) : Ends b (hexLoop n k h) := by
  induction n generalizing k h with
  | zero => exact ends_pure b h
  | succ n ih =>
    refine (ends_look b k).bind (proper_look k) fun c => ?_
    split
    · exact ih _ _
    · exact ends_pure b 0

theorem proper_unescapeU (cap : Nat) (out : List Byte) : Proper (unescapeU cap out) := by
  refine (proper_hexLoop 4 1 0).bind fun uc => (proper_advance 4).bind fun _ =>
    .ite (proper_pure _) (.ite ?_ (proper_put _ _ _))
  refine (proper_look 1).bind fun c => .ite (proper_pure _) ((proper_look 2).bind fun d =>
    .ite (proper_pure _) ?_)
  exact (proper_hexLoop 4 3 0).bind fun uc2 => (proper_advance 6).bind fun _ =>
    .ite (proper_pure _) (proper_put _ _ _)

theorem ends_unescapeU (n cap : Nat) (out : List Byte) : Ends n (unescapeU cap out) := by
  refine (ends_hexLoop n 4 1 0).bind (proper_hexLoop 4 1 0) fun uc =>
    (ends_advance n 4).bind (proper_advance 4) fun _ =>
      .ite (ends_pure n _) (.ite ?_ (ends_put n _ _ _))
  refine (ends_look n 1).bind (proper_look 1) fun c => .ite (ends_pure n _)
    ((ends_look n 2).bind (proper_look 2) fun d => .ite (ends_pure n _) ?_)
  exact (ends_hexLoop n 4 3 0).bind (proper_hexLoop 4 3 0) fun uc2 =>
    (ends_advance n 6).bind (proper_advance 6) fun _ => .ite (ends_pure n _) (ends_put n _ _ _)

theorem proper_unescapeTurn (cap : Nat) (out : List Byte) : Proper (unescapeTurn cap out) := by
  have hnext : ∀ out : List Byte, Proper
      ((advance 1 >>= fun _ => pure (.inl out)) : Reader Byte (List Byte ⊕ List Byte)) := fun out =>
    (proper_advance 1).bind fun _ => proper_pure _
  refine (proper_look 0).bind fun c => .ite (proper_pure _) (.ite ?_ ?_)
  · exact (proper_put _ _ _).bind hnext
  · exact (proper_advance 1).bind fun _ => (proper_look 0).bind fun e =>
      .ite ((proper_unescapeU cap out).bind hnext) ((proper_put _ _ _).bind hnext)

theorem ends_unescapeTurn (n cap : Nat) (out : List Byte) : Ends n (unescapeTurn cap out) := by
  have hnext : ∀ out : List Byte, Ends n
      ((advance 1 >>= fun _ => pure (.inl out)) : Reader Byte (List Byte ⊕ List Byte)) := fun out =>
    (ends_advance n 1).bind (proper_advance 1) fun _ => ends_pure n _
  refine (ends_look n 0).bind (proper_look 0) fun c => .ite (ends_pure n _) (.ite ?_ ?_)
  · exact (ends_put n _ _ _).bind (proper_put _ _ _) hnext
  · exact (ends_advance n 1).bind (proper_advance 1) fun _ =>
      (ends_look n 0).bind (proper_look 0) fun e =>
        .ite ((ends_unescapeU n cap out).bind (proper_unescapeU cap out) hnext)
          ((ends_put n _ _ _).bind (proper_put _ _ _) hnext)

/-- A turn that goes on has read a byte. -/
theorem unescapeTurn_go {cap : Nat} {out out' m t : List Byte}
    (h : unescapeTurn cap out m = .ok (.inl out') t) : t.length < m.length := by
  obtain ⟨c, m₁, hlook, h⟩ := bind_eq_ok_iff.mp h
  have hle := (proper_look 0).length_le hlook
  -- whatever a turn puts, its last move is one forward
  have hadvance : ∀ {out out' : List Byte} {m t : List Byte},
      ((advance 1 >>= fun _ => pure (.inl out)) : Reader Byte (List Byte ⊕ List Byte)) m =
        .ok (.inl out') t → t.length < m.length := fun h =>
    ((consumes_advance Nat.one_pos).bind fun _ => proper_pure _).lt h
  split at h
  · cases h
  · split at h
    · obtain ⟨o, m₂, hput, h⟩ := bind_eq_ok_iff.mp h
      exact (hadvance h).trans_le (((proper_put _ _ _).length_le hput).trans hle)
    · -- behind a backslash: the letter, or `u` and its digits, is read before the move
      refine lt_of_lt_of_le (((consumes_advance Nat.one_pos).bind fun _ => ?_).lt h) hle
      have hnext : ∀ out : List Byte, Proper
          ((advance 1 >>= fun _ => pure (.inl out)) : Reader Byte (List Byte ⊕ List Byte)) :=
        fun out => (proper_advance 1).bind fun _ => proper_pure _
      exact (proper_look 0).bind fun e =>
        .ite ((proper_unescapeU cap out).bind hnext) ((proper_put _ _ _).bind hnext)

theorem proper_lengthTurn (len : Nat) : Proper (lengthTurn len) :=
  (proper_look 0).bind fun _ => .ite (proper_pure _) ((proper_advance _).bind fun _ => proper_pure _)

theorem ends_lengthTurn (n len : Nat) : Ends n (lengthTurn len) :=
  (ends_look n 0).bind (proper_look 0) fun _ => .ite (ends_pure n _)
    ((ends_advance n _).bind (proper_advance _) fun _ => ends_pure n _)

/-- A turn of the count that goes on has read a byte. -/
theorem lengthTurn_go {len len' : Nat} {m t : List Byte}
    (h : lengthTurn len m = .ok (.inl len') t) : t.length < m.length := by
  obtain ⟨c, m₁, hlook, h⟩ := bind_eq_ok_iff.mp h
  have hle := (proper_look 0).length_le hlook
  split at h
  · cases h
  · have hcons : Consumes (advance (if c = backslash then 2 else 1) : Reader Byte Unit) :=
      consumes_advance (by split <;> decide)
    exact ((hcons.bind fun _ => proper_pure _).lt h).trans_le hle

/-- `parse_string` reads forward, and does not look behind the string. -/
theorem proper_parseString : Proper parseString :=
  (proper_look 0).bind fun _ => .ite proper_giveUp ((proper_advance 1).bind fun _ =>
    (Proper.loop proper_lengthTurn 0).ahead.bind fun len =>
      (Proper.loop (proper_unescapeTurn (len + 1)) []).bind fun _ =>
        (proper_put _ _ _).bind fun _ => (proper_look 0).bind fun _ =>
          (proper_advance _).bind fun _ => proper_pure _)

/-- It comes back on any block. -/
theorem ends_parseString (n : Nat) : Ends n parseString := by
  have hlen : Ends n (ahead (loop lengthTurn 0)) :=
    .ahead (.loop (ends_lengthTurn n) (fun _ => lengthTurn_go) 0)
  refine (ends_look n 0).bind (proper_look 0) fun c => .ite (ends_giveUp n)
    ((ends_advance n 1).bind (proper_advance 1) fun _ =>
      hlen.bind (Proper.loop proper_lengthTurn 0).ahead fun len => ?_)
  refine Ends.bind (.loop (ends_unescapeTurn n (len + 1)) (fun _ => unescapeTurn_go) [])
    (.loop (proper_unescapeTurn (len + 1)) []) fun out => ?_
  exact (ends_put n _ _ _).bind (proper_put _ _ _) fun _ => (ends_look n 0).bind (proper_look 0)
    fun _ => (ends_advance n _).bind (proper_advance _) fun _ => ends_pure n _

end PgClient.Json
