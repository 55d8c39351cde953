import PgClient.Server.GammaText

/-!
# What the register text parser touches

`parse_gamma_reg_data` tests the first of three characters, reads two and goes on behind
the third one. Here the loop is run on the memory behind `org_data`, and what it reads and
writes is kept.

* `parseTurns_after` — the loop after `j` turns.
* `parsesSafely_iff` — it stays inside the string and the buffer exactly if the length of
  the text is a multiple of three and the buffer has a byte for every three characters.
* `parseGammaRegData_of_safe` — then it gives what `parseGammaRegData` says.
-/

namespace PgClient.Server.GammaText

/-! ## The loop, with its accesses -/

/-- The local variables, the offsets read so far, and the bytes written so far. -/
structure ParseRun where
  ptr : Nat
  len : Nat
  reads : List Nat
  writes : List (Nat × Byte)

def ParseRun.start : ParseRun := ⟨0, 0, [], []⟩

/-- The body of the loop: `cc` is filled from two characters, and the third is passed over. -/
def parseTurn (mem : Nat → Byte) (s : ParseRun) : ParseRun where
  ptr := s.ptr + 3
  len := s.len + 1
  reads := s.reads ++ [s.ptr, s.ptr + 1]
  writes := s.writes ++ [(s.len, (scanHex [mem s.ptr, mem (s.ptr + 1), 0]).setWidth 8)]

/-- At most `n` tests of the loop: what has been touched, and what is returned if it has ended. -/
def parseTurns (mem : Nat → Byte) : Nat → ParseRun → ParseRun × Option Nat
  | 0, s => (s, none)
  | n + 1, s =>
    if mem s.ptr = 0 then ({ s with reads := s.reads ++ [s.ptr] }, some s.len)
    else parseTurns mem n (parseTurn mem s)

/-! ## Safety -/

/-- A string without its NUL. -/
structure Text where
  chars : List Byte
  plain : ∀ c ∈ chars, c ≠ 0

/-- The memory starts with the string and its NUL. -/
def Text.At (text : Text) (mem : Nat → Byte) : Prop :=
  ∀ k b, (text.chars ++ [0])[k]? = some b → mem k = b

/-- Whatever lies behind the NUL, the parser ends, reads nothing of it, writes inside of the
buffer and returns no more than its length. -/
def ParsesSafely (text : Text) (gammaRegDataBufLen : Int) : Prop :=
  ∀ mem, text.At mem → ∃ n s ret, parseTurns mem n .start = (s, some ret) ∧
    (∀ k ∈ s.reads, k ≤ text.chars.length) ∧
    (∀ x ∈ s.writes, (x.1 : Int) < gammaRegDataBufLen) ∧ (ret : Int) ≤ gammaRegDataBufLen

variable {text : Text} {mem : Nat → Byte}

theorem Text.At.char (h : text.At mem) {k : Nat} (hk : k < text.chars.length) : mem k ≠ 0 := by
  rw [h k text.chars[k] (by rw [List.getElem?_append_left hk, List.getElem?_eq_getElem hk])]
  exact text.plain _ (List.getElem_mem hk)

theorem Text.At.nul (h : text.At mem) : mem text.chars.length = 0 :=
  h _ _ List.getElem?_concat_length

/-- Memory that holds the string. -/
theorem Text.at_getD (text : Text) (tail : List Byte) :
    text.At fun k => (text.chars ++ 0 :: tail).getD k 0 := by
  intro k b hk
  have hlt := (List.getElem?_eq_some_iff.mp hk).1
  show (text.chars ++ 0 :: tail).getD k 0 = b
  rw [List.append_cons, List.getD_eq_getElem?_getD, List.getElem?_append_left hlt, hk]
  rfl

/-! ## The run -/

/-- The state after `j` turns. -/
def ParseRun.after (mem : Nat → Byte) (j : Nat) : ParseRun where
  ptr := 3 * j
  len := j
  reads := (List.range j).flatMap fun i => [3 * i, 3 * i + 1]
  writes := (List.range j).map fun i => (i, (scanHex [mem (3 * i), mem (3 * i + 1), 0]).setWidth 8)

theorem parseTurn_after (mem : Nat → Byte) (j : Nat) :
    parseTurn mem (.after mem j) = .after mem (j + 1) := by
  simp [parseTurn, ParseRun.after, List.range_succ, Nat.mul_succ]

/-- **The loop goes on** over every first character that is not the NUL. -/
theorem parseTurns_after {j : Nat} (hgo : ∀ i < j, mem (3 * i) ≠ 0) (n : Nat) :
    parseTurns mem (j + n) .start = parseTurns mem n (.after mem j) := by
  induction j generalizing n with
  | zero =>
    rw [Nat.zero_add]
    rfl
  | succ j ih =>
    -- the first `j` turns have left the cursor at `3 * j`
    have hgo' : mem (ParseRun.after mem j).ptr ≠ 0 := hgo j (Nat.lt_succ_self j)
    rw [Nat.succ_add_eq_add_succ, ih (fun i hi => hgo i (by omega)), parseTurns, if_neg hgo',
      parseTurn_after]

/-- What has been read stays read. -/
theorem parseTurns_reads (mem : Nat → Byte) (n : Nat) (s : ParseRun) :
    s.reads ⊆ (parseTurns mem n s).1.reads := by
  induction n generalizing s with
  | zero => exact List.Subset.refl _
  | succ n ih =>
    rw [parseTurns]
    split_ifs with hend
    · exact List.subset_append_left _ _
    · exact List.Subset.trans (List.subset_append_left _ _) (ih (parseTurn mem s))

/-- The test of the loop reads the character at `ptr`. -/
theorem ptr_mem_reads (mem : Nat → Byte) (n : Nat) (s : ParseRun) :
    s.ptr ∈ (parseTurns mem (n + 1) s).1.reads := by
  rw [parseTurns]
  split_ifs with hend
  · simp
  · exact parseTurns_reads mem n _ (by simp [parseTurn])

/-- A loop that has not come to a NUL has not returned. -/
theorem parseTurns_none {n : Nat} (hgo : ∀ i < n, mem (3 * i) ≠ 0) :
    (parseTurns mem n .start).2 = none := by
  have hrun := parseTurns_after hgo 0
  rw [Nat.add_zero] at hrun
  rw [hrun]
  rfl

/-- The run over a text whose length is a multiple of three. -/
theorem parseTurns_whole (h : text.At mem) {q : Nat} (hq : text.chars.length = 3 * q) :
    parseTurns mem (q + 1) .start =
      ({ ParseRun.after mem q with reads := (ParseRun.after mem q).reads ++ [3 * q] }, some q) := by
  have hend : mem (ParseRun.after mem q).ptr = 0 := by
    show mem (3 * q) = 0
    rw [← hq]
    exact h.nul
  rw [parseTurns_after (fun i hi => h.char (by omega)), parseTurns, if_pos hend]
  rfl

theorem after_reads_le (mem : Nat → Byte) (q : Nat) :
    ∀ k ∈ (ParseRun.after mem q).reads ++ [3 * q], k ≤ 3 * q := by
  intro k hk
  rcases List.mem_append.mp hk with hk | hk
  · -- the two digits of a register; the third character is skipped unread
    obtain ⟨i, hi, hk⟩ := List.mem_flatMap.mp hk
    have := List.mem_range.mp hi
    simp only [List.mem_cons, List.not_mem_nil, or_false] at hk
    omega
  · rw [List.mem_singleton.mp hk]

theorem after_writes_lt (mem : Nat → Byte) (q : Nat) : ∀ x ∈ (ParseRun.after mem q).writes, x.1 < q := by
  intro x hx
  obtain ⟨i, hi, rfl⟩ := List.mem_map.mp hx
  exact List.mem_range.mp hi

/-! ## When it is safe -/

/-- A parser that is safe reads the NUL as the first of three characters. -/
theorem ParsesSafely.whole {gammaRegDataBufLen : Int} (h : ParsesSafely text gammaRegDataBufLen) :
    3 ∣ text.chars.length ∧ ((text.chars.length / 3 : Nat) : Int) ≤ gammaRegDataBufLen := by
  -- memory that ends with the NUL: nothing behind it stops the loop
  have hmem := text.at_getD []
  obtain ⟨n, s, ret, hrun, hreads, -, hret⟩ := h _ hmem
  have hnone := @parseTurns_none (fun k => (text.chars ++ [0]).getD k 0) n
  rw [hrun] at hnone
  by_cases hthree : 3 ∣ text.chars.length
  · refine ⟨hthree, ?_⟩
    obtain ⟨q, hq⟩ := hthree
    -- the loop has come to the NUL, which is at `3 * q`
    obtain ⟨m, rfl⟩ : ∃ m, n = q + (m + 1) := by
      by_contra hshort
      have hlt : n ≤ q := Nat.le_of_not_lt fun hlt => hshort ⟨n - q - 1, by omega⟩
      exact Option.some_ne_none ret (hnone fun i hi => hmem.char (by omega))
    have hend : (text.chars ++ [0]).getD (ParseRun.after (fun k => (text.chars ++ [0]).getD k 0) q).ptr
        0 = 0 := by
      show (text.chars ++ [0]).getD (3 * q) 0 = 0
      rw [← hq]
      exact hmem.nul
    rw [parseTurns_after (fun i hi => hmem.char (by omega)), parseTurns, if_pos hend] at hrun
    obtain rfl : q = ret := Option.some.inj (Prod.mk.inj hrun).2
    rwa [hq, Nat.mul_div_cancel_left q (by decide)]
  · -- the last characters hide the NUL, and the next test is behind it
    obtain ⟨m, rfl⟩ : ∃ m, n = text.chars.length / 3 + 1 + (m + 1) := by
      by_contra hshort
      have hlt : n ≤ text.chars.length / 3 + 1 :=
        Nat.le_of_not_lt fun hlt => hshort ⟨n - text.chars.length / 3 - 2, by omega⟩
      exact Option.some_ne_none ret (hnone fun i hi => hmem.char (by omega))
    rw [parseTurns_after fun i hi => hmem.char (by omega)] at hrun
    have hptr := ptr_mem_reads (fun k => (text.chars ++ [0]).getD k 0) m
      (.after (fun k => (text.chars ++ [0]).getD k 0) (text.chars.length / 3 + 1))
    rw [hrun] at hptr
    have hbeyond : 3 * (text.chars.length / 3 + 1) ≤ text.chars.length := hreads _ hptr
    omega

/-- **When the parser is safe**: exactly if the text has three characters for every register,
and the buffer is long enough for them. -/
theorem parsesSafely_iff (text : Text) (gammaRegDataBufLen : Int) :
    ParsesSafely text gammaRegDataBufLen ↔
      3 ∣ text.chars.length ∧ ((text.chars.length / 3 : Nat) : Int) ≤ gammaRegDataBufLen := by
  refine ⟨ParsesSafely.whole, ?_⟩
  rintro ⟨⟨q, hq⟩, hroom⟩ mem hmem
  rw [hq, Nat.mul_div_cancel_left q (by decide)] at hroom
  -- a turn for each register, and one that finds the NUL
  refine ⟨q + 1, _, q, parseTurns_whole hmem hq, fun k hk => ?_, fun x hx => ?_, hroom⟩
  · rw [hq]
    exact after_reads_le mem q k hk
  · have := after_writes_lt mem q x hx
    omega

/-! ## What is read of a safe text -/

/-- The memory of the caller's buffer after the writes of a run. -/
def stored (buf : List Byte) (writes : List (Nat × Byte)) : List Byte :=
  writes.foldl (fun buf x => buf.set x.1 x.2) buf

theorem getD_of_lt {text : List Byte} {k : Nat} (hk : k < text.length) : text.getD k 0 = text[k] := by
  rw [List.getD_eq_getElem?_getD, List.getElem?_eq_getElem hk, Option.getD_some]

/-- **A run inside of the memory is the parser's**, from any state of it on. -/
theorem parseLoop_of_parseTurns {mem : List Byte} {n ret : Nat} {s s' : ParseRun} {buf : List Byte}
    (hrun : parseTurns (fun k => mem.getD k 0) n s = (s', some ret))
    (hreads : ∀ k ∈ s'.reads, k < mem.length) (hwrites : ∀ x ∈ s'.writes, x.1 < buf.length) :
    ∃ writes, s'.writes = s.writes ++ writes ∧
      parseLoop (mem.drop s.ptr) buf s.len = some (ret, stored buf writes) := by
  induction n generalizing s buf with
  | zero => exact absurd (Prod.mk.inj hrun).2 (by simp)
  | succ n ih =>
    have hptr : s.ptr < mem.length := by
      have hmem := ptr_mem_reads (fun k => mem.getD k 0) n s
      rw [hrun] at hmem
      exact hreads _ hmem
    rw [parseTurns] at hrun
    simp only [getD_of_lt hptr] at hrun
    split_ifs at hrun with hend
    · -- the NUL: nothing more is written
      obtain ⟨rfl, hret⟩ := Prod.mk.inj hrun
      obtain rfl := Option.some.inj hret
      refine ⟨[], (List.append_nil _).symm, ?_⟩
      rw [List.drop_eq_getElem_cons hptr, hend, parseLoop.eq_def]
      simp [stored]
    · -- the test of the next turn is behind the three characters of this one
      obtain ⟨m, rfl⟩ : ∃ m, n = m + 1 := by
        cases n with
        | zero => exact absurd (Prod.mk.inj hrun).2 (by simp)
        | succ m => exact ⟨m, rfl⟩
      have hnext : s.ptr + 3 < mem.length := by
        have hmem := ptr_mem_reads (fun k => mem.getD k 0) m
          (parseTurn (fun k => mem.getD k 0) s)
        rw [hrun] at hmem
        exact hreads _ hmem
      -- the rest of the text goes into the buffer with this register in it
      let buf' := buf.set s.len ((scanHex [mem[s.ptr], mem[s.ptr + 1], 0]).setWidth 8)
      have hwrites' : ∀ x ∈ s'.writes, x.1 < buf'.length := by simpa [buf'] using hwrites
      obtain ⟨writes, hkept, hparse⟩ := ih hrun hwrites'
      have hone : s.ptr + 1 < mem.length := by omega
      simp only [parseTurn, getD_of_lt hptr, getD_of_lt hone, List.append_assoc] at hkept hparse
      refine ⟨_, hkept, ?_⟩
      have hroom : s.len < buf.length := hwrites (s.len, _)
        (hkept ▸ List.mem_append_right _ (List.mem_append_left _ (List.mem_singleton_self _)))
      rw [List.drop_eq_getElem_cons hptr, List.drop_eq_getElem_cons hone,
        List.drop_eq_getElem_cons (by omega : s.ptr + 1 + 1 < mem.length), parseLoop, if_neg hend,
        if_pos hroom, hparse]
      rfl

/-- **A safe text is parsed**, into a buffer with the length that makes it safe. -/
theorem parseGammaRegData_of_safe {text : Text} {tail buf : List Byte}
    (h : ParsesSafely text buf.length) :
    ∃ n s ret, parseTurns (fun k => (text.chars ++ 0 :: tail).getD k 0) n .start = (s, some ret) ∧
      parseGammaRegData (some (text.chars ++ 0 :: tail)) buf = some (ret, stored buf s.writes) := by
  obtain ⟨n, s, ret, hrun, hreads, hwrites, -⟩ := h _ (text.at_getD tail)
  refine ⟨n, s, ret, hrun, ?_⟩
  -- every read of a safe run is in the text or at its NUL
  have hinside : ∀ k ∈ s.reads, k < (text.chars ++ 0 :: tail).length := by
    intro k hk
    have := hreads k hk
    rw [List.length_append, List.length_cons]
    omega
  obtain ⟨writes, hkept, hparse⟩ := parseLoop_of_parseTurns hrun hinside
    fun x hx => Int.ofNat_lt.mp (hwrites x hx)
  obtain rfl : s.writes = writes := hkept
  exact hparse

/-- Two digits without a semicolon behind them. -/
def twoDigits : Text := ⟨[0x30, 0x41], by decide⟩

/-- The NUL is taken for the third character. -/
theorem twoDigits_not_parsesSafely : ¬ParsesSafely twoDigits 255 := by
  intro h
  exact absurd h.whole.1 (by decide)

end PgClient.Server.GammaText
