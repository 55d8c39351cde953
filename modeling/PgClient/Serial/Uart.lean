import PgClient.Serial.RingBuf
import PgClient.Serial.Unpack

/-!
# The receiver of `comUart.c`

`uartReadData` replays what the call before has saved, then receives what it reads. A
whole frame makes the receiver busy, and what is behind it is saved.

* `revLoop_short`, `revLoop_whole` — the receiver on a part of a frame, and on its end.
* `uartReadData_step` — one call of a run.
* `uartReads_returnsAll` — which runs lose no frame.
-/

namespace PgClient.Serial

/-! ## The code -/

/-- `UART_BUF_SIZE`. -/
def uartBufSize : Nat := 1100

/-- `MAX_BUFF_SIZE`. -/
def maxBuffSize : Nat := 2048

/-- `EUART_STATA`. -/
inductive UartState
  | idle
  | recvBegin
  | recvLength
  | recvHead
  | recvData
  | recvEnd
  | recvBusy
  deriving DecidableEq

/-- `T_UART_BUF`; `curuartptr` always stands behind the first `uartrecvcnt` bytes of `uartcatch`. -/
structure UartBuf where
  uartrecvcnt : Nat
  uartleftdatalen : Nat
  uartcatch : List Byte
  uartbuff : List Byte
  uartstate : UartState
  uartdo : Bool
  uartbytecnt : Nat

/-- What was received is no frame: it is cleared, and the byte is to be received again. -/
def UartBuf.again (p : UartBuf) : UartBuf :=
  { p with
    uartrecvcnt := 0
    uartstate := .idle
    uartleftdatalen := p.uartleftdatalen + 1 }

/-- The byte goes into `uartcatch`, which is cleared first when it is full. -/
def uartStore (byte : Byte) (p : UartBuf) : UartBuf :=
  let p := if p.uartrecvcnt ≥ uartBufSize then
    { p with uartdo := false, uartrecvcnt := 0, uartstate := .idle } else p
  { p with
    uartcatch := p.uartcatch.set p.uartrecvcnt byte
    uartrecvcnt := p.uartrecvcnt + 1
    uartleftdatalen := p.uartleftdatalen - 1 }

/-- The `switch` over the state, and whether `i` is decremented. -/
def uartSwitch (byte : Byte) (p : UartBuf) : UartBuf × Bool :=
  match p.uartstate with
  | .idle =>
    if byte = 0x55 then ({ p with uartstate := .recvBegin }, false)
    else ({ p with uartrecvcnt := 0 }, false)
  | .recvBegin =>
    if byte = 0xaa then ({ p with uartstate := .recvLength, uartbytecnt := 0 }, false)
    else (p.again, true)
  | .recvLength =>
    if p.uartbytecnt + 1 = 2 then ({ p with uartstate := .recvHead, uartbytecnt := 0 }, false)
    else ({ p with uartbytecnt := p.uartbytecnt + 1 }, false)
  | .recvHead =>
    if byte = 0x7e then
      if p.uartbytecnt + 1 = 2 then ({ p with uartstate := .recvData, uartbytecnt := 0 }, false)
      else ({ p with uartbytecnt := p.uartbytecnt + 1 }, false)
    else (p.again, true)
  | .recvData => if byte = 0x7e then ({ p with uartstate := .recvEnd }, false) else (p, false)
  | .recvEnd =>
    if byte = 0x7e then ({ p with uartstate := .recvBusy, uartdo := true }, false)
    else (p.again, true)
  -- a whole frame waits in `uartcatch`: the byte is dropped
  | .recvBusy => ({ p with uartrecvcnt := p.uartrecvcnt - 1 }, false)

/-- One turn of the loop of `uartRevDataProcess`. -/
def uartByte (byte : Byte) (p : UartBuf) : UartBuf × Bool := uartSwitch byte (uartStore byte p)

/-- The loop of `uartRevDataProcess`, and the bytes that are left when a whole frame ends
it. A byte received again meets the idle state, so that it is not received a third time. -/
def revLoop : List Byte → UartBuf → UartBuf × Option (List Byte)
  | [], p => (p, none)
  | byte :: buf, p =>
    let (p, again) := uartByte byte p
    if p.uartdo then (p, some (if again then byte :: buf else buf))
    else if again then
      let (p, _) := uartByte byte p
      if p.uartdo then (p, some buf) else revLoop buf p
    else revLoop buf p

/-- `uartRevDataProcess`; `saved` says that `buf` is `uartbuff` itself. Then the `memcpy` at
the end is undefined if what it copies and where it copies to overlap. -/
def uartRevDataProcess (saved : Bool) (buf : List Byte) (p : UartBuf) : Option UartBuf :=
  match revLoop buf { p with uartleftdatalen := buf.length } with
  | (p, none) => some p
  | (p, some rest) =>
    if saved ∧ buf.length - rest.length < p.uartleftdatalen then none
    else do
      let uartbuff ← copyIn p.uartbuff 0 (rest.take p.uartleftdatalen)
      some { p with uartbuff := uartbuff }

/-- The first part of `uartReadData`: what is left of the call before. -/
def uartReplay (p : UartBuf) : Option UartBuf :=
  if p.uartleftdatalen > 0 then
    uartRevDataProcess true (p.uartbuff.take p.uartleftdatalen) p
  else some p

/-- Its second part: what `read` brings, nothing after a time-out or an error. -/
def uartReceive (data : List Byte) (p : UartBuf) : Option UartBuf :=
  if data = [] then some p else uartRevDataProcess false data p

/-- The end of `uartReadData`: what it returns, and what `dataunpack` stores. -/
def uartUnpack (p : UartBuf) : Option (Int × List Byte × UartBuf) :=
  if p.uartdo then do
    let (ret, pOutBuf) ← dataunpack p.uartcatch
    some (ret, pOutBuf,
      { p with uartdo := false, uartrecvcnt := 0, uartbytecnt := 0, uartstate := .idle })
  else some (-1, [], p)

/-- `uartReadData` of an open port; `data` is what `read` brings. -/
def uartReadData (data : List Byte) (p : UartBuf) : Option (Int × List Byte × UartBuf) := do
  let p ← uartReplay p
  let p ← uartReceive data p
  uartUnpack p

/-- Calls one after the other, and the messages of those that return a value that is not negative. -/
def uartReads : List (List Byte) → UartBuf → Option (List (List Byte) × UartBuf)
  | [], p => some ([], p)
  | data :: reads, p => do
    let (ret, pOutBuf, p) ← uartReadData data p
    let (messages, p) ← uartReads reads p
    some (if 0 ≤ ret then pOutBuf.take ret.toNat :: messages else messages, p)

/-- A byte looked at again changes nothing but what `again` does. -/
theorem uartSwitch_again {byte : Byte} {p : UartBuf} (h : (uartSwitch byte p).2 = true) :
    (uartSwitch byte p).1 = p.again := by
  revert h
  unfold uartSwitch
  repeat' split
  all_goals simp

/-- A byte is received at most twice. -/
theorem uartByte_twice {byte : Byte} {p : UartBuf} (h : (uartByte byte p).2 = true) :
    (uartByte byte (uartByte byte p).1).2 = false := by
  have hstate : (uartStore byte (uartByte byte p).1).uartstate = .idle := by
    rw [uartByte, uartSwitch_again h]
    unfold uartStore UartBuf.again
    split_ifs <;> rfl
  rw [uartByte, uartSwitch, hstate]
  dsimp only
  split_ifs <;> rfl

/-! ## The condition -/

/-- The state that `openUart` makes. -/
structure UartBuf.Idle (p : UartBuf) : Prop where
  uartrecvcnt : p.uartrecvcnt = 0
  uartleftdatalen : p.uartleftdatalen = 0
  uartcatch : p.uartcatch.length = uartBufSize
  uartbuff : p.uartbuff.length = maxBuffSize
  uartstate : p.uartstate = .idle
  uartdo : p.uartdo = false

/-- The calls return the payloads, and all of them once the stream and the saved
remainder are used up. -/
def ReturnsAll (payloads reads : List (List Byte)) (p : UartBuf) : Prop :=
  ∃ messages p', uartReads reads p = some (messages, p') ∧ messages <+: payloads ∧
    (reads.flatten = (payloads.map datapack).flatten → p'.uartleftdatalen = 0 →
      messages = payloads)

/-- While a whole frame waits nothing is read, and not more waits behind it than the frame
is long; `n` is the number of bytes that are read and not returned. -/
def OneAtATime : List (List Byte) → Nat → List (List Byte) → Prop
  | _, _, [] => True
  | [], n, data :: reads => OneAtATime [] (n + data.length) reads
  | f :: frames, n, data :: reads =>
    (f.length ≤ n → data = [] ∧ n ≤ 2 * f.length) ∧
      if f.length ≤ n + data.length then OneAtATime frames (n + data.length - f.length) reads
      else OneAtATime (f :: frames) (n + data.length) reads

instance decidableOneAtATime : ∀ (frames : List (List Byte)) (n : Nat) (reads : List (List Byte)),
    Decidable (OneAtATime frames n reads)
  | [], _, [] => isTrue trivial
  | _ :: _, _, [] => isTrue trivial
  | [], n, data :: reads => decidableOneAtATime [] (n + data.length) reads
  | f :: frames, n, data :: reads =>
    let _ := decidableOneAtATime frames (n + data.length - f.length) reads
    let _ := decidableOneAtATime (f :: frames) (n + data.length) reads
    inferInstanceAs (Decidable ((f.length ≤ n → data = [] ∧ n ≤ 2 * f.length) ∧
      if f.length ≤ n + data.length then OneAtATime frames (n + data.length - f.length) reads
      else OneAtATime (f :: frames) (n + data.length) reads))

/-! ## Frames -/

/-- What the receiver looks at in a frame. -/
structure UartFrame (f : List Byte) : Prop where
  length : 8 ≤ f.length
  sign : f[0]? = some 0x55 ∧ f[1]? = some 0xaa
  head : f[4]? = some 0x7e ∧ f[5]? = some 0x7e
  flag : ∀ {n : Nat} {b : Byte}, 6 ≤ n → f[n]? = some b → (b = 0x7e ↔ f.length ≤ n + 2)

/-- What `datapack` makes is a frame for the receiver. -/
theorem uartFrame_datapack (x : List Byte) : UartFrame (datapack x) := by
  have hshape : datapack x = ([0x55, 0xaa] ++
      le16Bytes (BitVec.ofNat 16 ((packed x).length + 4)) ++ [0x7e, 0x7e]) ++
      (packed x ++ [0x7e, 0x7e]) := by
    rw [datapack_eq_frame, frame]
    simp only [List.append_assoc]
  have hlen := length_datapack x
  refine ⟨by omega, ?_, ?_, ?_⟩
  · rw [hshape]
    exact ⟨rfl, rfl⟩
  · rw [hshape]
    exact ⟨rfl, rfl⟩
  · intro n b hn hb
    rw [hshape, List.getElem?_append_right (by simpa [le16Bytes] using hn)] at hb
    have hsix : ([0x55, 0xaa] ++ le16Bytes (BitVec.ofNat 16 ((packed x).length + 4)) ++
      [0x7e, 0x7e] : List Byte).length = 6 := rfl
    rw [hsix] at hb
    rcases Nat.lt_or_ge (n - 6) (packed x).length with hbody | htail
    · -- in the body there is no flag
      rw [List.getElem?_append_left hbody] at hb
      have hne : b ≠ 0x7e := by
        rintro rfl
        exact not_mem_escape _ (List.mem_of_getElem? hb)
      exact ⟨fun h => absurd h hne, fun h => by omega⟩
    · rw [List.getElem?_append_right htail] at hb
      have hmem : b ∈ ([0x7e, 0x7e] : List Byte) := List.mem_of_getElem? hb
      simp only [List.mem_cons, List.not_mem_nil, or_false, or_self] at hmem
      exact ⟨fun _ => by omega, fun _ => hmem⟩

/-! ## The receiver -/

/-- The state in which the first `n` bytes of a frame of `len` bytes are received. -/
def stateAt (len n : Nat) : UartState :=
  if n = 0 then .idle
  else if n = 1 then .recvBegin
  else if n < 4 then .recvLength
  else if n < 6 then .recvHead
  else if n + 1 < len then .recvData
  else .recvEnd

/-- The buffers have their sizes. -/
structure UartBuf.Sized (p : UartBuf) : Prop where
  uartcatch : p.uartcatch.length = uartBufSize
  uartbuff : p.uartbuff.length = maxBuffSize

/-- The receiver holds the first `n` bytes of the frame. -/
structure Holds (f : List Byte) (n : Nat) (p : UartBuf) : Prop where
  sized : p.Sized
  uartrecvcnt : p.uartrecvcnt = n
  uartcatch : p.uartcatch.take n = f.take n
  uartstate : p.uartstate = stateAt f.length n
  uartbytecnt : 2 ≤ n → n < 6 → p.uartbytecnt = n % 2
  uartdo : p.uartdo = false

/-- It holds the whole frame. -/
structure HoldsAll (f : List Byte) (p : UartBuf) : Prop where
  sized : p.Sized
  uartcatch : p.uartcatch.take f.length = f
  uartdo : p.uartdo = true

section Byte

variable {f : List Byte} {n : Nat} {p : UartBuf} {b : Byte}

/-- What is left for the `switch` to do when byte `n` is stored. -/
structure Stored (f : List Byte) (n : Nat) (p : UartBuf) : Prop where
  sized : p.Sized
  uartrecvcnt : p.uartrecvcnt = n + 1
  uartcatch : p.uartcatch.take (n + 1) = f.take (n + 1)
  uartstate : p.uartstate = stateAt f.length n
  uartbytecnt : 2 ≤ n → n < 6 → p.uartbytecnt = n % 2
  uartdo : p.uartdo = false

/-- The next byte of the frame is stored behind those held. -/
theorem Holds.store (h : Holds f n p) (hlen : f.length ≤ uartBufSize) (hb : f[n]? = some b) :
    Stored f n (uartStore b p) ∧ (uartStore b p).uartleftdatalen = p.uartleftdatalen - 1 ∧
      (uartStore b p).uartbuff = p.uartbuff := by
  obtain ⟨hn, -⟩ := List.getElem?_eq_some_iff.mp hb
  have hcnt := h.uartrecvcnt
  have hsize := h.sized.uartcatch
  -- there is room, so the count is not put back
  have hstore : uartStore b p = { p with
      uartcatch := p.uartcatch.set n b
      uartrecvcnt := n + 1
      uartleftdatalen := p.uartleftdatalen - 1 } := by
    unfold uartStore
    rw [if_neg (by omega), ← hcnt]
  -- the bytes before it stay
  have htake : (p.uartcatch.set n b).take (n + 1) = f.take (n + 1) := by
    rw [List.take_add_one, List.take_add_one, hb, List.getElem?_set_self (by omega),
      List.take_set_of_le le_rfl, h.uartcatch]
  rw [hstore]
  exact ⟨⟨⟨by simpa using hsize, h.sized.uartbuff⟩, rfl, htake, h.uartstate, h.uartbytecnt,
    h.uartdo⟩, rfl, rfl⟩

/-- A byte that does not complete the frame. -/
theorem Stored.switch (hf : UartFrame f) (h : Stored f n p) (hb : f[n]? = some b)
    (hn : n + 1 < f.length) :
    ∃ s c, uartSwitch b p = ({ p with uartstate := s, uartbytecnt := c }, false) ∧
      s = stateAt f.length (n + 1) ∧ (2 ≤ n + 1 → n + 1 < 6 → c = (n + 1) % 2) := by
  have hflen := hf.length
  have hstate := h.uartstate
  have hcnt := h.uartbytecnt
  unfold uartSwitch
  -- the two bytes at the front, the length, the head, and what is behind it
  obtain rfl | rfl | rfl | rfl | rfl | rfl | hbody :
      n = 0 ∨ n = 1 ∨ n = 2 ∨ n = 3 ∨ n = 4 ∨ n = 5 ∨ 6 ≤ n := by omega
  · rw [show p.uartstate = .idle from hstate]
    obtain rfl : 0x55 = b := Option.some.inj (hf.sign.1.symm.trans hb)
    exact ⟨.recvBegin, p.uartbytecnt, rfl, rfl, by omega⟩
  · rw [show p.uartstate = .recvBegin from hstate]
    obtain rfl : 0xaa = b := Option.some.inj (hf.sign.2.symm.trans hb)
    exact ⟨.recvLength, 0, rfl, rfl, fun _ _ => rfl⟩
  · have hzero := hcnt (by omega) (by omega)
    rw [show p.uartstate = .recvLength from hstate]
    dsimp only
    rw [if_neg (by omega)]
    exact ⟨.recvLength, p.uartbytecnt + 1, by rw [← show p.uartstate = .recvLength from hstate],
      rfl, by omega⟩
  · have hone := hcnt (by omega) (by omega)
    rw [show p.uartstate = .recvLength from hstate]
    exact ⟨.recvHead, 0, if_pos (by omega), rfl, fun _ _ => rfl⟩
  · have hzero := hcnt (by omega) (by omega)
    obtain rfl : 0x7e = b := Option.some.inj (hf.head.1.symm.trans hb)
    rw [show p.uartstate = .recvHead from hstate]
    dsimp only
    rw [if_pos rfl, if_neg (by omega)]
    exact ⟨.recvHead, p.uartbytecnt + 1, by rw [← show p.uartstate = .recvHead from hstate],
      rfl, by omega⟩
  · have hone := hcnt (by omega) (by omega)
    obtain rfl : 0x7e = b := Option.some.inj (hf.head.2.symm.trans hb)
    rw [show p.uartstate = .recvHead from hstate]
    dsimp only
    rw [if_pos rfl, if_pos (by omega)]
    exact ⟨.recvData, 0, rfl, (if_pos (by omega)).symm, by omega⟩
  · have hdata : p.uartstate = .recvData := by
      rw [hstate, stateAt, if_neg (by omega), if_neg (by omega), if_neg (by omega),
        if_neg (by omega), if_pos hn]
    have hnext : stateAt f.length (n + 1) = if b = 0x7e then .recvEnd else .recvData := by
      rw [stateAt, if_neg (by omega), if_neg (by omega), if_neg (by omega), if_neg (by omega)]
      by_cases hb7e : b = 0x7e
      · have := (hf.flag hbody hb).mp hb7e
        rw [if_neg (by omega), if_pos hb7e]
      · have := mt (hf.flag hbody hb).mpr hb7e
        rw [if_pos (by omega), if_neg hb7e]
    rw [hdata]
    refine ⟨_, p.uartbytecnt, ?_, hnext.symm, by omega⟩
    dsimp only
    split_ifs
    · rfl
    · rw [← hdata]

/-- A byte that does not complete the frame. -/
theorem Holds.byte (hf : UartFrame f) (hlen : f.length ≤ uartBufSize) (h : Holds f n p)
    (hb : f[n]? = some b) (hn : n + 1 < f.length) :
    ∃ p', uartByte b p = (p', false) ∧ Holds f (n + 1) p' ∧
      p'.uartleftdatalen = p.uartleftdatalen - 1 ∧ p'.uartbuff = p.uartbuff := by
  obtain ⟨hstored, hleft, hbuff⟩ := h.store hlen hb
  obtain ⟨s, c, hswitch, hs, hc⟩ := hstored.switch hf hb hn
  exact ⟨_, hswitch, ⟨⟨hstored.sized.uartcatch, hstored.sized.uartbuff⟩, hstored.uartrecvcnt,
    hstored.uartcatch, hs, hc, hstored.uartdo⟩, hleft, hbuff⟩

/-- The last byte of the frame. -/
theorem Holds.lastByte (hf : UartFrame f) (hlen : f.length ≤ uartBufSize) (h : Holds f n p)
    (hb : f[n]? = some b) (hn : n + 1 = f.length) :
    ∃ p', uartByte b p = (p', false) ∧ HoldsAll f p' ∧ p'.uartrecvcnt = f.length ∧
      p'.uartleftdatalen = p.uartleftdatalen - 1 ∧ p'.uartbuff = p.uartbuff := by
  have hflen := hf.length
  obtain ⟨hstored, hleft, hbuff⟩ := h.store hlen hb
  -- behind all but the last byte the end flag is expected
  have hstate : (uartStore b p).uartstate = .recvEnd := by
    rw [hstored.uartstate, stateAt, if_neg (by omega), if_neg (by omega), if_neg (by omega),
      if_neg (by omega), if_neg (by omega)]
  have hflag : b = 0x7e := (hf.flag (by omega) hb).mpr (by omega)
  refine ⟨{ uartStore b p with uartstate := .recvBusy, uartdo := true }, ?_,
    ⟨⟨hstored.sized.uartcatch, hstored.sized.uartbuff⟩, ?_, rfl⟩,
    hstored.uartrecvcnt.trans hn, hleft, hbuff⟩
  · rw [uartByte, uartSwitch, hstate]
    exact if_pos hflag
  · show (uartStore b p).uartcatch.take f.length = f
    rw [← hn, hstored.uartcatch, hn, List.take_length]

end Byte

/-- The next byte of a list. -/
theorem next_of_prefix {f d : List Byte} {n : Nat} {b : Byte} (h : b :: d <+: f.drop n) :
    f[n]? = some b ∧ d <+: f.drop (n + 1) := by
  obtain ⟨t, ht⟩ := h
  constructor
  · rw [← List.head?_drop, ← ht]
    rfl
  · exact ⟨t, by rw [← List.tail_drop, ← ht]; rfl⟩

section Loop

variable {f : List Byte} {n : Nat} {p : UartBuf} {d : List Byte}

/-- A part of the frame without its end. -/
theorem revLoop_short (hf : UartFrame f) (hlen : f.length ≤ uartBufSize) (h : Holds f n p)
    (hd : d <+: f.drop n) (hn : n + d.length < f.length) (hleft : p.uartleftdatalen = d.length) :
    ∃ p', revLoop d p = (p', none) ∧ Holds f (n + d.length) p' ∧ p'.uartleftdatalen = 0 ∧
      p'.uartbuff = p.uartbuff := by
  induction d generalizing n p with
  | nil => exact ⟨p, rfl, h, hleft, rfl⟩
  | cons b d ih =>
    rw [List.length_cons] at hn hleft
    obtain ⟨hb, hd'⟩ := next_of_prefix hd
    -- the first byte, and then the rest of the part
    obtain ⟨p₁, hbyte, hholds, hleft₁, hbuff₁⟩ := h.byte hf hlen hb (by omega)
    obtain ⟨p', hloop, hholds', hleft', hbuff'⟩ := ih hholds hd' (by omega) (by omega)
    refine ⟨p', ?_, ?_, hleft', hbuff'.trans hbuff₁⟩
    · simp [revLoop, hbyte, hholds.uartdo, hloop]
    · rw [List.length_cons, show n + (d.length + 1) = n + 1 + d.length by omega]
      exact hholds'

/-- The rest of the frame, whatever is behind it. -/
theorem revLoop_whole (hf : UartFrame f) (hlen : f.length ≤ uartBufSize) (h : Holds f n p)
    (hn : n < f.length) {rest : List Byte}
    (hleft : p.uartleftdatalen = (f.drop n ++ rest).length) :
    ∃ p', revLoop (f.drop n ++ rest) p = (p', some rest) ∧ HoldsAll f p' ∧
      p'.uartrecvcnt = f.length ∧ p'.uartleftdatalen = rest.length ∧
      p'.uartbuff = p.uartbuff := by
  induction hd : f.drop n generalizing n p with
  | nil =>
    have hzero := congrArg List.length hd
    rw [List.length_drop, List.length_nil] at hzero
    omega
  | cons b d ih =>
    obtain ⟨hb, hd'⟩ := next_of_prefix (show b :: d <+: f.drop n by rw [hd])
    have hdlen := congrArg List.length hd
    rw [List.length_drop, List.length_cons] at hdlen
    rw [hd, List.cons_append, List.length_cons, List.length_append] at hleft
    have hnext : f.drop (n + 1) = d := by
      rw [← List.tail_drop, hd]
      rfl
    -- the last byte of the frame stops the loop; behind any other it goes on
    by_cases hlast : n + 1 = f.length
    · obtain rfl : d = [] := List.length_eq_zero_iff.mp (by omega)
      obtain ⟨p', hbyte, hall, hcnt', hleft', hbuff'⟩ := h.lastByte hf hlen hb hlast
      rw [List.length_nil] at hleft
      refine ⟨p', ?_, hall, hcnt', by omega, hbuff'⟩
      simp [revLoop, hbyte, hall.uartdo]
    · obtain ⟨p₁, hbyte, hholds, hleft₁, hbuff₁⟩ := h.byte hf hlen hb (by omega)
      obtain ⟨p', hloop, hall, hcnt', hleft', hbuff'⟩ := ih hholds (by omega)
        (by rw [hnext, List.length_append]; omega) hnext
      refine ⟨p', ?_, hall, hcnt', hleft', hbuff'.trans hbuff₁⟩
      simp [revLoop, hbyte, hholds.uartdo, hloop]

end Loop

/-! ## One call -/

section Process

variable {f : List Byte} {n : Nat} {p : UartBuf} {saved : Bool}

/-- The counter of the bytes that are left does not matter to the receiver. -/
theorem Holds.withLeft (h : Holds f n p) (k : Nat) :
    Holds f n { p with uartleftdatalen := k } :=
  ⟨⟨h.sized.uartcatch, h.sized.uartbuff⟩, h.uartrecvcnt, h.uartcatch, h.uartstate, h.uartbytecnt,
    h.uartdo⟩

/-- A part of the frame is taken in whole. -/
theorem uartRevDataProcess_short (hf : UartFrame f) (hlen : f.length ≤ uartBufSize)
    (h : Holds f n p) {d : List Byte} (hd : d <+: f.drop n) (hn : n + d.length < f.length) :
    ∃ p', uartRevDataProcess saved d p = some p' ∧ Holds f (n + d.length) p' ∧
      p'.uartleftdatalen = 0 ∧ p'.uartbuff = p.uartbuff := by
  obtain ⟨p', hloop, hrest⟩ := revLoop_short hf hlen (h.withLeft d.length) hd hn rfl
  exact ⟨p', by rw [uartRevDataProcess, hloop], hrest⟩

/-- The bytes behind the frame are saved. -/
theorem uartRevDataProcess_whole (hf : UartFrame f) (hlen : f.length ≤ uartBufSize)
    (h : Holds f n p) (hn : n < f.length) {rest : List Byte} (hroom : rest.length ≤ maxBuffSize)
    (hoverlap : saved = true → n + rest.length ≤ f.length) :
    ∃ p', uartRevDataProcess saved (f.drop n ++ rest) p = some p' ∧ HoldsAll f p' ∧
      p'.uartrecvcnt = f.length ∧ p'.uartleftdatalen = rest.length ∧
      p'.uartbuff.take rest.length = rest := by
  obtain ⟨p', hloop, hall, hcnt, hleft, hbuff⟩ :=
    revLoop_whole hf hlen (h.withLeft (f.drop n ++ rest).length) hn rfl
  have hsize := hall.sized.uartbuff
  have hcopy : copyIn p'.uartbuff 0 rest = some (RingBuffer.blit p'.uartbuff 0 rest) :=
    if_pos (by omega)
  refine ⟨{ p' with uartbuff := RingBuffer.blit p'.uartbuff 0 rest }, ?_,
    ⟨⟨hall.sized.uartcatch, ?_⟩, hall.uartcatch, hall.uartdo⟩, hcnt, hleft, ?_⟩
  · rw [uartRevDataProcess, hloop]
    dsimp only
    rw [if_neg, hleft, List.take_length, hcopy]
    · rfl
    -- the replay of saved bytes has no result only where they would overlap their copy
    · rintro ⟨hsaved, hless⟩
      have := hoverlap hsaved
      rw [List.length_append, List.length_drop] at hless
      omega
  · show (RingBuffer.blit p'.uartbuff 0 rest).length = maxBuffSize
    rw [RingBuffer.blit_length (by omega), hsize]
  · show (RingBuffer.blit p'.uartbuff 0 rest).take rest.length = rest
    have htake := @RingBuffer.take_blit _ p'.uartbuff 0 rest (Nat.zero_le _)
    rwa [Nat.zero_add, List.take_zero, List.nil_append] at htake

end Process

/-- `n` bytes of the frames are read and not returned: in `uartcatch` if they are less than
a frame, else in `uartbuff`, where less than a frame may be, too. -/
inductive Waiting (frames : List (List Byte)) (n : Nat) (p : UartBuf) : Prop
  | held (h : Holds (frames.headD []) n p) (hn : n < (frames.headD []).length ∨ n = 0)
      (hleft : p.uartleftdatalen = 0)
  | saved (h : Holds [] 0 p) (hn : 0 < n) (hleft : p.uartleftdatalen = n)
      (hbuff : p.uartbuff.take n = frames.flatten.take n)

/-- Without a byte the receiver is idle, whatever frame comes. -/
theorem Holds.zero {f g : List Byte} {p : UartBuf} (h : Holds f 0 p) : Holds g 0 p :=
  ⟨h.sized, h.uartrecvcnt, rfl, h.uartstate, h.uartbytecnt, h.uartdo⟩

/-- An idle receiver waits for the first byte. -/
theorem UartBuf.Idle.waiting {p : UartBuf} (h : p.Idle) (frames : List (List Byte)) :
    Waiting frames 0 p :=
  .held ⟨⟨h.uartcatch, h.uartbuff⟩, h.uartrecvcnt, rfl, h.uartstate, by omega, h.uartdo⟩ (.inr rfl)
    h.uartleftdatalen

section Call

variable {f : List Byte} {frames : List (List Byte)} {n : Nat} {p : UartBuf} {data : List Byte}

/-- With nothing left over only the new bytes are processed. -/
theorem uartReceive_eq (hleft : p.uartleftdatalen = 0) :
    uartReceive data p = uartRevDataProcess false data p := by
  by_cases hdata : data = []
  · subst hdata
    rw [uartReceive, if_pos rfl, uartRevDataProcess, revLoop, List.length_nil, ← hleft]
  · exact if_neg hdata

/-- What is replayed is less than a frame: it is in `uartcatch` afterwards. -/
theorem uartReplay_short (hf : UartFrame f) (hlen : f.length ≤ uartBufSize)
    (h : Waiting (f :: frames) n p) (hn : n < f.length) :
    ∃ p', uartReplay p = some p' ∧ Holds f n p' ∧ p'.uartleftdatalen = 0 := by
  -- what is held is there already, what was saved is processed again
  cases h with
  | held h _ hleft => exact ⟨p, by rw [uartReplay, if_neg (by omega)], h, hleft⟩
  | saved h hpos hleft hbuff =>
    have hfront : p.uartbuff.take n = f.take n := by
      rw [hbuff, List.flatten_cons, List.take_append_of_le_length hn.le]
    have hcount : (f.take n).length = n := by
      rw [List.length_take]
      omega
    obtain ⟨p', hrun, hholds, hleft', -⟩ := @uartRevDataProcess_short _ _ _ true hf hlen
      (h.zero : Holds f 0 p) (f.take n) (List.take_prefix n f) (by omega)
    refine ⟨p', ?_, ?_, hleft'⟩
    · rw [uartReplay, if_pos (by omega), hleft, hfront]
      exact hrun
    · rwa [hcount, Nat.zero_add] at hholds

/-- What is replayed has a whole frame, and not more than another one behind it. -/
theorem uartReplay_whole (hf : UartFrame f) (hlen : f.length ≤ uartBufSize)
    (h : Waiting (f :: frames) n p) (hn : f.length ≤ n) (htotal : n ≤ (f :: frames).flatten.length)
    (hless : n ≤ 2 * f.length) :
    ∃ p', uartReplay p = some p' ∧ HoldsAll f p' ∧ p'.uartleftdatalen = n - f.length ∧
      p'.uartbuff.take (n - f.length) = frames.flatten.take (n - f.length) := by
  have hflen := hf.length
  cases h with
  -- a frame that is held is not complete
  | held _ hn' _ =>
    simp only [List.headD_cons] at hn'
    omega
  | saved h hpos hleft hbuff =>
    rw [List.flatten_cons, List.length_append] at htotal
    -- the saved bytes start with the whole frame; the next ones follow
    have hfront : p.uartbuff.take n = f.drop 0 ++ frames.flatten.take (n - f.length) := by
      rw [hbuff, List.flatten_cons, List.take_append, List.take_of_length_le hn, List.drop_zero]
    have hcount : (frames.flatten.take (n - f.length)).length = n - f.length := by
      rw [List.length_take]
      omega
    have hsize : uartBufSize ≤ maxBuffSize := by decide
    obtain ⟨p', hrun, hall, -, hleft', hsaved⟩ := @uartRevDataProcess_whole _ _ _ true hf hlen
      (h.zero : Holds f 0 p) (by omega) (frames.flatten.take (n - f.length)) (by omega)
      (fun _ => by omega)
    refine ⟨p', ?_, hall, by omega, ?_⟩
    · rw [uartReplay, if_pos (by omega), hleft, hfront]
      exact hrun
    · rwa [hcount] at hsaved

/-- What is read has the rest of the frame, and the front of the next ones. -/
theorem uartReceive_whole (hf : UartFrame f) (hlen : f.length ≤ uartBufSize) (h : Holds f n p)
    (hleft : p.uartleftdatalen = 0) (hn : n < f.length) (hroom : data.length ≤ maxBuffSize)
    (hdata : data <+: f.drop n ++ frames.flatten) (hwhole : f.length ≤ n + data.length) :
    ∃ p', uartReceive data p = some p' ∧ HoldsAll f p' ∧
      p'.uartleftdatalen = n + data.length - f.length ∧
      p'.uartbuff.take (n + data.length - f.length) =
        frames.flatten.take (n + data.length - f.length) := by
  -- the end of this frame and what is read beyond it
  have hsplit : data = f.drop n ++ frames.flatten.take (n + data.length - f.length) := by
    conv_lhs => rw [List.prefix_iff_eq_take.mp hdata, List.take_append, List.take_of_length_le
      (by rw [List.length_drop]; omega), List.length_drop]
    rw [show data.length - (f.length - n) = n + data.length - f.length by omega]
  have hcount : (frames.flatten.take (n + data.length - f.length)).length =
      n + data.length - f.length := by
    have hsum := congrArg List.length hsplit
    rw [List.length_append, List.length_drop] at hsum
    omega
  obtain ⟨p', hrun, hall, -, hleft', hsaved⟩ := @uartRevDataProcess_whole _ _ _ false hf hlen h hn
    (frames.flatten.take (n + data.length - f.length)) (by omega) nofun
  rw [← hsplit] at hrun
  rw [hcount] at hleft' hsaved
  exact ⟨p', (uartReceive_eq hleft).trans hrun, hall, hleft', hsaved⟩

/-- The frame of a payload is unpacked, and the receiver is idle again. -/
theorem uartUnpack_datapack {x : List Byte} (hlen : (datapack x).length ≤ uartBufSize)
    (h : HoldsAll (datapack x) p) :
    ∃ data p', uartUnpack p = some ((x.length : Int), data, p') ∧ data.take x.length = x ∧
      Holds [] 0 p' ∧ p'.uartleftdatalen = p.uartleftdatalen ∧ p'.uartbuff = p.uartbuff := by
  have hsize : uartBufSize ≤ 65539 := by decide
  -- the frame is in front of old bytes, which do not matter
  have hsplit : p.uartcatch = datapack x ++ p.uartcatch.drop (datapack x).length := by
    conv_lhs => rw [← List.take_append_drop (datapack x).length p.uartcatch, h.uartcatch]
  obtain ⟨out, hunpack, hout⟩ : ∃ out, dataunpack p.uartcatch = some ((x.length : Int), out) ∧
      out.take x.length = x := by
    rw [hsplit]
    exact ⟨_, dataunpack_frame (hlen.trans hsize) _, List.take_left⟩
  refine ⟨out, { p with uartdo := false, uartrecvcnt := 0, uartbytecnt := 0, uartstate := .idle },
    ?_, hout, ⟨⟨h.sized.uartcatch, h.sized.uartbuff⟩, rfl, rfl, rfl, by omega, rfl⟩, rfl, rfl⟩
  rw [uartUnpack, if_pos h.uartdo, hunpack]
  rfl

/-- What is saved behind a frame waits for the next call. -/
theorem Waiting.ofSaved {m : Nat} (h : Holds [] 0 p) (hleft : p.uartleftdatalen = m)
    (hbuff : p.uartbuff.take m = frames.flatten.take m) : Waiting frames m p := by
  rcases Nat.eq_zero_or_pos m with rfl | hpos
  · exact .held h.zero (.inr rfl) hleft
  · exact .saved h hpos hleft hbuff

/-- **A call before the frame is complete** returns nothing and keeps what it has read. -/
theorem uartReadData_waits (hf : UartFrame f) (hlen : f.length ≤ uartBufSize)
    (h : Waiting (f :: frames) n p) (hdata : data <+: (f :: frames).flatten.drop n)
    (hn : n + data.length < f.length) :
    ∃ p', uartReadData data p = some (-1, [], p') ∧
      Waiting (f :: frames) (n + data.length) p' := by
  obtain ⟨p₁, hreplay, hholds, hleft⟩ := uartReplay_short hf hlen h (by omega)
  -- what is read does not reach the next frame
  have hpart : data <+: f.drop n := by
    rw [List.flatten_cons, List.drop_append_of_le_length (by omega)] at hdata
    exact List.prefix_of_prefix_length_le hdata (List.prefix_append ..)
      (by rw [List.length_drop]; omega)
  obtain ⟨p', hrun, hholds', hleft', -⟩ := uartRevDataProcess_short hf hlen hholds hpart hn
  refine ⟨p', ?_, .held hholds' (.inl hn) hleft'⟩
  rw [uartReadData, hreplay, Option.bind_eq_bind, Option.bind_some, uartReceive_eq hleft, hrun,
    Option.bind_some, uartUnpack, if_neg (by simp [hholds'.uartdo])]

/-- **A call with a whole frame** returns its payload and keeps what is behind it. -/
theorem uartReadData_returns {x : List Byte} (hlen : (datapack x).length ≤ uartBufSize)
    (h : Waiting (datapack x :: frames) n p)
    (hdata : data <+: (datapack x :: frames).flatten.drop n) (hroom : data.length ≤ maxBuffSize)
    (htotal : n ≤ (datapack x :: frames).flatten.length)
    (hone : (datapack x).length ≤ n → data = [] ∧ n ≤ 2 * (datapack x).length)
    (hn : (datapack x).length ≤ n + data.length) :
    ∃ out p', uartReadData data p = some ((x.length : Int), out, p') ∧ out.take x.length = x ∧
      Waiting frames (n + data.length - (datapack x).length) p' := by
  have hf := uartFrame_datapack x
  -- the receiver has the whole frame, and what is behind it is saved
  suffices hwhole : ∃ p₁ p₂, uartReplay p = some p₁ ∧ uartReceive data p₁ = some p₂ ∧
      HoldsAll (datapack x) p₂ ∧ p₂.uartleftdatalen = n + data.length - (datapack x).length ∧
      p₂.uartbuff.take (n + data.length - (datapack x).length) =
        frames.flatten.take (n + data.length - (datapack x).length) by
    obtain ⟨p₁, p₂, hreplay, hreceive, hall, hleft, hbuff⟩ := hwhole
    obtain ⟨out, p', hunpack, hout, hidle, hleft', hbuff'⟩ := uartUnpack_datapack hlen hall
    refine ⟨out, p', ?_, hout, .ofSaved hidle (hleft'.trans hleft) (by rw [hbuff', hbuff])⟩
    rw [uartReadData, hreplay, Option.bind_eq_bind, Option.bind_some, hreceive, Option.bind_some,
      hunpack]
  rcases Nat.lt_or_ge n (datapack x).length with hshort | hready
  · -- the frame ends in what is read now
    obtain ⟨p₁, hreplay, hholds, hleft⟩ := uartReplay_short hf hlen h hshort
    rw [List.flatten_cons, List.drop_append_of_le_length hshort.le] at hdata
    obtain ⟨p₂, hreceive, hall, hleft', hsaved⟩ :=
      uartReceive_whole hf hlen hholds hleft hshort hroom hdata hn
    exact ⟨p₁, p₂, hreplay, hreceive, hall, hleft', hsaved⟩
  · -- it was complete before
    obtain ⟨rfl, hless⟩ := hone hready
    obtain ⟨p', hreplay, hall, hleft, hbuff⟩ :=
      uartReplay_whole hf hlen h hready htotal hless
    exact ⟨p', p', hreplay, if_pos rfl, hall, hleft, hbuff⟩

/-- Without a frame to come nothing waits, and nothing is returned. -/
theorem uartReadData_nothing (h : Waiting [] 0 p) :
    uartReadData [] p = some (-1, [], p) := by
  cases h with
  | held h _ hleft =>
    rw [uartReadData, uartReplay, if_neg (by omega), Option.bind_eq_bind, Option.bind_some,
      uartReceive, if_pos rfl, Option.bind_some, uartUnpack, if_neg (by simp [h.uartdo])]
  | saved _ hpos _ _ => omega

end Call

/-! ## The run -/

/-- **One call of a run**: it returns the next payload or nothing, and what is left waits. -/
theorem uartReadData_step {payloads : List (List Byte)}
    (hlen : ∀ x ∈ payloads, (datapack x).length ≤ uartBufSize) {data : List Byte}
    (hroom : data.length ≤ maxBuffSize) {reads : List (List Byte)} {n : Nat} {p : UartBuf}
    (h : Waiting (payloads.map datapack) n p)
    (htotal : n ≤ (payloads.map datapack).flatten.length)
    (hdata : data <+: (payloads.map datapack).flatten.drop n)
    (hone : OneAtATime (payloads.map datapack) n (data :: reads)) :
    ∃ ret out p' done rest m, uartReadData data p = some (ret, out, p') ∧
      (if 0 ≤ ret then [out.take ret.toNat] else []) = done ∧ done ++ rest = payloads ∧
      Waiting (rest.map datapack) m p' ∧ OneAtATime (rest.map datapack) m reads ∧
      n + data.length = (done.map datapack).flatten.length + m := by
  cases payloads with
  | nil =>
    obtain rfl : n = 0 := Nat.le_zero.mp htotal
    obtain rfl : data = [] := List.prefix_nil.mp hdata
    exact ⟨-1, [], p, [], [], 0, uartReadData_nothing h, rfl, rfl, h, hone, rfl⟩
  | cons x payloads =>
    obtain ⟨hready, hone⟩ := hone
    have hxlen := hlen x List.mem_cons_self
    -- the call returns a message when its frame is whole, and waits otherwise
    by_cases hwhole : (datapack x).length ≤ n + data.length
    · obtain ⟨out, p', hcall, hout, hwait⟩ :=
        uartReadData_returns hxlen h hdata hroom htotal hready hwhole
      rw [if_pos hwhole] at hone
      refine ⟨_, out, p', [x], payloads, _, hcall, ?_, rfl, hwait, hone, ?_⟩
      · rw [if_pos (by omega), Int.toNat_natCast, hout]
      · rw [List.map_singleton, List.flatten_singleton]
        omega
    · obtain ⟨p', hcall, hwait⟩ :=
        uartReadData_waits (uartFrame_datapack x) hxlen h hdata (by omega)
      rw [if_neg hwhole] at hone
      exact ⟨-1, [], p', [], x :: payloads, _, hcall, rfl, rfl, hwait, hone, (Nat.zero_add _).symm⟩

/-- A run is its first read and the rest. -/
theorem uartReads_cons {data out : List Byte} {reads messages : List (List Byte)} {ret : Int}
    {p p₁ p' : UartBuf} (hcall : uartReadData data p = some (ret, out, p₁))
    (hrun : uartReads reads p₁ = some (messages, p')) :
    uartReads (data :: reads) p =
      some ((if 0 ≤ ret then [out.take ret.toNat] else []) ++ messages, p') := by
  simp only [uartReads, hcall, hrun, Option.bind_eq_bind, Option.bind_some]
  split_ifs <;> rfl

/-- The messages so far, and what waits for the calls to come. -/
theorem uartReads_waiting {payloads : List (List Byte)}
    (hlen : ∀ x ∈ payloads, (datapack x).length ≤ uartBufSize) {reads : List (List Byte)}
    (hreads : ∀ data ∈ reads, data.length ≤ maxBuffSize) {n : Nat} {p : UartBuf}
    (h : Waiting (payloads.map datapack) n p)
    (htotal : n ≤ (payloads.map datapack).flatten.length)
    (hstream : reads.flatten <+: (payloads.map datapack).flatten.drop n)
    (hone : OneAtATime (payloads.map datapack) n reads) :
    ∃ messages rest m p', uartReads reads p = some (messages, p') ∧ messages ++ rest = payloads ∧
      Waiting (rest.map datapack) m p' ∧
      n + reads.flatten.length = (messages.map datapack).flatten.length + m := by
  induction reads generalizing payloads n p with
  | nil => exact ⟨[], payloads, n, p, rfl, rfl, h, by simp⟩
  | cons data reads ih =>
    have hdata : data <+: (payloads.map datapack).flatten.drop n :=
      (List.prefix_append _ _).trans hstream
    obtain ⟨ret, out, p₁, done, rest, m, hcall, hdone, rfl, hwait, hone', hcount⟩ :=
      uartReadData_step hlen (hreads data List.mem_cons_self) h htotal hdata hone
    -- what the call has left of the stream
    have hlater : (((done ++ rest).map datapack).flatten.drop n).drop data.length =
        (rest.map datapack).flatten.drop m := by
      rw [List.drop_drop, hcount, List.map_append, List.flatten_append, ← List.drop_drop, List.drop_left]
    have htotal' : m ≤ (rest.map datapack).flatten.length := by
      have hsum := hdata.length_le
      rw [List.length_drop, List.map_append, List.flatten_append, List.length_append] at hsum
      rw [List.map_append, List.flatten_append, List.length_append] at htotal
      omega
    have hstream' : reads.flatten <+: (rest.map datapack).flatten.drop m := by
      rw [← hlater]
      simpa using hstream.drop data.length
    obtain ⟨messages, rest', m', p', hrun, rfl, hwait', hcount'⟩ :=
      ih (fun y hy => hlen y (List.mem_append_right _ hy))
        (fun d hd => hreads d (List.mem_cons_of_mem _ hd)) hwait htotal' hstream' hone'
    refine ⟨done ++ messages, rest', m', p', ?_, List.append_assoc .., hwait', ?_⟩
    · rw [uartReads_cons hcall hrun, hdone]
    · rw [List.flatten_cons, List.length_append, List.map_append, List.flatten_append,
        List.length_append]
      omega

/-- **No frame is lost** while a frame that waits is returned before anything is read. -/
theorem uartReads_returnsAll {payloads : List (List Byte)}
    (hlen : ∀ x ∈ payloads, (datapack x).length ≤ uartBufSize) {reads : List (List Byte)}
    (hreads : ∀ data ∈ reads, data.length ≤ maxBuffSize)
    (hstream : reads.flatten <+: (payloads.map datapack).flatten)
    (hone : OneAtATime (payloads.map datapack) 0 reads) {p : UartBuf} (hidle : p.Idle) :
    ReturnsAll payloads reads p := by
  obtain ⟨messages, rest, m, p', hrun, hsplit, hwait, hcount⟩ :=
    uartReads_waiting hlen hreads (hidle.waiting _) (Nat.zero_le _) hstream hone
  refine ⟨messages, p', hrun, ⟨rest, hsplit⟩, ?_⟩
  intro hall hleft
  rw [hall, ← hsplit, List.map_append, List.flatten_append, List.length_append] at hcount
  cases rest with
  | nil => rw [← hsplit, List.append_nil]
  | cons x rest =>
    -- a frame would be left, and it is neither saved nor incomplete
    have hflen := (uartFrame_datapack x).length
    rw [List.map_cons, List.flatten_cons, List.length_append] at hcount
    cases hwait with
    | held _ hm _ =>
      simp only [List.map_cons, List.headD_cons] at hm
      omega
    | saved _ hpos hleft' _ => omega

/-- The state that `openUart` makes, with zeroed buffers. -/
def openedUart : UartBuf :=
  ⟨0, 0, List.replicate uartBufSize 0, List.replicate maxBuffSize 0, .idle, false, 0⟩

/-- A port that has just been opened is idle. -/
theorem openedUart_idle : openedUart.Idle :=
  ⟨rfl, rfl, List.length_replicate, List.length_replicate, rfl, rfl⟩

/-- Two frames at once, and the third when the second is returned. -/
theorem uartReads_threeFrames : ReturnsAll [[1], [2], [3]]
    [datapack [1] ++ datapack [2], [], datapack [3]] openedUart :=
  @uartReads_returnsAll [[1], [2], [3]] (by decide)
    [datapack [1] ++ datapack [2], [], datapack [3]] (by decide) (by decide) (by decide) openedUart
    openedUart_idle

/-- The third frame is read while the second waits: it is lost. -/
theorem thirdFrame_lost :
    (∀ x ∈ [[1], [2], [3]], (datapack x).length ≤ uartBufSize) ∧
      (∀ data ∈ [datapack [1] ++ datapack [2], datapack [3], [], []], data.length ≤ maxBuffSize) ∧
      [datapack [1] ++ datapack [2], datapack [3], [], []].flatten =
        ([[1], [2], [3]].map datapack).flatten ∧
      openedUart.Idle ∧
      ¬ReturnsAll [[1], [2], [3]] [datapack [1] ++ datapack [2], datapack [3], [], []]
        openedUart := by
  refine ⟨by decide, by decide, rfl, openedUart_idle, ?_⟩
  rintro ⟨messages, p', hrun, -, hall⟩
  -- the call that returns the second message drops a byte of the third frame
  have hcalls : (uartReads [datapack [1] ++ datapack [2], datapack [3], [], []] openedUart).map
      (fun r => (r.1, r.2.uartleftdatalen)) = some ([[1], [2]], 0) := by decide +kernel
  rw [hrun, Option.map_some, Option.some.injEq, Prod.mk.injEq] at hcalls
  exact absurd (hcalls.1.symm.trans (hall rfl hcalls.2)) (by decide)

end PgClient.Serial
