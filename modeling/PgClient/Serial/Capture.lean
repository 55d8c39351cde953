import PgClient.Lib.ConsumingLoop
import PgClient.Lib.PartialRun
import PgClient.Serial.Uart

/-!
# What `uartRevDataProcess` captures

One frame between noise and whatever follows, cut into calls anywhere, and any bytes at all.

* `uartRevDataProcess_captures` — the call in which the frame ends has it in `uartcatch`, and
  what is behind it in `uartbuff`.
* `catchOps_consistent` — the fields of the receiver in every state, `curuartptr` among them.
* `catchRevDataProcess_toUartBuf` — the receiver of `Serial.Uart`, where it is left out.
-/

namespace PgClient.Serial

open PartialRun (runAll)

/-! ## One frame -/

section Loop

variable {f : List Byte} {p : UartBuf}

/-- What ends no frame is received before what follows. -/
theorem revLoop_append {d : List Byte} {p' : UartBuf} (h : revLoop d p = (p', none))
    (rest : List Byte) : revLoop (d ++ rest) p = revLoop rest p' := by
  induction d generalizing p with
  | nil =>
    obtain rfl : p = p' := congrArg Prod.fst h
    rfl
  | cons b d ih =>
    rw [revLoop] at h
    rw [List.cons_append, revLoop]
    dsimp only at h ⊢
    -- a frame that ends here, a byte that is received again, and any other byte
    by_cases hdo : (uartByte b p).1.uartdo = true
    · rw [if_pos hdo] at h
      exact absurd (congrArg Prod.snd h) (by simp)
    rw [if_neg hdo] at h ⊢
    by_cases hagain : (uartByte b p).2 = true
    · rw [if_pos hagain] at h ⊢
      by_cases hdo' : (uartByte b (uartByte b p).1).1.uartdo = true
      · rw [if_pos hdo'] at h
        exact absurd (congrArg Prod.snd h) (by simp)
      rw [if_neg hdo'] at h ⊢
      exact ih h
    · rw [if_neg hagain] at h ⊢
      exact ih h

/-- The idle receiver drops a byte that starts no frame. -/
theorem Holds.noise (h : Holds f 0 p) {b : Byte} (hb : b ≠ 0x55) :
    ∃ p', uartByte b p = (p', false) ∧ Holds f 0 p' ∧
      p'.uartleftdatalen = p.uartleftdatalen - 1 ∧ p'.uartbuff = p.uartbuff := by
  have hcnt := h.uartrecvcnt
  have hsize : ¬p.uartrecvcnt ≥ uartBufSize := by
    rw [hcnt]
    decide
  have hstate : p.uartstate = .idle := h.uartstate
  -- the byte is stored and the count put back
  refine ⟨{ p with
    uartcatch := p.uartcatch.set p.uartrecvcnt b
    uartrecvcnt := 0
    uartleftdatalen := p.uartleftdatalen - 1 }, ?_,
    ⟨⟨?_, h.sized.uartbuff⟩, rfl, rfl, h.uartstate, by omega, h.uartdo⟩, rfl, rfl⟩
  · rw [uartByte, uartStore, if_neg hsize, uartSwitch]
    simp only [hstate, if_neg hb]
  · show (p.uartcatch.set _ b).length = uartBufSize
    rw [List.length_set, h.sized.uartcatch]

/-- Without a `0x55` an idle receiver only counts the bytes off. -/
theorem revLoop_idle (h : Holds f 0 p) {noise : List Byte} (hnoise : 0x55 ∉ noise) :
    ∃ p', revLoop noise p = (p', none) ∧ Holds f 0 p' ∧
      p'.uartleftdatalen = p.uartleftdatalen - noise.length ∧ p'.uartbuff = p.uartbuff := by
  induction noise generalizing p with
  | nil => exact ⟨p, rfl, h, rfl, rfl⟩
  | cons b noise ih =>
    rw [List.mem_cons, not_or] at hnoise
    obtain ⟨p₁, hbyte, hholds, hleft, hbuff⟩ := h.noise (Ne.symm hnoise.1)
    obtain ⟨p', hloop, hholds', hleft', hbuff'⟩ := ih hholds hnoise.2
    refine ⟨p', ?_, hholds', ?_, hbuff'.trans hbuff⟩
    · simp [revLoop, hbyte, hholds.uartdo, hloop]
    · rw [hleft', hleft, List.length_cons]
      omega

/-- Noise before the frame changes nothing. -/
theorem revLoop_noise {n : Nat} (h : Holds f n p) {noise : List Byte} (hnoise : 0x55 ∉ noise)
    (hn : noise ≠ [] → n = 0) :
    ∃ p', revLoop noise p = (p', none) ∧ Holds f n p' ∧
      p'.uartleftdatalen = p.uartleftdatalen - noise.length ∧ p'.uartbuff = p.uartbuff := by
  by_cases hnil : noise = []
  · subst hnil
    exact ⟨p, rfl, h, rfl, rfl⟩
  · obtain rfl := hn hnil
    exact revLoop_idle h hnoise

end Loop

section Call

variable {f noise : List Byte} {n : Nat} {p : UartBuf}

/-- A call that ends before the frame does. -/
theorem uartRevDataProcess_before (hf : UartFrame f) (hlen : f.length ≤ uartBufSize)
    (hnoise : 0x55 ∉ noise) (hn : noise ≠ [] → n = 0) (h : Holds f n p) {call : List Byte}
    (hcall : call <+: noise ++ f.drop n) (hshort : n + (call.length - noise.length) < f.length) :
    ∃ p', uartRevDataProcess false call p = some p' ∧
      Holds f (n + (call.length - noise.length)) p' := by
  -- the part of the call that is noise, and the part of the frame behind it
  have hfront : 0x55 ∉ call.take noise.length := by
    have htake := hcall.take noise.length
    rw [List.take_left] at htake
    exact fun hmem => hnoise (htake.subset hmem)
  have hrest : call.drop noise.length <+: f.drop n := by
    have := hcall.drop noise.length
    rwa [List.drop_left] at this
  obtain ⟨p₁, hloop₁, hholds₁, hleft₁, -⟩ := revLoop_noise (h.withLeft call.length) hfront
    (fun hne => hn fun hnil => hne (by rw [hnil, List.length_nil, List.take_zero]))
  have hrestlen : (call.drop noise.length).length = call.length - noise.length :=
    List.length_drop ..
  obtain ⟨p', hloop, hholds, -⟩ := revLoop_short hf hlen hholds₁ hrest (by omega) (by
    rw [hleft₁, hrestlen, List.length_take]
    show call.length - min noise.length call.length = _
    omega)
  have hwhole : revLoop call { p with uartleftdatalen := call.length } = (p', none) := by
    have hsplit := (revLoop_append hloop₁ (call.drop noise.length)).trans hloop
    rwa [List.take_append_drop] at hsplit
  exact ⟨p', by rw [uartRevDataProcess, hwhole], by rwa [hrestlen] at hholds⟩

/-- The call in which the frame ends: what is behind it is saved. -/
theorem uartRevDataProcess_ends (hf : UartFrame f) (hlen : f.length ≤ uartBufSize)
    (hnoise : 0x55 ∉ noise) (hn : noise ≠ [] → n = 0) (h : Holds f n p) (hnlt : n < f.length)
    {rest : List Byte} (hroom : rest.length ≤ maxBuffSize) :
    ∃ p', uartRevDataProcess false (noise ++ (f.drop n ++ rest)) p = some p' ∧ HoldsAll f p' ∧
      p'.uartrecvcnt = f.length ∧ p'.uartleftdatalen = rest.length ∧
      p'.uartbuff.take rest.length = rest := by
  obtain ⟨p₁, hloop₁, hholds₁, hleft₁, -⟩ :=
    revLoop_noise (h.withLeft (noise ++ (f.drop n ++ rest)).length) hnoise hn
  -- behind the noise it is as if the call began there
  obtain ⟨p', hrun, hend⟩ := @uartRevDataProcess_whole _ _ _ false hf hlen hholds₁ hnlt rest hroom
    nofun
  refine ⟨p', ?_, hend⟩
  have hleft : p₁ = { p₁ with uartleftdatalen := (f.drop n ++ rest).length } := by
    have hlenleft : p₁.uartleftdatalen = (f.drop n ++ rest).length := by
      rw [hleft₁]
      show (noise ++ (f.drop n ++ rest)).length - noise.length = _
      rw [List.length_append]
      omega
    rw [← hlenleft]
  rw [uartRevDataProcess, revLoop_append hloop₁, hleft]
  simpa only [uartRevDataProcess, Bool.false_eq_true, false_and] using hrun

end Call

/-- **The calls before the frame ends** keep what they have of it. -/
theorem runAll_before {f noise : List Byte} (hf : UartFrame f) (hlen : f.length ≤ uartBufSize)
    (hnoise : 0x55 ∉ noise) {calls : List (List Byte)} {m : Nat} {p : UartBuf}
    (h : Holds f (m - noise.length) p) (hcalls : calls.flatten <+: (noise ++ f).drop m)
    (hm : m + calls.flatten.length < noise.length + f.length) :
    ∃ p', runAll (uartRevDataProcess false) calls p = some p' ∧
      Holds f (m + calls.flatten.length - noise.length) p' := by
  have hflen := hf.length
  induction calls generalizing m p with
  | nil => exact ⟨p, rfl, h⟩
  | cons call calls ih =>
    rw [List.flatten_cons] at hcalls hm ⊢
    rw [List.length_append] at hm ⊢
    have hcall : call <+: noise.drop m ++ f.drop (m - noise.length) := by
      rw [← List.drop_append]
      exact (List.prefix_append ..).trans hcalls
    obtain ⟨p₁, hrun, hholds⟩ := uartRevDataProcess_before hf hlen
      (fun hmem => hnoise (List.mem_of_mem_drop hmem))
      (fun hne => by
        have := List.length_pos_iff.mpr hne
        rw [List.length_drop] at this
        omega) h hcall (by rw [List.length_drop]; omega)
    -- what the call stored is what lies past the noise
    rw [List.length_drop, show m - noise.length + (call.length - (noise.length - m)) =
      m + call.length - noise.length by omega] at hholds
    have hlater : calls.flatten <+: (noise ++ f).drop (m + call.length) := by
      have hdrop := hcalls.drop call.length
      rwa [List.drop_left, List.drop_drop] at hdrop
    obtain ⟨p', hrun', hholds'⟩ := ih hholds hlater (by omega)
    refine ⟨p', ?_, ?_⟩
    · rw [runAll, hrun, Option.bind_some, hrun']
    · rwa [Nat.add_assoc] at hholds'

/-- **The frame is captured.** No call is longer than what `read` is asked for. -/
theorem uartRevDataProcess_captures {payload noise rest : List Byte}
    (hlen : (datapack payload).length ≤ uartBufSize) (hnoise : 0x55 ∉ noise)
    {before after : List (List Byte)} {call : List Byte}
    (hcut : (before ++ call :: after).flatten = noise ++ datapack payload ++ rest)
    (hfirst : before.flatten.length < noise.length + (datapack payload).length)
    (hlast : noise.length + (datapack payload).length ≤ before.flatten.length + call.length)
    (hcall : call.length ≤ maxBuffSize) {p : UartBuf} (hsized : p.Sized)
    (hstate : p.uartstate = .idle) (hcnt : p.uartrecvcnt = 0) (hdo : p.uartdo = false) :
    ∃ p₁ p', runAll (uartRevDataProcess false) before p = some p₁ ∧ p₁.uartdo = false ∧
      uartRevDataProcess false call p₁ = some p' ∧ p'.uartdo = true ∧
      p'.uartcatch.take p'.uartrecvcnt = datapack payload ∧
      p'.uartbuff.take p'.uartleftdatalen =
        call.drop (noise.length + (datapack payload).length - before.flatten.length) := by
  have hf := uartFrame_datapack payload
  have hflen := hf.length
  rw [List.flatten_append, List.flatten_cons] at hcut
  have hbefore : before.flatten <+: noise ++ datapack payload :=
    List.prefix_of_prefix_length_le (hcut ▸ List.prefix_append ..) (List.prefix_append ..)
      (by rw [List.length_append]; omega)
  obtain ⟨p₁, hrun, hholds⟩ := @runAll_before _ _ hf hlen hnoise before 0 p
    (by
      rw [Nat.zero_sub]
      exact ⟨hsized, hcnt, rfl, hstate, by omega, hdo⟩) hbefore (by omega)
  rw [Nat.zero_add] at hholds
  -- the call has the rest of the noise, the rest of the frame, and what is saved
  have htail : call ++ after.flatten = noise.drop before.flatten.length ++
      (datapack payload).drop (before.flatten.length - noise.length) ++ rest := by
    have hdrop := congrArg (List.drop before.flatten.length) hcut
    rwa [List.drop_left, List.drop_append_of_le_length (by rw [List.length_append]; omega),
      List.drop_append] at hdrop
  have hparts : (noise.drop before.flatten.length ++
      (datapack payload).drop (before.flatten.length - noise.length)).length =
      noise.length + (datapack payload).length - before.flatten.length := by
    rw [List.length_append, List.length_drop, List.length_drop]
    omega
  have hcallEq : call = noise.drop before.flatten.length ++
      ((datapack payload).drop (before.flatten.length - noise.length) ++
        call.drop (noise.length + (datapack payload).length - before.flatten.length)) := by
    obtain ⟨saved, hsaved⟩ := List.prefix_of_prefix_length_le ⟨rest, htail.symm⟩
      (List.prefix_append call after.flatten) (by rw [hparts]; omega)
    rw [← List.append_assoc, ← hparts]
    conv_rhs => rw [← hsaved, List.drop_left]
    exact hsaved.symm
  obtain ⟨p', hprocess, hall, hcnt', hleft, hsaved⟩ := @uartRevDataProcess_ends _
    (noise.drop before.flatten.length) _ _ hf hlen (fun hmem => hnoise (List.mem_of_mem_drop hmem))
    (fun hne => by
      have := List.length_pos_iff.mpr hne
      rw [List.length_drop] at this
      omega) hholds (by omega)
    (call.drop (noise.length + (datapack payload).length - before.flatten.length))
    (by rw [List.length_drop]; omega)
  rw [← hcallEq] at hprocess
  exact ⟨p₁, p', hrun, hholds.uartdo, hprocess, hall.uartdo, by rw [hcnt', hall.uartcatch],
    by rw [hleft, hsaved]⟩

/-- Two calls of noise and the front of a frame, and the call in which it ends. -/
theorem uartRevDataProcess_captures_cut :
    ∃ p₁ p', runAll (uartRevDataProcess false) [[1], 2 :: (datapack [0x7e]).take 3] openedUart =
        some p₁ ∧ p₁.uartdo = false ∧
      uartRevDataProcess false ((datapack [0x7e]).drop 3 ++ [9]) p₁ = some p' ∧ p'.uartdo = true ∧
      p'.uartcatch.take p'.uartrecvcnt = datapack [0x7e] ∧
      p'.uartbuff.take p'.uartleftdatalen =
        ((datapack [0x7e]).drop 3 ++ [9]).drop ([1, 2].length + (datapack [0x7e]).length -
          [[1], 2 :: (datapack [0x7e]).take 3].flatten.length) :=
  @uartRevDataProcess_captures [0x7e] [1, 2] [9, 8] (by decide) (by decide)
    [[1], 2 :: (datapack [0x7e]).take 3] [[8]] ((datapack [0x7e]).drop 3 ++ [9]) (by decide)
    (by decide) (by decide) (by decide) openedUart ⟨openedUart_idle.uartcatch,
      openedUart_idle.uartbuff⟩ rfl rfl rfl

/-! ## The receiver with its pointer -/

/-- `T_UART_BUF` with `curuartptr`, as its distance from `uartcatch`. -/
structure CatchBuf extends UartBuf where
  curuartptr : Int

/-- What was received is no frame: it is cleared, and `i` is decremented. -/
def CatchBuf.again (p : CatchBuf) : CatchBuf :=
  { p with
    uartrecvcnt := 0
    curuartptr := 0
    uartstate := .idle
    uartleftdatalen := p.uartleftdatalen + 1 }

/-- A full `uartcatch` is cleared. -/
def CatchBuf.ifFull (p : CatchBuf) : CatchBuf :=
  if p.uartrecvcnt ≥ uartBufSize then
    { p with uartdo := false, uartrecvcnt := 0, curuartptr := 0, uartstate := .idle }
  else p

/-- `*(curuartptr)++ = byte`, which is undefined outside `uartcatch`. -/
def catchStore (byte : Byte) (p : CatchBuf) : Option CatchBuf :=
  let p := p.ifFull
  if 0 ≤ p.curuartptr ∧ p.curuartptr < p.uartcatch.length then
    some { p with
      uartcatch := p.uartcatch.set p.curuartptr.toNat byte
      curuartptr := p.curuartptr + 1
      uartrecvcnt := p.uartrecvcnt + 1
      uartleftdatalen := p.uartleftdatalen - 1 }
  else none

/-- The `switch` over the state, and whether `i` is decremented. -/
def catchSwitch (byte : Byte) (p : CatchBuf) : CatchBuf × Bool :=
  match p.uartstate with
  | .idle =>
    if byte = 0x55 then ({ p with uartstate := .recvBegin }, false)
    else ({ p with uartrecvcnt := 0, curuartptr := 0 }, false)
  | .recvBegin =>
    if byte = 0xaa then ({ p with uartstate := .recvLength, uartbytecnt := 0 }, false)
    else (p.again, true)
  | .recvLength =>
    if p.uartbytecnt + 1 = 2 then ({ p with uartstate := .recvHead, uartbytecnt := 0 }, false)
    else ({ p with uartbytecnt := p.uartbytecnt + 1 }, false)
  | .recvHead =>
    if byte = 0x7e then
      if p.uartbytecnt + 1 = 2 then ({ p with uartstate := .recvData, uartbytecnt := 0 }, false)
      else ({ p with uartbytecnt := p.uartbytecnt + 1 }, false)
    else (p.again, true)
  | .recvData => if byte = 0x7e then ({ p with uartstate := .recvEnd }, false) else (p, false)
  | .recvEnd =>
    if byte = 0x7e then ({ p with uartstate := .recvBusy, uartdo := true }, false)
    else (p.again, true)
  | .recvBusy =>
    ({ p with curuartptr := p.curuartptr - 1, uartrecvcnt := p.uartrecvcnt - 1 }, false)

/-- The loop of `uartRevDataProcess` before a turn: the buffer, `i`, and the bytes examined
so far, by their index. -/
structure RevTurn where
  p : CatchBuf
  i : Nat
  examined : List Nat

/-- A turn of the loop; it ends behind the last byte, or when a frame is whole, which the
`Bool` tells. A write outside `uartcatch` is undefined. -/
def revTurn (buf : List Byte) (s : RevTurn) : RevTurn ⊕ Option (RevTurn × Bool) :=
  match buf[s.i]? with
  | none => .inr (some (s, false))
  | some byte =>
    match catchStore byte s.p with
    | none => .inr none
    | some p =>
      let (p, again) := catchSwitch byte p
      -- `i` after the turn: where it is decremented the same byte comes next
      let s : RevTurn := ⟨p, if again then s.i else s.i + 1, s.examined ++ [s.i]⟩
      if p.uartdo then .inr (some (s, true)) else .inl s

section Turn

variable {buf : List Byte} {byte : Byte} {p q : CatchBuf}

/-- A byte is looked at again only by a receiver that is not idle. -/
theorem catchSwitch_again (h : (catchSwitch byte p).2 = true) :
    (catchSwitch byte p).1 = p.again ∧ p.uartstate ≠ .idle := by
  revert h
  unfold catchSwitch
  cases hstate : p.uartstate <;> dsimp only
  case idle => split_ifs <;> simp
  case recvLength => split_ifs <;> simp
  case recvBusy => simp
  all_goals
    split_ifs <;> simp

/-- Storing leaves an idle receiver idle. -/
theorem catchStore_idle (h : catchStore byte p = some q) (hidle : p.uartstate = .idle) :
    q.uartstate = .idle := by
  rw [catchStore] at h
  split_ifs at h
  obtain rfl := Option.some.inj h
  show p.ifFull.uartstate = .idle
  rw [CatchBuf.ifFull]
  split_ifs
  · rfl
  · exact hidle

/-- What a turn can do: the loop ends, the byte cannot be stored, or it is examined. -/
theorem revTurn_cases (buf : List Byte) (s : RevTurn) :
    (buf.length ≤ s.i ∧ revTurn buf s = .inr (some (s, false))) ∨
    ∃ byte, buf[s.i]? = some byte ∧
      ((catchStore byte s.p = none ∧ revTurn buf s = .inr none) ∨
      ∃ p s', catchStore byte s.p = some p ∧ s'.p = (catchSwitch byte p).1 ∧
        s'.i = (if (catchSwitch byte p).2 then s.i else s.i + 1) ∧
        s'.examined = s.examined ++ [s.i] ∧
        revTurn buf s = if s'.p.uartdo then .inr (some (s', true)) else .inl s') := by
  unfold revTurn
  -- behind the last byte the loop ends
  cases hbyte : buf[s.i]? with
  | none => exact .inl ⟨List.getElem?_eq_none_iff.mp hbyte, rfl⟩
  | some byte =>
    refine .inr ⟨byte, rfl, ?_⟩
    cases hstore : catchStore byte s.p with
    | none => exact .inl ⟨rfl, by simp only [hstore]⟩
    | some p =>
      refine .inr ⟨p, ⟨(catchSwitch byte p).1, if (catchSwitch byte p).2 then s.i else s.i + 1,
        s.examined ++ [s.i]⟩, rfl, rfl, rfl, rfl, ?_⟩
      simp only [hstore]

/-- What is left to examine: a byte twice, unless the receiver is idle. -/
def RevTurn.left (buf : List Byte) (s : RevTurn) : Nat :=
  2 * (buf.length - s.i) + if s.p.uartstate = .idle then 0 else 1

/-- Every turn leaves fewer bytes, a byte looked at again counted double. -/
theorem revTurn_consumes {s s' : RevTurn} (h : revTurn buf s = .inl s') :
    s'.left buf < s.left buf := by
  obtain ⟨-, hturn⟩ | ⟨byte, hbyte, hrest⟩ := revTurn_cases buf s
  · rw [hturn] at h
    cases h
  obtain ⟨-, hturn⟩ | ⟨p, t, hstore, hp, hi, -, hturn⟩ := hrest
  · rw [hturn] at h
    cases h
  · rw [hturn] at h
    split_ifs at h
    obtain rfl := Sum.inl.inj h
    have hlt := (List.getElem?_eq_some_iff.mp hbyte).1
    unfold RevTurn.left
    by_cases hagain : (catchSwitch byte p).2 = true
    · -- the byte comes again, and meets the idle state
      obtain ⟨heq, hne⟩ := catchSwitch_again hagain
      rw [hi, if_pos hagain, hp, heq, if_pos (show p.again.uartstate = .idle from rfl),
        if_neg fun hidle => hne (catchStore_idle hstore hidle)]
      omega
    · rw [hi, if_neg hagain]
      split_ifs <;> omega

end Turn

/-- The loop of `uartRevDataProcess`. -/
def catchLoop (buf : List Byte) : ConsumingLoop RevTurn (Option (RevTurn × Bool)) where
  turn := revTurn buf
  size := RevTurn.left buf
  consumes := revTurn_consumes

/-- The loop, from the first byte on. -/
def catchBytes (buf : List Byte) (p : CatchBuf) : Option (RevTurn × Bool) :=
  (catchLoop buf).run ⟨{ p with uartleftdatalen := buf.length }, 0, []⟩

/-- `uartRevDataProcess`; a `memcpy` out of `uartbuff` is undefined. -/
def catchRevDataProcess (buf : List Byte) (p : CatchBuf) : Option CatchBuf :=
  match catchBytes buf p with
  | none => none
  | some (s, false) => some s.p
  | some (s, true) => do
    let uartbuff ← copyIn s.p.uartbuff 0 ((buf.drop s.i).take s.p.uartleftdatalen)
    some { s.p with uartbuff := uartbuff }

/-- The end of `uartReadData`, where a whole frame has been unpacked. -/
def catchReset (p : CatchBuf) : CatchBuf :=
  if p.uartdo then
    { p with uartdo := false, uartrecvcnt := 0, uartbytecnt := 0, uartstate := .idle, curuartptr := 0 }
  else p

/-- What is called on a receiver. -/
inductive CatchOp
  | revData (buf : List Byte)
  | readEnd

/-- One call. -/
def catchOp : CatchOp → CatchBuf → Option CatchBuf
  | .revData buf, p => catchRevDataProcess buf p
  | .readEnd, p => some (catchReset p)

/-! ## What it has captured -/

/-- What `uartcatch` holds in a state; `k` is `uartbytecnt`. -/
def Captured : UartState → Nat → List Byte → Prop
  | .idle, _, c => c = []
  | .recvBegin, _, c => c = [0x55]
  | .recvLength, k, c => k < 2 ∧ ∃ len : List Byte, len.length = k ∧ c = [0x55, 0xaa] ++ len
  | .recvHead, k, c => k < 2 ∧ ∃ l h, c = [0x55, 0xaa, l, h] ++ List.replicate k 0x7e
  | .recvData, _, c => ∃ l h body, c = [0x55, 0xaa, l, h, 0x7e, 0x7e] ++ body
  | .recvEnd, _, c => ∃ l h body, c = [0x55, 0xaa, l, h, 0x7e, 0x7e] ++ body ++ [0x7e]
  | .recvBusy, _, c => ∃ l h body, c = [0x55, 0xaa, l, h, 0x7e, 0x7e] ++ body ++ [0x7e, 0x7e]

namespace CatchBuf

/-- What holds between two calls, and between two turns of the loop. -/
structure Caught (p : CatchBuf) : Prop where
  uartcatch : p.uartcatch.length = uartBufSize
  uartbuff : p.uartbuff.length = maxBuffSize
  curuartptr : p.curuartptr = p.uartrecvcnt
  uartrecvcnt : p.uartrecvcnt ≤ uartBufSize
  uartdo : p.uartdo = true ↔ p.uartstate = .recvBusy
  captured : Captured p.uartstate p.uartbytecnt (p.uartcatch.take p.uartrecvcnt)

/-- The same, when the byte is stored and the `switch` is still to come. -/
structure CaughtNext (byte : Byte) (p : CatchBuf) : Prop where
  uartcatch : p.uartcatch.length = uartBufSize
  uartbuff : p.uartbuff.length = maxBuffSize
  curuartptr : p.curuartptr = p.uartrecvcnt
  uartrecvcnt : 0 < p.uartrecvcnt ∧ p.uartrecvcnt ≤ uartBufSize
  uartdo : p.uartdo = true ↔ p.uartstate = .recvBusy
  byte : p.uartcatch.take p.uartrecvcnt = p.uartcatch.take (p.uartrecvcnt - 1) ++ [byte]
  captured : Captured p.uartstate p.uartbytecnt (p.uartcatch.take (p.uartrecvcnt - 1))

/-- A receiver that was cleared. -/
theorem Caught.cleared {p q : CatchBuf} (h : p.Caught) (huartcatch : q.uartcatch = p.uartcatch)
    (huartbuff : q.uartbuff = p.uartbuff) (hcnt : q.uartrecvcnt = 0) (hptr : q.curuartptr = 0)
    (hstate : q.uartstate = .idle) (hdo : q.uartdo = false) : q.Caught where
  uartcatch := huartcatch ▸ h.uartcatch
  uartbuff := huartbuff ▸ h.uartbuff
  curuartptr := by rw [hptr, hcnt]; rfl
  uartrecvcnt := by rw [hcnt]; exact Nat.zero_le _
  uartdo := by simp [hdo, hstate]
  captured := by rw [hstate, hcnt]; rfl

/-- A full buffer is emptied, so there is room behind `ifFull`. -/
theorem Caught.ifFull {p : CatchBuf} (h : p.Caught) :
    p.ifFull.Caught ∧ p.ifFull.uartrecvcnt < uartBufSize := by
  unfold CatchBuf.ifFull
  split_ifs with hfull
  · exact ⟨h.cleared rfl rfl rfl rfl rfl rfl, Nat.zero_lt_succ _⟩
  · exact ⟨h, by omega⟩

/-- **A byte is stored** behind what was captured, inside of `uartcatch`. -/
theorem Caught.store {p : CatchBuf} (h : p.Caught) (byte : Byte) :
    ∃ q, catchStore byte p = some q ∧ q.CaughtNext byte ∧
      q.uartleftdatalen = p.uartleftdatalen - 1 := by
  obtain ⟨hr, hlt⟩ := h.ifFull
  have hptr := hr.curuartptr
  have hsize := hr.uartcatch
  -- a full buffer starts over first; the bytes left to examine do not change
  have hleft : p.ifFull.uartleftdatalen = p.uartleftdatalen := by
    unfold CatchBuf.ifFull
    split_ifs <;> rfl
  rw [catchStore, if_pos (by omega), hptr, Int.toNat_natCast]
  generalize p.ifFull = r at hr hlt hsize hleft
  refine ⟨_, rfl, ⟨?_, hr.uartbuff, ?_, ⟨Nat.succ_pos _, hlt⟩, hr.uartdo, ?_, ?_⟩, ?_⟩
  · show (r.uartcatch.set _ byte).length = uartBufSize
    rw [List.length_set, hsize]
  · show (r.uartrecvcnt : Int) + 1 = ((r.uartrecvcnt + 1 : Nat) : Int)
    omega
  · show (r.uartcatch.set r.uartrecvcnt byte).take (r.uartrecvcnt + 1) =
      (r.uartcatch.set r.uartrecvcnt byte).take r.uartrecvcnt ++ [byte]
    rw [List.take_add_one, List.getElem?_set_self (by omega)]
    rfl
  · show Captured r.uartstate r.uartbytecnt ((r.uartcatch.set r.uartrecvcnt byte).take r.uartrecvcnt)
    rw [List.take_set_of_le le_rfl]
    exact hr.captured
  · show r.uartleftdatalen - 1 = _
    rw [hleft]

/-- The byte belongs to a frame. -/
theorem CaughtNext.keep {byte : Byte} {p : CatchBuf} (h : p.CaughtNext byte) {state : UartState}
    {k : Nat} {done : Bool} (hdone : done = true ↔ state = .recvBusy)
    (hcaptured : Captured state k (p.uartcatch.take (p.uartrecvcnt - 1) ++ [byte])) :
    Caught { p with uartstate := state, uartbytecnt := k, uartdo := done } where
  uartcatch := h.uartcatch
  uartbuff := h.uartbuff
  curuartptr := h.curuartptr
  uartrecvcnt := h.uartrecvcnt.2
  uartdo := hdone
  captured := by
    show Captured state k (p.uartcatch.take p.uartrecvcnt)
    rw [h.byte]
    exact hcaptured

/-- It does not. -/
theorem CaughtNext.drop {byte : Byte} {p : CatchBuf} (h : p.CaughtNext byte)
    (hbusy : p.uartstate ≠ .recvBusy) : p.again.Caught where
  uartcatch := h.uartcatch
  uartbuff := h.uartbuff
  curuartptr := rfl
  uartrecvcnt := Nat.zero_le _
  uartdo := ⟨fun hdo => absurd (h.uartdo.mp hdo) hbusy, fun hidle => by cases hidle⟩
  captured := rfl

/-- **The state goes on** with the byte that is stored. -/
theorem CaughtNext.switch {byte : Byte} {p : CatchBuf} (h : p.CaughtNext byte) :
    (catchSwitch byte p).1.Caught := by
  have hcaptured := h.captured
  have hdo := h.uartdo
  unfold catchSwitch
  cases hstate : p.uartstate <;> rw [hstate] at hcaptured hdo <;> dsimp only
  case idle =>
    have hnil : p.uartcatch.take (p.uartrecvcnt - 1) = [] := hcaptured
    split_ifs with hb
    · exact h.keep (by simpa using hdo) (by rw [hnil, hb]; rfl)
    · exact ⟨h.uartcatch, h.uartbuff, rfl, Nat.zero_le _, by simpa [hstate] using hdo,
        by simp [Captured]⟩
  case recvBegin =>
    have hsign : p.uartcatch.take (p.uartrecvcnt - 1) = [0x55] := hcaptured
    split_ifs with hb
    · exact h.keep (by simpa using hdo) ⟨by omega, [], rfl, by rw [hsign, hb]; rfl⟩
    · exact h.drop (by simp [hstate])
  case recvLength =>
    obtain ⟨hk, len, hlen, hc⟩ := hcaptured
    split_ifs with hlast
    · -- the second byte of the length
      obtain ⟨l, rfl⟩ := List.length_eq_one_iff.mp (show len.length = 1 by omega)
      exact h.keep (by simpa using hdo) ⟨by omega, l, byte, by rw [hc]; rfl⟩
    · exact h.keep (by simpa [hstate] using hdo)
        ⟨by omega, len ++ [byte], by rw [List.length_append, hlen]; rfl,
          by rw [hc, List.append_assoc]⟩
  case recvHead =>
    obtain ⟨hk, l, hi, hc⟩ := hcaptured
    split_ifs with hb hlast
    · exact h.keep (by simpa using hdo)
        ⟨l, hi, [], by rw [hc, show p.uartbytecnt = 1 by omega, hb]; rfl⟩
    · exact h.keep (by simpa [hstate] using hdo) ⟨by omega, l, hi, by
        rw [hc, hb, List.append_assoc, List.replicate_succ']⟩
    · exact h.drop (by simp [hstate])
  case recvData =>
    obtain ⟨l, hi, body, hc⟩ := hcaptured
    split_ifs with hb
    · exact h.keep (by simpa using hdo) ⟨l, hi, body, by rw [hc, hb]⟩
    · exact h.keep (by simpa [hstate] using hdo)
        (by rw [hstate]; exact ⟨l, hi, body ++ [byte], by rw [hc, List.append_assoc]⟩)
  case recvEnd =>
    obtain ⟨l, hi, body, hc⟩ := hcaptured
    split_ifs with hb
    · exact h.keep (by simp) ⟨l, hi, body, by rw [hc, hb, List.append_assoc]; rfl⟩
    · exact h.drop (by simp [hstate])
  case recvBusy =>
    -- the byte is behind what is captured
    refine ⟨h.uartcatch, h.uartbuff, ?_, ?_, by simpa [hstate] using hdo, ?_⟩
    · show p.curuartptr - 1 = ((p.uartrecvcnt - 1 : Nat) : Int)
      have := h.curuartptr
      have := h.uartrecvcnt.1
      omega
    · show p.uartrecvcnt - 1 ≤ uartBufSize
      have := h.uartrecvcnt.2
      omega
    · exact hcaptured

/-- The byte that is looked at again is put back in the count. -/
theorem switch_left (byte : Byte) (p : CatchBuf) :
    (catchSwitch byte p).1.uartleftdatalen =
      if (catchSwitch byte p).2 then p.uartleftdatalen + 1 else p.uartleftdatalen := by
  unfold catchSwitch
  cases p.uartstate <;> dsimp only
  case recvBusy => rfl
  all_goals
    split_ifs <;> first | rfl | simp_all

end CatchBuf

/-! ## The loop and the run -/

/-- No byte was examined more than twice, and twice only when it is done with. -/
structure RevTurn.Examined (s : RevTurn) : Prop where
  twice : ∀ j, s.examined.count j ≤ 2
  here : s.examined.count s.i ≤ if s.p.uartstate = .idle then 1 else 0
  later : ∀ j, s.i < j → s.examined.count j = 0

/-- The invariant of the loop. -/
structure RevTurn.Going (buf : List Byte) (s : RevTurn) : Prop where
  caught : s.p.Caught
  left : s.p.uartleftdatalen = buf.length - s.i
  examined : s.Examined

/-- A byte is examined again only if the receiver was not idle, and then it is. -/
theorem RevTurn.Examined.turn {s s' : RevTurn} (h : s.Examined) {byte : Byte} {p : CatchBuf}
    (hstore : catchStore byte s.p = some p) (hp : s'.p = (catchSwitch byte p).1)
    (hi : s'.i = if (catchSwitch byte p).2 then s.i else s.i + 1)
    (hexamined : s'.examined = s.examined ++ [s.i]) : s'.Examined := by
  have hcount : ∀ j, s'.examined.count j = s.examined.count j + if s.i = j then 1 else 0 := by
    intro j
    rw [hexamined, List.count_append, List.count_singleton]
    simp
  have hhere := h.here
  -- the byte here was examined at most once before, every later one never
  have htwice : ∀ j, s'.examined.count j ≤ 2 := by
    intro j
    have := h.twice j
    rw [hcount]
    by_cases hj : s.i = j
    · subst hj
      rw [if_pos rfl]
      split_ifs at hhere <;> omega
    · rw [if_neg hj]
      omega
  by_cases hagain : (catchSwitch byte p).2 = true
  -- the receiver was not idle, so the byte was not examined before; now it is idle
  · obtain ⟨heq, hne⟩ := catchSwitch_again hagain
    have hidle : s'.p.uartstate = .idle := by rw [hp, heq]; rfl
    rw [if_neg fun hidle => hne (catchStore_idle hstore hidle)] at hhere
    rw [if_pos hagain] at hi
    refine ⟨htwice, ?_, fun j hj => ?_⟩
    · rw [hidle, if_pos rfl, hi, hcount, if_pos rfl]
      omega
    · rw [hi] at hj
      rw [hcount, h.later j hj, if_neg (by omega)]
  · rw [if_neg hagain] at hi
    refine ⟨htwice, ?_, fun j hj => ?_⟩
    · rw [hi, hcount, h.later _ (Nat.lt_succ_self _), if_neg (by omega)]
      exact Nat.zero_le _
    · rw [hi] at hj
      rw [hcount, h.later j (by omega), if_neg (by omega)]

/-- **A turn keeps the invariant**, and does not write outside of `uartcatch`. -/
theorem RevTurn.Going.turn {buf : List Byte} {s : RevTurn} (h : s.Going buf) :
    (∃ s', revTurn buf s = .inl s' ∧ s'.Going buf) ∨
      ∃ s' whole, revTurn buf s = .inr (some (s', whole)) ∧ s'.Going buf := by
  obtain ⟨-, hturn⟩ | ⟨byte, hbyte, hrest⟩ := revTurn_cases buf s
  · exact .inr ⟨s, false, hturn, h⟩
  -- a captured state has room for one byte
  obtain ⟨q, hstore, hnext, hleft⟩ := h.caught.store byte
  obtain ⟨hnone, -⟩ | ⟨p, s', hp, hs', hi, hexamined, hturn⟩ := hrest
  · rw [hnone] at hstore
    cases hstore
  · obtain rfl : p = q := Option.some.inj (hp.symm.trans hstore)
    have hlt := (List.getElem?_eq_some_iff.mp hbyte).1
    -- the count goes down unless the byte is looked at again
    have hgoing : s'.Going buf := by
      refine ⟨hs' ▸ hnext.switch, ?_, h.examined.turn hstore hs' hi hexamined⟩
      have := h.left
      rw [hs', CatchBuf.switch_left, hi]
      split_ifs <;> omega
    rw [hturn]
    split_ifs
    · exact .inr ⟨s', true, rfl, hgoing⟩
    · exact .inl ⟨s', rfl, hgoing⟩

/-- A call starts with all of its bytes to go. -/
theorem RevTurn.Going.start {p : CatchBuf} (h : p.Caught) (buf : List Byte) :
    RevTurn.Going buf ⟨{ p with uartleftdatalen := buf.length }, 0, []⟩ :=
  ⟨⟨h.uartcatch, h.uartbuff, h.curuartptr, h.uartrecvcnt, h.uartdo, h.captured⟩, rfl,
    fun _ => Nat.zero_le _, Nat.zero_le _, fun _ _ => rfl⟩

/-- The loop keeps it. -/
theorem catchBytes_going {p : CatchBuf} (h : p.Caught) (buf : List Byte) :
    ∃ s whole, catchBytes buf p = some (s, whole) ∧ s.Going buf := by
  refine @ConsumingLoop.run_inv _ _ (catchLoop buf) (RevTurn.Going buf)
    (fun r => ∃ s whole, r = some (s, whole) ∧ s.Going buf) ?_ ?_ _ (.start h buf)
  · intro s s' hgoing hturn
    obtain ⟨t, ht, hgoing'⟩ | ⟨t, whole, ht, -⟩ := hgoing.turn
    · obtain rfl := Sum.inl.inj (ht.symm.trans hturn)
      exact hgoing'
    · cases ht.symm.trans hturn
  · intro s r hgoing hturn
    obtain ⟨t, ht, -⟩ | ⟨t, whole, ht, hgoing'⟩ := hgoing.turn
    · cases ht.symm.trans hturn
    · exact ⟨t, whole, (Sum.inr.inj (ht.symm.trans hturn)).symm, hgoing'⟩

/-- A call keeps what holds between the calls. -/
theorem catchOp_caught {op : CatchOp} {p p' : CatchBuf} (h : p.Caught)
    (hop : catchOp op p = some p') : p'.Caught := by
  cases op with
  | revData buf =>
    obtain ⟨s, whole, hbytes, hgoing⟩ := catchBytes_going h buf
    rw [catchOp, catchRevDataProcess, hbytes] at hop
    have hs := hgoing.caught
    -- what is left of the call is saved behind a whole frame
    cases whole with
    | false => exact Option.some.inj hop ▸ hs
    | true =>
      dsimp only at hop
      rw [copyIn] at hop
      split_ifs at hop with hroom
      · obtain rfl := Option.some.inj hop
        exact ⟨hs.uartcatch, (RingBuffer.blit_length hroom).trans hs.uartbuff, hs.curuartptr,
          hs.uartrecvcnt, hs.uartdo, hs.captured⟩
      · cases hop
  | readEnd =>
    obtain rfl := Option.some.inj hop
    rw [catchReset]
    split_ifs
    · exact h.cleared rfl rfl rfl rfl rfl rfl
    · exact h

/-- A call whose bytes fit `uartbuff` is defined. -/
theorem catchOp_defined {op : CatchOp} {p : CatchBuf} (h : p.Caught)
    (hroom : ∀ buf, op = .revData buf → buf.length ≤ maxBuffSize) :
    ∃ p', catchOp op p = some p' := by
  cases op with
  | readEnd => exact ⟨_, rfl⟩
  | revData buf =>
    have hlen := hroom buf rfl
    obtain ⟨s, whole, hbytes, hgoing⟩ := catchBytes_going h buf
    rw [catchOp, catchRevDataProcess, hbytes]
    cases whole with
    | false => exact ⟨_, rfl⟩
    | true =>
      have hsize := hgoing.caught.uartbuff
      -- what is left is no more than the call brought
      have hcopy : copyIn s.p.uartbuff 0 ((buf.drop s.i).take s.p.uartleftdatalen) = some _ :=
        if_pos (by rw [List.length_take, List.length_drop]; omega)
      dsimp only
      rw [hcopy]
      exact ⟨_, rfl⟩

/-- The fields of the receiver, state by state. -/
structure CatchBuf.Consistent (p : CatchBuf) : Prop where
  curuartptr : p.curuartptr = p.uartrecvcnt
  uartrecvcnt : p.uartrecvcnt ≤ uartBufSize
  uartdo : p.uartdo = true ↔ p.uartstate = .recvBusy
  idle : p.uartstate = .idle → p.uartrecvcnt = 0
  recvBegin : p.uartstate = .recvBegin → p.uartcatch.take p.uartrecvcnt = [0x55]
  later : p.uartstate ≠ .idle → p.uartstate ≠ .recvBegin →
    [0x55, 0xaa] <+: p.uartcatch.take p.uartrecvcnt
  recvBusy : p.uartstate = .recvBusy → ∃ l h body,
    p.uartcatch.take p.uartrecvcnt = [0x55, 0xaa, l, h, 0x7e, 0x7e] ++ body ++ [0x7e, 0x7e]

/-- What has been captured is consistent. -/
theorem CatchBuf.Caught.consistent {p : CatchBuf} (h : p.Caught) : p.Consistent := by
  have hcaptured := h.captured
  refine ⟨h.curuartptr, h.uartrecvcnt, h.uartdo, fun hs => ?_, fun hs => ?_, fun hs hs' => ?_,
    fun hs => ?_⟩
  · rw [hs] at hcaptured
    -- in `idle` nothing is captured, and `uartcatch` is long enough to show it
    have hnil := congrArg List.length (show p.uartcatch.take p.uartrecvcnt = [] from hcaptured)
    rw [List.length_take, h.uartcatch, List.length_nil] at hnil
    have := h.uartrecvcnt
    omega
  · rw [hs] at hcaptured
    exact hcaptured
  · cases hstate : p.uartstate <;> rw [hstate] at hcaptured
    case idle => exact absurd hstate hs
    case recvBegin => exact absurd hstate hs'
    case recvLength =>
      obtain ⟨-, len, -, hc⟩ := hcaptured
      exact ⟨len, hc.symm⟩
    case recvHead =>
      obtain ⟨-, l, hi, hc⟩ := hcaptured
      exact ⟨_, hc.symm⟩
    all_goals
      obtain ⟨l, hi, body, hc⟩ := hcaptured
      exact ⟨_, hc.symm⟩
  · rw [hs] at hcaptured
    exact hcaptured

/-- **The receiver stays consistent**, whatever bytes come in whatever calls: the next call
does not write outside `uartcatch` and examines no byte more than twice. Calls that bring
what `read` is asked for at most are all defined. -/
theorem catchOps_consistent {p₀ : CatchBuf} (hidle : p₀.toUartBuf.Idle) (hptr : p₀.curuartptr = 0)
    (ops : List CatchOp) :
    (∀ p, runAll catchOp ops p₀ = some p → p.Consistent ∧ ∀ buf, ∃ s whole,
      catchBytes buf p = some (s, whole) ∧ ∀ i, s.examined.count i ≤ 2) ∧
    ((∀ buf, .revData buf ∈ ops → buf.length ≤ maxBuffSize) →
      ∃ p, runAll catchOp ops p₀ = some p) := by
  -- idle with the pointer at the start is a captured state
  have hcaught : p₀.Caught := ⟨hidle.uartcatch, hidle.uartbuff,
    by rw [hptr, hidle.uartrecvcnt]; rfl, by rw [hidle.uartrecvcnt]; exact Nat.zero_le _,
    by simp [hidle.uartdo, hidle.uartstate], by rw [hidle.uartstate, hidle.uartrecvcnt]; rfl⟩
  constructor
  · intro p hrun
    have h := PartialRun.runAll_inv (fun _ _ _ => catchOp_caught) hcaught hrun
    refine ⟨h.consistent, ?_⟩
    intro buf
    obtain ⟨s, whole, hbytes, hgoing⟩ := catchBytes_going h buf
    exact ⟨s, whole, hbytes, hgoing.examined.twice⟩
  · intro hroom
    obtain ⟨p, hrun, -⟩ := PartialRun.runAll_ok (fun op hop p h => by
      obtain ⟨p', hp'⟩ := catchOp_defined h fun buf heq => hroom buf (heq ▸ hop)
      exact ⟨p', hp', catchOp_caught h hp'⟩) hcaught
    exact ⟨p, hrun⟩

/-- A receiver that `openUart` has set up, and the bytes of a frame after half of one. -/
def openedCatch : CatchBuf := { openedUart with curuartptr := 0 }

/-- The first byte of a head comes twice, and is looked at again. -/
theorem catchOps_consistent_opened :
    ∃ p, runAll catchOp [.revData [0x55, 0x55, 0xaa], .readEnd] openedCatch = some p ∧
      p.Consistent := by
  have h := @catchOps_consistent openedCatch openedUart_idle rfl
    [.revData [0x55, 0x55, 0xaa], .readEnd]
  obtain ⟨p, hrun⟩ := h.2 fun buf hbuf => by
    simp only [List.mem_cons, CatchOp.revData.injEq, reduceCtorEq, List.not_mem_nil, or_false] at hbuf
    subst hbuf
    decide
  exact ⟨p, hrun, (h.1 p hrun).1⟩

/-! ## Without the pointer -/

section Forget

variable {byte : Byte} {p q : CatchBuf}

/-- Storing with the pointer is storing without it. -/
theorem catchStore_toUartBuf (h : p.Caught) (hstore : catchStore byte p = some q) :
    q.toUartBuf = uartStore byte p.toUartBuf := by
  have hr := h.ifFull.1.curuartptr
  have hfull : p.ifFull.toUartBuf = if p.uartrecvcnt ≥ uartBufSize then
      { p.toUartBuf with uartdo := false, uartrecvcnt := 0, uartstate := .idle }
      else p.toUartBuf := by
    unfold CatchBuf.ifFull
    split_ifs <;> rfl
  rw [catchStore] at hstore
  split_ifs at hstore
  obtain rfl := Option.some.inj hstore
  rw [uartStore, ← hfull]
  simp only [hr, Int.toNat_natCast]

/-- The switch with the pointer is the switch without it. -/
theorem catchSwitch_toUartBuf :
    ((catchSwitch byte p).1.toUartBuf, (catchSwitch byte p).2) = uartSwitch byte p.toUartBuf := by
  unfold catchSwitch uartSwitch
  cases p.uartstate <;> dsimp only
  all_goals
    split_ifs <;> rfl

/-- A byte that is received again might as well come a second time. -/
theorem revLoop_again {rest : List Byte} {p : UartBuf} (hagain : (uartByte byte p).2 = true)
    (hdo : (uartByte byte p).1.uartdo = false) :
    revLoop (byte :: rest) p = revLoop (byte :: rest) (uartByte byte p).1 := by
  have htwice := uartByte_twice hagain
  conv_lhs => rw [revLoop]
  rw [revLoop]
  simp only [hdo, Bool.false_eq_true, if_false, hagain, if_true, htwice]

/-- The loop with the pointer goes where the loop without it goes. -/
theorem catchLoop_revLoop {buf : List Byte} {s : RevTurn} (h : s.Going buf) :
    ∃ s' whole, (catchLoop buf).run s = some (s', whole) ∧
      revLoop (buf.drop s.i) s.p.toUartBuf =
        (s'.p.toUartBuf, if whole then some (buf.drop s'.i) else none) := by
  induction s using (catchLoop buf).run_induct with
  | step s ih =>
    obtain ⟨hend, hturn⟩ | ⟨byte, hbyte, hrest⟩ := revTurn_cases buf s
    · exact ⟨s, false, ConsumingLoop.run_of_inr hturn, by rw [List.drop_eq_nil_of_le hend]; rfl⟩
    obtain ⟨q, hstore, hnext, -⟩ := h.caught.store byte
    obtain ⟨hnone, -⟩ | ⟨p, s', hp, hs', hi, -, hturn⟩ := hrest
    · rw [hnone] at hstore
      cases hstore
    obtain rfl : p = q := Option.some.inj (hp.symm.trans hstore)
    have hbyteEq : uartByte byte s.p.toUartBuf = (s'.p.toUartBuf, (catchSwitch byte p).2) := by
      rw [uartByte, ← catchStore_toUartBuf h.caught hp, ← catchSwitch_toUartBuf, hs']
    have hdrop : buf.drop s.i = byte :: buf.drop (s.i + 1) := by
      obtain ⟨hlt, hget⟩ := List.getElem?_eq_some_iff.mp hbyte
      rw [List.drop_eq_getElem_cons hlt, hget]
    by_cases hdo : s'.p.uartdo = true
    · -- a whole frame; the byte that completes it is not received again
      rw [if_pos hdo] at hturn
      refine ⟨s', true, ConsumingLoop.run_of_inr hturn, ?_⟩
      rw [hdrop, revLoop, hbyteEq]
      simp only [hdo, if_true, hi]
      split_ifs
      · rw [hdrop]
      · rfl
    · rw [if_neg hdo] at hturn
      obtain ⟨t, ht, hgoing⟩ | ⟨t, whole, ht, -⟩ := h.turn
      swap
      · cases ht.symm.trans hturn
      obtain rfl := Sum.inl.inj (ht.symm.trans hturn)
      obtain ⟨t', whole, hrun, hloop⟩ := ih t hturn hgoing
      refine ⟨t', whole, (ConsumingLoop.run_of_inl hturn).trans hrun, ?_⟩
      rw [← hloop, hi, hdrop]
      by_cases hagain : (catchSwitch byte p).2 = true
      · rw [if_pos hagain, hdrop, revLoop_again (by rw [hbyteEq]; exact hagain)
          (by rw [hbyteEq]; exact Bool.eq_false_of_not_eq_true hdo), hbyteEq]
      · rw [if_neg hagain, revLoop, hbyteEq]
        simp only [hdo, hagain, Bool.false_eq_true, if_false]

/-- **The pointer can be left out**: `curuartptr` stands behind the bytes that are counted. -/
theorem catchRevDataProcess_toUartBuf (h : p.Caught) (buf : List Byte) :
    (catchRevDataProcess buf p).map CatchBuf.toUartBuf =
      uartRevDataProcess false buf p.toUartBuf := by
  obtain ⟨s, whole, hrun, hloop⟩ := catchLoop_revLoop (.start h buf)
  rw [List.drop_zero] at hloop
  rw [catchRevDataProcess, catchBytes, hrun, uartRevDataProcess, hloop]
  cases whole with
  | false => rfl
  | true =>
    simp only [Bool.false_eq_true, false_and, if_false, if_true]
    cases copyIn s.p.uartbuff 0 ((buf.drop s.i).take s.p.uartleftdatalen) <;> rfl

end Forget

end PgClient.Serial
