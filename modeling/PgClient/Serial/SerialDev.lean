import PgClient.Serial.RingBuf
import PgClient.Util.LittleEndian

/-!
# The receive task of a serial device

`serialDev.cpp` with the packet rule of `pwrSerial.cpp`: what is read goes into the ring
buffer, and whole packets are taken out of it and put on the node list.

* `onePktParse_short`, `onePktParse_header` — what the rule asks for.
* `parseSerialData_extracts` — one call takes out what is complete.
* `rcvTask_extracts` — however the stream is cut, the list has the packets of it.
-/

namespace PgClient.Serial

open PartialRun

/-! ## The code -/

/-- `RING_BUF_SIZE`. -/
def ringBufSize : Nat := 512 * 1024

/-- `TEMP_SIZE`. -/
def tempSize : Nat := 1500

/-- `onePktParse`: the length of the packet at the front, as far as it is known. -/
def onePktParse (pData : List Byte) : Int :=
  -- a header that is not complete: one byte more than there is
  if pData.length < 4 then pData.length + 1
  else if pData.getD 0 0 ≠ 0x55 ∨ pData.getD 1 0 ≠ 0xaa then -1
  else (le16 (pData.drop 2)).toNat + 4

/-- What the receive task works on: `pRcvBuf`, and the data of the nodes of `pListM`. -/
structure SerialDev where
  pRcvBuf : Ringbuf
  pListM : List (List Byte)

/-- The loop of `parseSerialData`; every turn takes bytes out of the ring. -/
def parseLoop : Nat → SerialDev → Option SerialDev
  | 0, pM => some pM
  | fuel + 1, pM =>
    let availableBytes := ringBufAvailableBytesForRead pM.pRcvBuf
    if availableBytes = 0 then some pM
    else do
      let pTemp ← ringBufClone pM.pRcvBuf availableBytes
      let needBytes := onePktParse pTemp
      if needBytes < 0 then some { pM with pRcvBuf := ringBufClear pM.pRcvBuf }
      else if needBytes > availableBytes then some pM
      else do
        let (node, pRcvBuf) ← ringBufRead pM.pRcvBuf needBytes.toNat
        parseLoop fuel ⟨pRcvBuf, pM.pListM ++ [node]⟩

/-- `parseSerialData`. -/
def parseSerialData (pM : SerialDev) : Option SerialDev :=
  parseLoop (ringBufAvailableBytesForRead pM.pRcvBuf) pM

/-- What `select` and `read` give the receive task. -/
inductive RcvEvent
  | timeOut
  | read (temp : List Byte)
  deriving DecidableEq

/-- One turn of `rcvTask`. -/
def rcvTurn : RcvEvent → SerialDev → Option SerialDev
  | .timeOut, pM => some { pM with pRcvBuf := ringBufClear pM.pRcvBuf }
  | .read temp, pM =>
    if ringBufAvailableBytesForWrite pM.pRcvBuf < temp.length then some pM
    else do
      let (_, pRcvBuf) ← ringBufWrite pM.pRcvBuf temp
      parseSerialData { pM with pRcvBuf := pRcvBuf }

/-- `rcvTask` over these events, from the ring that `serialDevMalloc` makes. -/
def rcvTask (evs : List RcvEvent) : Option SerialDev := do
  let pRcvBuf ← ringBufInit ringBufSize
  runAll rcvTurn evs ⟨pRcvBuf, []⟩

/-! ## Frames -/

/-- A frame of the serial links: `55 AA`, a length, and that many bytes. -/
def IsFrame (f : List Byte) : Prop :=
  ∃ body : List Byte, body.length < 2 ^ 16 ∧
    f = [0x55, 0xaa] ++ le16Bytes (BitVec.ofNat 16 body.length) ++ body

/-- What the read events brought. -/
def received (evs : List RcvEvent) : List Byte :=
  evs.flatMap fun
    | .timeOut => []
    | .read temp => temp

/-- The bytes are the frames `done` and an incomplete tail, the start of the rest. -/
structure Extracted (frames : List (List Byte)) (bytes : List Byte)
    (done rest : List (List Byte)) (tail : List Byte) : Prop where
  frames : done ++ rest = frames
  bytes : bytes = done.flatten ++ tail
  front : tail <+: rest.flatten
  incomplete : ∀ f ∈ rest.head?, tail.length < f.length

/-- A frame is its head and at most 2^16 - 1 bytes. -/
theorem IsFrame.length {f : List Byte} (h : IsFrame f) : 4 ≤ f.length ∧ f.length < 2 ^ 16 + 4 := by
  obtain ⟨body, hlen, rfl⟩ := h
  simp only [List.length_append, le16Bytes, List.length_cons, List.length_nil]
  omega

/-! ## The packet rule -/

/-- Fewer than four bytes are no packet yet. -/
theorem onePktParse_short {bytes : List Byte} (h : bytes.length < 4) :
    onePktParse bytes = bytes.length + 1 := if_pos h

/-- From the header on the length is known. -/
theorem onePktParse_header {f bytes : List Byte} (hf : IsFrame f)
    (hpre : bytes.take 4 = f.take 4) : onePktParse bytes = f.length := by
  obtain ⟨body, hbody, rfl⟩ := hf
  -- the four bytes themselves
  have hbytes : bytes = [0x55, 0xaa] ++ le16Bytes (BitVec.ofNat 16 body.length) ++ bytes.drop 4 := by
    conv_lhs => rw [← List.take_append_drop 4 bytes, hpre]
    rfl
  rw [hbytes, onePktParse, if_neg (by simp [le16Bytes]), if_neg (by simp)]
  have hdrop : ([0x55, 0xaa] ++ le16Bytes (BitVec.ofNat 16 body.length) ++ bytes.drop 4).drop 2 =
      le16Bytes (BitVec.ofNat 16 body.length) ++ bytes.drop 4 := rfl
  rw [hdrop, le16_le16Bytes, toNat_ofNat_of_lt hbody]
  simp [le16Bytes]
  omega

/-! ## One call -/

/-- A ring that a sum of a position and a length never leaves an `unsigned int` in. -/
structure RcvRing (b : Ringbuf) : Prop where
  ok : b.Ok
  len : b.len = ringBufSize

/-- In the ring of the receiver no position wraps around 32 bits. -/
theorem RcvRing.sum_lt {b : Ringbuf} (h : RcvRing b) {pos length : Nat} (hpos : pos < b.len)
    (hlength : length ≤ b.len) : pos + length < 2 ^ 32 := by
  have hsize : b.len = 524288 := h.len
  omega

/-- Cloning all that is readable gives the bytes. -/
theorem RcvRing.clone {b : Ringbuf} (h : RcvRing b) : ringBufClone b b.readable = some b.bytes := by
  have hlt := h.ok.readable_lt
  rw [ringBufClone_eq le_rfl, takeOut_eq h.ok le_rfl (h.sum_lt h.ok.read hlt.le), ← h.ok.length_bytes,
    List.take_length]
  rfl

section Front

variable {f : List Byte} {rest : List (List Byte)} {pM : SerialDev} {fuel : Nat}

/-- An incomplete frame stays in the ring. -/
theorem parseLoop_stays (hf : IsFrame f) (hring : RcvRing pM.pRcvBuf)
    (hbytes : pM.pRcvBuf.bytes <+: f ++ rest.flatten) (hless : pM.pRcvBuf.readable < f.length) :
    parseLoop fuel pM = some pM := by
  have hflen := hf.length
  have hlen := hring.ok.length_bytes
  cases fuel with
  | zero => rfl
  | succ fuel =>
    unfold parseLoop
    dsimp only
    by_cases hzero : pM.pRcvBuf.readable = 0
    · rw [if_pos hzero]
    · rw [if_neg hzero, hring.clone, Option.bind_eq_bind, Option.bind_some]
      have hmore : onePktParse pM.pRcvBuf.bytes > (pM.pRcvBuf.readable : Int) := by
        rcases Nat.lt_or_ge pM.pRcvBuf.bytes.length 4 with hhead | hhead
        · -- inside the header the rule asks for one byte more
          rw [onePktParse_short hhead]
          omega
        · have htake : pM.pRcvBuf.bytes.take 4 = f.take 4 := by
            rw [(hbytes.take 4).eq_of_length (by simp; omega),
              List.take_append_of_le_length hflen.1]
          rw [onePktParse_header hf htake]
          omega
      rw [if_neg (by omega), if_pos hmore]

/-- A complete one becomes a node. -/
theorem parseLoop_takes (hf : IsFrame f) (hring : RcvRing pM.pRcvBuf)
    (hbytes : pM.pRcvBuf.bytes <+: f ++ rest.flatten) (hmore : f.length ≤ pM.pRcvBuf.readable) :
    ∃ b', parseLoop (fuel + 1) pM = parseLoop fuel ⟨b', pM.pListM ++ [f]⟩ ∧ RcvRing b' ∧
      b'.bytes <+: rest.flatten ∧ pM.pRcvBuf.bytes = f ++ b'.bytes := by
  have hflen := hf.length
  have hlen := hring.ok.length_bytes
  have hlt := hring.ok.readable_lt
  -- the frame is all there, at the front
  have hfront : pM.pRcvBuf.bytes.take f.length = f := by
    rw [(hbytes.take f.length).eq_of_length (by simp; omega), List.take_left]
  have htake : pM.pRcvBuf.bytes.take 4 = f.take 4 := by
    rw [← hfront, List.take_take, Nat.min_eq_left hflen.1]
  obtain ⟨b', hread, hok', hlen', hbytes'⟩ :=
    ringBufRead_accepted hring.ok hmore (hring.sum_lt hring.ok.read (by omega))
  refine ⟨b', ?_, ⟨hok', hlen'.trans hring.len⟩, ?_, ?_⟩
  · rw [hfront] at hread
    conv_lhs => unfold parseLoop
    dsimp only
    rw [if_neg (show pM.pRcvBuf.readable ≠ 0 by omega), hring.clone]
    simp only [Option.bind_eq_bind, Option.bind_some]
    -- the length in its header is its own
    rw [onePktParse_header hf htake, if_neg (by omega), if_neg (by
      show ¬((f.length : Int) > (pM.pRcvBuf.readable : Int))
      omega), Int.toNat_natCast, hread, Option.bind_some]
  · rw [hbytes']
    simpa using hbytes.drop f.length
  · rw [hbytes']
    conv_lhs => rw [← List.take_append_drop f.length pM.pRcvBuf.bytes, hfront]

end Front

/-- The loop takes out the frames that are complete. -/
theorem parseLoop_extracts {rest : List (List Byte)} (hrest : ∀ f ∈ rest, IsFrame f) {fuel : Nat}
    {pM : SerialDev} (hring : RcvRing pM.pRcvBuf) (hbytes : pM.pRcvBuf.bytes <+: rest.flatten)
    (hfuel : pM.pRcvBuf.readable ≤ fuel) :
    ∃ pM' done rest', parseLoop fuel pM = some pM' ∧ RcvRing pM'.pRcvBuf ∧
      pM'.pListM = pM.pListM ++ done ∧
      Extracted rest pM.pRcvBuf.bytes done rest' pM'.pRcvBuf.bytes := by
  have hlen := hring.ok.length_bytes
  induction rest generalizing fuel pM with
  | nil =>
    have hnil : pM.pRcvBuf.bytes = [] := List.prefix_nil.mp hbytes
    have hzero : ringBufAvailableBytesForRead pM.pRcvBuf = 0 := by
      show pM.pRcvBuf.readable = 0
      rw [← hlen, hnil]
      rfl
    refine ⟨pM, [], [], ?_, hring, (List.append_nil _).symm, rfl, rfl, by simp [hnil], nofun⟩
    cases fuel with
    | zero => rfl
    | succ fuel => simp [parseLoop, hzero]
  | cons f rest ih =>
    have hf := hrest f List.mem_cons_self
    have hflen := hf.length
    by_cases hless : pM.pRcvBuf.readable < f.length
    · refine ⟨pM, [], f :: rest, parseLoop_stays hf hring hbytes hless, hring,
        (List.append_nil _).symm, rfl, rfl, hbytes, ?_⟩
      simpa [hlen] using hless
    · obtain ⟨fuel, rfl⟩ : ∃ n, fuel = n + 1 := ⟨fuel - 1, by omega⟩
      obtain ⟨b', hturn, hring', hbytes', hsplit⟩ :=
        @parseLoop_takes _ _ _ fuel hf hring hbytes (not_lt.mp hless)
      have hshrink : b'.readable + f.length = pM.pRcvBuf.readable := by
        rw [← hlen, hsplit, List.length_append, hring'.ok.length_bytes, Nat.add_comm]
      -- the loop goes on behind the frame
      obtain ⟨pM', done, rest', hloop, hring'', hlist, hext⟩ :=
        @ih (fun g hg => hrest g (List.mem_cons_of_mem _ hg)) fuel ⟨b', pM.pListM ++ [f]⟩
          hring' hbytes' (by show b'.readable ≤ fuel; omega) hring'.ok.length_bytes
      refine ⟨pM', f :: done, rest', hturn.trans hloop, hring'', ?_, ?_, ?_, hext.front,
        hext.incomplete⟩
      · rw [hlist, List.append_assoc]
        rfl
      · rw [List.cons_append, hext.frames]
      · rw [List.flatten_cons, List.append_assoc, ← hext.bytes, hsplit]

/-- One call of `parseSerialData`. -/
theorem parseSerialData_extracts {rest : List (List Byte)} (hrest : ∀ f ∈ rest, IsFrame f)
    {pM : SerialDev} (hring : RcvRing pM.pRcvBuf) (hbytes : pM.pRcvBuf.bytes <+: rest.flatten) :
    ∃ pM' done rest', parseSerialData pM = some pM' ∧ RcvRing pM'.pRcvBuf ∧
      pM'.pListM = pM.pListM ++ done ∧
      Extracted rest pM.pRcvBuf.bytes done rest' pM'.pRcvBuf.bytes :=
  parseLoop_extracts hrest hring hbytes le_rfl

/-! ## The task -/

/-- What was received in two runs was received in one. -/
theorem received_append (evs evs' : List RcvEvent) :
    received (evs ++ evs') = received evs ++ received evs' := List.flatMap_append ..

/-- Between two frames nothing is left over. -/
theorem Extracted.tail_nil {frames done rest : List (List Byte)} {bytes tail : List Byte}
    (h : Extracted frames bytes done rest tail) {j : Nat}
    (hj : bytes = (frames.take j).flatten) : tail = [] := by
  obtain ⟨hframes, hbytes, hfront, hincomplete⟩ := h
  rw [hbytes, ← hframes] at hj
  rcases le_or_gt j done.length with hle | hgt
  · -- as many bytes as are in some of the done frames
    rw [List.take_append_of_le_length hle] at hj
    have hlen := congrArg List.length hj
    have hpre := (((List.take_prefix j done).flatten).length_le)
    rw [List.length_append] at hlen
    exact List.length_eq_zero_iff.mp (by omega)
  · rw [List.take_append, List.take_of_length_le hgt.le, List.flatten_append] at hj
    have htail := List.append_cancel_left hj
    cases rest with
    | nil => simpa using htail
    | cons f rest =>
      -- the frame in progress would be complete
      have hshort := hincomplete f rfl
      obtain ⟨k, hk⟩ : ∃ k, j - done.length = k + 1 := ⟨j - done.length - 1, by omega⟩
      rw [htail, hk, List.take_succ_cons, List.flatten_cons, List.length_append] at hshort
      omega

/-- What the receive task has done with these events. -/
structure Received (frames : List (List Byte)) (evs : List RcvEvent) (pM : SerialDev) : Prop where
  ring : RcvRing pM.pRcvBuf
  extracted : ∃ rest, Extracted frames (received evs) pM.pListM rest pM.pRcvBuf.bytes

/-- A read brings the next bytes of the stream. -/
theorem Received.read {frames : List (List Byte)} (hframes : ∀ f ∈ frames, IsFrame f)
    {evs : List RcvEvent} {pM : SerialDev} (h : Received frames evs pM) {temp : List Byte}
    (htemp : temp.length ≤ tempSize) (hstream : received (evs ++ [.read temp]) <+: frames.flatten) :
    ∃ pM', rcvTurn (.read temp) pM = some pM' ∧ Received frames (evs ++ [.read temp]) pM' := by
  obtain ⟨hring, rest, hext⟩ := h
  have hsize : pM.pRcvBuf.len = 524288 := hring.len
  have hlen := hring.ok.length_bytes
  have hwrite := hring.ok.write
  have havail := hring.ok.available_eq
  have hrest : ∀ f ∈ rest, IsFrame f := fun f hf => hframes f (hext.frames ▸ List.mem_append_right _ hf)
  rw [received_append, hext.bytes, ← hext.frames, List.flatten_append, List.append_assoc,
    List.prefix_append_right_inj] at hstream
  have hone : received [.read temp] = temp := List.append_nil temp
  rw [hone] at hstream
  -- the tail is shorter than a frame, so the ring is never near its end
  have hroom : pM.pRcvBuf.readable ≤ 2 ^ 16 + 4 := by
    rw [← hlen]
    cases rest with
    | nil =>
      rw [List.prefix_nil.mp hext.front]
      exact Nat.zero_le _
    | cons f rest =>
      have hshort := hext.incomplete f rfl
      have hflen := (hrest f List.mem_cons_self).length
      omega
  unfold tempSize at htemp
  obtain ⟨b', hrun, hok', hlen', hread', hwrite', hcont⟩ :=
    ringBufWrite_accepted hring.ok (by omega) (hring.sum_lt hwrite (by omega : temp.length ≤ _))
  rw [← hread', ← hlen'] at hwrite'
  have hcount : b'.readable = pM.pRcvBuf.readable + temp.length :=
    Ringbuf.readable_of_write hok'.read (by omega) hwrite'
  have hbytes' : b'.bytes = pM.pRcvBuf.bytes ++ temp := by
    rw [← hcont, Ringbuf.bytes, hcount, hread']
  obtain ⟨pM', done, rest', hparse, hring', hlist, hext'⟩ :=
    @parseSerialData_extracts _ hrest ⟨b', pM.pListM⟩ ⟨hok', hlen'.trans hring.len⟩
      (by show b'.bytes <+: _; rw [hbytes']; exact hstream)
  refine ⟨pM', ?_, hring', rest', ?_, ?_, hext'.front, hext'.incomplete⟩
  · rw [rcvTurn, if_neg (by omega), hrun]
    exact hparse
  · rw [hlist, List.append_assoc, hext'.frames, hext.frames]
  · rw [received_append, hext.bytes, hone, hlist, List.flatten_append, List.append_assoc,
      List.append_assoc, ← hext'.bytes, hbytes']

/-- A time-out between two frames clears an empty ring. -/
theorem Received.timeOut {frames : List (List Byte)} {evs : List RcvEvent} {pM : SerialDev}
    (h : Received frames evs pM) {j : Nat} (hj : received evs = (frames.take j).flatten) :
    ∃ pM', rcvTurn .timeOut pM = some pM' ∧ Received frames (evs ++ [.timeOut]) pM' := by
  obtain ⟨hring, rest, hext⟩ := h
  obtain ⟨hok, hlen, hbytes⟩ := ringBufClear_ok hring.ok
  refine ⟨_, rfl, ⟨hok, hlen.trans hring.len⟩, rest, ?_⟩
  have hnil := hext.tail_nil hj
  rw [hnil] at hext
  rw [received_append]
  show Extracted frames (received evs ++ []) pM.pListM rest (ringBufClear pM.pRcvBuf).bytes
  rw [List.append_nil, hbytes]
  exact hext

/-- **The node list has the frames of the stream**: after every event all that are
complete, once and in order, and the ring buffer has the incomplete tail. -/
theorem rcvTask_extracts {frames : List (List Byte)} (hframes : ∀ f ∈ frames, IsFrame f)
    {evs : List RcvEvent} (hreads : ∀ temp, .read temp ∈ evs → temp ≠ [] ∧ temp.length ≤ tempSize)
    (hstream : received evs <+: frames.flatten)
    (hidle : ∀ k, evs[k]? = some .timeOut → ∃ j, received (evs.take k) = (frames.take j).flatten) :
    ∃ pM rest, rcvTask evs = some pM ∧
      Extracted frames (received evs) pM.pListM rest pM.pRcvBuf.bytes := by
  have hinit : ringBufInit ringBufSize = some ⟨0, 0, ringBufSize, List.replicate ringBufSize 0⟩ :=
    if_neg (by decide)
  obtain ⟨hok, -, hbytes⟩ := ringBufInit_ok hinit (by decide)
  suffices h : ∃ pM, runAll rcvTurn evs ⟨⟨0, 0, ringBufSize, List.replicate ringBufSize 0⟩, []⟩ =
      some pM ∧ Received frames evs pM by
    obtain ⟨pM, hrun, -, rest, hext⟩ := h
    refine ⟨pM, rest, ?_, hext⟩
    rw [rcvTask, hinit]
    exact hrun
  -- at the end of the events: the last one extends what all before it left
  induction evs using List.reverseRecOn with
  | nil =>
    refine ⟨_, rfl, ⟨hok, rfl⟩, frames, rfl, ?_, ?_, ?_⟩
    · exact hbytes.symm
    · show Ringbuf.bytes _ <+: _
      rw [hbytes]
      exact List.nil_prefix
    -- nothing is received, so the first frame is incomplete
    · intro f hf
      show (Ringbuf.bytes _).length < _
      rw [hbytes]
      have := (hframes f (List.mem_of_mem_head? hf)).length
      exact lt_of_lt_of_le (by decide) this.1
  | append_singleton evs ev ih =>
    obtain ⟨pM, hrun, hreceived⟩ := ih
      (fun temp htemp => hreads temp (List.mem_append_left _ htemp))
      (List.IsPrefix.trans (by rw [received_append]; exact List.prefix_append ..) hstream)
      (fun k hk => by
        obtain ⟨hlt, -⟩ := List.getElem?_eq_some_iff.mp hk
        have h := hidle k (by rwa [List.getElem?_append_left hlt])
        rwa [List.take_append_of_le_length hlt.le] at h)
    obtain ⟨pM', hturn, hreceived'⟩ : ∃ pM', rcvTurn ev pM = some pM' ∧
        Received frames (evs ++ [ev]) pM' := by
      cases ev with
      | timeOut =>
        obtain ⟨j, hj⟩ := hidle evs.length (by simp)
        rw [List.take_left] at hj
        -- a timeout comes between frames, so it clears an empty tail
        exact hreceived.timeOut hj
      | read temp =>
        exact hreceived.read hframes (hreads temp (by simp)).2 hstream
    refine ⟨pM', ?_, hreceived'⟩
    rw [runAll_append, hrun, Option.bind_some, runAll, hturn]
    rfl

/-- Two frames, the first cut inside its length, a pause after it, and the second without
its last byte. -/
theorem rcvTask_twoFrames :
    ∃ pM rest, rcvTask [.read [0x55, 0xaa, 1], .read [0, 7], .timeOut,
        .read [0x55, 0xaa, 2, 0, 8]] = some pM ∧
      Extracted [[0x55, 0xaa, 1, 0, 7], [0x55, 0xaa, 2, 0, 8, 9]]
        [0x55, 0xaa, 1, 0, 7, 0x55, 0xaa, 2, 0, 8] pM.pListM rest pM.pRcvBuf.bytes := by
  refine @rcvTask_extracts _ ?_ [.read [0x55, 0xaa, 1], .read [0, 7], .timeOut,
    .read [0x55, 0xaa, 2, 0, 8]] ?_ ⟨[9], rfl⟩ ?_
  · intro f hf
    rcases List.mem_pair.mp hf with rfl | rfl
    · exact ⟨[7], by decide, rfl⟩
    · exact ⟨[8, 9], by decide, rfl⟩
  · intro temp htemp
    simp only [List.mem_cons, RcvEvent.read.injEq, reduceCtorEq, List.not_mem_nil, or_false,
      false_or] at htemp
    rcases htemp with rfl | rfl | rfl <;> decide
  -- the pause comes behind the first frame
  · intro k hk
    match k, hk with
    | 2, _ => exact ⟨1, rfl⟩
    | 3, hk => cases hk
    | k + 4, hk => cases hk

end PgClient.Serial
