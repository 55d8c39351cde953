import PgClient.Mes.Server

/-!
# The receive buffer of the MES server

`recv` is always asked for the size of the whole buffer, and the length of a packet is an
`unsigned char` for `get_json_data`.

* `mesServer_backlog` — `buf_offset` is what was received and not handed over.
* `payloadFound_iff` — for which packets `get_json_data` finds the payload.
* `receivesSafely_iff` — which connections are received inside the buffer, with every payload:
  for the pieces one by one, and for a stream however it is cut.
-/

namespace PgClient.Mes

open PartialRun

/-! ## The code -/

/-- `get_json_data`; a pointer is its address. -/
def getJsonData (pData : Nat) (dataLen : BitVec 8) : Option Nat :=
  if pData ≠ 0 ∧ packetHeaderSize + 4 ≤ dataLen.toNat then some (pData + packetHeaderSize + 4)
  else none

/-- `p_json_data` in `tm_mes_msg_proc`: the `unsigned int` is passed as an `unsigned char`. -/
def tmMesMsgProcJson (pPacket : Nat) (packetLen : BitVec 32) : Option Nat :=
  getJsonData pPacket (packetLen.setWidth 8)

/-! ## What is to hold -/

/-- The states in which the turns of a connection begin, each with what its `recv` returns. -/
def TurnOf (pieces : List (List Byte)) (piece : List Byte) (s : Connection) : Prop :=
  ∃ before after, pieces = before ++ piece :: after ∧ mesServer before = some s ∧ s.closed = false

/-- The calls of `tm_mes_msg_proc` of a connection. -/
def CallOf (pieces : List (List Byte)) (call : MsgProcCall) : Prop :=
  ∃ before s, before <+: pieces ∧ mesServer before = some s ∧ call ∈ s.calls

/-- `recv` writes where `buf_offset` is, and not behind the end of the buffer. -/
def RecvInside (piece : List Byte) (s : Connection) : Prop :=
  ∀ pos, s.bufOffset ≤ pos → pos < s.bufOffset + piece.length → pos < mesMaxBufLen

/-- `get_json_data` returns the address behind the header and the four bytes. -/
def PayloadFound (call : MsgProcCall) : Prop :=
  ∀ pPacket, pPacket ≠ 0 →
    tmMesMsgProcJson pPacket (BitVec.ofNat 32 call.packetLen) = some (pPacket + packetHeaderSize + 4)

/-- No `recv` writes outside the buffer, and every payload is found. -/
structure ReceivesSafely (pieces : List (List Byte)) : Prop where
  inside : ∀ piece s, TurnOf pieces piece s → RecvInside piece s
  found : ∀ call, CallOf pieces call → PayloadFound call

/-! ## The condition -/

/-- The length of the packet in front, if the bytes hold all of it. -/
def packetEnd (bytes : List Byte) : Option Nat :=
  if packetHeaderSize ≤ bytes.length ∧
      packetHeaderSize + 4 + dataLen bytes + 4 ≤ bytes.length then
    some (packetHeaderSize + 4 + dataLen bytes + 4)
  else none

/-- The bytes that the next piece is put behind: all of them, but as many less as a packet in
front is long, if it is complete. -/
def waiting (bytes : List Byte) : List Byte :=
  match packetEnd bytes with
  | none => bytes
  | some k => bytes.take (bytes.length - k)

/-- Up to the one that ends the connection, every piece fits behind the bytes that wait, and no
packet that it completes has a length whose last byte is less than 20. -/
def PiecesFit : List Byte → List (List Byte) → Prop
  | _, [] => True
  | bytes, piece :: pieces =>
    piece = [] ∨
      (bytes.length + piece.length ≤ mesMaxBufLen ∧
        (∀ k, packetEnd (bytes ++ piece) = some k → packetHeaderSize + 4 ≤ k % 256) ∧
        PiecesFit (waiting (bytes ++ piece)) pieces)

/-- The pieces that `recv` can make of a stream. -/
def CutOf (stream : List Byte) (pieces : List (List Byte)) : Prop :=
  pieces.flatten = stream ∧ ∀ piece ∈ pieces, piece ≠ [] ∧ piece.length ≤ mesMaxBufLen

/-! ## The books -/

/-- The bytes of the packets that were handed over. -/
def handedOver (s : Connection) : Nat := (s.calls.map MsgProcCall.packetLen).sum

/-- A turn of the parser hands on what it takes out of the buffer. -/
theorem handleBuf_backlog (s : Connection) :
    (handleBuf s).bufOffset + handedOver (handleBuf s) = s.bufOffset + handedOver s ∧
      (handleBuf s).closed = s.closed := by
  unfold handleBuf
  split_ifs with hhead hpacket
  · exact ⟨rfl, rfl⟩
  · exact ⟨rfl, rfl⟩
  · refine ⟨?_, rfl⟩
    -- a packet goes from the buffer to the calls
    simp only [handedOver, List.map_append, List.sum_append, List.map_cons, List.map_nil,
      List.sum_singleton]
    omega

/-- A piece that leaves the connection open adds its own bytes to the books, and no others. -/
theorem recvTurn_backlog {piece : List Byte} {s s' : Connection} (h : recvTurn piece s = some s')
    (hopen : s'.closed = false) :
    s.closed = false ∧ s'.bufOffset + handedOver s' = s.bufOffset + handedOver s + piece.length := by
  unfold recvTurn at h
  split_ifs at h with hclosed hnil hroom
  · obtain rfl := Option.some.inj h
    exact absurd hopen (by simp [hclosed])
  · obtain rfl := Option.some.inj h
    cases hopen
  -- the piece is appended, and the whole packets in front are handed over
  · obtain rfl := Option.some.inj h
    obtain ⟨hbooks, -⟩ := handleBuf_backlog { s with
      buf := RingBuffer.blit s.buf s.bufOffset piece
      bufOffset := s.bufOffset + piece.length }
    refine ⟨by simpa using hclosed, hbooks.trans ?_⟩
    show s.bufOffset + piece.length + handedOver s = _
    omega

/-- So do the pieces of a run, as long as the connection is open at its end. -/
theorem runAll_backlog {pieces : List (List Byte)} {s s' : Connection}
    (h : runAll recvTurn pieces s = some s') (hopen : s'.closed = false) :
    s.closed = false ∧
      s'.bufOffset + handedOver s' = s.bufOffset + handedOver s + pieces.flatten.length := by
  induction pieces generalizing s with
  | nil =>
    obtain rfl := Option.some.inj h
    exact ⟨hopen, rfl⟩
  | cons piece pieces ih =>
    obtain ⟨s₁, hturn, hrest⟩ := Option.bind_eq_some_iff.mp h
    -- a connection that is open at the end was open all along
    obtain ⟨hopen₁, hbooks₁⟩ := ih hrest
    obtain ⟨hopen₀, hbooks₀⟩ := recvTurn_backlog hturn hopen₁
    refine ⟨hopen₀, ?_⟩
    rw [List.flatten_cons, List.length_append]
    omega

/-- **What was received is in the buffer or was handed over.** -/
theorem mesServer_backlog {pieces : List (List Byte)} {s : Connection}
    (h : mesServer pieces = some s) (hopen : s.closed = false) :
    s.bufOffset + handedOver s = pieces.flatten.length := by
  rw [(runAll_backlog h hopen).2]
  exact Nat.zero_add _

/-- `recv` writes behind what the buffer holds. -/
theorem recvInside_iff {piece : List Byte} {s : Connection} (hoff : s.bufOffset ≤ mesMaxBufLen) :
    RecvInside piece s ↔ s.bufOffset + piece.length ≤ mesMaxBufLen := by
  constructor
  · intro hinside
    -- the last byte of the piece
    by_contra hover
    have := hinside (s.bufOffset + piece.length - 1) (by omega) (by omega)
    omega
  · intro hroom pos _ hpos
    omega

/-! ## Calls -/

/-- **The payload is found** unless the length, as a byte, is less than 20. -/
theorem payloadFound_iff (call : MsgProcCall) :
    PayloadFound call ↔ packetHeaderSize + 4 ≤ call.packetLen % 256 := by
  have hbyte : ((BitVec.ofNat 32 call.packetLen).setWidth 8).toNat = call.packetLen % 256 := by
    rw [BitVec.toNat_setWidth, BitVec.toNat_ofNat, Nat.mod_mod_of_dvd _ (by decide)]
  rw [← hbyte]
  unfold PayloadFound tmMesMsgProcJson getJsonData
  constructor
  · intro hfound
    -- any address shows which branch is taken
    have h := hfound 1 Nat.one_ne_zero
    split_ifs at h with hcond
    exact hcond.2
  · intro hle pPacket hne
    rw [if_pos ⟨hne, hle⟩]

/-- A packet ends within its bytes. -/
theorem packetEnd_le {bytes : List Byte} {k : Nat} (h : packetEnd bytes = some k) :
    k ≤ bytes.length := by
  rw [packetEnd] at h
  split_ifs at h with hwhole
  obtain rfl := Option.some.inj h
  exact hwhole.2

/-- The header is in front of what waits, so that `handle_buf` sees the same packet. -/
theorem handleBuf_eq {s : Connection} (hbuf : s.bufOffset ≤ s.buf.length) :
    handleBuf s = match packetEnd (s.buf.take s.bufOffset) with
      | none => s
      | some k => { s with
          calls := s.calls ++ [⟨s.buf.take k, k⟩]
          bufOffset := s.bufOffset - k } := by
  -- what waits is the front of the buffer
  have hlen : (s.buf.take s.bufOffset).length = s.bufOffset := by
    rw [List.length_take, Nat.min_eq_left hbuf]
  by_cases hhead : s.bufOffset < packetHeaderSize
  · have hnone : packetEnd (s.buf.take s.bufOffset) = none := if_neg fun h => by omega
    rw [handleBuf, if_pos hhead, hnone]
  · have hfield : dataLen (s.buf.take s.bufOffset) = dataLen s.buf := by
      have hle : 16 ≤ s.bufOffset := not_lt.mp hhead
      exact dataLen_congr (by rw [List.take_take, Nat.min_eq_left hle])
    rw [handleBuf, if_neg hhead, packetEnd, hlen, hfield]
    -- the packet is not all there yet, or it is handed on
    by_cases hwait : s.bufOffset < packetHeaderSize + 4 + dataLen s.buf + 4
    · rw [if_pos hwait, if_neg fun h => by omega]
    · rw [if_neg hwait, if_pos ⟨by omega, by omega⟩]

/-- One turn, with the bytes that wait before it and after it. -/
theorem recvTurn_waiting {piece : List Byte} (hne : piece ≠ []) {s : Connection} (hok : s.Ok)
    (hroom : s.bufOffset + piece.length ≤ mesMaxBufLen) :
    ∃ s', recvTurn piece s = some s' ∧ s'.Ok ∧
      s'.buf.take s'.bufOffset = waiting (s.buf.take s.bufOffset ++ piece) ∧
      ∀ call, call ∈ s'.calls ↔ call ∈ s.calls ∨
        ∃ k, packetEnd (s.buf.take s.bufOffset ++ piece) = some k ∧
          call = ⟨(s.buf.take s.bufOffset ++ piece).take k, k⟩ := by
  obtain ⟨hopen, hbuf, hoff⟩ := hok
  have hin : s.bufOffset + piece.length ≤ s.buf.length := hbuf ▸ hroom
  obtain ⟨buf, hblit⟩ : ∃ buf, buf = RingBuffer.blit s.buf s.bufOffset piece := ⟨_, rfl⟩
  have hlen : buf.length = mesMaxBufLen := by
    rw [hblit, RingBuffer.blit_length hin, hbuf]
  have htake : buf.take (s.bufOffset + piece.length) = s.buf.take s.bufOffset ++ piece := by
    rw [hblit]
    exact RingBuffer.take_blit (by omega)
  have hwait : (s.buf.take s.bufOffset ++ piece).length = s.bufOffset + piece.length := by
    rw [← htake, List.length_take]
    omega
  have hhandle := @handleBuf_eq { s with buf := buf, bufOffset := s.bufOffset + piece.length }
    (show s.bufOffset + piece.length ≤ buf.length by omega)
  have hturn : recvTurn piece s =
      some (handleBuf { s with buf := buf, bufOffset := s.bufOffset + piece.length }) := by
    rw [recvTurn, hopen, if_neg Bool.false_ne_true, if_neg hne, if_neg (not_lt.mpr hroom), hblit]
  refine ⟨_, hturn, ?_⟩
  simp only [htake] at hhandle
  rw [hhandle, waiting]
  cases hend : packetEnd (s.buf.take s.bufOffset ++ piece) with
  | none => exact ⟨⟨hopen, hlen, hroom⟩, htake, fun call => by simp⟩
  | some k =>
    -- the packet is inside the bytes, and what stays is their front
    have hk : k ≤ s.bufOffset + piece.length := hwait ▸ packetEnd_le hend
    have hfront : ∀ n ≤ s.bufOffset + piece.length,
        buf.take n = (s.buf.take s.bufOffset ++ piece).take n := by
      intro n hn
      rw [← htake, List.take_take, Nat.min_eq_left hn]
    refine ⟨⟨hopen, hlen, (Nat.sub_le _ _).trans hroom⟩, ?_, fun call => ?_⟩
    · show buf.take (s.bufOffset + piece.length - k) = _
      rw [hfront _ (Nat.sub_le _ _), hwait]
    · show call ∈ s.calls ++ [⟨buf.take k, k⟩] ↔ _
      rw [hfront k hk, List.mem_append, List.mem_singleton]
      simp

/-! ## A connection -/

/-- From a state on, no `recv` writes outside the buffer, and every payload is found. -/
def SafeFrom (s : Connection) (pieces : List (List Byte)) : Prop :=
  (∀ before piece after s', pieces = before ++ piece :: after →
    runAll recvTurn before s = some s' → s'.closed = false → RecvInside piece s') ∧
  ∀ before s' call, before <+: pieces → runAll recvTurn before s = some s' → call ∈ s'.calls →
    PayloadFound call

/-- A connection that is closed stays as it is. -/
theorem runAll_closed {s : Connection} (hclosed : s.closed = true) (pieces : List (List Byte)) :
    runAll recvTurn pieces s = some s := by
  induction pieces with
  | nil => rfl
  | cons piece pieces ih =>
    rw [runAll, recvTurn, if_pos hclosed]
    exact ih

/-- The first turn of what is left, and then the rest. -/
theorem safeFrom_cons {s : Connection} (hopen : s.closed = false) {piece : List Byte}
    {pieces : List (List Byte)} (hfound : ∀ call ∈ s.calls, PayloadFound call) :
    SafeFrom s (piece :: pieces) ↔
      RecvInside piece s ∧ ∀ s₁, recvTurn piece s = some s₁ → SafeFrom s₁ pieces := by
  constructor
  -- a run from the next state is one with this piece in front
  · rintro ⟨hinside, hcalls⟩
    refine ⟨hinside [] piece pieces s rfl rfl hopen, fun s₁ hturn => ⟨?_, ?_⟩⟩
    · intro before q after s' hsplit hrun
      refine hinside (piece :: before) q after s' (by rw [hsplit]; rfl) ?_
      rw [runAll, hturn]
      exact hrun
    · intro before s' call hpre hrun
      refine hcalls (piece :: before) s' call ((List.prefix_cons_inj piece).mpr hpre) ?_
      rw [runAll, hturn]
      exact hrun
  · rintro ⟨hinside, hrest⟩
    refine ⟨?_, ?_⟩
    · intro before q after s' hsplit hrun hopen'
      -- the turn is this one, or one of those behind
      cases before with
      | nil =>
        obtain ⟨rfl, -⟩ := List.cons.inj hsplit
        obtain rfl := Option.some.inj hrun
        exact hinside
      | cons p before =>
        obtain ⟨rfl, hsplit'⟩ := List.cons.inj hsplit
        obtain ⟨s₁, hturn, hrun'⟩ := Option.bind_eq_some_iff.mp hrun
        exact (hrest s₁ hturn).1 before q after s' hsplit' hrun' hopen'
    · intro before s' call hpre hrun hcall
      cases before with
      | nil =>
        obtain rfl := Option.some.inj hrun
        exact hfound call hcall
      | cons p before =>
        obtain ⟨rfl, hpre'⟩ := List.cons_prefix_cons.mp hpre
        obtain ⟨s₁, hturn, hrun'⟩ := Option.bind_eq_some_iff.mp hrun
        exact (hrest s₁ hturn).2 before s' call hpre' hrun' hcall

/-- **The condition is read off the pieces**: what the buffer holds is what waits. -/
theorem safeFrom_iff {s : Connection} (hok : s.Ok)
    (hfound : ∀ call ∈ s.calls, PayloadFound call) (pieces : List (List Byte)) :
    SafeFrom s pieces ↔ PiecesFit (s.buf.take s.bufOffset) pieces := by
  induction pieces generalizing s with
  | nil =>
    refine iff_of_true ⟨?_, ?_⟩ trivial
    · intro before piece after s' hsplit
      simp at hsplit
    · intro before s' call hpre hrun
      obtain rfl := List.prefix_nil.mp hpre
      obtain rfl := Option.some.inj hrun
      exact hfound call
  | cons piece pieces ih =>
    have hlen : (s.buf.take s.bufOffset).length = s.bufOffset := by
      rw [List.length_take, hok.buf, Nat.min_eq_left hok.bufOffset]
    rw [safeFrom_cons hok.isOpen hfound, PiecesFit, recvInside_iff hok.bufOffset, hlen]
    by_cases hne : piece = []
    · -- nothing more is received
      refine iff_of_true ⟨?_, fun s₁ hturn => ?_⟩ (.inl hne)
      · rw [hne]
        exact hok.bufOffset
      · rw [recvTurn, hok.isOpen, if_neg Bool.false_ne_true, if_pos hne] at hturn
        obtain rfl := Option.some.inj hturn
        refine ⟨fun before q after s' _ hrun hopen => ?_, fun before s' call _ hrun hcall => ?_⟩
        · rw [runAll_closed rfl] at hrun
          obtain rfl := Option.some.inj hrun
          cases hopen
        · rw [runAll_closed rfl] at hrun
          obtain rfl := Option.some.inj hrun
          exact hfound call hcall
    · simp only [hne, false_or]
      refine and_congr_right fun hroom => ?_
      obtain ⟨s₁, hturn, hok₁, hwait, hcalls⟩ := recvTurn_waiting hne hok hroom
      rw [← hwait]
      constructor
      · intro hrest
        have hsafe := hrest s₁ hturn
        have hall : ∀ call ∈ s₁.calls, PayloadFound call := fun call hcall =>
          hsafe.2 [] s₁ call List.nil_prefix rfl hcall
        refine ⟨fun k hk => ?_, (ih hok₁ hall).mp hsafe⟩
        exact (payloadFound_iff ⟨_, k⟩).mp (hall _ ((hcalls _).mpr (.inr ⟨k, hk, rfl⟩)))
      · rintro ⟨hseen, hfit⟩ s₂ hturn₂
        obtain rfl := Option.some.inj (hturn.symm.trans hturn₂)
        refine (ih hok₁ fun call hcall => ?_).mpr hfit
        rcases (hcalls call).mp hcall with hold | ⟨k, hk, rfl⟩
        · exact hfound call hold
        · exact (payloadFound_iff _).mpr (hseen k hk)

/-- The first turn of a connection. -/
theorem mesServer_singleton {piece : List Byte} (hne : piece ≠ []) (hlen : piece.length ≤ mesMaxBufLen) :
    mesServer [piece] = some (handleBuf ⟨RingBuffer.blit (List.replicate mesMaxBufLen 0) 0 piece,
      0 + piece.length, [], false⟩) := by
  have hroom : ¬mesMaxBufLen < 0 + piece.length := by omega
  rw [mesServer, runAll, recvTurn, if_neg Bool.false_ne_true, if_neg hne, if_neg hroom]
  rfl

/-- However a stream is cut, the buffer takes it, as long as it is no longer than the buffer. -/
theorem inside_of_short {stream : List Byte} (hshort : stream.length ≤ mesMaxBufLen)
    {pieces : List (List Byte)} (hcut : CutOf stream pieces) {piece : List Byte} {s : Connection}
    (hturn : TurnOf pieces piece s) : RecvInside piece s := by
  obtain ⟨before, after, rfl, hrun, hopen⟩ := hturn
  have hbooks := mesServer_backlog hrun hopen
  have hlen := congrArg List.length hcut.1
  simp only [List.flatten_append, List.flatten_cons, List.length_append] at hlen
  exact (recvInside_iff (by omega)).mpr (by omega)

/-- A longer one can be cut behind its first byte, and the next piece is as long as the buffer. -/
theorem short_of_inside {stream : List Byte}
    (h : ∀ pieces, CutOf stream pieces → ∀ piece s, TurnOf pieces piece s → RecvInside piece s) :
    stream.length ≤ mesMaxBufLen := by
  by_contra hlong
  obtain ⟨first, rest, hsplit, hlen, hfull⟩ : ∃ first rest, stream = first ++ rest ∧
      first.length = 1 ∧ mesMaxBufLen ≤ rest.length := by
    refine ⟨stream.take 1, stream.drop 1, (List.take_append_drop _ _).symm, ?_, ?_⟩
    · rw [List.length_take]
      omega
    · rw [List.length_drop]
      omega
  have hpiece : (rest.take mesMaxBufLen).length = mesMaxBufLen := by
    rw [List.length_take, Nat.min_eq_left hfull]
  -- one byte, a piece as long as the buffer, and the rest byte by byte
  have hcut : CutOf stream
      (first :: rest.take mesMaxBufLen :: (rest.drop mesMaxBufLen).map fun b => [b]) := by
    refine ⟨?_, ?_⟩
    · rw [List.flatten_cons, List.flatten_cons, ← List.flatMap_def, List.flatMap_singleton',
        List.take_append_drop, hsplit]
    · intro piece hmem
      rcases List.mem_cons.mp hmem with rfl | hmem
      · exact ⟨by rintro rfl; simp at hlen, by rw [hlen]; decide⟩
      rcases List.mem_cons.mp hmem with rfl | hmem
      · refine ⟨fun hnil => ?_, hpiece.le⟩
        rw [hnil] at hpiece
        exact absurd hpiece (by decide)
      · obtain ⟨b, -, rfl⟩ := List.mem_map.mp hmem
        exact ⟨List.cons_ne_nil _ _, (show 1 ≤ mesMaxBufLen by decide)⟩
  have hne : first ≠ [] := by rintro rfl; simp at hlen
  -- the one byte waits, too short for a header
  obtain ⟨s, hrun, hopen, hoff⟩ : ∃ s, mesServer [first] = some s ∧ s.closed = false ∧
      s.bufOffset = 1 := by
    rw [mesServer_singleton hne (by rw [hlen]; decide), handleBuf,
      if_pos (show 0 + first.length < packetHeaderSize by rw [hlen]; decide)]
    exact ⟨_, rfl, rfl, by rw [Nat.zero_add, hlen]⟩
  have hin := h _ hcut (rest.take mesMaxBufLen) s ⟨[first], _, rfl, hrun, hopen⟩
  rw [recvInside_iff (by rw [hoff]; decide), hoff, hpiece] at hin
  omega

/-- **A connection is received safely** exactly if its pieces fit behind what waits, with the
packets they complete; and a stream, however it is cut, exactly if it is no longer than the
buffer. -/
theorem receivesSafely_iff (pieces : List (List Byte)) (stream : List Byte) :
    (ReceivesSafely pieces ↔ PiecesFit [] pieces) ∧
      ((∀ pieces, CutOf stream pieces → ∀ piece s, TurnOf pieces piece s → RecvInside piece s) ↔
        stream.length ≤ mesMaxBufLen) := by
  refine ⟨?_, short_of_inside, fun hshort _ hcut _ _ => inside_of_short hshort hcut⟩
  -- nothing waits when the connection begins
  have hstart : Connection.Ok ⟨List.replicate mesMaxBufLen 0, 0, [], false⟩ :=
    ⟨rfl, List.length_replicate, Nat.zero_le _⟩
  rw [show ([] : List Byte) = (List.replicate mesMaxBufLen (0 : Byte)).take 0 from rfl,
    ← safeFrom_iff hstart (fun _ hcall => absurd hcall List.not_mem_nil)]
  constructor
  · rintro ⟨hinside, hfound⟩
    exact ⟨fun before piece after s hsplit hrun hopen =>
        hinside piece s ⟨before, after, hsplit, hrun, hopen⟩,
      fun before s call hpre hrun hcall => hfound call ⟨before, s, hpre, hrun, hcall⟩⟩
  · rintro ⟨hinside, hfound⟩
    refine ⟨?_, ?_⟩
    · rintro piece s ⟨before, after, hsplit, hrun, hopen⟩
      exact hinside before piece after s hsplit hrun hopen
    · rintro call ⟨before, s, hpre, hrun, hcall⟩
      exact hfound before s call hpre hrun hcall

/-- A packet with 232 bytes of data, 256 bytes long. -/
def packet256 : List Byte := [0x47, 0x47, 0x11] ++ List.replicate 11 0 ++ [232, 0] ++ List.replicate 240 0

/-- A packet of 256 bytes. -/
theorem isPacket_packet256 : IsPacket packet256 := ⟨by decide +kernel, by decide +kernel⟩

/-- Ten bytes and then 4090, of which four are behind the buffer; and a packet of 256 bytes,
whose payload is not found. -/
theorem badPieces_not_receivesSafely :
    ¬ReceivesSafely [List.replicate 10 0, List.replicate 4090 0] ∧ ¬ReceivesSafely [packet256] := by
  constructor
  · rintro ⟨hinside, -⟩
    -- ten bytes are no header, so they wait in front of the others
    obtain ⟨s, hrun, hopen, hoff⟩ : ∃ s, mesServer [List.replicate 10 0] = some s ∧
        s.closed = false ∧ s.bufOffset = 10 := by
      rw [mesServer_singleton (by decide) (by decide), handleBuf, if_pos (by decide)]
      exact ⟨_, rfl, rfl, rfl⟩
    have hpos := hinside (List.replicate 4090 0) s ⟨[List.replicate 10 0], [], rfl, hrun, hopen⟩ 4096
      (by omega) (by rw [hoff, List.length_replicate]; omega)
    exact absurd hpos (by decide)
  · rintro ⟨-, hfound⟩
    -- the low byte of 256 is 0, which is the length handed on
    have hlen : packet256.length = 256 := by decide +kernel
    have hrun := @mesServer_singleton packet256 (List.cons_ne_nil _ _) (by rw [hlen]; decide)
    have hbytes : (RingBuffer.blit (List.replicate mesMaxBufLen 0) 0 packet256).take
        (0 + packet256.length) = packet256 := RingBuffer.take_blit (Nat.zero_le _)
    have hbuf : (RingBuffer.blit (List.replicate mesMaxBufLen 0) 0 packet256).length = mesMaxBufLen :=
      (RingBuffer.blit_length (by rw [hlen, List.length_replicate]; decide)).trans
        List.length_replicate
    have hoff : 0 + packet256.length ≤
        (RingBuffer.blit (List.replicate mesMaxBufLen 0) 0 packet256).length := by
      rw [hbuf, hlen]
      decide
    rw [@handleBuf_hands packet256 isPacket_packet256 ⟨RingBuffer.blit (List.replicate mesMaxBufLen 0)
      0 packet256, 0 + packet256.length, [], false⟩ hbytes hoff] at hrun
    have h := hfound (.of packet256) ⟨[packet256], _, List.prefix_rfl, hrun, List.mem_singleton_self _⟩
      1 Nat.one_ne_zero
    rw [MsgProcCall.of, hlen] at h
    exact absurd h (by decide)

end PgClient.Mes
