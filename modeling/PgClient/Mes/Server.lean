import PgClient.Lib.PartialRun
import PgClient.Lib.RingBuffer
import PgClient.Util.LittleEndian

/-!
# The MES server

`start_tm_mes_server` of `tm_mes.c`: what `recv` returns is put into one buffer, and a
packet at its front is handed to `tm_mes_msg_proc`.

* `mesServer_calls` — while no piece goes on behind the packet it is in, every packet is
  handed over, once and in order.
* `fewPieces_lose` — of more packets than pieces some are not.
-/

namespace PgClient.Mes

open PartialRun

/-! ## The code -/

/-- `MES_MAX_BUF_LEN`. -/
def mesMaxBufLen : Nat := 1024 * 4

/-- `sizeof(tm_mes_packet_header_t)`. -/
def packetHeaderSize : Nat := 16

/-- The `data_len` of a `tm_mes_packet_header_t`, its last two bytes. -/
def dataLen (pHead : List Byte) : Nat := (le16 (pHead.drop 14)).toNat

/-- The arguments of a call of `tm_mes_msg_proc`: what `p_packet` points to, as far as
`packet_len` goes, and `packet_len`. -/
structure MsgProcCall where
  pPacket : List Byte
  packetLen : Nat
  deriving DecidableEq

/-- A connection; `closed` once `recv` has returned nothing. -/
structure Connection where
  buf : List Byte
  bufOffset : Nat
  calls : List MsgProcCall
  closed : Bool

/-- What follows a `recv` that returned bytes. -/
def handleBuf (s : Connection) : Connection :=
  if s.bufOffset < packetHeaderSize then s
  else if s.bufOffset < packetHeaderSize + 4 + dataLen s.buf + 4 then s
  else
    let packetLen := packetHeaderSize + 4 + dataLen s.buf + 4
    { s with
      calls := s.calls ++ [⟨s.buf.take packetLen, packetLen⟩]
      -- what is behind the packet stays where it is
      bufOffset := s.bufOffset - packetLen }

/-- One turn of the inner loop. `recv` is told the size of the whole buffer, so behind
`buf_offset` it can write beyond the end. -/
def recvTurn (piece : List Byte) (s : Connection) : Option Connection :=
  if s.closed then some s
  else if piece = [] then some { s with closed := true }
  else if mesMaxBufLen < s.bufOffset + piece.length then none
  else
    some (handleBuf { s with
      buf := RingBuffer.blit s.buf s.bufOffset piece
      bufOffset := s.bufOffset + piece.length })

/-- A connection on which `recv` returns these pieces. -/
def mesServer (pieces : List (List Byte)) : Option Connection :=
  runAll recvTurn pieces ⟨List.replicate mesMaxBufLen 0, 0, [], false⟩

/-! ## Packets -/

/-- A header, four bytes, `data_len` bytes and a CRC. -/
structure IsPacket (p : List Byte) : Prop where
  length : p.length = packetHeaderSize + 4 + dataLen p + 4
  max : p.length ≤ mesMaxBufLen

/-- The call that a packet is to be handed over with. -/
def MsgProcCall.of (p : List Byte) : MsgProcCall := ⟨p, p.length⟩

/-- No piece begins in one packet and goes on behind it. -/
def InOnePacket (packets pieces : List (List Byte)) : Prop :=
  ∀ before piece after, pieces = before ++ piece :: after → ∀ j,
    (packets.take j).flatten.length ≤ before.flatten.length ∨
      before.flatten.length + piece.length ≤ (packets.take j).flatten.length

/-- The bytes received are the packets `done`, which are handed over, and the start of the
next one, which is in the buffer. -/
structure Served (packets : List (List Byte)) (bytes : List Byte) (s : Connection)
    (done rest : List (List Byte)) : Prop where
  packets : done ++ rest = packets
  calls : s.calls = done.map .of
  bytes : bytes = done.flatten ++ s.buf.take s.bufOffset
  incomplete : ∀ p ∈ rest.head?, s.bufOffset < p.length

/-- The connection is open, and `buf_offset` is inside the buffer. -/
structure Connection.Ok (s : Connection) : Prop where
  isOpen : s.closed = false
  buf : s.buf.length = mesMaxBufLen
  bufOffset : s.bufOffset ≤ mesMaxBufLen

/-! ## One piece -/

/-- The data length is read from the first sixteen bytes. -/
theorem dataLen_congr {bs cs : List Byte} (h : bs.take 16 = cs.take 16) : dataLen bs = dataLen cs := by
  have hfield : ∀ ds : List Byte, (ds.drop 14).take 2 = (ds.take 16).drop 14 := by
    intro ds
    rw [List.drop_take]
  rw [dataLen, dataLen, ← le16_take_two, hfield, h, ← hfield, le16_take_two]

/-- The field is in the buffer as soon as the header is. -/
theorem dataLen_buf {p : List Byte} {s : Connection} (hfront : s.buf.take s.bufOffset <+: p)
    (hbuf : s.bufOffset ≤ s.buf.length) (hhead : packetHeaderSize ≤ s.bufOffset) :
    dataLen s.buf = dataLen p := by
  unfold packetHeaderSize at hhead
  have hlen : (s.buf.take s.bufOffset).length = s.bufOffset := by
    rw [List.length_take, Nat.min_eq_left hbuf]
  have htake := List.prefix_iff_eq_take.mp hfront
  rw [hlen] at htake
  apply dataLen_congr
  have h := congrArg (List.take 16) htake
  rwa [List.take_take, List.take_take, Nat.min_eq_left hhead] at h

/-- A packet that is not complete is waited for. -/
theorem handleBuf_waits {p : List Byte} (hp : IsPacket p) {s : Connection}
    (hfront : s.buf.take s.bufOffset <+: p) (hbuf : s.bufOffset ≤ s.buf.length)
    (hless : s.bufOffset < p.length) : handleBuf s = s := by
  have hlength := hp.length
  by_cases hhead : s.bufOffset < packetHeaderSize
  · rw [handleBuf, if_pos hhead]
  · rw [handleBuf, if_neg hhead, dataLen_buf hfront hbuf (by omega), if_pos (by omega)]

/-- A packet that ends where the bytes end is handed over. -/
theorem handleBuf_hands {p : List Byte} (hp : IsPacket p) {s : Connection}
    (hbytes : s.buf.take s.bufOffset = p) (hbuf : s.bufOffset ≤ s.buf.length) :
    handleBuf s = { s with calls := s.calls ++ [.of p], bufOffset := 0 } := by
  have hlength := hp.length
  have hoff : s.bufOffset = p.length := by
    rw [← hbytes, List.length_take, Nat.min_eq_left hbuf]
  have hfront : s.buf.take s.bufOffset <+: p := hbytes ▸ List.prefix_rfl
  rw [handleBuf, if_neg (by omega), dataLen_buf hfront hbuf (by omega), if_neg (by omega)]
  dsimp only
  rw [← hlength, ← hoff, hbytes, Nat.sub_self, hoff]
  rfl

/-- A piece that does not go on behind its packet. -/
theorem recvTurn_served {packets : List (List Byte)} (hpackets : ∀ p ∈ packets, IsPacket p)
    {bytes piece : List Byte} (hpiece : piece ≠ []) (hstream : bytes ++ piece <+: packets.flatten)
    (hone : ∀ j, (packets.take j).flatten.length ≤ bytes.length ∨
      bytes.length + piece.length ≤ (packets.take j).flatten.length)
    {s : Connection} (hok : s.Ok) {done rest : List (List Byte)}
    (h : Served packets bytes s done rest) :
    ∃ s' done' rest', recvTurn piece s = some s' ∧ s'.Ok ∧
      Served packets (bytes ++ piece) s' done' rest' := by
  obtain ⟨hopen, hbuf, hoff⟩ := hok
  obtain ⟨hsplit, hcalls, hbytes, hincomplete⟩ := h
  have hlen : (s.buf.take s.bufOffset).length = s.bufOffset := by
    rw [List.length_take, hbuf, Nat.min_eq_left hoff]
  rw [← hsplit, hbytes, List.flatten_append, List.append_assoc, List.prefix_append_right_inj]
    at hstream
  cases rest with
  | nil =>
    -- nothing is left to come
    have hnil := (List.append_eq_nil_iff.mp (List.prefix_nil.mp hstream)).2
    exact absurd hnil hpiece
  | cons p rest =>
    have hp := hpackets p (hsplit ▸ List.mem_append_right _ List.mem_cons_self)
    have hless := hincomplete p rfl
    have hmax := hp.max
    -- the packet in progress ends behind the piece, or with it
    have hend : s.bufOffset + piece.length ≤ p.length := by
      have hboundary : (packets.take (done.length + 1)).flatten = done.flatten ++ p := by
        rw [← hsplit, List.take_append, List.take_of_length_le (Nat.le_succ _),
          Nat.add_sub_cancel_left, List.flatten_append]
        simp
      have hcut := hone (done.length + 1)
      rw [hboundary, hbytes, List.length_append, List.length_append, hlen] at hcut
      omega
    have hlen' : (s.buf.take s.bufOffset ++ piece).length = s.bufOffset + piece.length := by
      rw [List.length_append, hlen]
    have hfront : s.buf.take s.bufOffset ++ piece <+: p :=
      List.prefix_of_prefix_length_le hstream (List.prefix_append p rest.flatten) (by omega)
    have hroom : s.bufOffset + piece.length ≤ s.buf.length := by omega
    have hbuf' := RingBuffer.blit_length hroom
    have hroom' := hbuf'.symm ▸ hroom
    have htake : (RingBuffer.blit s.buf s.bufOffset piece).take (s.bufOffset + piece.length) =
        s.buf.take s.bufOffset ++ piece := RingBuffer.take_blit (by omega)
    have hturn : recvTurn piece s = some (handleBuf { s with
        buf := RingBuffer.blit s.buf s.bufOffset piece
        bufOffset := s.bufOffset + piece.length }) := by
      rw [recvTurn, hopen, if_neg Bool.false_ne_true, if_neg hpiece, if_neg (by omega)]
    by_cases hwait : s.bufOffset + piece.length < p.length
    · refine ⟨_, done, p :: rest, hturn, ?_⟩
      rw [handleBuf_waits hp (by rw [htake]; exact hfront) hroom' hwait]
      refine ⟨⟨hopen, hbuf'.trans hbuf, hend.trans hmax⟩, hsplit, hcalls, ?_, ?_⟩
      · rw [htake, hbytes, List.append_assoc]
      · intro q hq
        obtain rfl := Option.some.inj hq
        exact hwait
    · have hwhole : s.buf.take s.bufOffset ++ piece = p :=
        hfront.eq_of_length (by omega)
      refine ⟨_, done ++ [p], rest, hturn, ?_⟩
      rw [handleBuf_hands hp (htake.trans hwhole) hroom']
      refine ⟨⟨hopen, hbuf'.trans hbuf, Nat.zero_le _⟩, ?_, ?_, ?_, ?_⟩
      · rw [List.append_assoc, ← hsplit]
        rfl
      · rw [hcalls, List.map_append]
        rfl
      · rw [hbytes, List.append_assoc, hwhole]
        simp
      · intro q hq
        have hq' := hpackets q (hsplit ▸ List.mem_append_right _
          (List.mem_cons_of_mem _ (List.mem_of_mem_head? hq)))
        have := hq'.length
        show 0 < q.length
        omega

/-! ## A connection -/

/-- **Every packet is handed over once**, in order and with its bytes, as long as no piece
goes on behind the packet it is in; after each piece those that are complete are. -/
theorem mesServer_calls {packets : List (List Byte)} (hpackets : ∀ p ∈ packets, IsPacket p)
    {pieces : List (List Byte)} (hpieces : ∀ piece ∈ pieces, piece ≠ [])
    (hstream : pieces.flatten <+: packets.flatten) (hone : InOnePacket packets pieces) :
    ∃ s done rest, mesServer pieces = some s ∧ Served packets pieces.flatten s done rest ∧
      (pieces.flatten = packets.flatten → s.calls = packets.map .of) := by
  suffices h : ∃ s done rest, mesServer pieces = some s ∧ s.Ok ∧
      Served packets pieces.flatten s done rest by
    obtain ⟨s, done, rest, hrun, hok, hserved⟩ := h
    refine ⟨s, done, rest, hrun, hserved, ?_⟩
    intro hall
    -- the whole stream: a packet that is left would be in the buffer
    obtain ⟨hsplit, hcalls, hbytes, hincomplete⟩ := hserved
    rw [hall, ← hsplit, List.flatten_append] at hbytes
    have htail := List.append_cancel_left hbytes
    cases rest with
    | nil => rw [hcalls, ← hsplit, List.append_nil]
    | cons p rest =>
      have hless := hincomplete p rfl
      have hlength := congrArg List.length htail
      rw [List.flatten_cons, List.length_append, List.length_take] at hlength
      omega
  induction pieces using List.reverseRecOn with
  | nil =>
    refine ⟨_, [], packets, rfl, ⟨rfl, List.length_replicate, Nat.zero_le _⟩, rfl, rfl, rfl, ?_⟩
    intro p hp
    have := (hpackets p (List.mem_of_mem_head? hp)).length
    show 0 < p.length
    omega
  | append_singleton pieces piece ih =>
    rw [List.flatten_append, List.flatten_singleton] at hstream
    obtain ⟨s, done, rest, hrun, hok, hserved⟩ := ih
      (fun q hq => hpieces q (List.mem_append_left _ hq))
      (List.IsPrefix.trans (List.prefix_append _ _) hstream)
      (fun before q after hq j => hone before q (after ++ [piece]) (by rw [hq]; simp) j)
    obtain ⟨s', done', rest', hturn, hok', hserved'⟩ := recvTurn_served hpackets
      (hpieces piece (by simp)) hstream (hone pieces piece [] rfl) hok hserved
    refine ⟨s', done', rest', ?_, hok', ?_⟩
    · rw [mesServer, runAll_append]
      show (mesServer pieces).bind _ = _
      rw [hrun, Option.bind_some, runAll, hturn]
      rfl
    · rwa [List.flatten_append, List.flatten_singleton]

/-- A packet without data, of a `cmd` that `tm_mes_msg_proc` does not know. -/
def packet1 : List Byte := [0x47, 0x47, 0x11] ++ List.replicate 21 0

/-- Another one, with a byte of data. -/
def packet2 : List Byte := [0x47, 0x47, 0x12] ++ List.replicate 11 0 ++ [1, 0] ++ List.replicate 9 0

/-- One packet cut inside its header and at its end, then one in one piece. -/
theorem mesServer_twoPackets :
    ∃ s done rest, mesServer [packet1.take 5, packet1.drop 5, packet2] = some s ∧
      Served [packet1, packet2] (packet1 ++ packet2) s done rest ∧
      (packet1 ++ packet2 = [packet1, packet2].flatten → s.calls = [packet1, packet2].map .of) := by
  have hboundary : ∀ j, (([packet1, packet2].take j).flatten).length = 0 ∨
      (([packet1, packet2].take j).flatten).length = 24 ∨
      (([packet1, packet2].take j).flatten).length = 49 := by
    intro j
    match j with
    | 0 => exact .inl rfl
    | 1 => exact .inr (.inl rfl)
    | j + 2 =>
      rw [List.take_of_length_le (by simp)]
      exact .inr (.inr rfl)
  refine @mesServer_calls [packet1, packet2] ?_ [packet1.take 5, packet1.drop 5, packet2]
    (by decide) ⟨[], by decide⟩ ?_
  · intro p hp
    rcases List.mem_pair.mp hp with rfl | rfl <;> exact ⟨by decide, by decide⟩
  · intro before piece after hsplit j
    -- the pieces are 5, 19 and 25 bytes long
    match before, hsplit with
    | [], hsplit =>
      obtain ⟨rfl, rfl⟩ := List.cons.inj hsplit
      show _ ≤ 0 ∨ 0 + 5 ≤ _
      rcases hboundary j with hj | hj | hj <;> omega
    | [_], hsplit =>
      simp only [List.singleton_append, List.cons.injEq] at hsplit
      obtain ⟨rfl, rfl, rfl⟩ := hsplit
      show _ ≤ 5 ∨ 5 + 19 ≤ _
      rcases hboundary j with hj | hj | hj <;> omega
    | [_, _], hsplit =>
      simp only [List.cons_append, List.nil_append, List.cons.injEq] at hsplit
      obtain ⟨rfl, rfl, rfl, rfl⟩ := hsplit
      show _ ≤ 24 ∨ 24 + 25 ≤ _
      rcases hboundary j with hj | hj | hj <;> omega
    | _ :: _ :: _ :: _, hsplit => simp at hsplit

/-! ## More packets than pieces -/

/-- One turn makes one call at most, whatever it finds in the buffer. -/
theorem length_handleBuf (s : Connection) : (handleBuf s).calls.length ≤ s.calls.length + 1 := by
  unfold handleBuf
  split_ifs
  · exact Nat.le_succ _
  · exact Nat.le_succ _
  · simp

/-- One piece makes one call at most. -/
theorem length_recvTurn {piece : List Byte} {s s' : Connection} (h : recvTurn piece s = some s') :
    s'.calls.length ≤ s.calls.length + 1 := by
  unfold recvTurn at h
  split_ifs at h
  · obtain rfl := Option.some.inj h
    exact Nat.le_succ _
  · obtain rfl := Option.some.inj h
    exact Nat.le_succ _
  · obtain rfl := Option.some.inj h
    exact length_handleBuf _

/-- A connection makes as many calls as pieces came, at most. -/
theorem length_runAll {pieces : List (List Byte)} {s s' : Connection}
    (h : runAll recvTurn pieces s = some s') : s'.calls.length ≤ s.calls.length + pieces.length := by
  induction pieces generalizing s with
  | nil =>
    obtain rfl := Option.some.inj h
    exact Nat.le_refl _
  | cons piece pieces ih =>
    obtain ⟨s₁, hturn, hrest⟩ := Option.bind_eq_some_iff.mp h
    have hone := length_recvTurn hturn
    have hmore := ih hrest
    rw [List.length_cons]
    omega

/-- **A turn hands over one packet at most**, so a stream that comes in fewer pieces than
it has packets loses some of them. -/
theorem fewPieces_lose {packets pieces : List (List Byte)} (hfew : pieces.length < packets.length)
    {s : Connection} (hrun : mesServer pieces = some s) : s.calls ≠ packets.map .of := by
  intro hcalls
  have hle := length_runAll hrun
  rw [hcalls, List.length_map, List.length_nil] at hle
  omega

/-- Two packets in one piece: the second is not handed over. -/
theorem twoPackets_not_called : ¬∀ packets pieces : List (List Byte),
    (∀ p ∈ packets, IsPacket p) → (∀ piece ∈ pieces, piece ≠ []) →
    pieces.flatten = packets.flatten →
    ∃ s, mesServer pieces = some s ∧ s.calls = packets.map .of := by
  intro h
  obtain ⟨s, hrun, hcalls⟩ := h [packet1, packet2] [packet1 ++ packet2] (by
    intro p hp
    rcases List.mem_pair.mp hp with rfl | rfl <;> exact ⟨by decide, by decide⟩) (by decide) (by decide)
  have hle := length_runAll hrun
  rw [hcalls] at hle
  exact absurd hle (by decide)

end PgClient.Mes
