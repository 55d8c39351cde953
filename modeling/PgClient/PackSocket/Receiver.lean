import PgClient.PackSocket.Parse

/-!
# The receiver, abstractly

What the socket class is for: a byte string that has not been parsed yet and
a list of pending fragments. `Pending` carries the fact that no message is
complete in it, `Receiver` that the bytes fit the FIFO. The list may be
*severed* (see `RecvList`); the next frame is then undefined behaviour.

* `Rep s r` — the state `s` of the source represents the receiver `r`.
* `recvSocketCmd_rep`, `parseSocketCmd_rep`, `serverDrain_rep`,
  `serverConnection_rep` — the source's operations refine the receiver's, with
  no hypothesis but `Rep`: they deliver the same messages and are undefined
  exactly where the receiver is.
* `Receiver.drain_of_frame` — taking all messages out, frame by frame.
-/

namespace PgClient.PackSocket

/-! ## Pending fragments -/

/-- Fragments of messages that are not complete. -/
structure Pending where
  frags : List SocketCmdInfo
  severed : Bool
  quiet : ∀ cmd, complete cmd frags = false

/-- A command is not complete while fewer fragments are there than `lastNo` says. -/
theorem complete_eq_false_iff {cmd : BitVec 16} {p : List SocketCmdInfo} :
    complete cmd p = false ↔
      ∀ m ms, fragsOf cmd p = m :: ms → ms.length + 1 < m.lastNo.toNat + 1 := by
  unfold complete
  cases fragsOf cmd p with
  | nil => simp
  | cons m ms => simp

/-- Fewer fragments behind the same first one complete nothing new. -/
theorem complete_of_prefix {cmd : BitVec 16} {p q : List SocketCmdInfo}
    (h : complete cmd q = false) (hpre : fragsOf cmd p <+: fragsOf cmd q) :
    complete cmd p = false := by
  rw [complete_eq_false_iff] at h ⊢
  intro m ms hms
  rw [hms] at hpre
  obtain ⟨more, hq⟩ := hpre
  have := h m (ms ++ more) (by rw [← hq, List.cons_append])
  rw [List.length_append] at this
  omega

/-- A release adds nothing to what is left of another command. -/
theorem fragsOf_kept_prefix {cmd c : BitVec 16} (p : List SocketCmdInfo) (hne : c ≠ cmd) :
    fragsOf c (kept cmd p) <+: fragsOf c p := by
  conv_rhs => rw [release_split cmd p]
  -- the run of `cmd` in front has nothing of `c`; what is kept is then a prefix
  have hfront : fragsOf c (p.takeWhile fun i => i.cmd = cmd) = [] := by
    refine List.filter_eq_nil_iff.mpr fun i hi => ?_
    have hicmd : i.cmd = cmd := by simpa using List.mem_takeWhile_imp hi
    simpa [hicmd] using Ne.symm hne
  rw [fragsOf] at hfront
  rw [fragsOf, fragsOf, List.filter_append, List.filter_append, hfront, List.nil_append]
  exact List.prefix_append _ _

/-- A released command has no fragment left. -/
theorem fragsOf_kept_self (cmd : BitVec 16) (p : List SocketCmdInfo) :
    fragsOf cmd (kept cmd p) = [] :=
  List.filter_eq_nil_iff.mpr fun i hi => by simpa using ne_of_mem_kept hi

namespace Pending

/-- Nothing pending. -/
def empty : Pending := ⟨[], false, fun _ => rfl⟩

/-- The fragments once a frame has been looked at. -/
def arrive (p : Pending) (info : SocketCmdInfo) : List SocketCmdInfo :=
  if crcOk info then p.frags ++ [info] else p.frags

/-- A fragment that arrives changes its own command only. -/
theorem fragsOf_arrive_of_ne (p : Pending) (info : SocketCmdInfo) {c : BitVec 16}
    (hne : c ≠ info.cmd) : fragsOf c (p.arrive info) = fragsOf c p.frags := by
  unfold arrive
  split_ifs
  · simp [fragsOf, Ne.symm hne]
  · rfl

/-- If a fragment completes nothing, no command is complete behind it. -/
theorem quiet_arrive (p : Pending) {info : SocketCmdInfo}
    (h : complete info.cmd (p.arrive info) = false) (c : BitVec 16) :
    complete c (p.arrive info) = false := by
  by_cases hc : c = info.cmd
  · rw [hc, h]
  · -- the other commands have no fragment more than before
    refine complete_of_prefix (p.quiet c) ?_
    rw [p.fragsOf_arrive_of_ne info hc]

/-- If it does, none is complete once its command is released. -/
theorem quiet_kept (p : Pending) (info : SocketCmdInfo) (c : BitVec 16) :
    complete c (kept info.cmd (p.arrive info)) = false := by
  by_cases hc : c = info.cmd
  · rw [complete, hc, fragsOf_kept_self]
  · refine complete_of_prefix (p.quiet c) ?_
    rw [← p.fragsOf_arrive_of_ne info hc]
    exact fragsOf_kept_prefix _ hc

/-- The message a frame completes: its own header fields, and the payloads of
all fragments with its command. -/
def message (info : SocketCmdInfo) (q : List SocketCmdInfo) : SocketCmd :=
  ⟨info.cmd, info.type, info.ipnum, BitVec.ofNat 32 (joined info.cmd q).length,
    joined info.cmd q⟩

/-- One frame: the pending fragments after it and the message it completed. -/
def absorb (p : Pending) (info : SocketCmdInfo) : Option (Pending × Option SocketCmd) :=
  if p.severed then none
  else if h : complete info.cmd (p.arrive info) = false then
    some (⟨p.arrive info, false, p.quiet_arrive h⟩, none)
  else
    some (⟨kept info.cmd (p.arrive info), cuts info.cmd (p.arrive info), p.quiet_kept info⟩,
      some (message info (p.arrive info)))

/-- What a frame that passes the CRC check can do to a list that is not severed. -/
theorem absorb_of_crcOk {p : Pending} (hsev : p.severed = false) {info : SocketCmdInfo}
    (h : crcOk info = true) :
    (complete info.cmd (p.frags ++ [info]) = false ∧
      ∃ p', p.absorb info = some (p', none) ∧ p'.frags = p.frags ++ [info] ∧
        p'.severed = false) ∨
    (complete info.cmd (p.frags ++ [info]) = true ∧
      ∃ p', p.absorb info = some (p', some (message info (p.frags ++ [info]))) ∧
        p'.frags = kept info.cmd (p.frags ++ [info]) ∧
        p'.severed = cuts info.cmd (p.frags ++ [info])) := by
  -- a frame whose check holds is put into the list
  have harrive : p.arrive info = p.frags ++ [info] := if_pos h
  rw [absorb, hsev, if_neg Bool.false_ne_true]
  simp only [harrive]
  by_cases hc : complete info.cmd (p.frags ++ [info]) = false
  · rw [dif_pos hc]
    exact Or.inl ⟨hc, _, rfl, rfl, rfl⟩
  · rw [dif_neg hc]
    exact Or.inr ⟨Bool.of_not_eq_false hc, _, rfl, rfl, rfl⟩

/-- A frame that fails the CRC check changes nothing. -/
theorem absorb_of_not_crcOk {p : Pending} (hsev : p.severed = false) {info : SocketCmdInfo}
    (h : crcOk info = false) : p.absorb info = some (p, none) := by
  have harrive : p.arrive info = p.frags := by simp [arrive, h]
  obtain ⟨frags, severed, quiet⟩ := p
  simp only at hsev harrive
  subst hsev
  simp [absorb, harrive, quiet]

end Pending

/-- A list in memory that holds the pending fragments. -/
def HoldsPending (s : RecvList) (p : Pending) : Prop := Held s p.frags p.severed

/-- `storeFrame` puts the frame at the end of the list that is held. -/
theorem storeFrame_held {s : RecvList} {p : Pending} (h : HoldsPending s p)
    (hsev : p.severed = false) (info : SocketCmdInfo) :
    ∃ s', storeFrame s info = some s' ∧ Held s' (p.arrive info) false := by
  rw [HoldsPending, hsev] at h
  cases hcrc : crcOk info with
  | true =>
    obtain ⟨s', hadd, hheld⟩ := addRecvList_held h info
    exact ⟨s', by rw [storeFrame, if_pos hcrc, hadd], by rwa [Pending.arrive, if_pos hcrc]⟩
  | false => exact ⟨s, by simp [storeFrame, hcrc], by simpa [Pending.arrive, hcrc] using h⟩

/-- Behind a severed list every frame is undefined: it is added behind released
memory, or searched for there. -/
theorem parseFrame_severed {s : RecvList} {p : Pending} (h : HoldsPending s p)
    (hsev : p.severed = true) (pBuffer : List Byte) : parseFrame s pBuffer = none := by
  rw [HoldsPending, hsev] at h
  rw [parseFrame, storeFrame]
  split_ifs
  · -- the CRC is right, so the fragment is added
    rw [addRecvList_severed h, Option.bind_none]
  · -- the CRC is wrong, but the count test is made all the same
    rw [Option.bind_some, deliverFrame, checkRecvList2_severed h (p.quiet _)]

/-- One frame in the source is one frame of the receiver. -/
theorem parseFrame_rep {s : RecvList} {p : Pending} (h : HoldsPending s p) (pBuffer : List Byte) :
    Option.Rel (fun out out' => HoldsPending out.1 out'.1 ∧ out.2 = out'.2)
      (parseFrame s pBuffer) (p.absorb (parseInfo pBuffer)) := by
  cases hsev : p.severed with
  | true =>
    rw [parseFrame_severed h hsev, Pending.absorb, if_pos hsev]
    exact .none
  | false =>
    generalize hinfo : parseInfo pBuffer = info
    obtain ⟨s', hstore, hheld⟩ := storeFrame_held h hsev info
    have hcheck := checkRecvList2_held hheld info.cmd
    rw [parseFrame, hinfo, hstore, Option.bind_some, deliverFrame, Pending.absorb, hsev,
      if_neg Bool.false_ne_true, hcheck]
    -- `_checkRecvList2` decides as `absorb` does: keep the fragment, or collect and release
    by_cases hcomplete : complete info.cmd (p.arrive info) = false
    · rw [dif_pos hcomplete, hcomplete]
      exact .some ⟨hheld, rfl⟩
    · obtain ⟨s'', hdestory, hkept⟩ := destoryRecvList2_held hheld info.cmd
      rw [dif_neg hcomplete, Bool.of_not_eq_false hcomplete, collectcmd_held hheld, hdestory]
      exact .some ⟨hkept, rfl⟩

/-! ## The receiver -/

/-- The bytes not parsed yet, and the pending fragments. -/
structure Receiver where
  buf : List Byte
  pending : Pending
  room : buf.length ≤ fifoMaxLen

namespace Receiver

/-- Nothing received. -/
def fresh : Receiver := ⟨[], .empty, Nat.zero_le _⟩

/-- Store a chunk if it fits. -/
def recv (r : Receiver) (data : List Byte) : Receiver × Bool :=
  if h : r.buf.length + data.length ≤ fifoMaxLen then
    (⟨r.buf ++ data, r.pending, by rwa [List.length_append]⟩, true)
  else (r, false)

/-- The receiver with `k` bytes parsed. -/
def advance (r : Receiver) (k : Nat) (p : Pending) : Receiver :=
  ⟨r.buf.drop k, p, by rw [List.length_drop]; exact (Nat.sub_le _ _).trans r.room⟩

/-- Parse one frame. -/
def turn (r : Receiver) : Receiver ⊕ Option (Receiver × Option SocketCmd) :=
  match frameLen r.buf with
  | none => .inr (some (r, none))
  | some k =>
    match r.pending.absorb (parseInfo (r.buf.take k)) with
    | none => .inr none
    | some (p, none) => .inl (r.advance k p)
    | some (p, some cmd) => .inr (some (r.advance k p, some cmd))

/-- A frame that is taken leaves less in the buffer. -/
theorem advance_lt {r : Receiver} {k : Nat} (h : frameLen r.buf = some k) (p : Pending) :
    (r.advance k p).buf.length < r.buf.length := by
  have := frameLen_bounds h
  rw [advance, List.length_drop]
  omega

/-- Parse frames until a message is complete. -/
def loop : ConsumingLoop Receiver (Option (Receiver × Option SocketCmd)) where
  turn := turn
  size r := r.buf.length
  consumes {r r'} h := by
    unfold turn at h
    split at h
    · exact absurd h (by simp)
    · next k hk =>
      split at h
      · exact absurd h (by simp)
      · next p _ =>
        obtain rfl := Sum.inl.inj h
        exact advance_lt hk p
      · exact absurd h (by simp)

/-- The next message, if one is complete. -/
def parse (r : Receiver) : Option (Receiver × Option SocketCmd) := loop.run r

/-- Without a whole frame at the head nothing happens. -/
theorem parse_of_none {r : Receiver} (h : frameLen r.buf = none) : r.parse = some (r, none) :=
  ConsumingLoop.run_of_inr (by simp only [loop, turn, h])

/-- With one, the pending list takes it in. -/
theorem parse_of_frame {r : Receiver} {k : Nat} (h : frameLen r.buf = some k) :
    r.parse =
      match r.pending.absorb (parseInfo (r.buf.take k)) with
      | none => none
      | some (p, none) => (r.advance k p).parse
      | some (p, some cmd) => some (r.advance k p, some cmd) := by
  cases habs : r.pending.absorb (parseInfo (r.buf.take k)) with
  | none => exact ConsumingLoop.run_of_inr (by simp only [loop, turn, h, habs])
  | some out =>
    obtain ⟨p, d⟩ := out
    cases d with
    | none => exact ConsumingLoop.run_of_inl (by simp only [loop, turn, h, habs])
    | some cmd => exact ConsumingLoop.run_of_inr (by simp only [loop, turn, h, habs])

/-- A command is handed out only for bytes that leave the buffer. -/
theorem parse_consumes {r r' : Receiver} {cmd : SocketCmd} (h : r.parse = some (r', some cmd)) :
    r'.buf.length < r.buf.length := by
  induction r using loop.run_induct with
  | step r ih =>
    cases hk : frameLen r.buf with
    | none => simp [parse_of_none hk] at h
    | some k =>
      rw [parse_of_frame hk] at h
      split at h
      · exact absurd h (by simp)
      -- a frame that completes nothing: the loop goes on with less
      · next p habs =>
        have hturn : loop.turn r = .inl (r.advance k p) := by simp only [loop, turn, hk, habs]
        exact (ih _ hturn h).trans (advance_lt hk p)
      · next p cmd' _ =>
        obtain ⟨rfl, -⟩ := Prod.mk.inj (Option.some.inj h)
        exact advance_lt hk p

/-- Take messages out until none is complete. -/
def serverLoop : ConsumingLoop (Receiver × List SocketCmd)
    (Option (Receiver × List SocketCmd)) where
  turn s :=
    match s.1.parse with
    | none => .inr none
    | some (r, none) => .inr (some (r, s.2))
    | some (r, some cmd) => .inl (r, s.2 ++ [cmd])
  size s := s.1.buf.length
  consumes {s s'} h := by
    split at h
    · exact absurd h (by simp)
    · exact absurd h (by simp)
    · next hparse =>
      obtain rfl := Sum.inl.inj h
      exact parse_consumes hparse

/-- All messages that are complete. -/
def drain (r : Receiver) : Option (Receiver × List SocketCmd) := serverLoop.run (r, [])

/-- One connection. -/
def serve (r : Receiver) : List (List Byte) → Option (Served Receiver)
  | [] => some ⟨r, [], true⟩
  | data :: chunks =>
    match (r.recv data).1.drain with
    | none => none
    | some (r', cmds) =>
      match serve r' chunks with
      | none => none
      | some rest => some ⟨rest.state, cmds ++ rest.cmds, (r.recv data).2 && rest.stored⟩

/-! ### Frame by frame -/

/-- The loop hands its commands on behind those it has already. -/
private theorem serverLoop_acc (r : Receiver) (acc : List SocketCmd) :
    serverLoop.run (r, acc) = r.drain.map fun out => (out.1, acc ++ out.2) := by
  -- the same loop from two accumulators, turn by turn
  refine ConsumingLoop.run_sim (L := serverLoop) (M := serverLoop) (t := (r, []))
    (R := fun s t => s.1 = t.1 ∧ s.2 = acc ++ t.2)
    (Q := fun b c => b = c.map fun out => (out.1, acc ++ out.2)) ?_
    ⟨rfl, (List.append_nil acc).symm⟩
  rintro ⟨r, a⟩ ⟨r', a'⟩ ⟨rfl : r = r', rfl : a = acc ++ a'⟩
  simp only [serverLoop]
  rcases r.parse with _ | ⟨r', _ | cmd⟩
  · exact .inr rfl
  · exact .inr rfl
  · exact .inl ⟨rfl, List.append_assoc ..⟩

/-- Without a whole frame at the head there is nothing to drain. -/
theorem drain_of_none {r : Receiver} (h : frameLen r.buf = none) : r.drain = some (r, []) :=
  ConsumingLoop.run_of_inr (by simp only [serverLoop, parse_of_none h])

/-- `drain` is `parse` once, and `drain` again if that delivered. -/
theorem drain_eq_parse (r : Receiver) :
    r.drain =
      match r.parse with
      | none => none
      | some (r', none) => some (r', [])
      | some (r', some cmd) => r'.drain.map fun out => (out.1, cmd :: out.2) := by
  rcases hparse : r.parse with _ | ⟨r', _ | cmd⟩
  · exact ConsumingLoop.run_of_inr (by simp only [serverLoop, hparse])
  · exact ConsumingLoop.run_of_inr (by simp only [serverLoop, hparse])
  · have hturn : serverLoop.turn (r, []) = .inl (r', [cmd]) := by
      simp only [serverLoop, hparse, List.nil_append]
    rw [drain, ConsumingLoop.run_of_inl hturn, serverLoop_acc]
    rfl

/-- **One frame of a drain**: it is absorbed, and the drain goes on behind it. -/
theorem drain_of_frame {r : Receiver} {k : Nat} (h : frameLen r.buf = some k) :
    r.drain =
      match r.pending.absorb (parseInfo (r.buf.take k)) with
      | none => none
      | some (p, d) => (r.advance k p).drain.map fun out => (out.1, d.toList ++ out.2) := by
  rw [drain_eq_parse, parse_of_frame h]
  rcases r.pending.absorb (parseInfo (r.buf.take k)) with _ | ⟨p, _ | cmd⟩
  · rfl
  · -- no message yet: the same call of `parse` goes on
    simp only [Option.toList_none, List.nil_append]
    rw [← drain_eq_parse, Option.map_id']
  · rfl

end Receiver

/-! ## Refinement -/

/-- An initialised state that represents the receiver. -/
structure Live (s : SocketCmdClass) (r : Receiver) : Prop where
  fifo : s.cmdFifo.Ok
  buf : s.cmdFifo.bytes = r.buf
  list : HoldsPending s.gstRecvSocketCmdList r.pending

/-- A state that represents the receiver, perhaps only once `init_cmd_fifo` has
seen it. -/
def Rep (s : SocketCmdClass) (r : Receiver) : Prop := Live (initCmdFifo s) r

/-- A receiver that goes on represents one. -/
theorem Live.rep {s : SocketCmdClass} {r : Receiver} (h : Live s r) : Rep s r := by
  rw [Rep, initCmdFifo_of_bInit h.fifo.init]
  exact h

/-- A class that `client_init` has set up is a fresh receiver. -/
theorem rep_fresh {block : List Byte} (h : block.length = fifoMaxLen) :
    Rep (initSocketCmdClass zeroClass block) .fresh where
  fifo := ⟨rfl, rfl, h, Nat.zero_lt_succ _, Nat.zero_le _, rfl⟩
  buf := RingBuffer.contents_zero ..
  list := held_init _

/-- `recv_socket_cmd` is the receiver's own `recv`. -/
theorem recvSocketCmd_rep {s : SocketCmdClass} {r : Receiver} (h : Rep s r)
    (pData : List Byte) :
    Rep (recvSocketCmd s pData).1 (r.recv pData).1 ∧
      (recvSocketCmd s pData).2 = (r.recv pData).2 := by
  have hwrite := writeCmdFifo_spec h.fifo pData
  rw [h.buf] at hwrite
  unfold recvSocketCmd Receiver.recv
  split_ifs at hwrite ⊢ with hroom
  · obtain ⟨fifo, hfifo, hok, hbytes⟩ := hwrite
    simp only [hfifo]
    exact ⟨Live.rep ⟨hok, hbytes, h.list⟩, trivial⟩
  · simp only [hwrite]
    exact ⟨h.rep, trivial⟩

/-- A result of the source represents a result of the receiver. -/
def RepOut {α : Type} (out : SocketCmdClass × α) (out' : Receiver × α) : Prop :=
  Rep out.1 out'.1 ∧ out.2 = out'.2

/-- A turn of the loop over the source is a turn over the receiver. -/
theorem parseTurn_rep {s : SocketCmdClass} {r : Receiver} (h : Live s r) :
    Sum.LiftRel Live (Option.Rel RepOut) (parseTurn s) r.turn := by
  have hread := readCmdTryRead_spec h.fifo
  rw [h.buf] at hread
  unfold Receiver.turn
  rcases parseTurn_cases s with ⟨hnone, hturn⟩ | ⟨k, hsome, hturn⟩
  · rw [← hread, hnone, hturn]
    exact .inr (.some ⟨h.rep, rfl⟩)
  · rw [hsome] at hread
    have hk := (frameLen_bounds hread.symm).2
    rw [← h.buf] at hk
    obtain ⟨hbytes, hok, hrest⟩ := readCmdFifo_spec h.fifo hk
    rw [h.buf] at hbytes hrest
    rw [← hread, hturn, hbytes]
    dsimp only
    have hframe := parseFrame_rep h.list (r.buf.take k)
    -- both sides are behind the frame now, whatever it did to the list
    have hlive : ∀ {list : RecvList} {p : Pending}, HoldsPending list p →
        Live ⟨list, (readCmdFifo s.cmdFifo k).2⟩ (r.advance k p) :=
      fun hp => ⟨hok, hrest, hp⟩
    rcases hout : parseFrame s.gstRecvSocketCmdList (r.buf.take k) with _ | ⟨list, d⟩ <;>
      rcases hout' : r.pending.absorb (parseInfo (r.buf.take k)) with _ | ⟨p, d'⟩ <;>
      rw [hout, hout'] at hframe
    · exact .inr .none
    · cases hframe
    · cases hframe
    · cases hframe with
      | some hrel =>
        obtain ⟨hp, rfl⟩ : HoldsPending list p ∧ d = d' := hrel
        cases d with
        | none => exact .inl (hlive hp)
        | some cmd => exact .inr (.some ⟨(hlive hp).rep, rfl⟩)

/-- **`parseSocketCmd` refines `Receiver.parse`.** -/
theorem parseSocketCmd_rep {s : SocketCmdClass} {r : Receiver} (h : Rep s r) :
    Option.Rel RepOut (parseSocketCmd s) r.parse :=
  ConsumingLoop.run_sim (R := Live) (fun h => parseTurn_rep h) h

/-- What the receiver parses, the source parses. -/
theorem parseSocketCmd_of_parse {s : SocketCmdClass} {r r' : Receiver} {d : Option SocketCmd}
    (h : Rep s r) (hparse : r.parse = some (r', d)) :
    ∃ s', parseSocketCmd s = some (s', d) ∧ Rep s' r' := by
  have hrep := parseSocketCmd_rep h
  rw [hparse] at hrep
  rcases hout : parseSocketCmd s with _ | ⟨s', d'⟩ <;> rw [hout] at hrep
  · cases hrep
  · cases hrep with
    | some hrel =>
      obtain ⟨hrep', rfl⟩ : Rep s' r' ∧ d' = d := hrel
      exact ⟨s', rfl, hrep'⟩

/-- **The parse loop of `server_start` refines `Receiver.drain`.** -/
theorem serverDrain_rep {s : SocketCmdClass} {r : Receiver} (h : Rep s r) :
    Option.Rel RepOut (serverDrain s) r.drain := by
  -- the messages delivered so far are the same at every turn
  refine ConsumingLoop.run_sim (R := fun a b => Rep a.1 b.1 ∧ a.2 = b.2) ?_ ⟨h, rfl⟩
  rintro ⟨s, acc⟩ ⟨r, acc'⟩ ⟨hrep, rfl : acc = acc'⟩
  have hparse := parseSocketCmd_rep hrep
  simp only [serverLoop, Receiver.serverLoop]
  rcases hs : parseSocketCmd s with _ | ⟨s', d⟩ <;> rcases hr : r.parse with _ | ⟨r', d'⟩ <;>
    rw [hs, hr] at hparse
  · exact .inr .none
  · cases hparse
  · cases hparse
  · cases hparse with
    | some hrel =>
      obtain ⟨hrep', rfl⟩ : Rep s' r' ∧ d = d' := hrel
      cases d with
      | none => exact .inr (.some ⟨hrep', rfl⟩)
      | some cmd => exact .inl ⟨hrep', rfl⟩

/-- Where the receiver's drain is undefined, the source's is. -/
theorem serverDrain_of_none {s : SocketCmdClass} {r : Receiver} (h : Rep s r)
    (hdrain : r.drain = none) : serverDrain s = none := by
  have hrep := serverDrain_rep h
  rw [hdrain] at hrep
  cases hout : serverDrain s with
  | none => rfl
  | some out => rw [hout] at hrep; cases hrep

/-- **A connection of `server_start` refines `Receiver.serve`.** -/
theorem serverConnection_rep {s : SocketCmdClass} {r : Receiver} (h : Rep s r)
    (chunks : List (List Byte)) :
    Option.Rel (fun out out' => Rep out.state out'.state ∧ out.cmds = out'.cmds ∧
      out.stored = out'.stored) (serverConnection s chunks) (r.serve chunks) := by
  induction chunks generalizing s r with
  | nil => exact .some ⟨h, rfl, rfl⟩
  | cons arg chunks ih =>
    obtain ⟨hrecv, hstored⟩ := recvSocketCmd_rep h arg
    have hdrain := serverDrain_rep hrecv
    rw [serverConnection, Receiver.serve, hstored]
    -- undefined on both sides or on neither, so the mixed cases are void
    rcases hs : serverDrain (recvSocketCmd s arg).1 with _ | ⟨s', cmds⟩ <;>
      rcases hr : (r.recv arg).1.drain with _ | ⟨r', cmds'⟩ <;> rw [hs, hr] at hdrain
    · exact .none
    · cases hdrain
    · cases hdrain
    · cases hdrain with
      | some hrel =>
        obtain ⟨hrep', rfl⟩ : Rep s' r' ∧ cmds = cmds' := hrel
        have hrest := ih hrep'
        simp only
        rcases hs' : serverConnection s' chunks with _ | rest <;>
          rcases hr' : r'.serve chunks with _ | rest' <;> rw [hs', hr'] at hrest
        · exact .none
        · cases hrest
        · cases hrest
        · cases hrest with
          | some hrel =>
            obtain ⟨hstate, hcmds, hst⟩ := hrel
            exact .some ⟨hstate, by rw [hcmds], by rw [hst]⟩

/-- What the receiver does on a connection, the source does. -/
theorem serverConnection_of_serve {s : SocketCmdClass} {r : Receiver} (h : Rep s r)
    {chunks : List (List Byte)} {out : Served Receiver} (hserve : r.serve chunks = some out) :
    ∃ s', serverConnection s chunks = some ⟨s', out.cmds, out.stored⟩ ∧ Rep s' out.state := by
  have hrep := serverConnection_rep h chunks
  rw [hserve] at hrep
  cases hout : serverConnection s chunks with
  | none => rw [hout] at hrep; cases hrep
  | some out' =>
    rw [hout] at hrep
    cases hrep with
    | some hrel => exact ⟨out'.state, by rw [← hrel.2.1, ← hrel.2.2], hrel.1⟩

/-- Where the receiver is undefined, so is the source. -/
theorem serverConnection_of_none {s : SocketCmdClass} {r : Receiver} (h : Rep s r)
    {chunks : List (List Byte)} (hserve : r.serve chunks = none) :
    serverConnection s chunks = none := by
  have hrep := serverConnection_rep h chunks
  rw [hserve] at hrep
  cases hout : serverConnection s chunks with
  | none => rfl
  | some out' => rw [hout] at hrep; cases hrep

end PgClient.PackSocket
