import PgClient.PackSocket.Transparency

/-!
# Reconnection

`server_start` keeps its socket class from one connection to the next, and
`init_cmd_fifo` resets it only on the very first call. So what the first
connection left in the FIFO and in the receive list meets the next one.

`reconnect_independent_iff`: the next connection is served as by a fresh class,
whatever it sends, exactly when FIFO and list were left empty. In one direction
the states are the same receiver; in the other, one short message tells them
apart (`Receiver.eq_fresh_of_same`).
-/

namespace PgClient.PackSocket

namespace Receiver

/-! ## What is left after a drain -/

/-- A drain stops where no whole frame is left at the head. -/
theorem drain_frameLen {r r' : Receiver} {cmds : List SocketCmd} (h : r.drain = some (r', cmds)) :
    frameLen r'.buf = none := by
  -- on the bytes left; a drain stops only where no frame is complete
  induction hn : r.buf.length using Nat.strongRecOn generalizing r cmds with
  | ind n ih =>
    cases hk : PackSocket.frameLen r.buf with
    | none =>
      rw [drain_of_none hk] at h
      obtain ⟨rfl, -⟩ := Prod.mk.inj (Option.some.inj h)
      exact hk
    | some k =>
      rw [drain_of_frame hk] at h
      rcases habs : r.pending.absorb (parseInfo (r.buf.take k)) with _ | ⟨p, d⟩ <;> rw [habs] at h
      · exact absurd h (by simp)
      · obtain ⟨⟨r'', cmds'⟩, hdrain, hout⟩ := Option.map_eq_some_iff.mp h
        obtain ⟨rfl, -⟩ := Prod.mk.inj hout
        exact ih _ (hn ▸ advance_lt hk p) hdrain rfl

/-- So does every connection that began that way. -/
theorem serve_frameLen {r : Receiver} {chunks : List (List Byte)} {out : Served Receiver}
    (hr : frameLen r.buf = none) (h : r.serve chunks = some out) :
    frameLen out.state.buf = none := by
  induction chunks generalizing r out with
  | nil =>
    obtain rfl := Option.some.inj h
    exact hr
  | cons c chunks ih =>
    rw [serve] at h
    -- each chunk is drained before the next one comes
    rcases hdrain : (r.recv c).1.drain with _ | ⟨r', cmds⟩ <;> rw [hdrain] at h
    · exact absurd h (by simp)
    · dsimp only at h
      rcases hserve : r'.serve chunks with _ | rest <;> rw [hserve] at h
      · exact absurd h (by simp)
      · have hrest := ih (drain_frameLen hdrain) hserve
        rw [← Option.some.inj h]
        exact hrest

/-! ## Telling a receiver from a fresh one -/

/-- What a receiver delivers on a connection. -/
def delivers (r : Receiver) (chunks : List (List Byte)) : Option (List SocketCmd) :=
  (r.serve chunks).map Served.cmds

/-- One chunk is received and drained. -/
theorem delivers_singleton (r : Receiver) (c : List Byte) :
    r.delivers [c] = (r.recv c).1.drain.map Prod.snd := by
  rw [delivers, serve]
  rcases (r.recv c).1.drain with _ | ⟨r', cmds⟩
  · rfl
  · simp [serve]

/-- A stream that fits an empty buffer, in one chunk. -/
theorem delivers_stream {r : Receiver} (hbuf : r.buf = []) {fs : List Frag}
    (hfits : ∀ f ∈ fs, f.Fits) (hlen : (streamBytes fs).length ≤ fifoMaxLen) :
    r.delivers [streamBytes fs] = (r.pending.absorbAll (fs.map Frag.info)).map Prod.snd := by
  rw [delivers_singleton, recv, dif_pos (by simpa [hbuf] using hlen)]
  have hon : ({ r with buf := r.buf ++ streamBytes fs, room := by simpa [hbuf] using hlen } :
      Receiver).OnStream (fs.map Frag.bytes) [] :=
    ⟨isFrame_of_mem_map hfits, by simp [hbuf, streamBytes_eq_flatten]⟩
  rw [drain_all hon, map_parseInfo_bytes hfits, Option.map_map]
  rfl

/-- A message in one or two short parts, for the command `c`. -/
def probe (c : BitVec 16) (parts : List (List Byte)) (hne : parts ≠ [])
    (hcount : parts.length ≤ 65536) : Msg :=
  ⟨c.setWidth 32, 0, parts, hne, hcount⟩

/-- The probe is of the command it is built for. -/
theorem probe_cmd (c : BitVec 16) (parts : List (List Byte)) (hne : parts ≠ [])
    (hcount : parts.length ≤ 65536) : (probe c parts hne hcount).cmd = c := by
  apply BitVec.eq_of_toNat_eq
  simp only [probe, Msg.cmd, BitVec.toNat_setWidth, BitVec.toNat_and, BitVec.toNat_ofNat]
  rw [show 65535 % 2 ^ 32 = 2 ^ 16 - 1 from rfl, Nat.and_two_pow_sub_one_eq_mod]
  omega

/-- An empty message, in one frame of 20 bytes. -/
def probe₁ (c : BitVec 16) : Msg := probe c [[]] Msg.emptyPart_ne Msg.emptyPart_count

/-- A message whose first part is empty. -/
def probe₂ (c : BitVec 16) (q : List Byte) : Msg := probe c [[], q] (by simp) (by simp)

end Receiver

/-- A frame completes no command but its own. -/
theorem Pending.absorb_cmd {p p' : Pending} {info : SocketCmdInfo} {cmd : SocketCmd}
    (h : p.absorb info = some (p', some cmd)) : cmd.cmd = info.cmd := by
  unfold absorb at h
  split_ifs at h
  · exact absurd (Prod.mk.inj (Option.some.inj h)).2 (by simp)
  · rw [← Option.some.inj (Prod.mk.inj (Option.some.inj h)).2]
    rfl

namespace Receiver

/-- Behind left-over bytes, a 20-byte frame is delivered only under the command
that the left-over bytes and the frame make up together. -/
theorem cmd_of_leftover {r : Receiver} (hne : r.buf ≠ []) (hnone : frameLen r.buf = none)
    {fr : List Byte} (hfr : fr.length = headLen + 4) {d : SocketCmd}
    (h : r.delivers [fr] = some [d]) : d.cmd = getShort (r.buf ++ fr) 2 := by
  have hpos := List.length_pos_iff.mpr hne
  have hhead : headLen = 16 := rfl
  rw [delivers_singleton, recv] at h
  split_ifs at h with hroom
  · set r₁ : Receiver := ⟨r.buf ++ fr, r.pending, by rwa [List.length_append]⟩ with hr₁
    cases hk : PackSocket.frameLen r₁.buf with
    | none =>
      rw [drain_of_none hk] at h
      exact absurd h (by simp)
    | some k =>
      -- the frame found starts in the old bytes and ends in the new ones
      have hkr : r.buf.length < k := by
        by_contra hle
        have hbounds := frameLen_bounds hk
        have hframe := isFrame_of_frameLen hk
        have htake : r₁.buf.take k = r.buf.take k :=
          List.take_append_of_le_length (Nat.not_lt.mp hle)
        rw [htake] at hframe
        have := frameLen_append hframe (r.buf.drop k)
        rw [List.take_append_drop, hnone] at this
        exact absurd this (by simp)
      -- less than 20 bytes are behind that frame, so it is the only one
      have hrest : ∀ p, PackSocket.frameLen (r₁.advance k p).buf = none := fun p => by
        refine if_neg fun hc => ?_
        have hlen : (r₁.advance k p).buf.length = r.buf.length + fr.length - k := by
          rw [advance_buf, List.length_drop, hr₁, List.length_append]
        omega
      rw [drain_of_frame hk] at h
      rcases habs : r₁.pending.absorb (parseInfo (r₁.buf.take k)) with _ | ⟨p, _ | cmd⟩ <;>
        rw [habs] at h
      · exact absurd h (by simp)
      · dsimp only at h
        rw [drain_of_none (hrest p)] at h
        exact absurd h (by simp)
      · dsimp only at h
        rw [drain_of_none (hrest p)] at h
        obtain rfl : cmd = d := by simpa using h
        rw [Pending.absorb_cmd habs]
        have hbounds := frameLen_bounds hk
        exact getShort_take (by omega)
  · rw [drain_of_none hnone] at h
    exact absurd h (by simp)

/-- Left-over bytes spoil the empty message of command 0 or that of command 1. -/
theorem leftover_spoils {r : Receiver} (hne : r.buf ≠ []) (hnone : frameLen r.buf = none)
    (h₀ : r.delivers [streamBytes (probe₁ 0).frags] = some [(probe₁ 0).delivery])
    (h₁ : r.delivers [streamBytes (probe₁ 1).frags] = some [(probe₁ 1).delivery]) : False := by
  have hcmd₀ := cmd_of_leftover hne hnone (by decide) h₀
  have hcmd₁ := cmd_of_leftover hne hnone (by decide) h₁
  have hfr₀ : streamBytes (probe₁ 0).frags =
      [0x47, 0x47, 0, 0, 0, 0, 0, 0, 0, 0, 0, 0, 0, 0, 0, 0, 0, 0, 0, 0] := by decide
  have hfr₁ : streamBytes (probe₁ 1).frags =
      [0x47, 0x47, 0, 1, 0, 0, 0, 0, 0, 0, 0, 0, 0, 0, 0, 0, 0, 0, 0, 0] := by decide
  rw [hfr₀] at hcmd₀
  rw [hfr₁] at hcmd₁
  -- the command field is at bytes 2 and 3
  match hbuf : r.buf with
  | [] => exact hne hbuf
  -- one or two bytes: `SYNC_HEAD` slides into the command field
  | [a] =>
    rw [hbuf] at hcmd₀
    simp only [getShort, List.cons_append, List.nil_append, List.getD_cons_succ,
      List.getD_cons_zero] at hcmd₀
    exact absurd hcmd₀ (by decide)
  | [a, b] =>
    rw [hbuf] at hcmd₀
    simp only [getShort, List.cons_append, List.nil_append, List.getD_cons_succ,
      List.getD_cons_zero] at hcmd₀
    exact absurd hcmd₀ (by decide)
  -- three bytes: its low half is 0x47, whatever the high one is
  | [a, b, c] =>
    rw [hbuf] at hcmd₀
    have hlow : ∀ c : Byte, (probe₁ 0).delivery.cmd ≠ (c.setWidth 16 <<< 8) ||| 0x47#16 := by
      decide
    exact hlow c hcmd₀
  -- the field lies in the old bytes and cannot be both commands
  | a :: b :: c :: d :: rest =>
    rw [getShort_append _ (by simp [hbuf])] at hcmd₀ hcmd₁
    exact absurd (hcmd₀.trans hcmd₁.symm) (by decide)

/-- Pending fragments spoil a message of the first one's command: its first part
is taken for the part that is missing, or the message never completes. -/
theorem pending_spoils {p : Pending} {i : SocketCmdInfo} {is : List SocketCmdInfo}
    (hfrags : p.frags = i :: is) {q : List Byte} (hq : q ≠ joined i.cmd p.frags)
    (h₁ : (p.absorbAll ((probe₁ i.cmd).frags.map Frag.info)).map Prod.snd =
      some [(probe₁ i.cmd).delivery])
    (h₂ : (p.absorbAll ((probe₂ i.cmd q).frags.map Frag.info)).map Prod.snd =
      some [(probe₂ i.cmd q).delivery]) : False := by
  have hcomplete : ∀ {info : SocketCmdInfo}, info.cmd = i.cmd → complete i.cmd (p.frags ++ [info]) =
      decide (i.lastNo.toNat + 1 ≤ (fragsOf i.cmd is).length + 1 + 1) := by
    intro info hinfo
    simp [complete, fragsOf, hfrags, hinfo]
  have hcmd₁ : ((probe₁ i.cmd).frag 0 []).info.cmd = i.cmd :=
    (probe_cmd i.cmd [[]] (by simp) (by simp) : (probe₁ i.cmd).cmd = i.cmd)
  have hcmd₂ : ((probe₂ i.cmd q).frag 0 []).info.cmd = i.cmd :=
    (probe_cmd i.cmd [[], q] (by simp) (by simp) : (probe₂ i.cmd q).cmd = i.cmd)
  have hfrags₁ : (probe₁ i.cmd).frags = [(probe₁ i.cmd).frag 0 []] := rfl
  have hfrags₂ : (probe₂ i.cmd q).frags =
      [(probe₂ i.cmd q).frag 0 [], (probe₂ i.cmd q).frag 1 q] := rfl
  have hcrc : ∀ (m : Msg), crcOk (m.frag 0 []).info = true := fun m =>
    Frag.crcOk_info (Nat.succ_pos _)
  cases hsev : p.severed with
  | true => simp [hfrags₁, Pending.absorbAll, Pending.absorb, hsev] at h₁
  | false =>
    rcases Pending.absorb_of_crcOk hsev (hcrc (probe₁ i.cmd)) with
      ⟨-, p', habs, -⟩ | ⟨hdone, -⟩
    · simp [hfrags₁, Pending.absorbAll, habs] at h₁
    · -- one more fragment completes what is pending, so the probe's first part does
      rw [hcmd₁, hcomplete hcmd₁] at hdone
      rcases Pending.absorb_of_crcOk hsev (hcrc (probe₂ i.cmd q)) with
        ⟨hopen, -⟩ | ⟨-, p', habs, -⟩
      · rw [hcmd₂, hcomplete hcmd₂] at hopen
        exact absurd (hdone.symm.trans hopen) (by simp)
      · rw [hfrags₂, List.map_cons, Pending.absorbAll, habs] at h₂
        obtain ⟨out, hrest, hout⟩ := Option.map_eq_some_iff.mp h₂
        obtain ⟨out', -, rfl⟩ := Option.map_eq_some_iff.mp hrest
        have hmessage := (List.cons.inj hout).1
        have hpcmd := congrArg SocketCmd.pcmd hmessage
        have hjoined : joined i.cmd (p.frags ++ [((probe₂ i.cmd q).frag 0 []).info]) =
            joined i.cmd p.frags := by
          simp [joined, fragsOf, SocketCmdInfo.payload, Frag.info, fillSocketCmd, Msg.frag]
        simp only [Pending.message, hcmd₂, hjoined] at hpcmd
        exact hq (by simpa [Msg.delivery, probe₂, probe] using hpcmd.symm)

/-- A short message, as the fresh receiver delivers it. -/
theorem delivers_fresh {m : Msg} (hm : m.Fits) (hlen : (streamBytes m.frags).length ≤ fifoMaxLen) :
    fresh.delivers [streamBytes m.frags] = some [m.delivery] := by
  rw [delivers_stream rfl (fun f hf => Msg.fits_of_mem hm hf) hlen,
    show fresh.pending = .empty from rfl, Pending.absorbAll_msg hm]
  rfl

/-- **Only the fresh receiver passes for one.** A receiver in which no frame is
complete, and which delivers the probes as a fresh one does, is the fresh one. -/
theorem eq_fresh_of_same {r : Receiver} (hnone : frameLen r.buf = none)
    (hsame : ∀ m : Msg, m.Fits → (streamBytes m.frags).length ≤ fifoMaxLen / 2 →
      r.delivers [streamBytes m.frags] = some [m.delivery]) :
    r.buf = [] ∧ r.pending.frags = [] ∧ r.pending.severed = false := by
  have hone : ∀ c, (probe₁ c).Fits ∧ (streamBytes (probe₁ c).frags).length ≤ fifoMaxLen / 2 :=
    fun c => ⟨fun part hpart => by
        obtain rfl : part = [] := by simpa [probe₁, probe] using hpart
        exact Nat.succ_pos _, (by decide : 20 ≤ fifoMaxLen / 2)⟩
  have htwo : ∀ c q, q.length ≤ 1 → (probe₂ c q).Fits ∧
      (streamBytes (probe₂ c q).frags).length ≤ fifoMaxLen / 2 := by
    intro c q hq
    have hfits : (probe₂ c q).Fits := fun part hpart => by
      rcases (by simpa [probe₂, probe] using hpart : part = [] ∨ part = q) with rfl | rfl
      · exact Nat.succ_pos _
      · omega
    refine ⟨hfits, ?_⟩
    have hfrags : (probe₂ c q).frags = [(probe₂ c q).frag 0 [], (probe₂ c q).frag 1 q] := rfl
    have hlen₀ := Frag.bytes_length (Msg.fits_of_mem hfits (f := (probe₂ c q).frag 0 [])
      (by simp [hfrags]))
    have hlen₁ := Frag.bytes_length (Msg.fits_of_mem hfits (f := (probe₂ c q).frag 1 q)
      (by simp [hfrags]))
    rw [hfrags, streamBytes_cons, streamBytes_cons, streamBytes_nil, List.append_nil,
      List.length_append, hlen₀, hlen₁]
    have hhead : headLen = 16 := rfl
    have hmax : fifoMaxLen / 2 = 20480 := rfl
    simp only [Msg.frag, List.length_nil]
    omega
  have hbuf : r.buf = [] := by
    by_contra hne
    exact leftover_spoils hne hnone (hsame _ (hone 0).1 (hone 0).2) (hsame _ (hone 1).1 (hone 1).2)
  have habs : ∀ m : Msg, m.Fits → (streamBytes m.frags).length ≤ fifoMaxLen / 2 →
      (r.pending.absorbAll (m.frags.map Frag.info)).map Prod.snd = some [m.delivery] := by
    intro m hm hlen
    rw [← delivers_stream hbuf (fun f hf => Msg.fits_of_mem hm hf)
      (hlen.trans (Nat.div_le_self _ _))]
    exact hsame m hm hlen
  refine ⟨hbuf, ?_, ?_⟩
  · cases hfrags : r.pending.frags with
    | nil => rfl
    | cons i is =>
      -- a second part that differs from what is pending
      obtain ⟨q, hq, hqlen⟩ : ∃ q, q ≠ joined i.cmd r.pending.frags ∧ q.length ≤ 1 := by
        by_cases hnil : joined i.cmd r.pending.frags = []
        · exact ⟨[0], by simp [hnil], by simp⟩
        · exact ⟨[], Ne.symm hnil, by simp⟩
      exact (pending_spoils hfrags hq (habs _ (hone _).1 (hone _).2)
        (habs _ (htwo _ q hqlen).1 (htwo _ q hqlen).2)).elim
  · by_contra hsev
    have hnone : ∀ i, r.pending.absorbAll [i] = none := fun i => by
      rw [Pending.absorbAll, Pending.absorb, if_pos (Bool.of_not_eq_false hsev)]
    have := habs (probe₁ 0) (hone 0).1 (hone 0).2
    rw [show (probe₁ 0).frags.map Frag.info = [((probe₁ 0).frag 0 []).info] from rfl,
      hnone] at this
    exact absurd this (by simp)

end Receiver

/-! ## Two connections -/

/-- What the loop of `server_start` delivers on a connection. -/
def delivered (s : SocketCmdClass) (chunks : List (List Byte)) : Option (List SocketCmd) :=
  (serverConnection s chunks).map Served.cmds

/-- What the source delivers is what the receiver does. -/
theorem delivered_eq {s : SocketCmdClass} {r : Receiver} (h : Rep s r)
    (chunks : List (List Byte)) : delivered s chunks = r.delivers chunks := by
  rw [delivered, Receiver.delivers]
  cases hserve : r.serve chunks with
  | none => rw [serverConnection_of_none h hserve]; rfl
  | some out =>
    obtain ⟨s', hconn, -⟩ := serverConnection_of_serve h hserve
    rw [hconn]
    rfl

/-- Every sequence of messages is delivered as by a freshly initialised class. -/
def Independent (s : SocketCmdClass) : Prop :=
  ∀ block : List Byte, block.length = fifoMaxLen → ∀ msgs : List Msg, (∀ m ∈ msgs, m.Fits) →
    ∀ (sendFd : Int) (chunks : List (List Byte)),
      (∀ c ∈ chunks, c ≠ [] ∧ c.length ≤ fifoMaxLen / 2) →
      sentBytes sendFd msgs = some chunks.flatten →
      delivered s chunks = delivered (initSocketCmdClass zeroClass block) chunks

/-- The state is an empty receiver. -/
theorem Rep.idle_iff {s : SocketCmdClass} {r : Receiver} (h : Rep s r) :
    ((initCmdFifo s).cmdFifo.len = 0 ∧
      (initCmdFifo s).gstRecvSocketCmdList.psockCmdListHead = none) ↔
    r.buf = [] ∧ r.pending.frags = [] ∧ r.pending.severed = false := by
  have hlen := CmdFifo.bytes_length h.fifo
  rw [h.buf] at hlen
  rw [h.list.head_eq_none_iff, ← hlen, List.length_eq_zero_iff]

/-- A state in which no frame is complete serves the next connection as a fresh
class does, if and only if it is empty. -/
theorem Rep.independent_iff {s : SocketCmdClass} {r : Receiver} (h : Rep s r)
    (hnone : frameLen r.buf = none) :
    Independent s ↔ (initCmdFifo s).cmdFifo.len = 0 ∧
      (initCmdFifo s).gstRecvSocketCmdList.psockCmdListHead = none := by
  rw [h.idle_iff]
  constructor
  · intro hind
    -- one message in one chunk, on a valid socket
    refine Receiver.eq_fresh_of_same hnone fun m hm hlen => ?_
    have hblock : (List.replicate fifoMaxLen (0 : Byte)).length = fifoMaxLen :=
      List.length_replicate
    have hsent := sentBytes_of_valid (by decide : (0 : Int) ≠ -1) [m]
    rw [List.flatMap_singleton] at hsent
    -- a message has a fragment, and a fragment at least its header
    have hne : streamBytes m.frags ≠ [] := by
      obtain ⟨f, fs, hfs⟩ := List.exists_cons_of_length_pos
        (by rw [m.frags_length]; exact m.length_pos : 0 < m.frags.length)
      have hpos := (Frag.isFrame_bytes (Msg.fits_of_mem hm (f := f) (by simp [hfs]))).head
      rw [hfs, streamBytes_cons, ← List.length_pos_iff, List.length_append]
      omega
    have := hind _ hblock [m] (by simpa using hm) 0 [streamBytes m.frags]
      (by simpa using ⟨hne, hlen⟩) (by rw [hsent]; simp)
    rw [← delivered_eq h, this, delivered_eq (rep_fresh hblock),
      Receiver.delivers_fresh hm (hlen.trans (Nat.div_le_self _ _))]
  · rintro ⟨hbuf, hfrags, hsev⟩ block hblock msgs - fd chunks - -
    -- an empty receiver is the fresh one, so the two connections are the same
    have hr : r = .fresh := by
      obtain ⟨buf, pending, room⟩ := r
      obtain rfl : buf = [] := hbuf
      obtain rfl : pending = .empty := Pending.ext hfrags hsev
      rfl
    rw [delivered_eq h, delivered_eq (rep_fresh hblock), hr]

/-- **Reconnection.** After any first connection, the next one is served as by a
freshly initialised class if and only if the FIFO and the receive list are
empty when it is accepted. -/
theorem reconnect_independent_iff {s₀ : SocketCmdClass} (hs : Idle s₀)
    {first : List (List Byte)} {out : Served SocketCmdClass}
    (hfirst : serverConnection s₀ first = some out) :
    Independent out.state ↔ (initCmdFifo out.state).cmdFifo.len = 0 ∧
      (initCmdFifo out.state).gstRecvSocketCmdList.psockCmdListHead = none := by
  cases hserve : Receiver.fresh.serve first with
  | none =>
    rw [serverConnection_of_none hs.rep hserve] at hfirst
    exact absurd hfirst (by simp)
  | some out' =>
    obtain ⟨s', hconn, hrep⟩ := serverConnection_of_serve hs.rep hserve
    obtain rfl := Option.some.inj (hfirst.symm.trans hconn)
    exact hrep.independent_iff (Receiver.serve_frameLen rfl hserve)

/-- A connection that breaks off behind one byte leaves it in the FIFO. -/
theorem serverConnection_one_byte :
    ∃ out r, serverConnection bootClass [[0x47]] = some out ∧ Rep out.state r ∧
      r.buf = [0x47] := by
  have hdrain : (Receiver.fresh.recv [0x47]).1.drain = some ((Receiver.fresh.recv [0x47]).1, []) :=
    Receiver.drain_of_none rfl
  have hserve : Receiver.fresh.serve [[0x47]] =
      some ⟨(Receiver.fresh.recv [0x47]).1, [], true⟩ := by
    rw [Receiver.serve, hdrain]
    rfl
  obtain ⟨s', hconn, hrep⟩ := serverConnection_of_serve idle_bootClass.rep hserve
  exact ⟨_, _, hconn, hrep, rfl⟩

/-- The next connection notices. -/
theorem one_byte_not_independent :
    ∃ out, serverConnection bootClass [[0x47]] = some out ∧ ¬ Independent out.state := by
  obtain ⟨out, r, hconn, hrep, hbuf⟩ := serverConnection_one_byte
  refine ⟨out, hconn, ?_⟩
  intro hind
  have hidle := hrep.idle_iff.mp ((hrep.independent_iff (by rw [hbuf]; rfl)).mp hind)
  rw [hbuf] at hidle
  exact absurd hidle.1 (by decide)

/-- A connection of one byte. -/
theorem reconnect_independent_iff_one_byte :
    ∃ out, serverConnection bootClass [[0x47]] = some out ∧
      (Independent out.state ↔ (initCmdFifo out.state).cmdFifo.len = 0 ∧
        (initCmdFifo out.state).gstRecvSocketCmdList.psockCmdListHead = none) := by
  obtain ⟨out, -, hconn, -⟩ := serverConnection_one_byte
  exact ⟨out, hconn, reconnect_independent_iff idle_bootClass hconn⟩

end PgClient.PackSocket
