import PgClient.PackSocket.Stream

/-!
# Stream transparency of the server link

Messages sent one after another arrive as they were sent, wherever `recv` cuts
the stream: `serverConnection_transparent`. The frames and the chunks are at
most half the FIFO long, so what a drain leaves and the next chunk always fit
(`Receiver.serve_stream`).
-/

namespace PgClient.PackSocket

/-! ## Messages one after another -/

namespace Pending

/-- All fragments of a message but the last are kept. -/
theorem absorbAll_take {m : Msg} (hm : m.Fits) {j : Nat} (hj : j < m.parts.length) :
    ∃ p, Pending.empty.absorbAll ((m.frags.take j).map Frag.info) = some (p, []) ∧
      p.frags = (m.frags.take j).map Frag.info ∧ p.severed = false := by
  induction j with
  | zero => exact ⟨.empty, rfl, rfl, rfl⟩
  | succ j ih =>
    obtain ⟨p, habs, hfrags, hsev⟩ := ih (by omega)
    obtain ⟨f, hf⟩ : ∃ f, m.frags[j]? = some f :=
      ⟨_, List.getElem?_eq_getElem (by rw [m.frags_length]; omega)⟩
    -- nothing else is pending, so the list is the first `j` fragments
    have hheld : p.Holds m j := by
      rw [Holds, hfrags, fragsOf, List.filter_eq_self]
      intro i hi
      rw [List.map_take] at hi
      simpa using Msg.info_cmd_of_mem (List.mem_of_mem_take hi)
    rcases absorb_frag hsev hm hheld hf with ⟨-, p', habs', hfrags', hsev'⟩ | ⟨hlast, -⟩
    · refine ⟨p', ?_, ?_, hsev'⟩
      · rw [List.take_add_one, hf, List.map_append, absorbAll_append, habs]
        simp [absorbAll, habs']
      · rw [hfrags', hfrags, List.take_add_one, hf]
        simp
    · omega

/-- A message on an empty list is delivered and leaves the list empty. -/
theorem absorbAll_msg {m : Msg} (hm : m.Fits) :
    Pending.empty.absorbAll (m.frags.map Frag.info) = some (.empty, [m.delivery]) := by
  have hpos := m.length_pos
  obtain ⟨p, habs, hfrags, hsev⟩ := absorbAll_take hm (j := m.parts.length - 1) (by omega)
  obtain ⟨f, hf⟩ : ∃ f, m.frags[m.parts.length - 1]? = some f :=
    ⟨_, List.getElem?_eq_getElem (by rw [m.frags_length]; omega)⟩
  -- the fragments kept and the last one are all of them
  have hall : p.frags ++ [f.info] = m.frags.map Frag.info := by
    rw [hfrags, show [f.info] = ([f].map Frag.info) from rfl, ← List.map_append]
    congr 1
    conv_rhs => rw [← List.take_length (l := m.frags), m.frags_length,
      show m.parts.length = m.parts.length - 1 + 1 by omega, List.take_add_one, hf]
    rfl
  have hown : ∀ i ∈ m.frags.map Frag.info, i.cmd = m.cmd := fun i hi =>
    Msg.info_cmd_of_mem hi
  have hheld : p.Holds m (m.parts.length - 1) := by
    rw [Holds, hfrags, fragsOf, List.filter_eq_self]
    intro i hi
    simpa using hown i (List.map_subset _ (List.take_subset _ _) hi)
  rcases absorb_frag hsev hm hheld hf with ⟨hlt, -⟩ | ⟨-, p', habs', hfrags', hsev'⟩
  · omega
  · have hdrop : (m.frags.map Frag.info).dropWhile (fun i => i.cmd = m.cmd) = [] :=
      List.dropWhile_eq_nil_iff.mpr fun i hi => by simpa using hown i hi
    have hp' : p' = .empty := by
      ext1
      · rw [hfrags', hall, kept, hdrop]
        rfl
      · rw [hsev', hall, cuts, hdrop]
        rfl
    rw [← hall, hfrags, show [f.info] = ([f].map Frag.info) from rfl, absorbAll_append, habs]
    simp [absorbAll, habs', hp']

/-- An empty list takes in whole messages, delivers them in order and is empty again. -/
theorem absorbAll_msgs {msgs : List Msg} (hm : ∀ m ∈ msgs, m.Fits) :
    Pending.empty.absorbAll ((msgs.flatMap Msg.frags).map Frag.info) =
      some (.empty, msgs.map Msg.delivery) := by
  induction msgs with
  | nil => rfl
  | cons m msgs ih =>
    rw [List.forall_mem_cons] at hm
    rw [List.flatMap_cons, List.map_append, absorbAll_append, absorbAll_msg hm.1]
    simp [ih hm.2]

end Pending

/-! ## The loop of `server_start` -/

/-- An initialised class with an empty FIFO and an empty receive list. -/
structure Idle (s : SocketCmdClass) : Prop where
  fifo : (initCmdFifo s).cmdFifo.Ok
  len : (initCmdFifo s).cmdFifo.len = 0
  list : (initCmdFifo s).gstRecvSocketCmdList.psockCmdListHead = none

/-- An idle class is a fresh receiver. -/
theorem Idle.rep {s : SocketCmdClass} (h : Idle s) : Rep s .fresh where
  fifo := h.fifo
  buf := by rw [CmdFifo.bytes, h.len, RingBuffer.contents_zero]; rfl
  list := ⟨[], none, h.list, .null, rfl⟩

/-- The class `client_init` sets up is idle. -/
theorem idle_init {block : List Byte} (h : block.length = fifoMaxLen) :
    Idle (initSocketCmdClass zeroClass block) :=
  ⟨(rep_fresh h).fifo, rfl, rfl⟩

/-- The state `client_init` leaves, on a block of zeroes. -/
def bootClass : SocketCmdClass := initSocketCmdClass zeroClass (List.replicate fifoMaxLen 0)

/-- The class at boot is idle. -/
theorem idle_bootClass : Idle bootClass := idle_init List.length_replicate

/-- The sender keeps to frames of at most `FIFO_MAX_LEN / 2` bytes. -/
def Msg.Short (m : Msg) : Prop := ∀ part ∈ m.parts, headLen + part.length + 4 ≤ fifoMaxLen / 2

instance (m : Msg) : Decidable m.Short := inferInstanceAs (Decidable (∀ _ ∈ _, _))

/-- A short message fits its length fields. -/
theorem Msg.Short.fits {m : Msg} (h : m.Short) : m.Fits := fun part hpart => by
  have := h part hpart
  have : fifoMaxLen / 2 = 20480 := rfl
  omega

/-- Each frame of a short message takes half the FIFO at most. -/
theorem Msg.Short.bytes_le {m : Msg} (h : m.Short) {f : Frag} (hf : f ∈ m.frags) :
    f.bytes.length ≤ fifoMaxLen / 2 := by
  rw [Frag.bytes_length (Msg.fits_of_mem h.fits hf)]
  obtain ⟨i, part, hpart, rfl⟩ := Msg.mem_frags hf
  exact h part (List.mem_of_getElem? hpart)

/-- What `sendSocketCmd` puts on the wire for messages sent one after another. -/
def sentBytes (sendFd : Int) (msgs : List Msg) : Option (List Byte) :=
  ((msgs.flatMap Msg.frags).mapM fun f =>
    sendSocketCmd sendFd f.typeCmd f.ipnum f.curNo f.lastNo f.payload).map List.flatten

/-- With a descriptor every message is sent whole. -/
theorem sentBytes_of_valid {sendFd : Int} (hfd : sendFd ≠ -1) (msgs : List Msg) :
    sentBytes sendFd msgs = some (streamBytes (msgs.flatMap Msg.frags)) := by
  rw [sentBytes]
  induction msgs.flatMap Msg.frags with
  | nil => rfl
  | cons f fs ih =>
    obtain ⟨frames, hframes, hflat⟩ := Option.map_eq_some_iff.mp ih
    rw [List.mapM_cons, Frag.sendSocketCmd_eq f hfd, hframes]
    simp [hflat]

/-- What was sent is the frames of the messages in a row. -/
theorem streamBytes_of_sentBytes {sendFd : Int} {msgs : List Msg} {bs : List Byte}
    (h : sentBytes sendFd msgs = some bs) : bs = streamBytes (msgs.flatMap Msg.frags) := by
  by_cases hfd : sendFd = -1
  · -- nothing is sent on an invalid socket, so there were no messages
    rw [sentBytes] at h
    cases hfs : msgs.flatMap Msg.frags with
    | nil =>
      rw [hfs] at h
      simpa using h.symm
    | cons f fs =>
      rw [hfs, List.mapM_cons, sendSocketCmd, if_pos hfd] at h
      exact absurd h (by simp)
  · rw [sentBytes_of_valid hfd] at h
    exact (Option.some.inj h).symm

/-- Messages sent one after another arrive as they were sent, wherever the chunks are cut. -/
theorem serverConnection_msgs {s : SocketCmdClass} (hs : Idle s) {msgs : List Msg}
    (hshort : ∀ m ∈ msgs, m.Short) {chunks : List (List Byte)}
    (hchunks : ∀ c ∈ chunks, c.length ≤ fifoMaxLen / 2)
    (hbytes : chunks.flatten = streamBytes (msgs.flatMap Msg.frags)) :
    ∃ s', serverConnection s chunks = some ⟨s', msgs.map Msg.delivery, true⟩ := by
  -- a frame and a chunk, half the FIFO each, always fit together
  have hmem : ∀ f ∈ msgs.flatMap Msg.frags, f.Fits ∧ f.bytes.length ≤ fifoMaxLen / 2 := by
    intro f hf
    obtain ⟨m, hm, hfm⟩ := List.mem_flatMap.mp hf
    exact ⟨Msg.fits_of_mem (hshort m hm).fits hfm, (hshort m hm).bytes_le hfm⟩
  have hfits : ∀ f ∈ msgs.flatMap Msg.frags, f.Fits := fun f hf => (hmem f hf).1
  have hframes := isFrame_of_mem_map hfits
  have hon : Receiver.fresh.OnStream ((msgs.flatMap Msg.frags).map Frag.bytes) chunks.flatten :=
    ⟨hframes, by rw [hbytes, streamBytes_eq_flatten]; rfl⟩
  obtain ⟨r', hserve, -⟩ := Receiver.serve_stream hon
    (Or.inl fun fr hfr c hc => by
      obtain ⟨f, hf, rfl⟩ := List.mem_map.mp hfr
      have := (hmem f hf).2
      have := hchunks c hc
      omega)
    (fun fr hfr => (Nat.succ_pos _).trans_le (hframes fr (List.mem_of_mem_head? hfr)).head)
    (by rw [map_parseInfo_bytes hfits]
        exact Pending.absorbAll_msgs fun m hm => (hshort m hm).fits)
  obtain ⟨s', hconn, -⟩ := serverConnection_of_serve hs.rep hserve
  exact ⟨s', hconn⟩

/-- **Stream transparency.** From an idle class, for all messages and all ways
of cutting their bytes into chunks, the loop of `server_start` stores every
chunk and delivers exactly the messages, in order. -/
theorem serverConnection_transparent {s : SocketCmdClass} (hs : Idle s) {msgs : List Msg}
    (hshort : ∀ m ∈ msgs, m.Short) {chunks : List (List Byte)}
    (hchunks : ∀ c ∈ chunks, c ≠ [] ∧ c.length ≤ fifoMaxLen / 2)
    {sendFd : Int} (hsent : sentBytes sendFd msgs = some chunks.flatten) :
    ∃ s', serverConnection s chunks = some ⟨s', msgs.map Msg.delivery, true⟩ :=
  serverConnection_msgs hs hshort (fun c hc => (hchunks c hc).2) (streamBytes_of_sentBytes hsent)

/-- Two messages with one command, the first in two parts, cut inside a header. -/
def twoMsgs : List Msg :=
  [⟨0x1000B#32, 7, [[1, 2], [3, 4]], by decide, by decide⟩,
    ⟨0xB#32, 7, [[]], Msg.emptyPart_ne, Msg.emptyPart_count⟩]

/-- Two messages that come in two chunks, cut in the first one's payload. -/
theorem serverConnection_twoMsgs :
    ∃ s', serverConnection bootClass [(streamBytes (twoMsgs.flatMap Msg.frags)).take 31,
          (streamBytes (twoMsgs.flatMap Msg.frags)).drop 31] =
      some ⟨s', twoMsgs.map Msg.delivery, true⟩ :=
  serverConnection_transparent idle_bootClass (by decide) (by decide)
    (by rw [sentBytes_of_valid (by decide : (3 : Int) ≠ -1), List.flatten_cons, List.flatten_cons,
      List.flatten_nil, List.append_nil, List.take_append_drop])

end PgClient.PackSocket
