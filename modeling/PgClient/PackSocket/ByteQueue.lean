import PgClient.Lib.PartialRun
import PgClient.PackSocket.Parse

/-!
# The command FIFO over whole runs

Any sequence of writes and reads of a `cmd_fifo_t` that `init_cmd_fifo` has set up, against a
queue of bytes.

* `ByteQueue.conserved` — a queue loses no byte and makes none up.
* `fifoStep_queue` — a call on the FIFO does what the queue does.
* `fifoRun_spec` — over a run, with its indices, its bytes, and the frame at its front in every state.
-/

namespace PgClient.PackSocket

open PartialRun (runOut)

/-- A call on the FIFO; a read asks for `len` bytes. -/
inductive FifoOp
  | write (pData : List Byte)
  | read (len : Nat)

/-- What a call does: the bytes of a write are stored or refused, or bytes are read. -/
inductive FifoOut
  | stored (pData : List Byte)
  | refused
  | bytes (pBuffer : List Byte)
  deriving DecidableEq

/-- One call; to read more than there is is undefined. -/
def fifoStep : FifoOp → CmdFifo → Option (CmdFifo × FifoOut)
  | .write pData, f =>
    match writeCmdFifo f pData with
    | none => some (f, .refused)
    | some f' => some (f', .stored pData)
  | .read len, f =>
    if len ≤ f.len then some ((readCmdFifo f len).2, .bytes (readCmdFifo f len).1) else none

/-! ## A queue of bytes -/

namespace ByteQueue

/-- A queue of at most `capacity` bytes: a write is stored as a whole or not at all. -/
def step (capacity : Nat) : FifoOp → List Byte → Option (List Byte × FifoOut)
  | .write pData, q =>
    if q.length + pData.length ≤ capacity then some (q ++ pData, .stored pData)
    else some (q, .refused)
  | .read len, q => if len ≤ q.length then some (q.drop len, .bytes (q.take len)) else none

/-- The bytes of the accepted writes. -/
def written : List FifoOut → List Byte
  | [] => []
  | .stored pData :: outs => pData ++ written outs
  | _ :: outs => written outs

/-- The bytes of the reads. -/
def readBytes : List FifoOut → List Byte
  | [] => []
  | .bytes pBuffer :: outs => pBuffer ++ readBytes outs
  | _ :: outs => readBytes outs

/-- **What is written is what is read and what is left**, in this order. -/
theorem conserved {capacity : Nat} {ops : List FifoOp} {q q' : List Byte} {outs : List FifoOut}
    (h : runOut (step capacity) ops q = some (q', outs)) : q ++ written outs = readBytes outs ++ q' := by
  induction ops generalizing q outs with
  | nil =>
    obtain ⟨rfl, rfl⟩ := Prod.mk.inj (Option.some.inj h)
    exact List.append_nil q
  | cons op ops ih =>
    obtain ⟨q₁, out, outs', hstep, hrun, rfl⟩ := PartialRun.runOut_cons_eq_some h
    have hrest := ih hrun
    cases op with
    -- written bytes join the end of what is there, or are refused
    | write pData =>
      rw [step] at hstep
      split_ifs at hstep
      · obtain ⟨rfl, rfl⟩ := Prod.mk.inj (Option.some.inj hstep)
        rw [written, readBytes, ← List.append_assoc]
        · exact hrest
        · nofun
      · obtain ⟨rfl, rfl⟩ := Prod.mk.inj (Option.some.inj hstep)
        exact hrest
    -- bytes read leave from the front
    | read len =>
      rw [step] at hstep
      split_ifs at hstep
      obtain ⟨rfl, rfl⟩ := Prod.mk.inj (Option.some.inj hstep)
      show q ++ written outs' = q.take len ++ readBytes outs' ++ q'
      rw [List.append_assoc, ← hrest, ← List.append_assoc, List.take_append_drop]

end ByteQueue

/-! ## The FIFO is a queue -/

/-- One call does what the queue does. -/
theorem fifoStep_queue {f : CmdFifo} (h : f.Ok) (op : FifoOp) :
    (fifoStep op f).map (fun r => (r.1.bytes, r.2)) = ByteQueue.step fifoMaxLen op f.bytes ∧
      ∀ f' out, fifoStep op f = some (f', out) → f'.Ok := by
  cases op with
  | write pData =>
    -- room or not, the two agree
    have hspec := writeCmdFifo_spec h pData
    rw [fifoStep, ByteQueue.step]
    split_ifs at hspec ⊢ with hroom
    · obtain ⟨f', hwrite, hok, hbytes⟩ := hspec
      rw [hwrite]
      refine ⟨by rw [← hbytes]; rfl, ?_⟩
      intro f'' out hf''
      obtain ⟨rfl, -⟩ := Prod.mk.inj (Option.some.inj hf'')
      exact hok
    · rw [hspec]
      refine ⟨rfl, ?_⟩
      intro f'' out hf''
      obtain ⟨rfl, -⟩ := Prod.mk.inj (Option.some.inj hf'')
      exact h
  | read len =>
    rw [fifoStep, ByteQueue.step, ← CmdFifo.bytes_length h]
    -- a read of more than there is is undefined in both
    split_ifs with hlen
    · obtain ⟨hread, hok, hrest⟩ := readCmdFifo_spec h hlen
      refine ⟨by rw [Option.map_some, hread, hrest], ?_⟩
      intro f'' out hf''
      obtain ⟨rfl, -⟩ := Prod.mk.inj (Option.some.inj hf'')
      exact hok
    · exact ⟨rfl, nofun⟩

/-- The length test finds the frame at the front of the queue, if a whole one is there. -/
theorem readCmdTryRead_iff {f : CmdFifo} (h : f.Ok) {k : Nat} :
    readCmdTryRead f = some k ↔ ∃ fr, fr <+: f.bytes ∧ IsFrame fr ∧ fr.length = k := by
  rw [readCmdTryRead_spec h]
  constructor
  · intro hk
    refine ⟨f.bytes.take k, List.take_prefix .., isFrame_of_frameLen hk, ?_⟩
    rw [List.length_take, min_eq_left (frameLen_bounds hk).2]
  · rintro ⟨fr, ⟨more, hmore⟩, hframe, rfl⟩
    rw [← hmore]
    exact frameLen_append hframe more

/-- The FIFO that `init_cmd_fifo` sets up on a block that `client_init` has allocated. -/
def initialisedFifo (block : List Byte) : CmdFifo :=
  (initCmdFifo (initSocketCmdClass zeroClass block)).cmdFifo

/-- The FIFO as `init_cmd_fifo` leaves it is empty. -/
theorem initialisedFifo_ok {block : List Byte} (hblock : block.length = fifoMaxLen) :
    (initialisedFifo block).Ok ∧ (initialisedFifo block).bytes = [] :=
  ⟨⟨rfl, rfl, hblock, Nat.zero_lt_succ _, Nat.zero_le _, rfl⟩, RingBuffer.contents_zero ..⟩

/-- **The FIFO is a queue of `maxLen` bytes**, whatever is written to it and read from it: its
indices stay in range, the bytes read are those written in this order, and the length test
finds exactly the frame at its front. -/
theorem fifoRun_spec {block : List Byte} (hblock : block.length = fifoMaxLen)
    (ops : List FifoOp) :
    (runOut fifoStep ops (initialisedFifo block)).map (fun r => (r.1.bytes, r.2)) =
        runOut (ByteQueue.step fifoMaxLen) ops [] ∧
      ∀ f outs, runOut fifoStep ops (initialisedFifo block) = some (f, outs) →
        f.maxLen = fifoMaxLen ∧ f.read < f.maxLen ∧ f.write < f.maxLen ∧ f.len ≤ f.maxLen ∧
        f.write = (f.read + f.len) % f.maxLen ∧ f.bytes.length = f.len ∧
        ByteQueue.written outs = ByteQueue.readBytes outs ++ f.bytes ∧
        (∀ pData, (writeCmdFifo f pData).isSome ↔ f.len + pData.length ≤ f.maxLen) ∧
        ∀ k, readCmdTryRead f = some k ↔ ∃ fr, fr <+: f.bytes ∧ IsFrame fr ∧ fr.length = k := by
  obtain ⟨hok, hnil⟩ := initialisedFifo_ok hblock
  -- every step simulates a step of the queue on the bytes in order, and keeps the indices
  obtain ⟨hqueue, hkeep⟩ := PartialRun.runOut_abs (fun op f h => (fifoStep_queue h op).1)
    (fun op f f' out h => (fifoStep_queue h op).2 f' out) ops hok
  rw [hnil] at hqueue
  refine ⟨hqueue, ?_⟩
  intro f outs hrun
  have h := hkeep f outs hrun
  rw [hrun, Option.map_some] at hqueue
  have hlen := CmdFifo.bytes_length h
  refine ⟨h.maxLen, ?_, ?_, ?_, ?_, hlen, ByteQueue.conserved hqueue.symm, fun pData => ?_,
    fun k => readCmdTryRead_iff h⟩
  · rw [h.maxLen]
    exact h.read
  · rw [h.maxLen, h.write]
    exact Nat.mod_lt _ (by decide)
  · rw [h.maxLen]
    exact h.len
  · rw [h.maxLen]
    exact h.write
  · have hspec := writeCmdFifo_spec h pData
    rw [hlen] at hspec
    rw [h.maxLen]
    split_ifs at hspec with hroom
    · obtain ⟨f', hwrite, -⟩ := hspec
      simp [hwrite, hroom]
    · simp [hspec, hroom]

/-- Two bytes are written to a zeroed block, and one is read. -/
theorem fifoRun_spec_zeroed :
    ∃ f, runOut fifoStep [.write [0x47, 0x48], .read 1]
        (initialisedFifo (List.replicate fifoMaxLen 0)) =
          some (f, [.stored [0x47, 0x48], .bytes [0x47]]) ∧
      f.bytes = [0x48] ∧ f.write = (f.read + f.len) % f.maxLen := by
  obtain ⟨hqueue, hkeep⟩ := fifoRun_spec List.length_replicate [.write [0x47, 0x48], .read 1]
  obtain ⟨⟨f, outs⟩, hrun, heq⟩ := Option.map_eq_some_iff.mp (hqueue.trans
    (show _ = some ([0x48], [FifoOut.stored [0x47, 0x48], .bytes [0x47]]) from rfl))
  obtain ⟨hbytes, rfl⟩ := Prod.mk.inj heq
  exact ⟨f, hrun, hbytes, (hkeep f _ hrun).2.2.2.2.1⟩

end PgClient.PackSocket
