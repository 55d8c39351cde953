import PgClient.Lib.ConsumingLoop
import PgClient.PackSocket.Fifo
import PgClient.PackSocket.RecvList

/-!
# The socket class — receiving and parsing

`recvSocketCmd` stores a chunk, `parseSocketCmd` takes frames off the FIFO
until a message is complete, and the loop of `server_start` alternates the
two on every accepted connection. As in `RecvList`, `none` is undefined
behaviour.
-/

namespace PgClient.PackSocket

/-- `socket_cmd_t`, a delivered message. -/
structure SocketCmd where
  cmd : BitVec 16
  type : BitVec 16
  ipnum : BitVec 32
  len : BitVec 32
  pcmd : List Byte
  deriving DecidableEq

/-- `socket_cmd_class_t`. -/
structure SocketCmdClass where
  gstRecvSocketCmdList : RecvList
  cmdFifo : CmdFifo

/-- The zeroed class of `client_init`, before any call. -/
def zeroClass : SocketCmdClass where
  gstRecvSocketCmdList := ⟨.empty, none⟩
  cmdFifo := ⟨[], 0, 0, 0, 0, 0⟩

/-- `init_socket_cmd_class`: `block` is what `malloc(recvFifoLen)` returned. -/
def initSocketCmdClass (s : SocketCmdClass) (block : List Byte) : SocketCmdClass :=
  { s with cmdFifo := { s.cmdFifo with cmd := block } }

/-- `init_cmd_fifo`: sets up the FIFO and the list on the first call only. -/
def initCmdFifo (s : SocketCmdClass) : SocketCmdClass :=
  if s.cmdFifo.bInit ≠ 1 then
    { gstRecvSocketCmdList := initRecvCmdList s.gstRecvSocketCmdList
      cmdFifo := { s.cmdFifo with len := 0, maxLen := fifoMaxLen, read := 0, write := 0, bInit := 1 } }
  else s

/-- `recvSocketCmd`: the state after it, and whether the chunk was stored; a
chunk that does not fit is dropped with "buffer too small". -/
def recvSocketCmd (s : SocketCmdClass) (pData : List Byte) : SocketCmdClass × Bool :=
  let s := initCmdFifo s
  match writeCmdFifo s.cmdFifo pData with
  | none => (s, false)
  | some fifo => ({ s with cmdFifo := fifo }, true)

/-- A frame whose CRC is right becomes a node of the list; another one is
reported and forgotten. -/
def storeFrame (list : RecvList) (info : SocketCmdInfo) : Option RecvList :=
  if crcOk info then addRecvList list info else some list

/-- The part of the loop of `parseSocketCmd` behind the CRC check: the message,
if it is complete now. -/
def deliverFrame (list : RecvList) (info : SocketCmdInfo) :
    Option (RecvList × Option SocketCmd) :=
  match checkRecvList2 list info.cmd with
  | none => none
  | some false => some (list, none)
  -- collected before the nodes are released: the payloads are in them
  | some true =>
    match collectcmd list info.cmd, destoryRecvList2 list info.cmd with
    | some pcmd, some list' =>
      some (list', some ⟨info.cmd, info.type, info.ipnum, BitVec.ofNat 32 pcmd.length, pcmd⟩)
    | _, _ => none

/-- The body of the loop of `parseSocketCmd` on one frame. -/
def parseFrame (list : RecvList) (pBuffer : List Byte) : Option (RecvList × Option SocketCmd) :=
  (storeFrame list (parseInfo pBuffer)).bind fun list => deliverFrame list (parseInfo pBuffer)

/-- What `read_cmd_try_read` announces is there. -/
theorem readCmdTryRead_bounds {f : CmdFifo} {k : Nat} (h : readCmdTryRead f = some k) :
    0 < k ∧ k ≤ f.len := by
  unfold readCmdTryRead at h
  simp only at h
  split_ifs at h
  all_goals
    obtain rfl := Option.some.inj h
    exact ⟨by omega, by assumption⟩

/-- One turn of the loop of `parseSocketCmd`: it ends when no frame is complete
or when the frame completed a message. -/
def parseTurn (s : SocketCmdClass) :
    SocketCmdClass ⊕ Option (SocketCmdClass × Option SocketCmd) :=
  match readCmdTryRead s.cmdFifo with
  | none => .inr (some (s, none))
  | some readLen =>
    let (pBuffer, fifo) := readCmdFifo s.cmdFifo readLen
    match parseFrame s.gstRecvSocketCmdList pBuffer with
    | none => .inr none
    | some (list, none) => .inl ⟨list, fifo⟩
    | some (list, some cmd) => .inr (some (⟨list, fifo⟩, some cmd))

/-- What a turn can do. -/
theorem parseTurn_cases (s : SocketCmdClass) :
    (readCmdTryRead s.cmdFifo = none ∧ parseTurn s = .inr (some (s, none))) ∨
    ∃ k, readCmdTryRead s.cmdFifo = some k ∧
      parseTurn s =
        match parseFrame s.gstRecvSocketCmdList (readCmdFifo s.cmdFifo k).1 with
        | none => .inr none
        | some (list, none) => .inl ⟨list, (readCmdFifo s.cmdFifo k).2⟩
        | some (list, some cmd) => .inr (some (⟨list, (readCmdFifo s.cmdFifo k).2⟩, some cmd)) := by
  cases h : readCmdTryRead s.cmdFifo with
  | none => exact Or.inl ⟨rfl, by simp only [parseTurn, h]⟩
  | some k => exact Or.inr ⟨k, rfl, by simp only [parseTurn, h]⟩

/-- A turn that read a frame has taken bytes off the FIFO. -/
theorem parseTurn_consumes {s s' : SocketCmdClass}
    (h : parseTurn s = .inl s' ∨ ∃ cmd, parseTurn s = .inr (some (s', some cmd))) :
    s'.cmdFifo.len < s.cmdFifo.len ∧ s'.cmdFifo.bInit = s.cmdFifo.bInit := by
  rcases parseTurn_cases s with ⟨-, hturn⟩ | ⟨k, hread, hturn⟩
  · simp [hturn] at h
  · have hk := readCmdTryRead_bounds hread
    have hfifo : s'.cmdFifo = (readCmdFifo s.cmdFifo k).2 := by
      rw [hturn] at h
      -- delivered or not, the turn goes on with the FIFO behind the frame
      rcases hframe : parseFrame s.gstRecvSocketCmdList (readCmdFifo s.cmdFifo k).1 with
        _ | ⟨list, _ | cmd⟩
      · simp [hframe] at h
      · simp only [hframe, Sum.inl.injEq, reduceCtorEq, exists_false, or_false] at h
        rw [← h]
      · simp only [hframe, reduceCtorEq, Sum.inr.injEq, Option.some.injEq, Prod.mk.injEq,
          false_or] at h
        obtain ⟨_, rfl, -⟩ := h
        rfl
    rw [hfifo]
    exact ⟨Nat.sub_lt (by omega) hk.1, rfl⟩

/-- `while (1)` of `parseSocketCmd`; every turn takes a frame off the FIFO. -/
def parseLoop : ConsumingLoop SocketCmdClass (Option (SocketCmdClass × Option SocketCmd)) where
  turn := parseTurn
  size s := s.cmdFifo.len
  consumes h := (parseTurn_consumes (Or.inl h)).1

/-- `parseSocketCmd`: a message, or NULL. -/
def parseSocketCmd (s : SocketCmdClass) : Option (SocketCmdClass × Option SocketCmd) :=
  parseLoop.run (initCmdFifo s)

/-- Behind `init_cmd_fifo` the FIFO is initialised. -/
theorem initCmdFifo_bInit (s : SocketCmdClass) : (initCmdFifo s).cmdFifo.bInit = 1 := by
  unfold initCmdFifo
  split_ifs with h
  · rfl
  · exact not_not.mp h

/-- An initialised FIFO is left as it is. -/
theorem initCmdFifo_of_bInit {s : SocketCmdClass} (h : s.cmdFifo.bInit = 1) :
    initCmdFifo s = s := by
  simp [initCmdFifo, h]

/-- A call that delivers a message has taken bytes off the FIFO. -/
theorem parseSocketCmd_consumes {s s' : SocketCmdClass} {cmd : SocketCmd}
    (h : parseSocketCmd s = some (s', some cmd)) :
    (initCmdFifo s').cmdFifo.len < (initCmdFifo s).cmdFifo.len := by
  have hinit := initCmdFifo_bInit s
  rw [parseSocketCmd] at h
  generalize initCmdFifo s = t at h hinit ⊢
  -- `init_cmd_fifo` runs once: after the first call the flag stays set
  suffices hs : s'.cmdFifo.len < t.cmdFifo.len ∧ s'.cmdFifo.bInit = t.cmdFifo.bInit by
    rw [initCmdFifo_of_bInit (hs.2.trans hinit)]
    exact hs.1
  induction t using parseLoop.run_induct with
  | step t ih =>
    cases hturn : parseLoop.turn t with
    | inl t' =>
      have hstep := parseTurn_consumes (Or.inl hturn)
      rw [ConsumingLoop.run_of_inl hturn] at h
      -- frames that completed nothing are taken off as well
      have := ih t' hturn h (hstep.2.trans hinit)
      exact ⟨this.1.trans hstep.1, this.2.trans hstep.2⟩
    | inr b =>
      rw [ConsumingLoop.run_of_inr hturn] at h
      exact parseTurn_consumes (Or.inr ⟨cmd, hturn.trans (congrArg _ h)⟩)

/-- The loop of `server_start` round `parseSocketCmd`, which ends at NULL. Its
state carries the messages delivered so far. -/
def serverLoop : ConsumingLoop (SocketCmdClass × List SocketCmd)
    (Option (SocketCmdClass × List SocketCmd)) where
  turn s :=
    match parseSocketCmd s.1 with
    | none => .inr none
    | some (s', none) => .inr (some (s', s.2))
    | some (s', some cmd) => .inl (s', s.2 ++ [cmd])
  size s := (initCmdFifo s.1).cmdFifo.len
  consumes {s s'} h := by
    split at h
    · exact absurd h (by simp)
    · exact absurd h (by simp)
    · next hparse =>
      obtain rfl := Sum.inl.inj h
      exact parseSocketCmd_consumes hparse

/-- `parseSocketCmd` until it returns NULL: the messages delivered. -/
def serverDrain (s : SocketCmdClass) : Option (SocketCmdClass × List SocketCmd) :=
  serverLoop.run (s, [])

/-- What a connection did: the state left behind, the messages delivered and
whether every chunk was stored. -/
structure Served (σ : Type) where
  state : σ
  cmds : List SocketCmd
  stored : Bool

/-- One connection of `server_start`: every chunk `recv` returns is stored,
then the messages are taken out. -/
def serverConnection (s : SocketCmdClass) : List (List Byte) → Option (Served SocketCmdClass)
  | [] => some ⟨s, [], true⟩
  | arg :: chunks =>
    match serverDrain (recvSocketCmd s arg).1 with
    | none => none
    | some (s', cmds) =>
      match serverConnection s' chunks with
      | none => none
      | some rest => some ⟨rest.state, cmds ++ rest.cmds, (recvSocketCmd s arg).2 && rest.stored⟩

end PgClient.PackSocket
