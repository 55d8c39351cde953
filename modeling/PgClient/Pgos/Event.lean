import PgClient.Lib.Interleaving

/-!
# The event groups of `MsOS_event.c`

A group has flags, a container of requests and one event task, which handles the messages of a
queue one after the other. `MsOS_WaitEvent` allocates a result cell and a semaphore, sends its
request to the task and waits on the semaphore; when the wait times out it sends a second
message to withdraw the request. Who frees the cell and the semaphore, the call or the task,
depends on the order of these messages and of those that set flags.

The queue is the one of `MsOS_queue.c`: messages are handled in the order in which they were
sent, and a send blocks while the queue is full. Memory and semaphores are live from their
allocation to their release, and an address that is not live may be given out again; what is
not live must not be used. The semaphore `eventSemaphore` of the group makes the handling of a
message, and a poll, one step.

* `switchMessage`, `dispatchEventList` — the handling of one message.
* `turn` — one step of a call or of the event task.
-/

namespace PgClient.Pgos.Event

def eventNodeNum : Nat := 32

/-- `MSOS_WAIT_FOREVER`. -/
def waitForever : Nat := 0xffffffff

inductive EventWaitMode
  | E_AND
  | E_OR
  | E_AND_CLEAR
  | E_OR_CLEAR
  deriving DecidableEq

/-- `Event_node_t`; a node whose `eventSemaphore` is 0 is not in use. `call` is the call that the
request is from; the code does not have it. -/
structure EventNode where
  eventSemaphore : Nat
  requestEventFlag : UInt32
  requestEventMode : EventWaitMode
  returnEventAddr : Nat
  call : Nat
  deriving DecidableEq

/-- `EVENT_MESSAGE`. A request and its withdrawal have the fields of the node, `Param1`,
`Param2`, `Result` and `ReturnSemaphore`. -/
inductive EventMessage
  | clearEvent (Param1 : UInt32)
  | setEvent (Param1 : UInt32)
  | waitEvent (node : EventNode)
  | releaseEvent (node : EventNode)
  deriving DecidableEq

/-- `MSOS_event`, the queue of its messages, and the memory. -/
structure Group where
  eventDeleted : Bool
  eventFlag : UInt32
  container : List EventNode
  queue : List EventMessage
  /-- The message that the event task has received and not handled yet. -/
  current : Option EventMessage
  /-- The result cells that are allocated. -/
  cells : Nat → Option UInt32
  /-- The counts of the semaphores that are allocated. -/
  semaphores : Nat → Option Nat
  /-- The call's cell and semaphore, from their allocation to their release. This and what
  follows is a record that the code does not have. -/
  allocated : Nat → Option EventNode
  /-- The calls whose cell and semaphore were released. -/
  released : List Nat
  /-- The calls on whose behalf flags were cleared, each with the flags that it was given. -/
  cleared : List (Nat × UInt32)

namespace Group

variable (g : Group)

/-! ## Memory -/

/-- `malloc` and `MsOS_CreateSemaphore(0)`; `garbage` is what the new cell has in it. -/
def create (node : EventNode) (garbage : UInt32) : Group :=
  { g with
    cells := Function.update g.cells node.returnEventAddr (some garbage)
    semaphores := Function.update g.semaphores node.eventSemaphore (some 0)
    allocated := Function.update g.allocated node.call (some node) }

/-- `*returnEventAddr = u32EventFlag`; `none` is a use of memory that is not live, here and
below. -/
def write (addr : Nat) (u32EventFlag : UInt32) : Option Group :=
  match g.cells addr with
  | none => none
  | some _ => some { g with cells := Function.update g.cells addr (some u32EventFlag) }

/-- `MsOS_ReleaseSemaphore`. -/
def post (semaphore : Nat) : Option Group :=
  match g.semaphores semaphore with
  | none => none
  | some n => some { g with semaphores := Function.update g.semaphores semaphore (some (n + 1)) }

/-- `free` of the result cell and `MsOS_DeleteSemaphore`. -/
def release (node : EventNode) : Option Group :=
  match g.cells node.returnEventAddr, g.semaphores node.eventSemaphore with
  | some _, some _ => some { g with
      cells := Function.update g.cells node.returnEventAddr none
      semaphores := Function.update g.semaphores node.eventSemaphore none
      allocated := Function.update g.allocated node.call none
      released := g.released ++ [node.call] }
  | _, _ => none

/-! ## The container -/

/-- `_AddEventList`; `none` is the failed assertion when the container is full. -/
def addEventList (node : EventNode) : Option Group :=
  match g.container.findIdx? (fun n => n.eventSemaphore = 0) with
  | none => none
  | some i => some { g with container := g.container.set i node }

/-- `_RemoveEventList`. -/
def removeEventList (eventSemaphore : Nat) : Option Group :=
  match g.container.findIdx? (fun n => n.eventSemaphore = eventSemaphore) with
  | none => some g
  | some i =>
    match g.container[i]? with
    | none => some g
    | some n =>
      (g.release n).map fun g =>
        { g with container := g.container.set i { n with eventSemaphore := 0 } }

end Group

/-- The conditions of `_DisptchEventList`. -/
def EventNode.wants (n : EventNode) (u32EventFlag : UInt32) : Bool :=
  match n.requestEventMode with
  | .E_AND => n.requestEventFlag = u32EventFlag
  | .E_OR => n.requestEventFlag &&& u32EventFlag ≠ 0
  | .E_AND_CLEAR => n.requestEventFlag = u32EventFlag
  | .E_OR_CLEAR => n.requestEventFlag &&& u32EventFlag ≠ 0

/-- Whether the request consumes the flags. -/
def EventWaitMode.clears : EventWaitMode → Bool
  | .E_AND => false
  | .E_OR => false
  | .E_AND_CLEAR => true
  | .E_OR_CLEAR => true

namespace Group

variable (g : Group)

/-- What `_DisptchEventList` does with a request that it can serve. -/
def serve (u32EventFlag : UInt32) (i : Nat) (n : EventNode) : Option Group :=
  (g.write n.returnEventAddr u32EventFlag).bind fun g =>
    (g.post n.eventSemaphore).map fun g =>
      { g with
        container := g.container.set i { n with eventSemaphore := 0 }
        eventFlag := if n.requestEventMode.clears then g.eventFlag &&& ~~~u32EventFlag
          else g.eventFlag
        cleared := if n.requestEventMode.clears then g.cleared ++ [(n.call, u32EventFlag)]
          else g.cleared }

/-- One turn of the loop of `_DisptchEventList`. -/
def dispatchNode (u32EventFlag : UInt32) (i : Nat) (g : Group) : Option Group :=
  match g.container[i]? with
  | none => some g
  | some n =>
    if n.eventSemaphore ≠ 0 ∧ n.wants u32EventFlag then g.serve u32EventFlag i n else some g

/-- `_DisptchEventList`; the flags that the requests are compared with are read once. -/
def dispatchEventList : Option Group :=
  PartialRun.runAll (dispatchNode g.eventFlag) (List.range eventNodeNum) g

/-- The `switch` of `MsOS_EventTask`. -/
def switchMessage : EventMessage → Option Group
  | .clearEvent Param1 => some { g with eventFlag := g.eventFlag &&& ~~~Param1 }
  | .setEvent Param1 => some { g with eventFlag := g.eventFlag ||| Param1 }
  | .waitEvent node => g.addEventList node
  | .releaseEvent node => g.removeEventList node.eventSemaphore

end Group

/-! ## Calls -/

/-- A call of `MsOS_SetEvent`, `MsOS_ClearEvent`, `MsOS_WaitEvent` or `MsOS_DeleteEventGroup`, or
one of `MsOS_CreateEventGroup` with the name of the group. -/
inductive Request
  | setEvent (u32EventFlag : UInt32)
  | clearEvent (u32EventFlag : UInt32)
  | waitEvent (u32WaitEventFlag : UInt32) (eWaitMode : EventWaitMode) (u32WaitMs : Nat)
  | deleteEventGroup
  | createEventGroup
  deriving DecidableEq

/-- The next step of a call, or of the event task. -/
inductive Thread
  /-- `MsOS_EventTask`. -/
  | task
  /-- A call at its start. -/
  | entering (r : Request)
  /-- It returned 0 because the group was deleted. -/
  | refused
  /-- `MsOS_SetEvent`, at `MsOS_SendToQueue`. -/
  | setting (u32EventFlag : UInt32)
  /-- `MsOS_ClearEvent`, at `MsOS_SendToQueue`. -/
  | clearing (u32EventFlag : UInt32)
  /-- A call without a wait returned. -/
  | posted
  /-- `MsOS_WaitEvent`, with the group not deleted. -/
  | wait (u32WaitEventFlag : UInt32) (eWaitMode : EventWaitMode) (u32WaitMs : Nat)
  /-- With its cell and its semaphore, at the send of the request. -/
  | sendWait (node : EventNode) (u32WaitMs : Nat)
  /-- At `MsOS_ObtainSemaphore`. -/
  | waiting (node : EventNode) (u32WaitMs : Nat)
  /-- After a time-out, at the send of the withdrawal. -/
  | sendRelease (node : EventNode)
  /-- It returned 0 after a time-out. -/
  | timedOut
  /-- With the semaphore obtained. -/
  | reading (node : EventNode)
  /-- It returned 1; `flags` is `*pu32RetrievedEventFlag`. -/
  | served (flags : UInt32)
  /-- It returned without a wait. -/
  | polled (result : Bool) (flags : UInt32)
  deriving DecidableEq

/-- The start of a call: `eventDeleted` is read or written. A group that is deleted keeps its task,
and can be had again under its name. -/
def enter (g : Group) : Request → Group × Thread
  | .setEvent u32EventFlag => (g, if g.eventDeleted then .refused else .setting u32EventFlag)
  | .clearEvent u32EventFlag => (g, if g.eventDeleted then .refused else .clearing u32EventFlag)
  | .waitEvent u32WaitEventFlag eWaitMode u32WaitMs =>
    (g, if g.eventDeleted then .refused else .wait u32WaitEventFlag eWaitMode u32WaitMs)
  | .deleteEventGroup => ({ g with eventDeleted := true }, .posted)
  | .createEventGroup => ({ g with eventDeleted := false }, .posted)

/-- What is decided outside: whether a timed wait ends, and what `malloc` gives. -/
inductive Choice
  | goOn
  | timeOut
  | malloc (cell semaphore : Nat) (garbage : UInt32)
  deriving DecidableEq

/-- `MsOS_WaitEvent` with `u32WaitMs` 0. Where `E_OR` finds no flag it goes on with the test of
`E_OR_CLEAR`, which finds none either. -/
def poll (g : Group) (u32WaitEventFlag : UInt32) (eWaitMode : EventWaitMode) : Group × Thread :=
  let flags := u32WaitEventFlag &&& g.eventFlag
  match eWaitMode with
  | .E_OR => (g, .polled (flags ≠ 0) flags)
  | .E_OR_CLEAR =>
    if flags ≠ 0 then ({ g with eventFlag := g.eventFlag &&& ~~~flags }, .polled true flags)
    else (g, .polled false flags)
  | _ => (g, .polled false flags)

/-- `MsOS_SendToQueue` with no time-out. -/
def send (g : Group) (m : EventMessage) (l l' : Thread) : Group × Thread :=
  if g.queue.length < eventNodeNum then ({ g with queue := g.queue ++ [m] }, l') else (g, l)

/-- One step of the event task: it receives a message, or handles the one it received. -/
def taskStep (g : Group) : Option (Group × Thread) :=
  match g.current with
  | some m =>
    (({ g with current := none }.switchMessage m).bind Group.dispatchEventList).map (·, .task)
  | none =>
    match g.queue with
    | [] => some (g, .task)
    | m :: queue => some ({ g with current := some m, queue := queue }, .task)

/-- One step of call `i`, or of the event task. -/
def turn (k : Choice) (i : Nat) (g : Group) : Thread → Option (Group × Thread)
  | .task => taskStep g
  | .entering r => some (enter g r)
  | .refused => some (g, .refused)
  | .setting u32EventFlag =>
    some (send g (.setEvent u32EventFlag) (.setting u32EventFlag) .posted)
  | .clearing u32EventFlag =>
    some (send g (.clearEvent u32EventFlag) (.clearing u32EventFlag) .posted)
  | .posted => some (g, .posted)
  | .wait u32WaitEventFlag eWaitMode u32WaitMs =>
    if u32WaitMs = 0 then some (poll g u32WaitEventFlag eWaitMode)
    else
      match k with
      | .malloc cell semaphore garbage =>
        if (g.cells cell).isSome ∨ (g.semaphores semaphore).isSome ∨ semaphore = 0 then
          some (g, .wait u32WaitEventFlag eWaitMode u32WaitMs)
        else
          let node : EventNode := ⟨semaphore, u32WaitEventFlag, eWaitMode, cell, i⟩
          some (g.create node garbage, .sendWait node u32WaitMs)
      | _ => some (g, .wait u32WaitEventFlag eWaitMode u32WaitMs)
  | .sendWait node u32WaitMs =>
    some (send g (.waitEvent node) (.sendWait node u32WaitMs) (.waiting node u32WaitMs))
  | .waiting node u32WaitMs =>
    match g.semaphores node.eventSemaphore with
    | none => none
    | some 0 =>
      if k = .timeOut ∧ u32WaitMs ≠ waitForever then some (g, .sendRelease node)
      else some (g, .waiting node u32WaitMs)
    | some (n + 1) =>
      some ({ g with semaphores := Function.update g.semaphores node.eventSemaphore (some n) },
        .reading node)
  | .sendRelease node => some (send g (.releaseEvent node) (.sendRelease node) .timedOut)
  | .timedOut => some (g, .timedOut)
  | .reading node =>
    match g.cells node.returnEventAddr with
    | none => none
    | some flags => (g.release node).map fun g => (g, .served flags)
  | .served flags => some (g, .served flags)
  | .polled result flags => some (g, .polled result flags)

/-- The calls on a group, and its event task. -/
def threads : Interleaving.System Request Choice Group Thread := ⟨Thread.entering, turn⟩

abbrev GroupEvent := Interleaving.Event Request Choice

abbrev Config := Interleaving.Config Group Thread

/-- A new group. -/
def newGroup : Group where
  eventDeleted := false
  eventFlag := 0
  container := List.replicate eventNodeNum ⟨0, 0, .E_AND, 0, 0⟩
  queue := []
  current := none
  cells _ := none
  semaphores _ := none
  allocated _ := none
  released := []
  cleared := []

/-- A new group and its event task. -/
def initial : Config := ⟨newGroup, [.task]⟩

end PgClient.Pgos.Event
