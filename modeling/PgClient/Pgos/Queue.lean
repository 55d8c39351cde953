import PgClient.Lib.HalfCircular
import PgClient.Lib.Interleaving

/-!
# The message queue of `MsOS_queue.c`

`n` message nodes in two half-circular lists, the free and the used ones, under one lock and two
counting semaphores. A call of `MsOS_SendToQueue` or `MsOS_RecvFromQueue` is a sequence of steps
on the semaphores and the lists, and any number of calls are interleaved.

The code is modelled on a queue whose memory is there (`MsOS_AllocateMemory` gave it), and no
signal handler interrupts a wait.

* `turn` — one step of one call.
* `addToListTail_spec`, `removeFromListHead_spec` — the list operations.
* `lists_of_create` — a new queue.
-/

namespace PgClient.Pgos

open HalfCircular (IsList)

/-! ## The code -/

def maxNumOfMsgs : Nat := 0x100
def maxSizeOfMsg : Nat := 0x100

/-- `MSOS_WAIT_FOREVER`. -/
def waitForever : Nat := 0xffffffff

/-- `MsOS_queue`; a node stands for its index in `pMsgList`, its fields are maps. -/
structure MsOSQueue where
  lockSemaphore : Nat
  sendSemaphore : Nat
  recvSemaphore : Nat
  maxNumOfMsgs : Nat
  maxSizeOfMsg : Nat
  prev : Nat → Option Nat
  next : Nat → Option Nat
  msgRealSize : Nat → Nat
  msg : Nat → List UInt8
  pFreeHead : Option Nat
  pUsedHead : Option Nat

namespace MsOSQueue

/-- The head that `bFree` selects. -/
def head (q : MsOSQueue) (bFree : Bool) : Option Nat := if bFree then q.pFreeHead else q.pUsedHead

def setHead (q : MsOSQueue) (bFree : Bool) (p : Option Nat) : MsOSQueue :=
  if bFree then { q with pFreeHead := p } else { q with pUsedHead := p }

def setPrev (q : MsOSQueue) (a : Nat) (p : Option Nat) : MsOSQueue :=
  { q with prev := Function.update q.prev a p }

def setNext (q : MsOSQueue) (a : Nat) (p : Option Nat) : MsOSQueue :=
  { q with next := Function.update q.next a p }

/-- `_getNodeByIndex`. -/
def getNodeByIndex (q : MsOSQueue) (curIndex : Nat) : Option Nat :=
  if curIndex < q.maxNumOfMsgs then some curIndex else none

/-- `_AddToListTail`; `none` is a null dereference. -/
def addToListTail (q : MsOSQueue) (bFree : Bool) : Option Nat → Option MsOSQueue
  | none => some q
  | some pNode =>
    match q.head bFree with
    | none => some (((q.setHead bFree (some pNode)).setPrev pNode (some pNode)).setNext pNode none)
    | some pCur =>
      let q := (q.setPrev pNode (q.prev pCur)).setNext pNode none
      match q.prev pCur with
      | none => none
      | some last => some ((q.setNext last (some pNode)).setPrev pCur (some pNode))

/-- `_RemoveFromListHead`. -/
def removeFromListHead (q : MsOSQueue) (bFree : Bool) : MsOSQueue × Option Nat :=
  match q.head bFree with
  | none => (q.setHead bFree none, none)
  | some pCur =>
    let q := match q.next pCur with
      | none => q
      | some pNext => q.setPrev pNext (q.prev pCur)
    (q.setHead bFree (q.next pCur), some pCur)

/-- The queue before its nodes are linked, zeroed. -/
def blank (u32QueueSize u32MessageSize : Nat) : MsOSQueue where
  lockSemaphore := 0
  sendSemaphore := 0
  recvSemaphore := 0
  maxNumOfMsgs := u32QueueSize
  maxSizeOfMsg := u32MessageSize
  prev _ := none
  next _ := none
  msgRealSize _ := 0
  msg _ := List.replicate ((u32MessageSize + 3) / 4 * 4) 0
  pFreeHead := none
  pUsedHead := none

/-- The loop of `MsOS_CreateQueue`. -/
def linkNodes (q : MsOSQueue) : Option MsOSQueue :=
  PartialRun.runAll (fun i q => q.addToListTail true (q.getNodeByIndex i))
    (List.range q.maxNumOfMsgs) q

end MsOSQueue

/-- `MsOS_CreateQueue`; `none` is 0. Its first check has the message's size where the second one
has it again. -/
def msOSCreateQueue (u32QueueSize u32MessageSize : Nat) : Option MsOSQueue :=
  if u32QueueSize = 0 ∨ maxNumOfMsgs < u32MessageSize then none
  else if u32MessageSize = 0 ∨ maxSizeOfMsg < u32MessageSize then none
  else (MsOSQueue.blank u32QueueSize u32MessageSize).linkNodes.map fun q =>
    { q with lockSemaphore := 1, sendSemaphore := q.maxNumOfMsgs, recvSemaphore := 0 }

/-- A call: the arguments that count. `pu8Message` has `u32Size` bytes. -/
inductive Request
  | sendToQueue (pu8Message : List UInt8) (u32WaitMs : Nat)
  | recvFromQueue (u32IntendedSize u32WaitMs : Nat)

/-- What a receive writes to `pu8Message` and to `pu32ActualSize`. -/
structure Received where
  bytes : List UInt8
  actualSize : Nat
  deriving DecidableEq

/-- What is done between `MsOS_ObtainSemaphore` and `MsOS_ReleaseSemaphore` of the lock. -/
inductive Section
  /-- In `QueueClaim`. -/
  | claim (msg : List UInt8)
  /-- In `QueueSend`. -/
  | append (msg : List UInt8) (pNode : Nat)
  /-- In `MsOS_SendToQueue`, when the message is too long. -/
  | putBack (msg : List UInt8) (pNode : Nat)
  /-- In `QueueRecv`. -/
  | take (u32IntendedSize : Nat)
  /-- In `QueueFree`. -/
  | free (u32IntendedSize : Nat) (out : Received) (pNode : Nat)
  deriving DecidableEq

/-- Where a call goes on when it has released the lock. -/
inductive After
  | claimed (msg : List UInt8) (pNode : Option Nat)
  | appended (msg : List UInt8)
  | putBack (msg : List UInt8)
  | taken (u32IntendedSize : Nat) (pNode : Option Nat)
  | freed (u32IntendedSize : Nat) (out : Received)
  deriving DecidableEq

/-- The next step of a call. -/
inductive Call
  /-- Obtain `sendSemaphore`. -/
  | obtainSend (msg : List UInt8) (u32WaitMs : Nat)
  /-- Obtain `recvSemaphore`. -/
  | obtainRecv (u32IntendedSize u32WaitMs : Nat)
  /-- Obtain `lockSemaphore`. -/
  | lock (s : Section)
  /-- The list operation. -/
  | list (s : Section)
  /-- Release `lockSemaphore`. -/
  | unlock (k : After)
  /-- What `MsOS_SendToQueue` does with the claimed node. -/
  | copyIn (msg : List UInt8) (pNode : Option Nat)
  /-- What `MsOS_RecvFromQueue` does with the taken node. -/
  | copyOut (u32IntendedSize : Nat) (pNode : Option Nat)
  /-- Release `recvSemaphore`. -/
  | releaseRecv (msg : List UInt8)
  /-- Release `sendSemaphore`. -/
  | releaseSend (u32IntendedSize : Nat) (out : Received)
  /-- The send returned 1. -/
  | sent (msg : List UInt8)
  /-- The send returned 0, the message was too long. -/
  | rejected (msg : List UInt8)
  /-- The receive returned 1. -/
  | received (u32IntendedSize : Nat) (out : Received)
  /-- The call got no node and returned 0. -/
  | failed
  deriving DecidableEq

def After.next : After → Call
  | .claimed msg pNode => .copyIn msg pNode
  | .appended msg => .releaseRecv msg
  | .putBack msg => .rejected msg
  | .taken u32IntendedSize pNode => .copyOut u32IntendedSize pNode
  | .freed u32IntendedSize out => .releaseSend u32IntendedSize out

/-- The first step of a call. -/
def Request.call : Request → Call
  | .sendToQueue msg u32WaitMs => .obtainSend msg u32WaitMs
  | .recvFromQueue u32IntendedSize u32WaitMs => .obtainRecv u32IntendedSize u32WaitMs

/-- The queue, and a record of what happened to its used list: the messages that were appended,
each with its call, and the calls that took one. The code does not read the record. -/
structure World where
  queue : MsOSQueue
  appended : List (Nat × List UInt8)
  taken : List Nat

/-- Whether a timed wait ends before it obtains its semaphore. -/
inductive Choice
  | goOn
  | timeOut
  deriving DecidableEq

/-- The list operation of call `i`. -/
def listStep (i : Nat) (w : World) : Section → Option (World × Call)
  | .claim msg =>
    let r := w.queue.removeFromListHead true
    some ({ w with queue := r.1 }, .unlock (.claimed msg r.2))
  | .append msg pNode =>
    (w.queue.addToListTail false (some pNode)).map fun q =>
      ({ w with queue := q, appended := w.appended ++ [(i, msg)] }, .unlock (.appended msg))
  | .putBack msg pNode =>
    (w.queue.addToListTail true (some pNode)).map fun q =>
      ({ w with queue := q }, .unlock (.putBack msg))
  | .take u32IntendedSize =>
    let r := w.queue.removeFromListHead false
    some ({ w with queue := r.1, taken := if r.2.isSome then w.taken ++ [i] else w.taken },
      .unlock (.taken u32IntendedSize r.2))
  | .free u32IntendedSize out pNode =>
    (w.queue.addToListTail true (some pNode)).map fun q =>
      ({ w with queue := q }, .unlock (.freed u32IntendedSize out))

/-- `memcpy(pNode->msg, pu8Message, u32Size)` and the size; `none` is a write past the node. -/
def copyMsg (q : MsOSQueue) (pNode : Nat) (msg : List UInt8) : Option MsOSQueue :=
  if (q.msg pNode).length < msg.length then none
  else some { q with
    msg := Function.update q.msg pNode (msg ++ (q.msg pNode).drop msg.length)
    msgRealSize := Function.update q.msgRealSize pNode msg.length }

/-- What `MsOS_RecvFromQueue` copies; `none` is a read past the node. -/
def deliver (q : MsOSQueue) (pNode u32IntendedSize : Nat) : Option Received :=
  let size :=
    if q.msgRealSize pNode ≤ u32IntendedSize then q.msgRealSize pNode else u32IntendedSize
  if (q.msg pNode).length < size then none else some ⟨(q.msg pNode).take size, size⟩

/-- One step of call `i`; a call that waits stays where it is, as one that returned does. `none`
is undefined behaviour. -/
def turn (k : Choice) (i : Nat) (w : World) : Call → Option (World × Call)
  | .obtainSend msg u32WaitMs =>
    if k = .timeOut ∧ u32WaitMs ≠ waitForever then some (w, .failed)
    else if w.queue.sendSemaphore = 0 then some (w, .obtainSend msg u32WaitMs)
    else some ({ w with queue := { w.queue with sendSemaphore := w.queue.sendSemaphore - 1 } },
      .lock (.claim msg))
  | .obtainRecv u32IntendedSize u32WaitMs =>
    if k = .timeOut ∧ u32WaitMs ≠ waitForever then some (w, .failed)
    else if w.queue.recvSemaphore = 0 then some (w, .obtainRecv u32IntendedSize u32WaitMs)
    else some ({ w with queue := { w.queue with recvSemaphore := w.queue.recvSemaphore - 1 } },
      .lock (.take u32IntendedSize))
  | .lock s =>
    if w.queue.lockSemaphore = 0 then some (w, .lock s)
    else some ({ w with queue := { w.queue with lockSemaphore := w.queue.lockSemaphore - 1 } },
      .list s)
  | .list s => listStep i w s
  | .unlock k =>
    some ({ w with queue := { w.queue with lockSemaphore := w.queue.lockSemaphore + 1 } }, k.next)
  | .copyIn _ none => some (w, .failed)
  | .copyIn msg (some pNode) =>
    if msg.length ≤ w.queue.maxSizeOfMsg then
      (copyMsg w.queue pNode msg).map fun q => ({ w with queue := q }, .lock (.append msg pNode))
    else some (w, .lock (.putBack msg pNode))
  | .copyOut _ none => some (w, .failed)
  | .copyOut u32IntendedSize (some pNode) =>
    (deliver w.queue pNode u32IntendedSize).map fun out =>
      (w, .lock (.free u32IntendedSize out pNode))
  | .releaseRecv msg =>
    some ({ w with queue := { w.queue with recvSemaphore := w.queue.recvSemaphore + 1 } },
      .sent msg)
  | .releaseSend u32IntendedSize out =>
    some ({ w with queue := { w.queue with sendSemaphore := w.queue.sendSemaphore + 1 } },
      .received u32IntendedSize out)
  | .sent msg => some (w, .sent msg)
  | .rejected msg => some (w, .rejected msg)
  | .received u32IntendedSize out => some (w, .received u32IntendedSize out)
  | .failed => some (w, .failed)

/-- The calls of the queue, as threads. -/
def calls : Interleaving.System Request Choice World Call := ⟨Request.call, turn⟩

abbrev Schedule := List (Interleaving.Event Request Choice)

abbrev Config := Interleaving.Config World Call

/-- A schedule from a queue on that no call has used. -/
def runCalls (q : MsOSQueue) (es : Schedule) : Option Config :=
  Interleaving.run calls es ⟨⟨q, [], []⟩, []⟩

/-! ## The two lists -/

namespace MsOSQueue

variable {q q' : MsOSQueue} {L : Bool → List Nat} {b : Bool} {a : Nat}

/-- The free nodes and the used ones, in the order of their lists. -/
structure Lists (q : MsOSQueue) (L : Bool → List Nat) : Prop where
  isList : ∀ b, IsList q.prev q.next (q.head b) (L b)
  disjoint : ∀ a, a ∈ L true → a ∉ L false

/-- Only the links and the heads differ. -/
structure Relinked (q q' : MsOSQueue) : Prop where
  lock : q'.lockSemaphore = q.lockSemaphore
  send : q'.sendSemaphore = q.sendSemaphore
  recv : q'.recvSemaphore = q.recvSemaphore
  num : q'.maxNumOfMsgs = q.maxNumOfMsgs
  size : q'.maxSizeOfMsg = q.maxSizeOfMsg
  realSize : q'.msgRealSize = q.msgRealSize
  msg : q'.msg = q.msg

/-- The head of a list is what was stored; the other list keeps its own. -/
@[simp] theorem head_setHead (q : MsOSQueue) (b : Bool) (p : Option Nat) :
    (q.setHead b p).head b = p := by
  cases b <;> rfl

theorem head_setHead_ne (q : MsOSQueue) {b c : Bool} (p : Option Nat) (h : c ≠ b) :
    (q.setHead b p).head c = q.head c := by
  cases b <;> cases c <;> first | rfl | exact absurd rfl h

@[simp] theorem setHead_prev (q : MsOSQueue) (b : Bool) (p : Option Nat) :
    (q.setHead b p).prev = q.prev := by
  cases b <;> rfl

@[simp] theorem setHead_next (q : MsOSQueue) (b : Bool) (p : Option Nat) :
    (q.setHead b p).next = q.next := by
  cases b <;> rfl

section Links

variable (q : MsOSQueue) (a : Nat) (p : Option Nat) (b : Bool)

@[simp] theorem setPrev_prev : (q.setPrev a p).prev = Function.update q.prev a p := rfl

@[simp] theorem setPrev_next : (q.setPrev a p).next = q.next := rfl

@[simp] theorem head_setPrev : (q.setPrev a p).head b = q.head b := rfl

@[simp] theorem setNext_prev : (q.setNext a p).prev = q.prev := rfl

@[simp] theorem setNext_next : (q.setNext a p).next = Function.update q.next a p := rfl

@[simp] theorem head_setNext : (q.setNext a p).head b = q.head b := rfl

theorem relinked_setHead : q.Relinked (q.setHead b p) := by
  cases b <;> exact ⟨rfl, rfl, rfl, rfl, rfl, rfl, rfl⟩

theorem relinked_setPrev : q.Relinked (q.setPrev a p) := ⟨rfl, rfl, rfl, rfl, rfl, rfl, rfl⟩

theorem relinked_setNext : q.Relinked (q.setNext a p) := ⟨rfl, rfl, rfl, rfl, rfl, rfl, rfl⟩

end Links

/-- Links may be changed one after another. -/
theorem Relinked.trans {q'' : MsOSQueue} (h : q.Relinked q') (h' : q'.Relinked q'') :
    q.Relinked q'' :=
  ⟨h'.lock.trans h.lock, h'.send.trans h.send, h'.recv.trans h.recv, h'.num.trans h.num,
    h'.size.trans h.size, h'.realSize.trans h.realSize, h'.msg.trans h.msg⟩

/-- No node is in both lists. -/
theorem Lists.not_mem_of_ne (h : q.Lists L) {c : Bool} (hc : c ≠ b) (ha : a ∈ L b) :
    a ∉ L c := by
  cases b with
  | true =>
    obtain rfl : c = false := by simpa using hc
    exact h.disjoint a ha
  | false =>
    obtain rfl : c = true := by simpa using hc
    exact fun ha' => h.disjoint a ha' ha

/-- A list operation on the one list, whose writes spare the nodes of the other one. -/
theorem Lists.update (h : q.Lists L) {xs : List Nat}
    (hb : IsList q'.prev q'.next (q'.head b) xs) (hhead : ∀ c, c ≠ b → q'.head c = q.head c)
    (hprev : ∀ c, c ≠ b → ∀ a ∈ L c, q'.prev a = q.prev a)
    (hnext : ∀ c, c ≠ b → ∀ a ∈ L c, q'.next a = q.next a)
    (hdisj : ∀ c, c ≠ b → ∀ a ∈ xs, a ∉ L c) : q'.Lists (Function.update L b xs) where
  -- the list that was changed, and the other one
  isList c := by
    rcases eq_or_ne c b with rfl | hc
    · rw [Function.update_self]
      exact hb
    · rw [Function.update_of_ne hc, hhead c hc]
      exact (h.isList c).congr (hprev c hc) (hnext c hc)
  disjoint := by
    cases b with
    | true =>
      rw [Function.update_self, Function.update_of_ne (by simp)]
      exact hdisj false (by simp)
    | false =>
      rw [Function.update_self, Function.update_of_ne (by simp)]
      exact fun a ha ha' => hdisj true (by simp) a ha' ha

/-- A node in neither list becomes the list that was empty. -/
theorem addToListTail_empty (h : q.Lists L) (ha : ∀ c, a ∉ L c) (hL : L b = []) :
    ∃ q', q.addToListTail b (some a) = some q' ∧ q'.Lists (Function.update L b [a]) ∧
      q.Relinked q' := by
  have hlist := h.isList b
  rw [hL] at hlist
  have hhead : q.head b = none := hlist.head_eq
  -- the writes go to the new node only
  have hne : ∀ c, ∀ x ∈ L c, x ≠ a := fun c x hx hxa => ha c (hxa ▸ hx)
  refine ⟨((q.setHead b (some a)).setPrev a (some a)).setNext a none,
    by rw [addToListTail, hhead], ?_, ?_⟩
  · refine h.update (b := b) ?_ ?_ ?_ ?_ ?_
    · rw [setNext_prev, setPrev_prev, setNext_next, setPrev_next, head_setNext, head_setPrev,
        head_setHead]
      exact IsList.addEmpty _ _ a
    · intro c hc
      rw [head_setNext, head_setPrev, head_setHead_ne q _ hc]
    · intro c _ x hx
      rw [setNext_prev, setPrev_prev, Function.update_of_ne (hne c x hx), setHead_prev]
    · intro c _ x hx
      rw [setNext_next, Function.update_of_ne (hne c x hx), setPrev_next, setHead_next]
    · intro c _ x hx
      rw [List.mem_singleton.mp hx]
      exact ha c
  · exact ((q.relinked_setHead (some a) b).trans (relinked_setPrev _ _ _)).trans
      (relinked_setNext _ _ _)

/-- A node in neither list goes behind the last one. -/
theorem addToListTail_behind (h : q.Lists L) (ha : ∀ c, a ∉ L c) {pCur : Nat} {cs : List Nat}
    (hL : L b = pCur :: cs) :
    ∃ q', q.addToListTail b (some a) = some q' ∧
      q'.Lists (Function.update L b (pCur :: cs ++ [a])) ∧ q.Relinked q' := by
  have hlist := h.isList b
  rw [hL] at hlist
  have hhead : q.head b = some pCur := hlist.head_eq
  have hne : ∀ c, ∀ x ∈ L c, x ≠ a := fun c x hx hxa => ha c (hxa ▸ hx)
  obtain ⟨last, hlast⟩ : ∃ last, (pCur :: cs).getLast? = some last :=
    ⟨_, List.getLast?_eq_some_getLast (List.cons_ne_nil pCur cs)⟩
  have hprev : q.prev pCur = some last := (hlist.prev_head pCur rfl).trans hlast
  have hcur : pCur ∈ L b := by rw [hL]; exact List.mem_cons_self
  have hlastmem : last ∈ L b := by rw [hL]; exact List.mem_of_getLast? hlast
  have hprev' : Function.update q.prev a (q.prev pCur) pCur = some last := by
    rw [Function.update_of_ne (hne b pCur hcur), hprev]
  refine ⟨(((q.setPrev a (q.prev pCur)).setNext a none).setNext last (some a)).setPrev pCur
    (some a), ?_, ?_, ?_⟩
  · rw [addToListTail, hhead]
    simp only [setNext_prev, setPrev_prev, hprev']
  · refine h.update (b := b) ?_ ?_ ?_ ?_ ?_
    · rw [setPrev_prev, setNext_prev, setNext_prev, setPrev_prev, setPrev_next, setNext_next,
        setNext_next, setPrev_next, head_setPrev, head_setNext, head_setNext, head_setPrev, hhead]
      exact hlist.addTail (hL ▸ ha b) hprev
    · intro c _
      rw [head_setPrev, head_setNext, head_setNext, head_setPrev]
    -- the nodes written are the new one and two of this list
    · intro c hc x hx
      have hxc : x ≠ pCur := fun h' => h.not_mem_of_ne hc hcur (h' ▸ hx)
      rw [setPrev_prev, Function.update_of_ne hxc, setNext_prev, setNext_prev, setPrev_prev,
        Function.update_of_ne (hne c x hx)]
    · intro c hc x hx
      have hxl : x ≠ last := fun h' => h.not_mem_of_ne hc hlastmem (h' ▸ hx)
      rw [setPrev_next, setNext_next, Function.update_of_ne hxl, setNext_next,
        Function.update_of_ne (hne c x hx), setPrev_next]
    · intro c hc x hx
      rcases List.mem_append.mp hx with hx | hx
      · exact h.not_mem_of_ne hc (hL ▸ hx)
      · rw [List.mem_singleton.mp hx]
        exact ha c
  · exact (((q.relinked_setPrev _ _).trans (relinked_setNext _ _ _)).trans
      (relinked_setNext _ _ _)).trans (relinked_setPrev _ _ _)

/-- A node in neither list goes to the end of the one. -/
theorem addToListTail_spec (h : q.Lists L) (ha : ∀ c, a ∉ L c) :
    ∃ q', q.addToListTail b (some a) = some q' ∧ q'.Lists (Function.update L b (L b ++ [a])) ∧
      q.Relinked q' := by
  cases hL : L b with
  | nil => exact addToListTail_empty h ha hL
  | cons pCur cs => exact addToListTail_behind h ha hL

/-- The head of a list that has one leaves it. -/
theorem removeFromListHead_spec (h : q.Lists L) {as : List Nat} (hL : L b = a :: as) :
    ∃ q', q.removeFromListHead b = (q', some a) ∧ q'.Lists (Function.update L b as) ∧
      q.Relinked q' := by
  have hlist := h.isList b
  rw [hL] at hlist
  have hhead : q.head b = some a := hlist.head_eq
  have hnext : q.next a = as.head? := hlist.next_head
  -- the lists are disjoint, so writes at the nodes of this one leave the other
  have hdisj : ∀ c, c ≠ b → ∀ x ∈ as, x ∉ L c := fun c hc x hx =>
    h.not_mem_of_ne hc (by rw [hL]; exact List.mem_cons_of_mem a hx)
  cases as with
  | nil =>
    refine ⟨q.setHead b none, ?_, ?_, ?_⟩
    · simp only [removeFromListHead, hhead, hnext, List.head?_nil]
    · refine h.update (b := b) ?_ (fun c hc => head_setHead_ne q _ hc) ?_ ?_ hdisj
      · rw [head_setHead]
        exact HalfCircular.isList_nil _ _
      · exact fun c _ x _ => by rw [setHead_prev]
      · exact fun c _ x _ => by rw [setHead_next]
    · exact q.relinked_setHead none b
  | cons pNext as =>
    have hmem : pNext ∈ L b := by rw [hL]; simp
    refine ⟨(q.setPrev pNext (q.prev a)).setHead b (some pNext), ?_, ?_, ?_⟩
    · simp only [removeFromListHead, hhead, hnext, List.head?_cons, setPrev_next]
    · refine h.update (b := b) ?_ (fun c hc => head_setHead_ne _ _ hc) ?_ ?_ hdisj
      · rw [head_setHead, setHead_prev, setHead_next]
        exact hlist.removeHead
      · intro c hc x hx
        rw [setHead_prev]
        -- the one link that is written is the next node's
        have hne : x ≠ pNext := fun h' => h.not_mem_of_ne hc hmem (h' ▸ hx)
        exact Function.update_of_ne hne _ _
      · exact fun c _ x _ => by rw [setHead_next]; rfl
    · exact (q.relinked_setPrev _ _).trans (relinked_setHead _ _ _)

/-- The first `k` nodes in the free list, none in the used one. -/
def allFree (k : Nat) : Bool → List Nat
  | true => List.range k
  | false => []

/-- The nodes of a new queue are free, in the order of their indices. -/
theorem linkNodes_spec (u32QueueSize u32MessageSize : Nat) :
    ∃ q, (blank u32QueueSize u32MessageSize).linkNodes = some q ∧
      q.Lists (allFree u32QueueSize) ∧ (blank u32QueueSize u32MessageSize).Relinked q := by
  -- the invariant: the first `k` nodes are linked
  refine @PartialRun.runAll_range_ok _ _ (fun k q =>
    q.Lists (allFree k) ∧ (blank u32QueueSize u32MessageSize).Relinked q) _ _ ?_ ?_
  · refine ⟨⟨fun b => ?_, fun a ha => absurd ha List.not_mem_nil⟩,
      ⟨rfl, rfl, rfl, rfl, rfl, rfl, rfl⟩⟩
    cases b <;> exact HalfCircular.isList_nil _ _
  · rintro i hi q ⟨hlists, hrel⟩
    -- the next one is in neither list
    have hfresh : ∀ c, i ∉ allFree i c := by
      intro c
      cases c <;> simp [allFree]
    obtain ⟨q', hadd, hlists', hrel'⟩ := addToListTail_spec (b := true) hlists hfresh
    have hnode : q.getNodeByIndex i = some i := by
      rw [getNodeByIndex, hrel.num]
      exact if_pos hi
    have hnext : Function.update (allFree i) true (allFree i true ++ [i]) = allFree (i + 1) := by
      funext b
      cases b
      · rfl
      · rw [Function.update_self]
        exact List.range_succ.symm
    exact ⟨q', by rw [hnode]; exact hadd, hnext ▸ hlists', hrel.trans hrel'⟩

/-- A queue as `MsOS_CreateQueue` gives it. -/
structure Created (u32QueueSize u32MessageSize : Nat) (q : MsOSQueue) : Prop where
  lists : q.Lists (allFree u32QueueSize)
  lock : q.lockSemaphore = 1
  send : q.sendSemaphore = u32QueueSize
  recv : q.recvSemaphore = 0
  size : q.maxSizeOfMsg = u32MessageSize
  room : ∀ a, u32MessageSize ≤ (q.msg a).length
  realSize : ∀ a, q.msgRealSize a = 0

end MsOSQueue

/-- A new queue has all its nodes in the free list, and its semaphores count them. -/
theorem created_of_create {u32QueueSize u32MessageSize : Nat} {q : MsOSQueue}
    (h : msOSCreateQueue u32QueueSize u32MessageSize = some q) :
    q.Created u32QueueSize u32MessageSize := by
  rw [msOSCreateQueue] at h
  split_ifs at h
  obtain ⟨q₀, hlink, hlists, hrel⟩ := MsOSQueue.linkNodes_spec u32QueueSize u32MessageSize
  rw [hlink] at h
  obtain rfl := Option.some.inj h
  refine ⟨⟨hlists.isList, hlists.disjoint⟩, rfl, hrel.num, rfl, hrel.size, fun a => ?_, fun a => ?_⟩
  -- the size is rounded up to whole words
  · show u32MessageSize ≤ (q₀.msg a).length
    rw [hrel.msg]
    show u32MessageSize ≤ (List.replicate ((u32MessageSize + 3) / 4 * 4) (0 : UInt8)).length
    rw [List.length_replicate]
    omega
  · show q₀.msgRealSize a = 0
    rw [hrel.realSize]
    rfl

/-- Every capacity and every message size that `MsOS_CreateQueue` admits gives a queue. -/
theorem exists_create {u32QueueSize u32MessageSize : Nat} (hnum : 0 < u32QueueSize)
    (hsize : 0 < u32MessageSize) (hmax : u32MessageSize ≤ maxSizeOfMsg) :
    ∃ q, msOSCreateQueue u32QueueSize u32MessageSize = some q := by
  obtain ⟨q, hlink, -, -⟩ := MsOSQueue.linkNodes_spec u32QueueSize u32MessageSize
  have hmax' : u32MessageSize ≤ maxNumOfMsgs := hmax
  rw [msOSCreateQueue, if_neg (by omega), if_neg (by omega), hlink]
  exact ⟨_, rfl⟩

/-! ## The message of a node -/

/-- Node `a` holds message `m`. -/
def Stored (q : MsOSQueue) (a : Nat) (m : List UInt8) : Prop :=
  q.msgRealSize a = m.length ∧ (q.msg a).take m.length = m

variable {q q' : MsOSQueue} {a : Nat} {m : List UInt8}

/-- The message of a node is in its own fields. -/
theorem Stored.congr (h : Stored q a m) (hsize : q'.msgRealSize a = q.msgRealSize a)
    (hmsg : q'.msg a = q.msg a) : Stored q' a m :=
  ⟨hsize.trans h.1, by rw [hmsg]; exact h.2⟩

/-- What is read from a node is its message, cut. -/
theorem Stored.deliver (h : Stored q a m) (u32IntendedSize : Nat) :
    deliver q a u32IntendedSize = some ⟨m.take u32IntendedSize, min m.length u32IntendedSize⟩ := by
  obtain ⟨hsize, hmsg⟩ := h
  have hlen : m.length ≤ (q.msg a).length := by
    have htake := congrArg List.length hmsg
    rw [List.length_take] at htake
    omega
  -- the shorter of what is there and what is asked for
  have hmin : (if q.msgRealSize a ≤ u32IntendedSize then q.msgRealSize a else u32IntendedSize) =
      min m.length u32IntendedSize := by
    rw [hsize, Nat.min_def]
  have htake : (q.msg a).take (min m.length u32IntendedSize) = m.take u32IntendedSize := by
    conv_rhs => rw [← hmsg]
    rw [List.take_take, Nat.min_comm]
  rw [Pgos.deliver, hmin, if_neg (by omega), htake]

/-- A copy that fits in the node gives its message to it and changes no other node. -/
theorem copyMsg_spec (h : m.length ≤ (q.msg a).length) :
    ∃ q', copyMsg q a m = some q' ∧ Stored q' a m ∧
      (∀ b, b ≠ a → q'.msgRealSize b = q.msgRealSize b ∧ q'.msg b = q.msg b) ∧
      (∀ b, (q'.msg b).length = (q.msg b).length) ∧
      q' = { q with msgRealSize := q'.msgRealSize, msg := q'.msg } := by
  refine ⟨_, if_neg (by omega), ⟨?_, ?_⟩, fun b hb => ⟨?_, ?_⟩, fun b => ?_, rfl⟩
  · exact Function.update_self ..
  -- the message lies at the front of the node's bytes
  · show (Function.update q.msg a (m ++ (q.msg a).drop m.length) a).take m.length = m
    rw [Function.update_self, List.take_left]
  · exact Function.update_of_ne hb ..
  · exact Function.update_of_ne hb ..
  · show (Function.update q.msg a (m ++ (q.msg a).drop m.length) b).length = _
    -- behind it the old bytes stay, so the length does
    rcases eq_or_ne b a with rfl | hb
    · rw [Function.update_self, List.length_append, List.length_drop]
      omega
    · rw [Function.update_of_ne hb]

end PgClient.Pgos
