import Mathlib.Data.List.Nodup
import PgClient.Lib.OwnedHeap
import PgClient.Pgos.Event

/-!
# The waits of an event group

A call that waits and the event task hand a result cell and a semaphore to each other: the
request is in a message, in the container, or it was served; after a time-out its withdrawal is
in a second message.

* `Places` — where the requests and the withdrawals are.
* `Stage` — what a call and the task have of its cell and its semaphore.
* `Ok.taskStep` — the handling of a message, if it serves no call that has given up.
* `Ok.turn` — what a step keeps.
-/

namespace PgClient.Pgos.Event

open Function (update update_self update_of_ne)
open OwnedHeap (Owned)

/-! ## Where a request is -/

namespace EventMessage

/-- The request that a message brings. -/
def asks : EventMessage → Option EventNode
  | .waitEvent node => some node
  | _ => none

/-- The request that a message takes back. -/
def withdraws : EventMessage → Option EventNode
  | .releaseEvent node => some node
  | _ => none

/-- The flags that a message leaves. -/
def flags (u32EventFlag : UInt32) : EventMessage → UInt32
  | .clearEvent Param1 => u32EventFlag &&& ~~~Param1
  | .setEvent Param1 => u32EventFlag ||| Param1
  | .waitEvent _ => u32EventFlag
  | .releaseEvent _ => u32EventFlag

end EventMessage

/-- The requests of a container. -/
def inUse (container : List EventNode) : List EventNode :=
  container.filter fun n => n.eventSemaphore ≠ 0

/-- The requests of a container and of messages. -/
def requested (used : List EventNode) (ms : List EventMessage) : List EventNode :=
  used ++ ms.filterMap EventMessage.asks

/-- The requests that messages take back. -/
def withdrawn (ms : List EventMessage) : List EventNode := ms.filterMap EventMessage.withdraws

/-- Every request and every withdrawal is of a call whose cell and semaphore are live, none is
there twice, and a withdrawal is behind its request. -/
structure Places (used : List EventNode) (ms : List EventMessage)
    (allocated : Nat → Option EventNode) : Prop where
  requested : (requested used ms).Nodup
  withdrawn : (withdrawn ms).Nodup
  ofRequested : ∀ n ∈ Event.requested used ms, allocated n.call = some n
  ofWithdrawn : ∀ n ∈ Event.withdrawn ms, allocated n.call = some n
  order : ∀ ms₁ n, ms₁ ++ [.releaseEvent n] <+: ms → n ∈ Event.requested used ms₁

section Lists

variable {used used' : List EventNode} {ms : List EventMessage} {n n' : EventNode}
  {m : EventMessage}

/-- A node is requested in the container, or by a message. -/
theorem mem_requested : n ∈ requested used ms ↔ n ∈ used ∨ .waitEvent n ∈ ms := by
  rw [requested, List.mem_append, List.mem_filterMap]
  refine or_congr_right ⟨?_, fun h => ⟨_, h, rfl⟩⟩
  rintro ⟨m, hm, hasks⟩
  cases m with
  | waitEvent node =>
    obtain rfl := Option.some.inj hasks
    exact hm
  | _ => exact nomatch hasks

/-- It is withdrawn by a message. -/
theorem mem_withdrawn : n ∈ withdrawn ms ↔ .releaseEvent n ∈ ms := by
  rw [withdrawn, List.mem_filterMap]
  refine ⟨?_, fun h => ⟨_, h, rfl⟩⟩
  rintro ⟨m, hm, hwithdraws⟩
  cases m with
  | releaseEvent node =>
    obtain rfl := Option.some.inj hwithdraws
    exact hm
  | _ => exact nomatch hwithdraws

/-- A message at the end may ask for a node. -/
theorem requested_concat : requested used (ms ++ [m]) = requested used ms ++ m.asks.toList := by
  rw [requested, requested, List.filterMap_append, List.append_assoc]
  cases hm : m.asks <;> simp [hm]

/-- A message at the end may withdraw a node. -/
theorem withdrawn_concat : withdrawn (ms ++ [m]) = withdrawn ms ++ m.withdraws.toList := by
  rw [withdrawn, withdrawn, List.filterMap_append]
  cases hm : m.withdraws <;> simp [hm]

/-- The message in front comes first. -/
theorem withdrawn_cons : withdrawn (m :: ms) = m.withdraws.toList ++ withdrawn ms := by
  rw [withdrawn, withdrawn, List.filterMap_cons]
  cases m.withdraws <;> simp

/-- A message that is handled brings its request from the queue to the container. -/
theorem requested_cons_perm (hused : used'.Perm (m.asks.toList ++ used)) :
    (requested used (m :: ms)).Perm (requested used' ms) := by
  rw [requested, requested, List.filterMap_cons]
  cases hm : m.asks with
  | none =>
    rw [hm] at hused
    exact (hused.append_right _).symm
  | some n =>
    rw [hm] at hused
    exact List.perm_middle.trans (hused.append_right _).symm

/-- A request leaves the container. -/
theorem requested_leave_perm (hused : used.Perm (n :: used')) :
    (requested used ms).Perm (n :: requested used' ms) :=
  hused.append_right _

namespace Places

variable {allocated : Nat → Option EventNode}

/-- A new node is at one place. -/
theorem create (h : Places used ms allocated) {i : Nat} (hi : allocated i = none) :
    Places used ms (update allocated i (some n)) := by
  -- no request of call `i` is there yet
  have hother : ∀ n', allocated n'.call = some n' →
      update allocated i (some n) n'.call = some n' := by
    intro n' hn'
    rw [update_of_ne]
    · exact hn'
    · intro heq
      rw [heq, hi] at hn'
      exact nomatch hn'
  exact ⟨h.requested, h.withdrawn, fun n' hn' => hother n' (h.ofRequested n' hn'),
    fun n' hn' => hother n' (h.ofWithdrawn n' hn'), h.order⟩

/-- One that no message names may be freed. -/
theorem free (h : Places used ms allocated) {i : Nat} (hi : allocated i = some n)
    (hask : n ∉ Event.requested used ms) (hwithdraw : n ∉ Event.withdrawn ms) :
    Places used ms (update allocated i none) := by
  -- the request that is released is the only one of call `i`
  have hother : ∀ n', n' ≠ n → allocated n'.call = some n' →
      update allocated i none n'.call = some n' := by
    intro n' hne hn'
    rw [update_of_ne]
    · exact hn'
    · intro heq
      rw [heq, hi] at hn'
      exact hne (Option.some.inj hn').symm
  refine ⟨h.requested, h.withdrawn, fun n' hn' => ?_, fun n' hn' => ?_, h.order⟩
  · exact hother n' (ne_of_mem_of_not_mem hn' hask) (h.ofRequested n' hn')
  · exact hother n' (ne_of_mem_of_not_mem hn' hwithdraw) (h.ofWithdrawn n' hn')

/-- A message is sent: a new request, a withdrawal of one that is there, or neither. -/
theorem send (h : Places used ms allocated)
    (hask : ∀ n ∈ m.asks, n ∉ Event.requested used ms ∧ allocated n.call = some n)
    (hwithdraw : ∀ n ∈ m.withdraws, n ∈ Event.requested used ms ∧ n ∉ Event.withdrawn ms) :
    Places used (ms ++ [m]) allocated := by
  constructor
  · rw [requested_concat, List.nodup_append']
    refine ⟨h.requested, ?_, fun n hn hm => ?_⟩
    · cases m.asks <;> simp
    · exact (hask n (Option.mem_toList.mp hm)).1 hn
  · rw [withdrawn_concat, List.nodup_append']
    refine ⟨h.withdrawn, ?_, fun n hn hm => ?_⟩
    · cases m.withdraws <;> simp
    · exact (hwithdraw n (Option.mem_toList.mp hm)).2 hn
  · intro n hn
    rw [requested_concat, List.mem_append, Option.mem_toList] at hn
    rcases hn with hn | hn
    · exact h.ofRequested n hn
    · exact (hask n hn).2
  · intro n hn
    rw [withdrawn_concat, List.mem_append, Option.mem_toList] at hn
    rcases hn with hn | hn
    · exact h.ofWithdrawn n hn
    · exact h.ofRequested n (hwithdraw n hn).1
  · intro ms₁ n hfront
    rcases List.prefix_concat_iff.mp hfront with heq | hfront
    · -- the withdrawal is the new message
      obtain ⟨rfl, hm⟩ := List.append_inj' heq rfl
      obtain rfl := List.singleton_inj.mp hm
      exact (hwithdraw n rfl).1
    · exact h.order ms₁ n hfront

/-- The first message is taken, and its request put into the container. -/
theorem handle (h : Places used (m :: ms) allocated)
    (hused : used'.Perm (m.asks.toList ++ used)) : Places used' ms allocated := by
  have hwithdrawn : ∀ n ∈ Event.withdrawn ms, n ∈ Event.withdrawn (m :: ms) := by
    intro n hn
    rw [withdrawn_cons]
    exact List.mem_append_right _ hn
  constructor
  · exact (requested_cons_perm hused).nodup_iff.mp h.requested
  · have hnodup := h.withdrawn
    rw [withdrawn_cons] at hnodup
    exact hnodup.of_append_right
  · intro n hn
    exact h.ofRequested n ((requested_cons_perm hused).mem_iff.mpr hn)
  · intro n hn
    exact h.ofWithdrawn n (hwithdrawn n hn)
  · -- what is in front of a withdrawal has lost the message that was taken
    intro ms₁ n hfront
    exact (requested_cons_perm hused).mem_iff.mp
      (h.order (m :: ms₁) n (List.cons_prefix_cons.mpr ⟨rfl, hfront⟩))

/-- A request that no message takes back leaves the container. -/
theorem leave (h : Places used ms allocated) (hused : used.Perm (n :: used'))
    (hwithdraw : n ∉ Event.withdrawn ms) : Places used' ms allocated := by
  have hsub : ∀ n' ∈ Event.requested used' ms, n' ∈ Event.requested used ms := fun n' hn' =>
    (requested_leave_perm hused).mem_iff.mpr (List.mem_cons_of_mem n hn')
  refine ⟨?_, h.withdrawn, fun n' hn' => h.ofRequested n' (hsub n' hn'), h.ofWithdrawn, ?_⟩
  · exact ((requested_leave_perm hused).nodup_iff.mp h.requested).of_cons
  · intro ms₁ n' hfront
    have hmem : n' ∈ n :: Event.requested used' ms₁ :=
      (requested_leave_perm hused).mem_iff.mp (h.order ms₁ n' hfront)
    -- a request with a withdrawal behind it is not the one that leaves
    refine (List.mem_cons.mp hmem).resolve_left ?_
    rintro rfl
    exact hwithdraw (mem_withdrawn.mpr (hfront.subset (List.mem_append_right _ (by simp))))

/-- A node that leaves the container is not there twice. -/
theorem leave_notMem (h : Places used ms allocated) (hused : used.Perm (n :: used')) :
    n ∉ Event.requested used' ms :=
  (List.nodup_cons.mp ((requested_leave_perm hused).nodup_iff.mp h.requested)).1

end Places

/-! ## The container -/

variable {container : List EventNode} {i : Nat}

/-- The nodes in use are those with a semaphore. -/
theorem mem_inUse : n ∈ inUse container ↔ n ∈ container ∧ n.eventSemaphore ≠ 0 := by
  rw [inUse, List.mem_filter, decide_eq_true_iff]

/-- A request is put where there was none. -/
theorem inUse_fill (hi : container[i]? = some n) (hfree : n.eventSemaphore = 0)
    (hn' : n'.eventSemaphore ≠ 0) :
    (inUse (container.set i n')).Perm (n' :: inUse container) := by
  obtain ⟨others, hold, hnew⟩ := Interleaving.exists_perm_set hi
  -- the place was free, so the requests are those of the other places
  have hold' : (inUse container).Perm (inUse others) := by
    refine (hold.filter _).trans ?_
    rw [List.filter_cons_of_neg (by simpa using hfree)]
    rfl
  refine ((hnew n').filter _).trans ?_
  rw [List.filter_cons_of_pos (by simpa using hn')]
  exact hold'.symm.cons n'

/-- A request is marked as not in use. -/
theorem inUse_clear (hi : container[i]? = some n) (hn : n.eventSemaphore ≠ 0) :
    (inUse container).Perm (n :: inUse (container.set i { n with eventSemaphore := 0 })) := by
  obtain ⟨others, hold, hnew⟩ := Interleaving.exists_perm_set hi
  have hnew' : (inUse (container.set i { n with eventSemaphore := 0 })).Perm (inUse others) := by
    refine ((hnew _).filter _).trans ?_
    rw [List.filter_cons_of_neg (by simp)]
    rfl
  refine (hold.filter _).trans ?_
  rw [List.filter_cons_of_pos (by simpa using hn)]
  exact hnew'.symm.cons n

end Lists

/-! ## What a call has -/

namespace Group

variable (g : Group)

/-- The messages that are not handled. -/
def messages : List EventMessage := g.current.toList ++ g.queue

def requested : List EventNode := Event.requested (inUse g.container) g.messages

def withdrawn : List EventNode := Event.withdrawn g.messages

/-- A message is put behind the others. -/
theorem messages_send (m : EventMessage) :
    ({ g with queue := g.queue ++ [m] } : Group).messages = g.messages ++ [m] :=
  (List.append_assoc _ _ _).symm

/-- It may request a node. -/
theorem mem_requested_send (m : EventMessage) (n : EventNode) :
    n ∈ ({ g with queue := g.queue ++ [m] } : Group).requested ↔ n ∈ g.requested ∨ n ∈ m.asks := by
  rw [requested, messages_send, requested_concat, List.mem_append, Option.mem_toList]
  rfl

/-- A message that is sent may withdraw a node. -/
theorem mem_withdrawn_send (m : EventMessage) (n : EventNode) :
    n ∈ ({ g with queue := g.queue ++ [m] } : Group).withdrawn ↔
      n ∈ g.withdrawn ∨ n ∈ m.withdraws := by
  rw [withdrawn, messages_send, withdrawn_concat, List.mem_append, Option.mem_toList]
  rfl

/-- Call `i` has a cell and a semaphore; its request is on its way to be served or not, and its
withdrawal on its way or not. -/
structure Holds (i : Nat) (n : EventNode) (asked takenBack : Prop) : Prop where
  allocated : g.allocated i = some n
  released : i ∉ g.released
  requested : n ∈ g.requested ↔ asked
  withdrawn : n ∈ g.withdrawn ↔ takenBack

/-- They were released. -/
structure Freed (i : Nat) : Prop where
  allocated : g.allocated i = none
  released : i ∈ g.released

/-- They were never there. -/
structure Idle (i : Nat) : Prop where
  allocated : g.allocated i = none
  released : i ∉ g.released

end Group

/-- What call `i` and the task have of its cell and its semaphore. -/
def Stage (g : Group) (i : Nat) : Option Thread → Prop
  | some (.sendWait n _) => g.Holds i n False False ∧ g.semaphores n.eventSemaphore = some 0
  | some (.waiting n _) =>
    (g.Holds i n True False ∧ g.semaphores n.eventSemaphore = some 0) ∨
      (g.Holds i n False False ∧ g.semaphores n.eventSemaphore = some 1)
  | some (.sendRelease n) => g.Holds i n True False
  | some .timedOut => (∃ n, g.Holds i n True True) ∨ g.Freed i
  | some (.reading n) => g.Holds i n False False
  | some (.served _) => g.Freed i
  | _ => g.Idle i

/-- The call has the flags, or they are in its cell and it is about to read them. -/
def Answered (g : Group) (v : UInt32) : Option Thread → Prop
  | some (.waiting n _) =>
    g.semaphores n.eventSemaphore = some 1 ∧ g.cells n.returnEventAddr = some v
  | some (.reading n) => g.cells n.returnEventAddr = some v
  | some (.served flags) => flags = v
  | _ => False

/-- Nothing changed for call `i`. -/
structure Same (g g' : Group) (i : Nat) : Prop where
  allocated : g'.allocated i = g.allocated i
  released : i ∈ g'.released ↔ i ∈ g.released
  requested : ∀ n, g.allocated i = some n → (n ∈ g'.requested ↔ n ∈ g.requested)
  withdrawn : ∀ n, g.allocated i = some n → (n ∈ g'.withdrawn ↔ n ∈ g.withdrawn)
  cell : ∀ n, g.allocated i = some n →
    g'.cells n.returnEventAddr = g.cells n.returnEventAddr
  semaphore : ∀ n, g.allocated i = some n →
    g'.semaphores n.eventSemaphore = g.semaphores n.eventSemaphore

section Frame

variable {g g' : Group} {i : Nat} {n : EventNode} {l : Option Thread} {v : UInt32}

/-- What a call holds depends on its own part of the group only. -/
theorem Group.Holds.congr {asked takenBack : Prop} (h : g.Holds i n asked takenBack)
    (hsame : Same g g' i) : g'.Holds i n asked takenBack where
  allocated := hsame.allocated.trans h.allocated
  released := fun hmem => h.released (hsame.released.mp hmem)
  requested := (hsame.requested n h.allocated).trans h.requested
  withdrawn := (hsame.withdrawn n h.allocated).trans h.withdrawn

/-- So does a node that was given back. -/
theorem Group.Freed.congr (h : g.Freed i) (hsame : Same g g' i) : g'.Freed i :=
  ⟨hsame.allocated.trans h.allocated, hsame.released.mpr h.released⟩

/-- So does a call without a node. -/
theorem Group.Idle.congr (h : g.Idle i) (hsame : Same g g' i) : g'.Idle i :=
  ⟨hsame.allocated.trans h.allocated, fun hmem => h.released (hsame.released.mp hmem)⟩

/-- So does the stage of a call. -/
theorem Stage.congr (h : Stage g i l) (hsame : Same g g' i) : Stage g' i l := by
  -- at every place a call looks at its own node and semaphore only
  match l, h with
  | some (.sendWait n _), ⟨hholds, hcount⟩ =>
    exact ⟨hholds.congr hsame, (hsame.semaphore n hholds.allocated).trans hcount⟩
  | some (.waiting n _), .inl ⟨hholds, hcount⟩ =>
    exact .inl ⟨hholds.congr hsame, (hsame.semaphore n hholds.allocated).trans hcount⟩
  | some (.waiting n _), .inr ⟨hholds, hcount⟩ =>
    exact .inr ⟨hholds.congr hsame, (hsame.semaphore n hholds.allocated).trans hcount⟩
  | some (.sendRelease n), h => exact Group.Holds.congr h hsame
  | some .timedOut, .inl ⟨n, hholds⟩ => exact .inl ⟨n, hholds.congr hsame⟩
  | some .timedOut, .inr hfreed => exact .inr (hfreed.congr hsame)
  | some (.reading n), h => exact Group.Holds.congr h hsame
  | some (.served _), h => exact Group.Freed.congr h hsame
  | none, h | some .task, h | some (.entering _), h | some .refused, h | some (.setting _), h
  | some (.clearing _), h | some .posted, h | some (.wait _ _ _), h | some (.polled _ _), h =>
    exact Group.Idle.congr h hsame

/-- And what it was answered. -/
theorem Answered.congr (h : Answered g v l) (hstage : Stage g i l) (hsame : Same g g' i) :
    Answered g' v l := by
  match l, h, hstage with
  | some (.waiting n _), ⟨hcount, hcell⟩, hstage =>
    have halloc : g.allocated i = some n :=
      hstage.elim (fun hw => hw.1.allocated) (fun hw => hw.1.allocated)
    exact ⟨(hsame.semaphore n halloc).trans hcount, (hsame.cell n halloc).trans hcell⟩
  | some (.reading n), hcell, hstage =>
    exact (hsame.cell n hstage.allocated).trans hcell
  | some (.served _), heq, _ => exact heq

end Frame

/-! ## The invariant -/

/-- What is live belongs to a call. -/
structure Memory (g : Group) : Prop where
  cells : Owned g.cells g.allocated EventNode.returnEventAddr
  semaphores : Owned g.semaphores g.allocated EventNode.eventSemaphore
  owner : ∀ i n, g.allocated i = some n → n.call = i ∧ n.eventSemaphore ≠ 0

/-- What holds of a group and the calls on it; `call` is the calls by their numbers. -/
structure Ok (g : Group) (call : Nat → Option Thread) : Prop where
  memory : Memory g
  places : Places (inUse g.container) g.messages g.allocated
  once : g.released.Nodup
  stage : ∀ i, Stage g i (call i)
  answered : ∀ i v, (i, v) ∈ g.cleared → Answered g v (call i)

namespace Ok

variable {g g' : Group} {call : Nat → Option Thread} {i : Nat} {n : EventNode}
  {l' : Option Thread}

/-- A step that changes nothing for the other calls. -/
theorem change (h : Ok g call) (hsame : ∀ j, j ≠ i → Same g g' j) (hmemory : Memory g')
    (hplaces : Places (inUse g'.container) g'.messages g'.allocated) (honce : g'.released.Nodup)
    (hstage : Stage g' i l') (hold : ∀ j v, (j, v) ∈ g'.cleared → j ≠ i → (j, v) ∈ g.cleared)
    (hanswered : ∀ v, (i, v) ∈ g'.cleared → Answered g' v l') : Ok g' (update call i l') where
  memory := hmemory
  places := hplaces
  once := honce
  -- the call of the step, and the others
  stage j := by
    rcases eq_or_ne j i with rfl | hne
    · rw [update_self]
      exact hstage
    · rw [update_of_ne hne]
      exact (h.stage j).congr (hsame j hne)
  answered j v hmem := by
    rcases eq_or_ne j i with rfl | hne
    · rw [update_self]
      exact hanswered v hmem
    · rw [update_of_ne hne]
      exact (h.answered j v (hold j v hmem hne)).congr (h.stage j) (hsame j hne)

/-- A step of one call alone. -/
theorem onward (h : Ok g call) (hstage : Stage g i (call i) → Stage g i l')
    (hanswered : ∀ v, Answered g v (call i) → Answered g v l') : Ok g (update call i l') :=
  h.change (fun _ _ => ⟨rfl, Iff.rfl, fun _ _ => Iff.rfl, fun _ _ => Iff.rfl, fun _ _ => rfl,
    fun _ _ => rfl⟩) h.memory h.places h.once (hstage (h.stage i)) (fun _ _ hmem _ => hmem)
    fun v hmem => hanswered v (h.answered i v hmem)

/-- Where the requests and the messages are, and the flags, do not matter to the calls. -/
theorem moved (h : Ok g call) (hplaces : Places (inUse g'.container) g'.messages g.allocated)
    (hrequested : ∀ n, n ∈ g'.requested ↔ n ∈ g.requested)
    (hwithdrawn : ∀ n, n ∈ g'.withdrawn ↔ n ∈ g.withdrawn) (hcells : g'.cells = g.cells)
    (hsemaphores : g'.semaphores = g.semaphores) (hallocated : g'.allocated = g.allocated)
    (hreleased : g'.released = g.released) (hcleared : g'.cleared = g.cleared) : Ok g' call := by
  -- nothing that a call looks at is touched
  have hsame : ∀ j, Same g g' j := fun j => {
    allocated := by rw [hallocated]
    released := by rw [hreleased]
    requested := fun n _ => hrequested n
    withdrawn := fun n _ => hwithdrawn n
    cell := fun n _ => by rw [hcells]
    semaphore := fun n _ => by rw [hsemaphores] }
  refine ⟨⟨?_, ?_, ?_⟩, ?_, ?_, fun j => (h.stage j).congr (hsame j), fun j v hmem => ?_⟩
  · rw [hcells, hallocated]
    exact h.memory.cells
  · rw [hsemaphores, hallocated]
    exact h.memory.semaphores
  · rw [hallocated]
    exact h.memory.owner
  · rw [hallocated]
    exact hplaces
  · rw [hreleased]
    exact h.once
  · rw [hcleared] at hmem
    exact (h.answered j v hmem).congr (h.stage j) (hsame j)

/-- A call gets a cell and a semaphore. -/
theorem create (h : Ok g call) (hidle : g.Idle i) (hcell : g.cells n.returnEventAddr = none)
    (hsemaphore : g.semaphores n.eventSemaphore = none) (hn : n.call = i)
    (hzero : n.eventSemaphore ≠ 0) (hunanswered : ∀ v, ¬ Answered g v (call i))
    (garbage : UInt32) (u32WaitMs : Nat) :
    Ok (g.create n garbage) (update call i (some (.sendWait n u32WaitMs))) := by
  obtain rfl := hn
  have hnew : n ∉ g.requested ∧ n ∉ g.withdrawn := by
    constructor <;> intro hmem
    · exact nomatch hidle.allocated.symm.trans (h.places.ofRequested n hmem)
    · exact nomatch hidle.allocated.symm.trans (h.places.ofWithdrawn n hmem)
  refine h.change (fun j hne => ?_) ⟨?_, ?_, ?_⟩ ?_ h.once ⟨?_, update_self _ _ _⟩
    (fun j v hmem _ => hmem) fun v hmem => absurd (h.answered n.call v hmem) (hunanswered v)
  · -- an address that is not live is that of no other call
    refine ⟨update_of_ne hne _ _, Iff.rfl, fun _ _ => Iff.rfl, fun _ _ => Iff.rfl,
      fun n' hn' => ?_, fun n' hn' => ?_⟩
    · exact update_of_ne (h.memory.cells.ne_of_free hn' hcell) _ _
    · exact update_of_ne (h.memory.semaphores.ne_of_free hn' hsemaphore) _ _
  · exact h.memory.cells.alloc hidle.allocated hcell garbage
  · exact h.memory.semaphores.alloc hidle.allocated hsemaphore 0
  · intro j n' hj
    have hj' : update g.allocated n.call (some n) j = some n' := hj
    rcases eq_or_ne j n.call with rfl | hne
    · rw [update_self] at hj'
      obtain rfl := Option.some.inj hj'
      exact ⟨rfl, hzero⟩
    · rw [update_of_ne hne] at hj'
      exact h.memory.owner j n' hj'
  · exact h.places.create hidle.allocated
  · exact ⟨update_self _ _ _, hidle.released, iff_of_false hnew.1 id, iff_of_false hnew.2 id⟩

/-- A call sends a message: a request of its own, its withdrawal, or neither. -/
theorem send (h : Ok g call) {m : EventMessage}
    (hask : ∀ n ∈ m.asks, g.allocated i = some n ∧ n ∉ g.requested)
    (hwithdraw : ∀ n ∈ m.withdraws, g.allocated i = some n ∧ n ∈ g.requested ∧ n ∉ g.withdrawn)
    (hstage : Stage { g with queue := g.queue ++ [m] } i l')
    (hunanswered : ∀ v, ¬ Answered g v (call i)) :
    Ok { g with queue := g.queue ++ [m] } (update call i l') := by
  -- the message refers to this call only
  have hother : ∀ j, j ≠ i → ∀ n, g.allocated j = some n → g.allocated i ≠ some n := by
    intro j hne n hj hi
    exact hne ((h.memory.owner j n hj).1.symm.trans (h.memory.owner i n hi).1)
  refine h.change (fun j hne => ?_) ⟨h.memory.cells, h.memory.semaphores, h.memory.owner⟩ ?_ h.once
    hstage (fun _ _ hmem _ => hmem) fun v hmem => absurd (h.answered i v hmem) (hunanswered v)
  · refine ⟨rfl, Iff.rfl, fun n hn => ?_, fun n hn => ?_, fun _ _ => rfl, fun _ _ => rfl⟩
    · rw [g.mem_requested_send m n]
      exact or_iff_left fun hm => hother j hne n hn (hask n hm).1
    · rw [g.mem_withdrawn_send m n]
      exact or_iff_left fun hm => hother j hne n hn (hwithdraw n hm).1
  · rw [g.messages_send m]
    refine h.places.send (fun n hm => ⟨(hask n hm).2, ?_⟩) fun n hm => (hwithdraw n hm).2
    rw [(h.memory.owner i n (hask n hm).1).1]
    exact (hask n hm).1

/-- A call obtains its semaphore. -/
theorem obtain (h : Ok g call) {u32WaitMs k : Nat} (hi : call i = some (.waiting n u32WaitMs))
    (hcount : g.semaphores n.eventSemaphore = some (k + 1)) :
    Ok { g with semaphores := update g.semaphores n.eventSemaphore (some k) }
      (update call i (some (.reading n))) := by
  have hstage := h.stage i
  rw [hi] at hstage
  -- the count is 1 and the request was served
  obtain ⟨-, hzero⟩ | ⟨hholds, -⟩ := hstage
  · exact nomatch hcount.symm.trans hzero
  refine h.change (fun j hne => ?_) ⟨h.memory.cells, h.memory.semaphores.write hholds.allocated k,
    h.memory.owner⟩ h.places h.once ⟨hholds.allocated, hholds.released, hholds.requested,
    hholds.withdrawn⟩ (fun _ _ hmem _ => hmem) fun v hmem => ?_
  · exact ⟨rfl, Iff.rfl, fun _ _ => Iff.rfl, fun _ _ => Iff.rfl, fun _ _ => rfl,
      fun n' hn' => h.memory.semaphores.update_of_ne hholds.allocated hn' hne _⟩
  · have hanswered := h.answered i v hmem
    rw [hi] at hanswered
    exact hanswered.2

/-- The cell and the semaphore of a call are released. -/
theorem free (h : Ok g call) (hi : g.allocated i = some n) (hlive : i ∉ g.released)
    (hplaces : Places (inUse g'.container) g'.messages g.allocated)
    (hask : n ∉ g'.requested) (hwithdraw : n ∉ g'.withdrawn)
    (hrequested : ∀ n', n' ≠ n → (n' ∈ g'.requested ↔ n' ∈ g.requested))
    (hwithdrawn : ∀ n', n' ≠ n → (n' ∈ g'.withdrawn ↔ n' ∈ g.withdrawn))
    (hcells : g'.cells = update g.cells n.returnEventAddr none)
    (hsemaphores : g'.semaphores = update g.semaphores n.eventSemaphore none)
    (hallocated : g'.allocated = update g.allocated i none)
    (hreleased : g'.released = g.released ++ [i]) (hcleared : g'.cleared = g.cleared)
    (hstage : g'.Freed i → Stage g' i l')
    (hanswered : ∀ v, Answered g v (call i) → Answered g' v l') :
    Ok g' (update call i l') := by
  refine h.change (fun j hne => ?_) ⟨?_, ?_, fun j n' hj => ?_⟩ ?_ ?_ (hstage ⟨?_, ?_⟩)
    (fun j v hmem _ => hcleared ▸ hmem) fun v hmem => hanswered v (h.answered i v (hcleared ▸ hmem))
  -- another call has another node, for a node has its call in it
  · have hn : ∀ n', g.allocated j = some n' → n' ≠ n := by
      rintro n' hj rfl
      exact hne ((h.memory.owner j n' hj).1.symm.trans (h.memory.owner i n' hi).1)
    constructor
    · rw [hallocated, update_of_ne hne]
    · rw [hreleased, List.mem_append, List.mem_singleton, or_iff_left hne]
    · exact fun n' hj => hrequested n' (hn n' hj)
    · exact fun n' hj => hwithdrawn n' (hn n' hj)
    · intro n' hj
      rw [hcells, h.memory.cells.update_of_ne hi hj hne]
    · intro n' hj
      rw [hsemaphores, h.memory.semaphores.update_of_ne hi hj hne]
  · rw [hcells, hallocated]
    exact h.memory.cells.free hi
  · rw [hsemaphores, hallocated]
    exact h.memory.semaphores.free hi
  · rw [hallocated] at hj
    -- call `i` has no node any more
    rcases eq_or_ne j i with rfl | hne
    · rw [update_self] at hj
      exact nomatch hj
    · rw [update_of_ne hne] at hj
      exact h.memory.owner j n' hj
  · rw [hallocated]
    exact hplaces.free hi hask hwithdraw
  · rw [hreleased]
    exact List.nodup_append'.mpr ⟨h.once, List.nodup_singleton i,
      List.disjoint_singleton.mpr hlive⟩
  · rw [hallocated, update_self]
  · rw [hreleased]
    exact List.mem_append_right _ (List.mem_singleton_self i)

end Ok

/-! ## The handling of a message -/

/-- The call timed out. -/
def Thread.gaveUp : Thread → Bool
  | .sendRelease _ => true
  | .timedOut => true
  | _ => false

section Task

variable {g : Group} {call : Nat → Option Thread} {i : Nat} {n : EventNode} {l : Option Thread}

/-- A request that can be served is of a call that waits or has given up. -/
theorem Stage.waits (h : Stage g i l) (hi : g.allocated i = some n) (hask : n ∈ g.requested)
    (hon : ∀ l' ∈ l, l'.gaveUp = false) :
    ∃ u32WaitMs, l = some (.waiting n u32WaitMs) ∧ g.Holds i n True False ∧
      g.semaphores n.eventSemaphore = some 0 := by
  have hself : ∀ {n' : EventNode} {asked takenBack : Prop}, g.Holds i n' asked takenBack → n' = n :=
    fun hholds => Option.some.inj (hholds.allocated.symm.trans hi)
  match l, h with
  -- the request was not sent yet
  | some (.sendWait n' _), ⟨hholds, _⟩ =>
    obtain rfl := hself hholds
    exact (hholds.requested.mp hask).elim
  | some (.waiting n' u32WaitMs), .inl ⟨hholds, hcount⟩ =>
    obtain rfl := hself hholds
    exact ⟨u32WaitMs, rfl, hholds, hcount⟩
  -- it was served before
  | some (.waiting n' _), .inr ⟨hholds, _⟩ =>
    obtain rfl := hself hholds
    exact (hholds.requested.mp hask).elim
  | some (.reading n'), hholds =>
    obtain rfl := hself hholds
    exact (hholds.requested.mp hask).elim
  | some (.sendRelease _), _ | some .timedOut, _ => exact nomatch hon _ rfl
  | some (.served _), h => exact nomatch (Group.Freed.allocated h).symm.trans hi
  | none, h | some .task, h | some (.entering _), h | some .refused, h | some (.setting _), h
  | some (.clearing _), h | some .posted, h | some (.wait _ _ _), h | some (.polled _ _), h =>
    exact nomatch (Group.Idle.allocated h).symm.trans hi

/-- A request that was taken back is of a call that returned 0. -/
theorem Stage.takenBack (h : Stage g i l) (hi : g.allocated i = some n)
    (hwithdraw : n ∈ g.withdrawn) : l = some .timedOut ∧ i ∉ g.released := by
  -- a call that still holds its request has not taken it back
  have hself : ∀ {n' : EventNode} {asked : Prop}, ¬ g.Holds i n' asked False := by
    intro n' asked hholds
    obtain rfl := Option.some.inj (hholds.allocated.symm.trans hi)
    exact hholds.withdrawn.mp hwithdraw
  match l, h with
  | some .timedOut, .inl ⟨_, hholds⟩ => exact ⟨rfl, hholds.released⟩
  | some .timedOut, .inr h => exact nomatch h.allocated.symm.trans hi
  | some (.sendWait _ _), ⟨hholds, _⟩ | some (.waiting _ _), .inl ⟨hholds, _⟩
  | some (.waiting _ _), .inr ⟨hholds, _⟩ | some (.reading _), hholds
  | some (.sendRelease _), hholds => exact (hself hholds).elim
  | some (.served _), h => exact nomatch (Group.Freed.allocated h).symm.trans hi
  | none, h | some .task, h | some (.entering _), h | some .refused, h | some (.setting _), h
  | some (.clearing _), h | some .posted, h | some (.wait _ _ _), h | some (.polled _ _), h =>
    exact nomatch (Group.Idle.allocated h).symm.trans hi

/-- A release frees the cell and the semaphore of the node. -/
theorem Group.release_eq {v : UInt32} {k : Nat} (hcell : g.cells n.returnEventAddr = some v)
    (hcount : g.semaphores n.eventSemaphore = some k) :
    g.release n = some { g with
      cells := update g.cells n.returnEventAddr none
      semaphores := update g.semaphores n.eventSemaphore none
      allocated := update g.allocated n.call none
      released := g.released ++ [n.call] } := by
  rw [Group.release, hcell, hcount]

/-- Serving stores the flags and raises the semaphore. -/
theorem Group.serve_eq {w : UInt32} {k : Nat} (u32EventFlag : UInt32) (i : Nat)
    (hcell : g.cells n.returnEventAddr = some w)
    (hcount : g.semaphores n.eventSemaphore = some k) :
    g.serve u32EventFlag i n = some { g with
      cells := update g.cells n.returnEventAddr (some u32EventFlag)
      semaphores := update g.semaphores n.eventSemaphore (some (k + 1))
      container := g.container.set i { n with eventSemaphore := 0 }
      eventFlag := if n.requestEventMode.clears then g.eventFlag &&& ~~~u32EventFlag
        else g.eventFlag
      cleared := if n.requestEventMode.clears then g.cleared ++ [(n.call, u32EventFlag)]
        else g.cleared } := by
  -- both the cell and the semaphore are live
  rw [Group.serve, Group.write, hcell, Option.bind_some, Group.post]
  simp only [hcount]
  rfl

/-- A turn of the loop does nothing or serves a request. -/
theorem Group.dispatchNode_cases (g : Group) (u32EventFlag : UInt32) (i : Nat) :
    dispatchNode u32EventFlag i g = some g ∨ ∃ n, g.container[i]? = some n ∧
      n.eventSemaphore ≠ 0 ∧ n.wants u32EventFlag ∧
      dispatchNode u32EventFlag i g = g.serve u32EventFlag i n := by
  rw [Group.dispatchNode]
  cases hi : g.container[i]? with
  | none => exact .inl rfl
  | some n =>
    by_cases hwants : n.eventSemaphore ≠ 0 ∧ n.wants u32EventFlag
    · exact .inr ⟨n, rfl, hwants.1, hwants.2, by simp only [if_pos hwants]⟩
    · exact .inl (by simp only [if_neg hwants])

namespace Ok

/-- The task serves a call that has not given up. -/
theorem serve (h : Ok g call) (u32EventFlag : UInt32) (hi : g.container[i]? = some n)
    (hn : n.eventSemaphore ≠ 0) (hon : ∀ l ∈ call n.call, l.gaveUp = false) :
    ∃ g', g.serve u32EventFlag i n = some g' ∧ Ok g' call ∧
      ∀ n' ∈ inUse g'.container, n' ∈ inUse g.container := by
  have hused := inUse_clear hi hn
  have hask : n ∈ g.requested :=
    List.mem_append_left _ (hused.mem_iff.mpr List.mem_cons_self)
  have halloc := h.places.ofRequested n hask
  obtain ⟨u32WaitMs, hcall, hholds, hcount⟩ := (h.stage n.call).waits halloc hask hon
  obtain ⟨w, hw⟩ := h.memory.cells.live n.call n halloc
  have hwithdraw : n ∉ g.withdrawn := fun hmem => hholds.withdrawn.mp hmem
  refine ⟨_, Group.serve_eq u32EventFlag i hw hcount, ?_, fun n' hn' => ?_⟩
  · rw [← Function.update_eq_self n.call call, hcall]
    refine h.change (fun j hne => ?_) ⟨h.memory.cells.write halloc u32EventFlag,
      h.memory.semaphores.write halloc 1, h.memory.owner⟩ (h.places.leave hused hwithdraw) h.once
      (.inr ⟨⟨halloc, hholds.released, iff_of_false (h.places.leave_notMem hused) id,
        hholds.withdrawn⟩, update_self _ _ _⟩) (fun j v hmem hne => ?_) fun v hmem => ?_
    · refine ⟨rfl, Iff.rfl, fun n' hj => ?_, fun _ _ => Iff.rfl,
        fun n' hj => h.memory.cells.update_of_ne halloc hj hne _,
        fun n' hj => h.memory.semaphores.update_of_ne halloc hj hne _⟩
      have hn' : n' ≠ n := by
        rintro rfl
        exact hne (h.memory.owner j n' hj).1.symm
      refine ((requested_leave_perm hused).mem_iff.trans ?_).symm
      rw [List.mem_cons, or_iff_right hn']
      rfl
    · -- the record has nothing new for the other calls
      split at hmem
      · rcases List.mem_append.mp hmem with hmem | hmem
        · exact hmem
        · exact absurd (congrArg Prod.fst (List.mem_singleton.mp hmem)) hne
      · exact hmem
    · -- the call was not answered before
      have hbefore : (n.call, v) ∉ g.cleared := by
        intro hmem
        have hanswered := h.answered n.call v hmem
        rw [hcall] at hanswered
        exact nomatch hcount.symm.trans hanswered.1
      split at hmem
      · rcases List.mem_append.mp hmem with hmem | hmem
        · exact absurd hmem hbefore
        · obtain ⟨-, rfl⟩ := Prod.mk.inj (List.mem_singleton.mp hmem)
          exact ⟨update_self _ _ _, update_self _ _ _⟩
      · exact absurd hmem hbefore
  · exact hused.mem_iff.mpr (List.mem_cons_of_mem n hn')

/-- The task goes through the container. -/
theorem dispatchEventList (h : Ok g call)
    (hon : ∀ n ∈ inUse g.container, n.wants g.eventFlag → ∀ l ∈ call n.call, l.gaveUp = false) :
    ∃ g', g.dispatchEventList = some g' ∧ Ok g' call := by
  rw [Group.dispatchEventList]
  -- the flags that were read stay; the requests that are left are among those at the start
  generalize g.eventFlag = u32EventFlag at hon
  let Inv (g : Group) : Prop := Ok g call ∧ ∀ n ∈ inUse g.container, n.wants u32EventFlag →
    ∀ l ∈ call n.call, l.gaveUp = false
  have hturn : ∀ i g, Inv g → ∃ g', Group.dispatchNode u32EventFlag i g = some g' ∧ Inv g' := by
    rintro i g ⟨h, hon⟩
    rcases g.dispatchNode_cases u32EventFlag i with hskip | ⟨n, hi, hn, hwants, hserve⟩
    · exact ⟨g, hskip, h, hon⟩
    · have hmem : n ∈ inUse g.container := mem_inUse.mpr ⟨List.mem_of_getElem? hi, hn⟩
      obtain ⟨g', hg', h', hsub⟩ := h.serve u32EventFlag hi hn (hon n hmem hwants)
      exact ⟨g', hserve.trans hg', h', fun n' hn' => hon n' (hsub n' hn')⟩
  have hinv : Inv g := ⟨h, hon⟩
  obtain ⟨g', hrun, hok, -⟩ := PartialRun.runAll_ok (fun i _ g => hturn i g) hinv
  exact ⟨g', hrun, hok⟩

/-- A request is put into the container; there may be no room for it. -/
theorem addEventList (h : Ok g call) (hm : g.current = some (.waitEvent n)) :
    (∃ g', { g with current := none }.addEventList n = some g' ∧ Ok g' call ∧
      g'.eventFlag = g.eventFlag ∧ (inUse g'.container).Perm (n :: inUse g.container)) ∨
    ((∀ n' ∈ g.container, n'.eventSemaphore ≠ 0) ∧
      { g with current := none }.addEventList n = none) := by
  have hmessages : g.messages = .waitEvent n :: g.queue := by
    rw [Group.messages, hm]
    rfl
  rw [Group.addEventList]
  -- the first free place, if there is one
  cases hfind : g.container.findIdx? (fun n => n.eventSemaphore = 0) with
  | none =>
    refine .inr ⟨fun n' hn' => ?_, rfl⟩
    exact of_decide_eq_false (List.findIdx?_eq_none_iff.mp hfind n' hn')
  | some i =>
    obtain ⟨hi, hfree, -⟩ := List.findIdx?_eq_some_iff_getElem.mp hfind
    have hplaces := h.places
    rw [hmessages] at hplaces
    have halloc : g.allocated n.call = some n :=
      hplaces.ofRequested n (mem_requested.mpr (.inr List.mem_cons_self))
    have hused := inUse_fill (List.getElem?_eq_getElem hi) (of_decide_eq_true hfree)
      (h.memory.owner n.call n halloc).2
    refine .inl ⟨{ g with current := none, container := g.container.set i n }, rfl, ?_, rfl, hused⟩
    refine h.moved (hplaces.handle hused) (fun n' => ?_) (fun n' => ?_) rfl rfl rfl rfl rfl
    -- the request only changes from the queue to the container
    · rw [Group.requested, Group.requested, hmessages]
      exact (requested_cons_perm hused).mem_iff.symm
    · rw [Group.withdrawn, Group.withdrawn, hmessages]
      exact Iff.rfl

/-- A request that was taken back leaves the container, with its cell and its semaphore. -/
theorem removeEventList (h : Ok g call) (hm : g.current = some (.releaseEvent n)) :
    ∃ g', { g with current := none }.removeEventList n.eventSemaphore = some g' ∧ Ok g' call ∧
      g'.eventFlag = g.eventFlag ∧ (inUse g.container).Perm (n :: inUse g'.container) := by
  have hmessages : g.messages = .releaseEvent n :: g.queue := by
    rw [Group.messages, hm]
    rfl
  have hplaces := h.places
  rw [hmessages] at hplaces
  have hwithdraw : n ∈ g.withdrawn := by
    rw [Group.withdrawn, hmessages]
    exact mem_withdrawn.mpr List.mem_cons_self
  have halloc := h.places.ofWithdrawn n hwithdraw
  obtain ⟨hcall, hlive⟩ := (h.stage n.call).takenBack halloc hwithdraw
  -- the request was sent before, so it is in the container
  have hmem : n ∈ inUse g.container := by
    refine (mem_requested.mp (hplaces.order [] n ?_)).resolve_right List.not_mem_nil
    exact List.cons_prefix_cons.mpr ⟨rfl, List.nil_prefix⟩
  obtain ⟨i, hfind⟩ : ∃ i, g.container.findIdx? (fun n' => n'.eventSemaphore = n.eventSemaphore) =
      some i := by
    refine Option.isSome_iff_exists.mp ?_
    rw [List.findIdx?_isSome, List.any_eq_true]
    exact ⟨n, (mem_inUse.mp hmem).1, decide_eq_true rfl⟩
  obtain ⟨hi, hsame, -⟩ := List.findIdx?_eq_some_iff_getElem.mp hfind
  -- and it is the one with this semaphore
  have hn : g.container[i]? = some n := by
    have hsame' : g.container[i].eventSemaphore = n.eventSemaphore := of_decide_eq_true hsame
    have hmem' : g.container[i] ∈ inUse g.container :=
      mem_inUse.mpr ⟨List.getElem_mem hi, hsame' ▸ (mem_inUse.mp hmem).2⟩
    rw [List.getElem?_eq_getElem hi]
    have halloc' := h.places.ofRequested _ (List.mem_append_left _ hmem')
    exact congrArg some (h.memory.semaphores.record_inj halloc halloc' hsame')
  have hused := inUse_clear hn (mem_inUse.mp hmem).2
  obtain ⟨v, hv⟩ := h.memory.cells.live n.call n halloc
  obtain ⟨k, hk⟩ := h.memory.semaphores.live n.call n halloc
  have hnodup := hplaces.withdrawn
  rw [withdrawn_cons] at hnodup
  have hlast : n ∉ Event.withdrawn g.queue := (List.nodup_cons.mp hnodup).1
  have hqueue : Places (inUse g.container) g.queue g.allocated := hplaces.handle (.refl _)
  have hremove : { g with current := none }.removeEventList n.eventSemaphore = some { g with
      current := none
      container := g.container.set i { n with eventSemaphore := 0 }
      cells := update g.cells n.returnEventAddr none
      semaphores := update g.semaphores n.eventSemaphore none
      allocated := update g.allocated n.call none
      released := g.released ++ [n.call] } := by
    simp only [Group.removeEventList, hfind, hn]
    rw [@Group.release_eq { g with current := none } n v k hv hk]
    rfl
  refine ⟨_, hremove, ?_, rfl, hused⟩
  rw [← Function.update_eq_self n.call call, hcall]
  refine h.free halloc hlive (hqueue.leave hused hlast) (hqueue.leave_notMem hused) hlast
    (fun n' hne => ?_) (fun n' hne => ?_) rfl rfl rfl rfl rfl .inr fun v hanswered => ?_
  · rw [Group.requested, Group.requested, hmessages]
    refine ((requested_cons_perm (.refl _)).mem_iff.trans ?_).symm
    exact (requested_leave_perm hused).mem_iff.trans
      (List.mem_cons.trans (or_iff_right hne))
  · rw [Group.withdrawn, Group.withdrawn, hmessages, withdrawn_cons]
    exact (List.mem_cons.trans (or_iff_right hne)).symm
  · rw [hcall] at hanswered
    exact hanswered.elim

end Ok

namespace Group

/-- The requests that the handling of a message serves. -/
def servedBy (g : Group) (m : EventMessage) : List EventNode :=
  (inUse g.container ++ m.asks.toList).filter fun n =>
    m.withdraws ≠ some n ∧ n.wants (m.flags g.eventFlag)

/-- A node in use that wants the flags of a message is served by it, unless that withdraws it. -/
theorem mem_servedBy {m : EventMessage} (hn : n ∈ inUse g.container ∨ n ∈ m.asks)
    (hstays : m.withdraws ≠ some n) (hwants : n.wants (m.flags g.eventFlag)) :
    n ∈ g.servedBy m := by
  rw [servedBy, List.mem_filter, List.mem_append, Option.mem_toList, decide_eq_true_iff]
  exact ⟨hn, hstays, hwants⟩

/-- The container has no room for the request that the task received. -/
def Full (g : Group) : Prop :=
  ∃ n, g.current = some (.waitEvent n) ∧ ∀ n' ∈ g.container, n'.eventSemaphore ≠ 0

end Group

namespace Ok

/-- The `switch`. -/
theorem switchMessage (h : Ok g call) {m : EventMessage} (hm : g.current = some m) :
    (∃ g', { g with current := none }.switchMessage m = some g' ∧ Ok g' call ∧
      g'.eventFlag = m.flags g.eventFlag ∧ ∀ n ∈ inUse g'.container,
        (n ∈ inUse g.container ∨ n ∈ m.asks) ∧ m.withdraws ≠ some n) ∨
    (g.Full ∧ { g with current := none }.switchMessage m = none) := by
  -- for a message that names no node the container stays, and only the flags change
  have hplain : m.asks = none → m.withdraws = none →
      Ok { g with current := none, eventFlag := m.flags g.eventFlag } call := by
    intro hask hwithdraw
    have hmessages : g.messages = m :: g.queue := by
      rw [Group.messages, hm]
      rfl
    have hused : (inUse g.container).Perm (m.asks.toList ++ inUse g.container) := by
      rw [hask]
      exact .refl _
    have hplaces := h.places
    rw [hmessages] at hplaces
    refine h.moved (hplaces.handle hused) (fun n => ?_) (fun n => ?_) rfl rfl rfl rfl rfl
    · rw [Group.requested, Group.requested, hmessages]
      exact (requested_cons_perm hused).mem_iff.symm
    · rw [Group.withdrawn, Group.withdrawn, hmessages, withdrawn_cons, hwithdraw]
      exact Iff.rfl
  cases m with
  | clearEvent Param1 => exact .inl ⟨_, rfl, hplain rfl rfl, rfl, fun n hn => ⟨.inl hn, nofun⟩⟩
  | setEvent Param1 => exact .inl ⟨_, rfl, hplain rfl rfl, rfl, fun n hn => ⟨.inl hn, nofun⟩⟩
  | waitEvent node =>
    rcases h.addEventList hm with ⟨g', hadd, hok, hflag, hused⟩ | ⟨hfull, hadd⟩
    · refine .inl ⟨g', hadd, hok, hflag, fun n hn => ⟨?_, nofun⟩⟩
      rcases List.mem_cons.mp (hused.mem_iff.mp hn) with rfl | hn
      · exact .inr rfl
      · exact .inl hn
    -- no entry of the container is free
    · exact .inr ⟨⟨node, hm, hfull⟩, hadd⟩
  | releaseEvent node =>
    obtain ⟨g', hremove, hok, hflag, hused⟩ := h.removeEventList hm
    refine .inl ⟨g', hremove, hok, hflag, fun n hn => ⟨.inl ?_, ?_⟩⟩
    · exact hused.mem_iff.mpr (List.mem_cons_of_mem node hn)
    -- the node was in the container once, so it is not there after the removal
    · rintro heq
      obtain rfl := Option.some.inj heq
      have hnodup := h.places.requested.of_append_left
      exact (List.nodup_cons.mp (hused.nodup_iff.mp hnodup)).1 hn

end Ok

/-- The loop is defined whatever calls it serves. -/
theorem dispatchEventList_defined (hmemory : Memory g)
    (hused : ∀ n ∈ inUse g.container, g.allocated n.call = some n) :
    ∃ g', g.dispatchEventList = some g' := by
  rw [Group.dispatchEventList]
  generalize g.eventFlag = u32EventFlag
  -- the invariant of the loop: each request in use has live memory
  let Inv (g : Group) : Prop :=
    Memory g ∧ ∀ n ∈ inUse g.container, g.allocated n.call = some n
  have hturn : ∀ i g, Inv g → ∃ g', Group.dispatchNode u32EventFlag i g = some g' ∧ Inv g' := by
    rintro i g ⟨hmemory, hused⟩
    rcases g.dispatchNode_cases u32EventFlag i with hskip | ⟨n, hi, hn, -, hserve⟩
    · exact ⟨g, hskip, hmemory, hused⟩
    · have halloc : g.allocated n.call = some n :=
        hused n (mem_inUse.mpr ⟨List.mem_of_getElem? hi, hn⟩)
      obtain ⟨w, hw⟩ := hmemory.cells.live n.call n halloc
      obtain ⟨count, hcount⟩ := hmemory.semaphores.live n.call n halloc
      rw [hserve, Group.serve_eq u32EventFlag i hw hcount]
      refine ⟨_, rfl, ⟨hmemory.cells.write halloc _, hmemory.semaphores.write halloc _,
        hmemory.owner⟩, fun n' hn' => hused n' ?_⟩
      exact (inUse_clear hi hn).mem_iff.mpr (List.mem_cons_of_mem n hn')
  have hinv : Inv g := ⟨hmemory, hused⟩
  obtain ⟨g', hrun, -⟩ := PartialRun.runAll_ok (fun i _ g => hturn i g) hinv
  exact ⟨g', hrun⟩

/-- The task handles the message it has taken, and then waits again. -/
theorem taskStep_handle {m : EventMessage} (hm : g.current = some m) :
    taskStep g = (({ g with current := none }.switchMessage m).bind
      Group.dispatchEventList).map (·, .task) := by
  rw [taskStep, hm]

namespace Ok

/-- The task takes a message, or handles the one it has. -/
theorem taskStep (h : Ok g call) (hon : ∀ m ∈ g.current, ∀ n ∈ g.servedBy m,
    ∀ l ∈ call n.call, l.gaveUp = false) :
    (∃ g', Event.taskStep g = some (g', .task) ∧ Ok g' call) ∨
    (g.Full ∧ Event.taskStep g = none) := by
  cases hm : g.current with
  | none =>
    rw [Event.taskStep, hm]
    cases hqueue : g.queue with
    | nil => exact .inl ⟨g, rfl, h⟩
    | cons m queue =>
      -- the message moves from the queue to the hand of the task
      have hmessages : ({ g with current := some m, queue := queue } : Group).messages =
          g.messages := by
        rw [Group.messages, Group.messages, hm, hqueue]
        rfl
      refine .inl ⟨_, rfl, h.moved ?_ (fun n => ?_) (fun n => ?_) rfl rfl rfl rfl rfl⟩
      · rw [hmessages]
        exact h.places
      · rw [Group.requested, hmessages]
        exact Iff.rfl
      · rw [Group.withdrawn, hmessages]
        exact Iff.rfl
  | some m =>
    rw [taskStep_handle hm]
    rcases h.switchMessage hm with ⟨g₁, hswitch, h₁, hflag, hused⟩ | ⟨hfull, hswitch⟩
    -- whom the loop serves was in the container before, or comes with this message
    · have hon₁ : ∀ n ∈ inUse g₁.container, n.wants g₁.eventFlag →
          ∀ l ∈ call n.call, l.gaveUp = false := by
        intro n hn hwants
        rw [hflag] at hwants
        exact hon m hm n (Group.mem_servedBy (hused n hn).1 (hused n hn).2 hwants)
      obtain ⟨g', hdispatch, hok⟩ := h₁.dispatchEventList hon₁
      refine .inl ⟨g', ?_, hok⟩
      rw [hswitch, Option.bind_some, hdispatch, Option.map_some]
    · exact .inr ⟨hfull, by rw [hswitch, Option.bind_none, Option.map_none]⟩

/-- The task is stopped by a full container only. -/
theorem taskStep_defined (h : Ok g call) (hstep : Event.taskStep g = none) : g.Full := by
  cases hm : g.current with
  | none =>
    rw [Event.taskStep, hm] at hstep
    cases hqueue : g.queue with
    | nil => exact nomatch hqueue ▸ hstep
    | cons m queue => exact nomatch hqueue ▸ hstep
  | some m =>
    -- the message is handled and its requests dispatched, or there is no room
    rcases h.switchMessage hm with ⟨g₁, hswitch, h₁, -⟩ | ⟨hfull, -⟩
    · obtain ⟨g', hdispatch⟩ := dispatchEventList_defined h₁.memory fun n hn =>
        h₁.places.ofRequested n (List.mem_append_left _ hn)
      rw [taskStep_handle hm, hswitch, Option.bind_some, hdispatch] at hstep
      exact nomatch hstep
    · exact hfull

end Ok

end Task

/-! ## One step -/

/-- The start of a call reads or writes `eventDeleted`, and gives the call no memory. -/
theorem enter_cases (g : Group) (r : Request) : ∃ eventDeleted l,
    enter g r = ({ g with eventDeleted := eventDeleted }, l) ∧
      ∀ g' i, Group.Idle g' i → Stage g' i (some l) := by
  cases r with
  | setEvent u32EventFlag =>
    refine ⟨g.eventDeleted, _, rfl, ?_⟩
    intro g' i hidle
    -- with the group deleted it returns, and else it goes on
    split <;> exact hidle
  | clearEvent u32EventFlag =>
    refine ⟨g.eventDeleted, _, rfl, ?_⟩
    intro g' i hidle
    split <;> exact hidle
  | waitEvent u32WaitEventFlag eWaitMode u32WaitMs =>
    refine ⟨g.eventDeleted, _, rfl, ?_⟩
    intro g' i hidle
    split <;> exact hidle
  | deleteEventGroup => exact ⟨true, _, rfl, fun g' i hidle => hidle⟩
  | createEventGroup => exact ⟨false, _, rfl, fun g' i hidle => hidle⟩

/-- A poll changes the flags, and its call returns. -/
theorem poll_cases (g : Group) (u32WaitEventFlag : UInt32) (eWaitMode : EventWaitMode) :
    ∃ u32EventFlag result flags, poll g u32WaitEventFlag eWaitMode =
      ({ g with eventFlag := u32EventFlag }, .polled result flags) := by
  cases eWaitMode with
  | E_AND => exact ⟨g.eventFlag, _, _, rfl⟩
  | E_OR => exact ⟨g.eventFlag, _, _, rfl⟩
  | E_AND_CLEAR => exact ⟨g.eventFlag, _, _, rfl⟩
  | E_OR_CLEAR =>
    rw [poll]
    split
    · exact ⟨_, _, _, rfl⟩
    · exact ⟨g.eventFlag, _, _, rfl⟩

/-- A step of call `i` is defined and keeps the invariant. -/
def Keeps (call : Nat → Option Thread) (i : Nat) (r : Option (Group × Thread)) : Prop :=
  ∃ g' l', r = some (g', l') ∧ Ok g' (update call i (some l'))

namespace Ok

variable {g : Group} {call : Nat → Option Thread} {i : Nat} {l l' : Thread} {n : EventNode}

/-- Every call is at a stage. -/
theorem stage_of (h : Ok g call) (hi : call i = some l) : Stage g i (some l) := hi ▸ h.stage i

/-- The call waits. -/
theorem stays (h : Ok g call) (hi : call i = some l) : Keeps call i (some (g, l)) := by
  refine ⟨g, l, rfl, ?_⟩
  rw [← hi, Function.update_eq_self]
  exact h

/-- A send waits, or the message is behind the others. -/
theorem sends {m : EventMessage} (h : Ok g call) (hi : call i = some l)
    (hsent : Ok { g with queue := g.queue ++ [m] } (update call i (some l'))) :
    Keeps call i (some (Event.send g m l l')) := by
  rw [Event.send]
  split
  · exact ⟨_, _, rfl, hsent⟩
  · exact h.stays hi

/-- A call that enters. -/
theorem stepEntering (h : Ok g call) {r : Request} (hi : call i = some (.entering r)) :
    Keeps call i (some (enter g r)) := by
  obtain ⟨eventDeleted, l', henter, hidle⟩ := enter_cases g r
  have hgroup : Ok { g with eventDeleted := eventDeleted } call :=
    h.moved h.places (fun _ => Iff.rfl) (fun _ => Iff.rfl) rfl rfl rfl rfl rfl
  refine ⟨_, l', congrArg some henter, hgroup.onward ?_ ?_⟩
  · rw [hi]
    exact hidle _ i
  · rw [hi]
    exact fun _ => False.elim

/-- A call that has no memory sends a message that refers to none. -/
theorem stepPost {m : EventMessage} (h : Ok g call) (hi : call i = some l) (hidle : g.Idle i)
    (hask : m.asks = none) (hwithdraw : m.withdraws = none) (hno : ∀ v, ¬ Answered g v (some l)) :
    Keeps call i (some (Event.send g m l .posted)) := by
  refine h.sends hi (h.send ?_ ?_ ⟨hidle.allocated, hidle.released⟩ (hi ▸ hno))
  · rw [hask]
    exact nofun
  · rw [hwithdraw]
    exact nofun

/-- One that sends its request. -/
theorem stepSendWait (h : Ok g call) {u32WaitMs : Nat}
    (hi : call i = some (.sendWait n u32WaitMs)) :
    Keeps call i (some (Event.send g (.waitEvent n) (.sendWait n u32WaitMs)
      (.waiting n u32WaitMs))) := by
  obtain ⟨hholds, hcount⟩ := h.stage_of hi
  have hnew : n ∉ g.requested := fun hmem => hholds.requested.mp hmem
  have hkept : n ∉ g.withdrawn := fun hmem => hholds.withdrawn.mp hmem
  -- its own request joins the messages, and no release
  refine h.sends hi (h.send ?_ nofun
    (.inl ⟨⟨hholds.allocated, hholds.released, ?_, ?_⟩, hcount⟩) ?_)
  · rintro n' hn'
    obtain rfl := Option.some.inj hn'
    exact ⟨hholds.allocated, hnew⟩
  · exact iff_of_true ((g.mem_requested_send _ n).mpr (.inr rfl)) trivial
  · refine iff_of_false (fun hmem => ?_) id
    exact ((g.mem_withdrawn_send _ n).mp hmem).elim hkept nofun
  · rw [hi]
    exact fun _ => id

/-- The withdrawal goes behind the request. -/
theorem stepSendRelease (h : Ok g call) (hi : call i = some (.sendRelease n)) :
    Keeps call i (some (Event.send g (.releaseEvent n) (.sendRelease n) .timedOut)) := by
  have hholds : g.Holds i n True False := h.stage_of hi
  have hasked : n ∈ g.requested := hholds.requested.mpr trivial
  refine h.sends hi (h.send nofun ?_ (.inl ⟨n, hholds.allocated, hholds.released, ?_, ?_⟩) ?_)
  · rintro n' hn'
    obtain rfl := Option.some.inj hn'
    exact ⟨hholds.allocated, hasked, fun hmem => hholds.withdrawn.mp hmem⟩
  · exact iff_of_true ((g.mem_requested_send _ n).mpr (.inl hasked)) trivial
  · exact iff_of_true ((g.mem_withdrawn_send _ n).mpr (.inr rfl)) trivial
  · rw [hi]
    exact fun _ => id

/-- A wait without time. -/
theorem stepPoll (h : Ok g call) {u32WaitEventFlag : UInt32} {eWaitMode : EventWaitMode}
    {u32WaitMs : Nat} (hi : call i = some (.wait u32WaitEventFlag eWaitMode u32WaitMs)) :
    Keeps call i (some (poll g u32WaitEventFlag eWaitMode)) := by
  obtain ⟨u32EventFlag, result, flags, hpoll⟩ := poll_cases g u32WaitEventFlag eWaitMode
  have hflags : Ok { g with eventFlag := u32EventFlag } call :=
    h.moved h.places (fun _ => Iff.rfl) (fun _ => Iff.rfl) rfl rfl rfl rfl rfl
  refine ⟨_, _, congrArg some hpoll, hflags.onward ?_ ?_⟩
  · rw [hi]
    exact id
  · rw [hi]
    exact fun _ => id

/-- A wait that begins. -/
theorem stepWait (k : Choice) (h : Ok g call) {u32WaitEventFlag : UInt32}
    {eWaitMode : EventWaitMode} {u32WaitMs : Nat}
    (hi : call i = some (.wait u32WaitEventFlag eWaitMode u32WaitMs)) :
    Keeps call i (Event.turn k i g (.wait u32WaitEventFlag eWaitMode u32WaitMs)) := by
  have hidle : g.Idle i := h.stage_of hi
  unfold Event.turn
  dsimp only
  -- a wait of 0 ms is a poll
  by_cases hms : u32WaitMs = 0
  · rw [if_pos hms]
    exact h.stepPoll hi
  rw [if_neg hms]
  cases k with
  | goOn => exact h.stays hi
  | timeOut => exact h.stays hi
  | malloc cell semaphore garbage =>
    dsimp only
    split
    · exact h.stays hi
    -- the cell and the semaphore that `malloc` gives are free
    · rename_i hfree
      rw [not_or, not_or, Option.not_isSome_iff_eq_none, Option.not_isSome_iff_eq_none] at hfree
      obtain ⟨hcell, hsemaphore, hzero⟩ := hfree
      refine ⟨_, _, rfl, h.create hidle hcell hsemaphore rfl hzero ?_ garbage u32WaitMs⟩
      rw [hi]
      exact fun _ => id

/-- One that goes on. -/
theorem stepWaiting (k : Choice) (h : Ok g call) {u32WaitMs : Nat}
    (hi : call i = some (.waiting n u32WaitMs)) :
    Keeps call i (Event.turn k i g (.waiting n u32WaitMs)) := by
  have hstage : (g.Holds i n True False ∧ g.semaphores n.eventSemaphore = some 0) ∨
      (g.Holds i n False False ∧ g.semaphores n.eventSemaphore = some 1) := h.stage_of hi
  rw [Event.turn]
  cases hcount : g.semaphores n.eventSemaphore with
  | none => simp [hcount] at hstage
  | some count =>
    cases count with
    | zero =>
      dsimp only
      split
      · -- it gives up, and was not served
        refine ⟨_, _, rfl, h.onward ?_ ?_⟩
        · rw [hi]
          rintro (⟨hholds, -⟩ | ⟨-, hone⟩)
          · exact hholds
          · exact nomatch hcount.symm.trans hone
        · rw [hi]
          rintro v ⟨hone, -⟩
          exact nomatch hcount.symm.trans hone
      · exact h.stays hi
    | succ count => exact ⟨_, _, rfl, h.obtain hi hcount⟩

/-- The call takes the flags and releases its memory. -/
theorem stepReading (k : Choice) (h : Ok g call) (hi : call i = some (.reading n)) :
    Keeps call i (Event.turn k i g (.reading n)) := by
  have hholds : g.Holds i n False False := h.stage_of hi
  obtain rfl := (h.memory.owner i n hholds.allocated).1
  obtain ⟨v, hv⟩ := h.memory.cells.live n.call n hholds.allocated
  obtain ⟨count, hcount⟩ := h.memory.semaphores.live n.call n hholds.allocated
  refine ⟨_, .served v, by rw [Event.turn, hv, Group.release_eq hv hcount]; rfl, ?_⟩
  refine h.free hholds.allocated hholds.released h.places
    (fun hmem => hholds.requested.mp hmem) (fun hmem => hholds.withdrawn.mp hmem)
    (fun _ _ => Iff.rfl) (fun _ _ => Iff.rfl) rfl rfl rfl rfl rfl id fun v' hanswered => ?_
  rw [hi] at hanswered
  exact Option.some.inj (hv.symm.trans hanswered)

/-- What a step of call `i` keeps, if the task serves no call that has given up. -/
theorem turn (k : Choice) (h : Ok g call) (hi : call i = some l)
    (hon : l = .task → ∀ m ∈ g.current, ∀ n ∈ g.servedBy m, ∀ l ∈ call n.call, l.gaveUp = false) :
    Keeps call i (Event.turn k i g l) ∨ (l = .task ∧ g.Full ∧ Event.turn k i g l = none) := by
  cases l with
  | task =>
    rcases h.taskStep (hon rfl) with ⟨g', hstep, hok⟩ | ⟨hfull, hstep⟩
    · refine .inl ⟨g', .task, hstep, ?_⟩
      rw [← hi, Function.update_eq_self]
      exact hok
    · exact .inr ⟨rfl, hfull, hstep⟩
  | entering r => exact .inl (h.stepEntering hi)
  | setting u32EventFlag =>
    exact .inl (h.stepPost hi (h.stage_of hi) rfl rfl fun _ => False.elim)
  | clearing u32EventFlag =>
    exact .inl (h.stepPost hi (h.stage_of hi) rfl rfl fun _ => False.elim)
  | wait u32WaitEventFlag eWaitMode u32WaitMs => exact .inl (h.stepWait k hi)
  | sendWait n u32WaitMs => exact .inl (h.stepSendWait hi)
  | waiting n u32WaitMs => exact .inl (h.stepWaiting k hi)
  | sendRelease n => exact .inl (h.stepSendRelease hi)
  | reading n => exact .inl (h.stepReading k hi)
  -- the calls that returned
  | refused => exact .inl (h.stays hi)
  | posted => exact .inl (h.stays hi)
  | timedOut => exact .inl (h.stays hi)
  | served flags => exact .inl (h.stays hi)
  | polled result flags => exact .inl (h.stays hi)

/-- No step but that of the task at a full container is undefined. -/
theorem turn_defined {k : Choice} (h : Ok g call) (hi : call i = some l)
    (hnone : Event.turn k i g l = none) : l = .task ∧ g.Full := by
  by_cases hl : l = .task
  · subst hl
    exact ⟨rfl, h.taskStep_defined hnone⟩
  · rcases h.turn k hi (fun htask => absurd htask hl) with ⟨g', l', hturn, -⟩ | ⟨htask, hfull, -⟩
    · exact nomatch hnone.symm.trans hturn
    · exact ⟨htask, hfull⟩

end Ok

end PgClient.Pgos.Event
