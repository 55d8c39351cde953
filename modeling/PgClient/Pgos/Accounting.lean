import PgClient.Pgos.Queue

/-!
# The accounts of the message queue

Every node is in one of the two lists or with a call, and each semaphore counts, together with
the units that calls took and have not given back, the nodes of its list. A send that puts its
node back because the message is too long keeps its unit for ever.

* `turn_effect` — what one step of one call does.
* `runCalls_accounts` — the accounts, over every schedule.
* `accounted_iff` — the accounts close if and only if no message is too long.
-/

namespace PgClient.Pgos

open HalfCircular (IsList)
open MsOSQueue

/-! ## What a call has -/

def Section.held : Section → List Nat
  | .claim _ => []
  | .append _ pNode => [pNode]
  | .putBack _ pNode => [pNode]
  | .take _ => []
  | .free _ _ pNode => [pNode]

def After.held : After → List Nat
  | .claimed _ pNode => pNode.toList
  | .appended _ => []
  | .putBack _ => []
  | .taken _ pNode => pNode.toList
  | .freed _ _ => []

namespace Call

/-- The nodes of a call. -/
def held : Call → List Nat
  | .lock s => s.held
  | .list s => s.held
  | .unlock k => k.held
  | .copyIn _ pNode => pNode.toList
  | .copyOut _ pNode => pNode.toList
  | _ => []

/-- Whether a call has the lock. -/
def locked : Call → Nat
  | .list _ => 1
  | .unlock _ => 1
  | _ => 0

/-- The units of `sendSemaphore` (`true`) or `recvSemaphore` (`false`) that a call took for a node
of the free or the used list, or owes for one. -/
def units : Bool → Call → Nat
  | true, .lock (.claim _) => 1
  | true, .list (.claim _) => 1
  | true, .unlock (.putBack _) => 1
  | true, .unlock (.freed _ _) => 1
  | true, .releaseSend _ _ => 1
  | true, .rejected _ => 1
  | false, .lock (.take _) => 1
  | false, .list (.take _) => 1
  | false, .unlock (.appended _) => 1
  | false, .releaseRecv _ => 1
  | _, _ => 0

/-- The call has returned. -/
def done : Call → Bool
  | .sent _ => true
  | .rejected _ => true
  | .received _ _ => true
  | .failed => true
  | _ => false

end Call

/-- Behind a section a call holds what it did in it. -/
@[simp] theorem held_next (k : After) : k.next.held = k.held := by
  cases k <;> rfl

/-- It has no lock any more. -/
@[simp] theorem locked_next (k : After) : k.next.locked = 0 := by
  cases k <;> rfl

/-- It counts as it did under the lock. -/
@[simp] theorem units_next (b : Bool) (k : After) :
    k.next.units b = (Call.unlock k).units b := by
  cases k <;> cases b <;> rfl

@[simp] theorem units_list (b : Bool) (s : Section) :
    (Call.list s).units b = (Call.lock s).units b := by
  cases s <;> cases b <;> rfl

/-- The semaphore that counts the free nodes or the used ones. -/
def MsOSQueue.semaphore (q : MsOSQueue) (b : Bool) : Nat :=
  if b then q.sendSemaphore else q.recvSemaphore

/-- New links leave the semaphores alone. -/
theorem MsOSQueue.Relinked.semaphore {q q' : MsOSQueue} (h : q.Relinked q') (b : Bool) :
    q'.semaphore b = q.semaphore b := by
  cases b
  · exact h.recv
  · exact h.send

/-! ## One step -/

/-- What a step may not change: nodes go from one place to another, units too. -/
structure Balanced (q : MsOSQueue) (L : Bool → List Nat) (l : Call) (q' : MsOSQueue)
    (L' : Bool → List Nat) (l' : Call) : Prop where
  lists : q'.Lists L'
  nodes : (L' true ++ L' false ++ l'.held).Perm (L true ++ L false ++ l.held)
  lock : q'.lockSemaphore + l'.locked = q.lockSemaphore + l.locked
  units : ∀ b, q'.semaphore b + l'.units b + (L b).length =
    q.semaphore b + l.units b + (L' b).length
  size : q'.maxSizeOfMsg = q.maxSizeOfMsg

/-- The steps of a call that leave the messages where they are; `maxSize` is the queue's. -/
inductive Onward (maxSize : Nat) : Call → Call → Prop
  | wait (l : Call) : Onward maxSize l l
  | timeOutSend (msg : List UInt8) (ms : Nat) : Onward maxSize (.obtainSend msg ms) .failed
  | timeOutRecv (size ms : Nat) : Onward maxSize (.obtainRecv size ms) .failed
  | obtainSend (msg : List UInt8) (ms : Nat) :
    Onward maxSize (.obtainSend msg ms) (.lock (.claim msg))
  | obtainRecv (size ms : Nat) : Onward maxSize (.obtainRecv size ms) (.lock (.take size))
  | lock (s : Section) : Onward maxSize (.lock s) (.list s)
  | claim (msg : List UInt8) (a : Nat) :
      Onward maxSize (.list (.claim msg)) (.unlock (.claimed msg (some a)))
  | putBack (msg : List UInt8) (a : Nat) :
      Onward maxSize (.list (.putBack msg a)) (.unlock (.putBack msg))
  | free (size : Nat) (out : Received) (a : Nat) :
      Onward maxSize (.list (.free size out a)) (.unlock (.freed size out))
  | unlock (k : After) : Onward maxSize (.unlock k) k.next
  | noNodeIn (msg : List UInt8) : Onward maxSize (.copyIn msg none) .failed
  | noNodeOut (size : Nat) : Onward maxSize (.copyOut size none) .failed
  | tooLong (msg : List UInt8) (a : Nat) (h : maxSize < msg.length) :
      Onward maxSize (.copyIn msg (some a)) (.lock (.putBack msg a))
  | releaseRecv (msg : List UInt8) : Onward maxSize (.releaseRecv msg) (.sent msg)
  | releaseSend (size : Nat) (out : Received) :
      Onward maxSize (.releaseSend size out) (.received size out)

/-- What a step of call `i` does to the messages. -/
inductive Effect (i : Nat) (w : World) (L : Bool → List Nat) :
    Call → World → (Bool → List Nat) → Call → Prop
  | onward {l l' : Call} {q' : MsOSQueue} {L' : Bool → List Nat}
      (h : Onward w.queue.maxSizeOfMsg l l')
      (hmsg : q'.msg = w.queue.msg) (hsize : q'.msgRealSize = w.queue.msgRealSize)
      (hused : L' false = L false) : Effect i w L l { w with queue := q' } L' l'
  | copyIn {msg : List UInt8} {a : Nat} {q' : MsOSQueue} (hstored : Stored q' a msg)
      (hother : ∀ b, b ≠ a →
        q'.msgRealSize b = w.queue.msgRealSize b ∧ q'.msg b = w.queue.msg b)
      (hlength : ∀ b, (q'.msg b).length = (w.queue.msg b).length) :
      Effect i w L (.copyIn msg (some a)) { w with queue := q' } L (.lock (.append msg a))
  | append {msg : List UInt8} {a : Nat} {q' : MsOSQueue} {L' : Bool → List Nat}
      (hmsg : q'.msg = w.queue.msg) (hsize : q'.msgRealSize = w.queue.msgRealSize)
      (hused : L' false = L false ++ [a]) :
      Effect i w L (.list (.append msg a))
        { w with queue := q', appended := w.appended ++ [(i, msg)] } L' (.unlock (.appended msg))
  | take {size a : Nat} {q' : MsOSQueue} {L' : Bool → List Nat}
      (hmsg : q'.msg = w.queue.msg) (hsize : q'.msgRealSize = w.queue.msgRealSize)
      (hused : L false = a :: L' false) :
      Effect i w L (.list (.take size))
        { w with queue := q', taken := w.taken ++ [i] } L' (.unlock (.taken size (some a)))
  | copyOut {size a : Nat} {out : Received} (hout : deliver w.queue a size = some out) :
      Effect i w L (.copyOut size (some a)) w L (.lock (.free size out a))

/-- What a call finds when it takes its step. -/
structure Ready (q : MsOSQueue) (L : Bool → List Nat) (l : Call) : Prop where
  lists : q.Lists L
  held : ∀ a ∈ l.held, ∀ b, a ∉ L b
  units : ∀ b, l.units b ≤ (L b).length
  room : ∀ a, q.maxSizeOfMsg ≤ (q.msg a).length
  realSize : ∀ a, q.msgRealSize a ≤ (q.msg a).length

variable {w w' : World} {L L' : Bool → List Nat} {l l' : Call} {i : Nat}

/-- A node goes from a call to a list. -/
theorem Balanced.add {q q' : MsOSQueue} {b : Bool} {a : Nat}
    (hlists : q'.Lists (Function.update L b (L b ++ [a]))) (hrel : q.Relinked q')
    (hheld : l.held = [a]) (hheld' : l'.held = []) (hlocked : l'.locked = l.locked)
    (hself : l'.units b = l.units b + 1) (hother : ∀ c, c ≠ b → l'.units c = l.units c) :
    Balanced q L l q' (Function.update L b (L b ++ [a])) l' := by
  refine ⟨hlists, ?_, by rw [hrel.lock, hlocked], fun c => ?_, hrel.size⟩
  -- the node leaves the held ones for the end of the list
  · rw [hheld, hheld', List.append_nil]
    cases b
    · rw [Function.update_self, Function.update_of_ne (by simp), List.append_assoc]
    · rw [Function.update_self, Function.update_of_ne (by simp), List.append_assoc,
        List.append_assoc]
      exact (List.perm_append_comm).append_left _
  -- the unit of that list is the call's now
  · rw [hrel.semaphore]
    rcases eq_or_ne c b with rfl | hc
    · rw [Function.update_self, List.length_append, hself, List.length_singleton]
      omega
    · rw [Function.update_of_ne hc, hother c hc]

/-- A node goes from the head of a list to a call. -/
theorem Balanced.remove {q q' : MsOSQueue} {b : Bool} {a : Nat} {as : List Nat}
    (hlists : q'.Lists (Function.update L b as)) (hrel : q.Relinked q') (hL : L b = a :: as)
    (hheld : l.held = []) (hheld' : l'.held = [a]) (hlocked : l'.locked = l.locked)
    (hself : l.units b = l'.units b + 1) (hother : ∀ c, c ≠ b → l'.units c = l.units c) :
    Balanced q L l q' (Function.update L b as) l' := by
  refine ⟨hlists, ?_, by rw [hrel.lock, hlocked], fun c => ?_, hrel.size⟩
  -- the node leaves the head of the list for the held ones
  · rw [hheld, hheld', List.append_nil]
    cases b
    · rw [Function.update_self, Function.update_of_ne (by simp), hL, List.append_assoc]
      exact (List.perm_append_singleton a as).append_left _
    · rw [Function.update_self, Function.update_of_ne (by simp), hL]
      exact List.perm_append_singleton a (as ++ L false)
  -- the unit that the call had is the node's
  · rw [hrel.semaphore]
    rcases eq_or_ne c b with rfl | hc
    · rw [Function.update_self, hL, hself, List.length_cons]
      omega
    · rw [Function.update_of_ne hc, hother c hc]

/-- A step that leaves the nodes where they are. -/
theorem Balanced.stay {q q' : MsOSQueue} (hlists : q'.Lists L) (hheld : l'.held = l.held)
    (hlock : q'.lockSemaphore + l'.locked = q.lockSemaphore + l.locked)
    (hunits : ∀ b, q'.semaphore b + l'.units b = q.semaphore b + l.units b)
    (hsize : q'.maxSizeOfMsg = q.maxSizeOfMsg) : Balanced q L l q' L l' :=
  ⟨hlists, by rw [hheld], hlock, fun b => by rw [hunits b], hsize⟩

/-- A step is defined; the nodes, the units and the messages go where they should. -/
def Goes (i : Nat) (w : World) (L : Bool → List Nat) (l : Call) (r : Option (World × Call)) :
    Prop :=
  ∃ w' L' l', r = some (w', l') ∧ Balanced w.queue L l w'.queue L' l' ∧ Effect i w L l w' L' l'

/-- A call that waits, or has returned. -/
theorem Ready.waits (h : Ready w.queue L l) : Goes i w L l (some (w, l)) :=
  ⟨w, L, l, rfl, .stay h.lists rfl rfl (fun _ => rfl) rfl, .onward (.wait l) rfl rfl rfl⟩

/-- A step of the call alone. -/
theorem Ready.goesOn (h : Ready w.queue L l) (hon : Onward w.queue.maxSizeOfMsg l l')
    (hheld : l'.held = l.held) (hlocked : l'.locked = l.locked)
    (hunits : ∀ b, l'.units b = l.units b) : Goes i w L l (some (w, l')) :=
  ⟨w, L, l', rfl, .stay h.lists hheld (by rw [hlocked]) (fun b => by rw [hunits b]) rfl,
    .onward hon rfl rfl rfl⟩

/-- The list operation of a call. -/
theorem listStep_effect {s : Section} (h : Ready w.queue L (.list s)) :
    Goes i w L (.list s) (listStep i w s) := by
  cases s with
  | claim msg =>
    -- the unit that was obtained says that the free list has a node
    obtain ⟨a, as, hL⟩ := List.exists_cons_of_length_pos (h.units true)
    obtain ⟨q', hrem, hlists, hrel⟩ := removeFromListHead_spec h.lists hL
    refine ⟨_, _, .unlock (.claimed msg (some a)), by rw [listStep, hrem],
      Balanced.remove hlists hrel hL rfl rfl rfl rfl ?_,
      .onward (.claim msg a) hrel.msg hrel.realSize rfl⟩
    simp [Call.units]
  | append msg a =>
    obtain ⟨q', hadd, hlists, hrel⟩ :=
      addToListTail_spec (b := false) h.lists (h.held a List.mem_cons_self)
    refine ⟨_, _, .unlock (.appended msg), by rw [listStep, hadd]; rfl,
      Balanced.add hlists hrel rfl rfl rfl rfl ?_,
      .append hrel.msg hrel.realSize (Function.update_self ..)⟩
    simp [Call.units]
  | putBack msg a =>
    obtain ⟨q', hadd, hlists, hrel⟩ :=
      addToListTail_spec (b := true) h.lists (h.held a List.mem_cons_self)
    refine ⟨_, _, .unlock (.putBack msg), by rw [listStep, hadd]; rfl,
      Balanced.add hlists hrel rfl rfl rfl rfl ?_,
      .onward (.putBack msg a) hrel.msg hrel.realSize rfl⟩
    simp [Call.units]
  | take size =>
    -- and this one, that a message waits
    obtain ⟨a, as, hL⟩ := List.exists_cons_of_length_pos (h.units false)
    obtain ⟨q', hrem, hlists, hrel⟩ := removeFromListHead_spec h.lists hL
    refine ⟨_, _, .unlock (.taken size (some a)), by rw [listStep, hrem]; rfl,
      Balanced.remove hlists hrel hL rfl rfl rfl rfl ?_,
      .take hrel.msg hrel.realSize (by rw [Function.update_self]; exact hL)⟩
    simp [Call.units]
  | free size out a =>
    obtain ⟨q', hadd, hlists, hrel⟩ :=
      addToListTail_spec (b := true) h.lists (h.held a List.mem_cons_self)
    refine ⟨_, _, .unlock (.freed size out), by rw [listStep, hadd]; rfl,
      Balanced.add hlists hrel rfl rfl rfl rfl ?_,
      .onward (.free size out a) hrel.msg hrel.realSize rfl⟩
    simp [Call.units]

/-- A message is copied into a node that the call holds. -/
theorem copyIn_effect (k : Choice) {msg : List UInt8} {pNode : Option Nat}
    (h : Ready w.queue L (.copyIn msg pNode)) :
    Goes i w L (.copyIn msg pNode) (turn k i w (.copyIn msg pNode)) := by
  cases pNode with
  | none => exact h.goesOn (.noNodeIn msg) rfl rfl (by intro b; cases b <;> rfl)
  | some a =>
    rw [turn]
    -- a message that is too long is turned away with its node still held
    split_ifs with hlen
    · obtain ⟨q', hcopy, hstored, hother, hlength, heq⟩ :=
        copyMsg_spec (Nat.le_trans hlen (h.room a))
      -- the copy writes to the node's bytes only
      have hlists : q'.Lists L := by
        rw [heq]
        exact ⟨h.lists.isList, h.lists.disjoint⟩
      refine ⟨_, L, .lock (.append msg a), by rw [hcopy]; rfl, .stay hlists rfl ?_ ?_ ?_,
        .copyIn hstored hother hlength⟩
      · rw [heq]
        rfl
      · intro b
        rw [heq]
        cases b <;> rfl
      · rw [heq]
    · exact h.goesOn (.tooLong msg a (by omega)) rfl rfl (by intro b; cases b <;> rfl)

/-- One is copied out of it. -/
theorem copyOut_effect (k : Choice) {size : Nat} {pNode : Option Nat}
    (h : Ready w.queue L (.copyOut size pNode)) :
    Goes i w L (.copyOut size pNode) (turn k i w (.copyOut size pNode)) := by
  cases pNode with
  | none => exact h.goesOn (.noNodeOut size) rfl rfl (by intro b; cases b <;> rfl)
  | some a =>
    obtain ⟨out, hout⟩ : ∃ out, deliver w.queue a size = some out := by
      have hreal := h.realSize a
      rw [deliver]
      exact ⟨_, if_neg (by split_ifs <;> omega)⟩
    exact ⟨_, L, .lock (.free size out a), by rw [turn, hout]; rfl,
      .stay h.lists rfl rfl (by intro b; cases b <;> rfl) rfl, .copyOut hout⟩

/-- A step of a call that finds what it needs. -/
theorem turn_effect (k : Choice) (h : Ready w.queue L l) : Goes i w L l (turn k i w l) := by
  cases l with
  | obtainSend msg ms =>
    rw [turn]
    split_ifs with hto hsem
    · exact h.goesOn (.timeOutSend msg ms) rfl rfl (by intro b; cases b <;> rfl)
    · exact h.waits
    · refine ⟨_, L, .lock (.claim msg), rfl,
        .stay ⟨h.lists.isList, h.lists.disjoint⟩ rfl rfl ?_ rfl,
        .onward (.obtainSend msg ms) rfl rfl rfl⟩
      intro b
      cases b
      · rfl
      · show w.queue.sendSemaphore - 1 + 1 = w.queue.sendSemaphore + 0
        omega
  | obtainRecv size ms =>
    rw [turn]
    split_ifs with hto hsem
    · exact h.goesOn (.timeOutRecv size ms) rfl rfl (by intro b; cases b <;> rfl)
    · exact h.waits
    · refine ⟨_, L, .lock (.take size), rfl,
        .stay ⟨h.lists.isList, h.lists.disjoint⟩ rfl rfl ?_ rfl,
        .onward (.obtainRecv size ms) rfl rfl rfl⟩
      intro b
      cases b
      · show w.queue.recvSemaphore - 1 + 1 = w.queue.recvSemaphore + 0
        omega
      · rfl
  | lock s =>
    rw [turn]
    split_ifs with hsem
    · exact h.waits
    · refine ⟨_, L, .list s, rfl, .stay ⟨h.lists.isList, h.lists.disjoint⟩ rfl ?_ ?_ rfl,
        .onward (.lock s) rfl rfl rfl⟩
      · show w.queue.lockSemaphore - 1 + 1 = w.queue.lockSemaphore + 0
        omega
      · intro b
        rw [units_list]
        rfl
  | list s => exact listStep_effect h
  | unlock k =>
    refine ⟨_, L, k.next, rfl,
      .stay ⟨h.lists.isList, h.lists.disjoint⟩ (held_next k) ?_ ?_ rfl,
      .onward (.unlock k) rfl rfl rfl⟩
    · rw [locked_next]
      rfl
    · intro b
      rw [units_next]
      rfl
  | copyIn msg pNode => exact copyIn_effect k h
  | copyOut size pNode => exact copyOut_effect k h
  | releaseRecv msg =>
    refine ⟨_, L, .sent msg, rfl, .stay ⟨h.lists.isList, h.lists.disjoint⟩ rfl rfl ?_ rfl,
      .onward (.releaseRecv msg) rfl rfl rfl⟩
    intro b
    cases b <;> rfl
  | releaseSend size out =>
    refine ⟨_, L, .received size out, rfl,
      .stay ⟨h.lists.isList, h.lists.disjoint⟩ rfl rfl ?_ rfl,
      .onward (.releaseSend size out) rfl rfl rfl⟩
    intro b
    cases b <;> rfl
  -- the calls that returned
  | sent msg => exact h.waits
  | rejected msg => exact h.waits
  | received size out => exact h.waits
  | failed => exact h.waits

/-! ## Every schedule -/

/-- The accounts of a queue of `n` nodes, and the room in its nodes. -/
structure Accounts (n : Nat) (L : Bool → List Nat) (c : Config) : Prop where
  lists : c.shared.queue.Lists L
  nodes : (L true ++ L false ++ c.threads.flatMap Call.held).Perm (List.range n)
  lock : c.shared.queue.lockSemaphore + (c.threads.map Call.locked).sum = 1
  units : ∀ b, c.shared.queue.semaphore b + (c.threads.map (Call.units b)).sum = (L b).length
  room : ∀ a, c.shared.queue.maxSizeOfMsg ≤ (c.shared.queue.msg a).length
  realSize : ∀ a, c.shared.queue.msgRealSize a ≤ (c.shared.queue.msg a).length

/-- A step keeps the room of every node, and sizes within it. -/
theorem Effect.room (h : Effect i w L l w' L' l')
    (hreal : ∀ a, w.queue.msgRealSize a ≤ (w.queue.msg a).length) (a : Nat) :
    (w'.queue.msg a).length = (w.queue.msg a).length ∧
      w'.queue.msgRealSize a ≤ (w'.queue.msg a).length := by
  cases h with
  | onward _ hmsg hsize _ => exact ⟨by rw [hmsg], by rw [hmsg, hsize]; exact hreal a⟩
  | append hmsg hsize _ => exact ⟨by rw [hmsg], by rw [hmsg, hsize]; exact hreal a⟩
  | take hmsg hsize _ => exact ⟨by rw [hmsg], by rw [hmsg, hsize]; exact hreal a⟩
  | copyOut _ => exact ⟨rfl, hreal a⟩
  | @copyIn msg c q' hstored hother hlength =>
    refine ⟨hlength a, ?_⟩
    -- the node that was copied into has the size of the message now
    rcases eq_or_ne a c with rfl | hne
    · have htake := congrArg List.length hstored.2
      rw [List.length_take] at htake
      show q'.msgRealSize a ≤ (q'.msg a).length
      rw [hstored.1]
      omega
    · show q'.msgRealSize a ≤ (q'.msg a).length
      rw [(hother a hne).1, (hother a hne).2]
      exact hreal a

namespace Accounts

variable {n : Nat} {c : Config}

/-- The nodes are all different. -/
theorem nodup (h : Accounts n L c) :
    (L true ++ L false ++ c.threads.flatMap Call.held).Nodup :=
  h.nodes.nodup_iff.mpr List.nodup_range

/-- A call finds what it needs. -/
theorem ready (h : Accounts n L c) (hi : c.threads[i]? = some l) : Ready c.shared.queue L l where
  lists := h.lists
  held a ha b hb := by
    -- what a call holds is in neither list
    have hmem : a ∈ c.threads.flatMap Call.held :=
      List.mem_flatMap.mpr ⟨l, List.mem_of_getElem? hi, ha⟩
    refine (List.nodup_append.mp h.nodup).2.2 a ?_ a hmem rfl
    cases b
    · exact List.mem_append_right _ hb
    · exact List.mem_append_left _ hb
  units b := by
    have hle := Interleaving.le_sum_map (Call.units b) hi
    have hsum := h.units b
    omega
  room := h.room
  realSize := h.realSize

/-- A balanced step keeps the accounts. -/
theorem step (h : Accounts n L c) (hi : c.threads[i]? = some l)
    (hbal : Balanced c.shared.queue L l w'.queue L' l')
    (heff : Effect i c.shared L l w' L' l') : Accounts n L' ⟨w', c.threads.set i l'⟩ := by
  have hroom := heff.room h.realSize
  refine ⟨hbal.lists, ?_, ?_, fun b => ?_, fun a => ?_, fun a => (hroom a).2⟩
  · have hset := Interleaving.flatMap_set_perm Call.held hi l'
    refine List.Perm.trans ((List.perm_append_left_iff l.held).mp ?_) h.nodes
    -- the call's nodes go with those of the lists
    calc
      (l.held ++ (L' true ++ L' false ++ (c.threads.set i l').flatMap Call.held)).Perm
          (L' true ++ L' false ++ (l.held ++ (c.threads.set i l').flatMap Call.held)) := by
        rw [← List.append_assoc, ← List.append_assoc (L' true ++ L' false)]
        exact List.perm_append_comm.append_right _
      List.Perm _ (L' true ++ L' false ++ (l'.held ++ c.threads.flatMap Call.held)) :=
        hset.append_left _
      List.Perm _ (L true ++ L false ++ l.held ++ c.threads.flatMap Call.held) := by
        rw [← List.append_assoc (L' true ++ L' false)]
        exact hbal.nodes.append_right _
      List.Perm _ (l.held ++ (L true ++ L false ++ c.threads.flatMap Call.held)) := by
        rw [← List.append_assoc l.held]
        exact List.perm_append_comm.append_right _
  · have hsum := Interleaving.sum_map_set Call.locked hi l'
    have hlock := hbal.lock
    have hone := h.lock
    show w'.queue.lockSemaphore + ((c.threads.set i l').map Call.locked).sum = 1
    omega
  · have hsum := Interleaving.sum_map_set (Call.units b) hi l'
    have hunits := hbal.units b
    have hlen := h.units b
    show w'.queue.semaphore b + ((c.threads.set i l').map (Call.units b)).sum = (L' b).length
    omega
  · show w'.queue.maxSizeOfMsg ≤ (w'.queue.msg a).length
    rw [hbal.size, (hroom a).1]
    exact h.room a

/-- A call that starts has nothing. -/
theorem start (h : Accounts n L c) (r : Request) :
    Accounts n L ⟨c.shared, c.threads ++ [r.call]⟩ := by
  have hheld : r.call.held = [] := by cases r <;> rfl
  have hlocked : r.call.locked = 0 := by cases r <;> rfl
  have hunits : ∀ b, r.call.units b = 0 := by intro b; cases r <;> cases b <;> rfl
  refine ⟨h.lists, ?_, ?_, fun b => ?_, h.room, h.realSize⟩
  · rw [List.flatMap_append, List.flatMap_singleton, hheld, List.append_nil]
    exact h.nodes
  · rw [List.map_append, List.sum_append, List.map_singleton, List.sum_singleton, hlocked]
    exact h.lock
  · rw [List.map_append, List.sum_append, List.map_singleton, List.sum_singleton, hunits]
    exact h.units b

end Accounts

variable {n size : Nat} {q : MsOSQueue}

/-- At the start all nodes are free. -/
theorem accounts_created (h : q.Created n size) :
    Accounts n (allFree n) ⟨⟨q, [], []⟩, []⟩ where
  lists := h.lists
  -- all nodes are free, none is used or held
  nodes := by
    show (List.range n ++ [] ++ []).Perm (List.range n)
    rw [List.append_nil, List.append_nil]
  lock := h.lock
  units b := by
    cases b
    · exact h.recv
    · exact h.send.trans List.length_range.symm
  room a := h.size ▸ h.room a
  realSize a := by
    show q.msgRealSize a ≤ _
    rw [h.realSize a]
    exact Nat.zero_le _

/-- The accounts hold after every schedule, and every schedule is defined. -/
theorem runCalls_accounts (h : q.Created n size) (es : Schedule) :
    ∃ c L, runCalls q es = some c ∧ Accounts n L c := by
  obtain ⟨c, hrun, L, hacc⟩ := @Interleaving.run_ok _ _ _ _ calls _ (fun c => ∃ L, Accounts n L c)
    (fun _ => True) (fun r c _ ⟨L, hc⟩ => ⟨L, hc.start r⟩)
    (fun i k c l ⟨L, hc⟩ hi => by
      obtain ⟨w', L', l', hturn, hbal, heff⟩ := turn_effect k (hc.ready hi)
      exact ⟨w', l', hturn, L', hc.step hi hbal heff⟩)
    es (fun _ _ => trivial) ⟨allFree n, accounts_created h⟩
  exact ⟨c, L, hrun, hacc⟩

/-- No call is in progress. -/
def Quiet (c : Config) : Prop := ∀ l ∈ c.threads, l.done = true

/-- Each node is in the free list, in the used list or with a call in progress; when no call is
in progress, the semaphores are the lengths of the lists. -/
def Accounted (n : Nat) (c : Config) : Prop :=
  ∃ free used, let q := c.shared.queue
    IsList q.prev q.next q.pFreeHead free ∧ IsList q.prev q.next q.pUsedHead used ∧
    (free ++ used ++ c.threads.flatMap Call.held).Perm (List.range n) ∧
    (Quiet c → q.sendSemaphore = free.length ∧ q.recvSemaphore = used.length)

/-- A call that returned owes nothing, unless its message was too long. -/
theorem units_of_done {l : Call} (h : l.done = true) (hrej : ∀ m, l ≠ .rejected m) (b : Bool) :
    l.units b = 0 := by
  cases l with
  | rejected m => exact absurd rfl (hrej m)
  | sent _ => cases b <;> rfl
  | received _ _ => cases b <;> rfl
  | failed => cases b <;> rfl
  | _ => exact absurd h (by simp [Call.done])

/-- The accounts close when no call in sight had a message that was too long. -/
theorem Accounts.accounted {c : Config} (h : Accounts n L c)
    (hrej : ∀ l ∈ c.threads, ∀ m, l ≠ .rejected m) : Accounted n c := by
  refine ⟨L true, L false, h.lists.isList true, h.lists.isList false, h.nodes, ?_⟩
  intro hquiet
  have hzero : ∀ b, (c.threads.map (Call.units b)).sum = 0 := by
    intro b
    refine List.sum_eq_zero fun u hu => ?_
    obtain ⟨l, hl, rfl⟩ := List.mem_map.mp hu
    exact units_of_done (hquiet l hl) (hrej l hl) b
  have htrue := h.units true
  have hfalse := h.units false
  rw [hzero, Nat.add_zero] at htrue hfalse
  exact ⟨htrue, hfalse⟩

/-- Once a message that was too long has been rejected and nothing else is under way, a free
node is not counted. -/
theorem Accounts.not_accounted {c : Config} {m : List UInt8} (h : Accounts n L c)
    (hc : c.threads = [.rejected m]) : ¬ Accounted n c := by
  rintro ⟨free, used, hfree, hused, hperm, hquiet⟩
  -- a rejected call is over
  have hdone : Quiet c := by
    rw [Quiet, hc]
    intro l hl
    rw [List.mem_singleton.mp hl]
    rfl
  obtain ⟨hsend, hrecv⟩ := hquiet hdone
  have htrue := h.units true
  have hfalse := h.units false
  have hlen := h.nodes.length_eq
  have hlen' := hperm.length_eq
  -- it has kept the unit it took, so the count is one short of the free nodes
  rw [hc] at htrue hfalse hlen hlen'
  simp only [List.length_append, List.length_range, List.map_cons, List.map_nil, List.sum_cons,
    List.sum_nil, List.flatMap_cons, List.flatMap_nil, Call.held, Call.units, List.length_nil,
    semaphore, if_true, Bool.false_eq_true, if_false] at htrue hfalse hlen hlen'
  omega

/-! ## Messages that fit -/

def Section.Fits (maxSize : Nat) : Section → Prop
  | .claim msg => msg.length ≤ maxSize
  | .putBack _ _ => False
  | _ => True

def After.Fits (maxSize : Nat) : After → Prop
  | .claimed msg _ => msg.length ≤ maxSize
  | .putBack _ => False
  | _ => True

/-- The message of a call is not too long, as far as it can still be rejected. -/
def Call.Fits (maxSize : Nat) : Call → Prop
  | .obtainSend msg _ => msg.length ≤ maxSize
  | .lock s => s.Fits maxSize
  | .list s => s.Fits maxSize
  | .unlock k => k.Fits maxSize
  | .copyIn msg _ => msg.length ≤ maxSize
  | .rejected _ => False
  | _ => True

/-- A message that fits is not rejected on the way. -/
theorem Effect.fits (h : Effect i w L l w' L' l') (hfits : l.Fits w.queue.maxSizeOfMsg) :
    l'.Fits w.queue.maxSizeOfMsg := by
  cases h with
  | copyIn _ _ _ => trivial
  | append _ _ _ => trivial
  | take _ _ _ => trivial
  | copyOut _ => trivial
  -- the length was tested before the copy
  | onward h _ _ _ =>
    cases h with
    | wait => exact hfits
    | obtainSend msg ms => exact hfits
    | lock s => exact hfits
    | claim msg a => exact hfits
    | putBack msg a => exact hfits
    | unlock k =>
      cases k with
      | claimed msg pNode => exact hfits
      | putBack msg => exact hfits
      | _ => trivial
    | tooLong msg a h => exact absurd (show msg.length ≤ _ from hfits) (by omega)
    | _ => trivial

/-- As long as no message is too long, the accounts close. -/
theorem accounted_of_fits (h : q.Created n size) {es : Schedule}
    (hes : ∀ msg ms, .start (.sendToQueue msg ms) ∈ es → msg.length ≤ size) :
    ∃ c, runCalls q es = some c ∧ Accounted n c := by
  -- the invariant: the accounts, the size, and calls that fit
  obtain ⟨c, hrun, ⟨L, hacc⟩, hsize, hfits⟩ := @Interleaving.run_ok _ _ _ _ calls _
    (fun c => (∃ L, Accounts n L c) ∧ c.shared.queue.maxSizeOfMsg = size ∧
      ∀ (j : Nat) (l : Call), c.threads[j]? = some l → l.Fits size)
    (fun r => r.call.Fits size)
    (fun r c hr ⟨⟨L, hc⟩, hsize, hfits⟩ => by
      refine ⟨⟨L, hc.start r⟩, hsize, ?_⟩
      intro j l hj
      rcases List.mem_append.mp (List.mem_of_getElem? hj) with hl | hl
      · obtain ⟨j', hj'⟩ := List.mem_iff_getElem?.mp hl
        exact hfits j' l hj'
      · rw [List.mem_singleton.mp hl]
        exact hr)
    (fun i k c l ⟨⟨L, hc⟩, hsize, hfits⟩ hi => by
      obtain ⟨w', L', l', hturn, hbal, heff⟩ := turn_effect k (hc.ready hi)
      refine ⟨w', l', hturn, ⟨L', hc.step hi hbal heff⟩, hbal.size.trans hsize, ?_⟩
      exact Interleaving.forall_set hfits (hsize ▸ heff.fits (hsize ▸ hfits i l hi)))
    es (fun r hr => by
      cases r with
      | sendToQueue msg ms => exact hes msg ms hr
      | recvFromQueue _ _ => trivial)
    ⟨⟨allFree n, accounts_created h⟩, h.size, fun j l hj => by simp at hj⟩
  refine ⟨c, hrun, hacc.accounted fun l hl m hrej => ?_⟩
  obtain ⟨j, hj⟩ := List.mem_iff_getElem?.mp hl
  rw [hrej] at hj
  exact hfits j _ hj

/-! ## A message that is too long -/

/-- One send, run alone to its end. -/
def sendAlone (msg : List UInt8) : Schedule :=
  .start (.sendToQueue msg waitForever) :: List.replicate 8 (.turn 0 .goOn)

/-- A call on its own goes its way. -/
theorem run_alone {w w' : World} {l l' : Call} (h : turn .goOn 0 w l = some (w', l'))
    (es : Schedule) :
    Interleaving.run calls (.turn 0 .goOn :: es) ⟨w, [l]⟩ =
      Interleaving.run calls es ⟨w', [l']⟩ := by
  have hexec : Interleaving.exec calls (.turn 0 .goOn) ⟨w, [l]⟩ = some ⟨w', [l']⟩ := by
    show (turn .goOn 0 w l).map _ = _
    rw [h]
    rfl
  rw [Interleaving.run, PartialRun.runAll, hexec]
  rfl

/-- A message that is too long is rejected. -/
theorem sendAlone_rejected (h : q.Created n size) (hn : 0 < n) {m : List UInt8}
    (hm : size < m.length) :
    ∃ c, runCalls q (sendAlone m) = some c ∧ c.threads = [.rejected m] := by
  let q₁ : MsOSQueue := { q with sendSemaphore := q.sendSemaphore - 1 }
  let q₂ : MsOSQueue := { q₁ with lockSemaphore := q₁.lockSemaphore - 1 }
  obtain ⟨as, hL⟩ : ∃ as, allFree n true = 0 :: as := by
    obtain ⟨k, rfl⟩ : ∃ k, n = k + 1 := ⟨n - 1, by omega⟩
    exact ⟨_, List.range_succ_eq_map⟩
  obtain ⟨q₃, hrem, hlists, hrel⟩ := @removeFromListHead_spec q₂ (allFree n) true 0
    ⟨h.lists.isList, h.lists.disjoint⟩ _ hL
  let q₄ : MsOSQueue := { q₃ with lockSemaphore := q₃.lockSemaphore + 1 }
  let q₅ : MsOSQueue := { q₄ with lockSemaphore := q₄.lockSemaphore - 1 }
  have hfresh : ∀ c, 0 ∉ Function.update (allFree n) true as c := by
    have hnd : (0 :: as).Nodup := hL ▸ List.nodup_range
    intro c
    cases c
    · exact List.not_mem_nil
    · exact (List.nodup_cons.mp hnd).1
  obtain ⟨q₆, hadd, -, -⟩ := @addToListTail_spec q₅ _ true 0
    ⟨hlists.isList, hlists.disjoint⟩ hfresh
  have hlock : q.lockSemaphore ≠ 0 := by rw [h.lock]; simp
  have hsend : q.sendSemaphore ≠ 0 := by rw [h.send]; omega
  have hsize : ¬ m.length ≤ q₃.maxSizeOfMsg := by
    have hq₃ : q₃.maxSizeOfMsg = size := hrel.size.trans h.size
    omega
  -- obtain the unit, take the node, find the message too long, put the node back
  have h₁ : turn .goOn 0 ⟨q, [], []⟩ (.obtainSend m waitForever) =
      some (⟨q₁, [], []⟩, .lock (.claim m)) := by
    rw [turn, if_neg (by simp), if_neg hsend]
  have h₂ : turn .goOn 0 ⟨q₁, [], []⟩ (.lock (.claim m)) =
      some (⟨q₂, [], []⟩, .list (.claim m)) := if_neg hlock
  have h₃ : turn .goOn 0 ⟨q₂, [], []⟩ (.list (.claim m)) =
      some (⟨q₃, [], []⟩, .unlock (.claimed m (some 0))) := by
    rw [turn, listStep, hrem]
  have h₄ : turn .goOn 0 ⟨q₃, [], []⟩ (.unlock (.claimed m (some 0))) =
      some (⟨q₄, [], []⟩, .copyIn m (some 0)) := rfl
  have h₅ : turn .goOn 0 ⟨q₄, [], []⟩ (.copyIn m (some 0)) =
      some (⟨q₄, [], []⟩, .lock (.putBack m 0)) := if_neg hsize
  have h₆ : turn .goOn 0 ⟨q₄, [], []⟩ (.lock (.putBack m 0)) =
      some (⟨q₅, [], []⟩, .list (.putBack m 0)) := by
    rw [turn, if_neg (show q₄.lockSemaphore ≠ 0 from Nat.succ_ne_zero _)]
  have h₇ : turn .goOn 0 ⟨q₅, [], []⟩ (.list (.putBack m 0)) =
      some (⟨q₆, [], []⟩, .unlock (.putBack m)) := by
    rw [turn, listStep, hadd]
    rfl
  have hrun : runCalls q (sendAlone m) =
      Interleaving.run calls (List.replicate 8 (.turn 0 .goOn))
        ⟨⟨q, [], []⟩, [.obtainSend m waitForever]⟩ := rfl
  rw [List.replicate_succ, run_alone h₁, List.replicate_succ, run_alone h₂, List.replicate_succ,
    run_alone h₃, List.replicate_succ, run_alone h₄, List.replicate_succ, run_alone h₅,
    List.replicate_succ, run_alone h₆, List.replicate_succ, run_alone h₇] at hrun
  exact ⟨_, hrun, rfl⟩

/-- Then a free node is not counted. -/
theorem sendAlone_not_accounted (h : q.Created n size) (hn : 0 < n) {m : List UInt8}
    (hm : size < m.length) :
    ∃ c, runCalls q (sendAlone m) = some c ∧ ¬ Accounted n c := by
  obtain ⟨c, hrun, hthreads⟩ := sendAlone_rejected h hn hm
  obtain ⟨c', L, hrun', hacc⟩ := runCalls_accounts h (sendAlone m)
  obtain rfl : c' = c := Option.some.inj (hrun'.symm.trans hrun)
  exact ⟨c', hrun, hacc.not_accounted hthreads⟩

/-- The accounts close after every schedule if and only if no message that may be sent is longer
than the queue's maximum: such a message leaves a free node that `sendSemaphore` does not
count. -/
theorem accounted_iff (h : msOSCreateQueue n size = some q) (MaySend : List UInt8 → Prop) :
    (∀ es : Schedule, (∀ msg ms, .start (.sendToQueue msg ms) ∈ es → MaySend msg) →
      ∃ c, runCalls q es = some c ∧ Accounted n c) ↔
    ∀ msg, MaySend msg → msg.length ≤ size := by
  have hcr := created_of_create h
  constructor
  · intro hall m hm
    by_contra hlong
    have hn : 0 < n := by
      rw [msOSCreateQueue] at h
      split_ifs at h with hzero
      omega
    -- a longer one, sent alone, is rejected and leaves its node
    obtain ⟨c, hrun, hnot⟩ := sendAlone_not_accounted hcr hn (Nat.lt_of_not_le hlong)
    obtain ⟨c', hrun', hacc⟩ := hall (sendAlone m) fun msg ms hmem => by
      rcases List.mem_cons.mp hmem with heq | hmem
      · injection heq with heq
        injection heq with heq
        exact heq ▸ hm
      · exact absurd (List.eq_of_mem_replicate hmem) (by simp)
    obtain rfl : c' = c := Option.some.inj (hrun'.symm.trans hrun)
    exact hnot hacc
  · intro hfit es hes
    exact accounted_of_fits hcr fun msg ms hmem => hfit msg (hes msg ms hmem)

/-- The queue of an event group: all its messages have 24 bytes. -/
theorem accounted_iff_eventQueue :
    ∃ q, msOSCreateQueue 32 24 = some q ∧
      ∀ es : Schedule, (∀ msg ms, .start (.sendToQueue msg ms) ∈ es → msg.length = 24) →
        ∃ c, runCalls q es = some c ∧ Accounted 32 c := by
  obtain ⟨q, hq⟩ := @exists_create 32 24 (by decide) (by decide) (by decide)
  exact ⟨q, hq, (accounted_iff hq fun msg => msg.length = 24).mpr fun msg hmsg => Nat.le_of_eq hmsg⟩

/-- One node of four bytes, one message of five. -/
theorem fiveBytes_not_accounted :
    ∃ q c, msOSCreateQueue 1 4 = some q ∧ runCalls q (sendAlone [1, 2, 3, 4, 5]) = some c ∧
      ¬ Accounted 1 c := by
  obtain ⟨q, hq⟩ := @exists_create 1 4 (by decide) (by decide) (by decide)
  obtain ⟨c, hrun, hnot⟩ :=
    @sendAlone_not_accounted 1 4 q (created_of_create hq) (by decide) [1, 2, 3, 4, 5] (by decide)
  exact ⟨q, c, hq, hrun, hnot⟩

end PgClient.Pgos
