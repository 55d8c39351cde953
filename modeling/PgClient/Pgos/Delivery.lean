import PgClient.Lib.KeyedList
import PgClient.Pgos.Accounting

/-!
# The messages of the message queue

The record of a schedule has the messages in the order in which they were appended to the used
list, and the calls in the order in which they took a node from it. Message for message the
second list follows the first one.

* `Flow` — the record, the used list and the calls belong together.
* `runCalls_delivered` — the messages of every schedule.
-/

namespace PgClient.Pgos

open HalfCircular (IsList)
open MsOSQueue (allFree)

/-! ## What a call has to do with the record -/

def Section.carries : Section → Option (Nat × List UInt8)
  | .append msg pNode => some (pNode, msg)
  | _ => none

/-- A message is carried in a node that the section holds. -/
theorem Section.carries_mem {s : Section} {a : Nat} {msg : List UInt8}
    (h : s.carries = some (a, msg)) : a ∈ s.held := by
  cases s with
  | append msg' pNode =>
    obtain ⟨rfl, -⟩ := Prod.mk.inj (Option.some.inj h)
    exact List.mem_cons_self
  | _ => simp [Section.carries] at h

namespace Call

/-- The message that a call has copied and not appended yet, and its node. -/
def carries : Call → Option (Nat × List UInt8)
  | .lock s => s.carries
  | .list s => s.carries
  | _ => none

/-- The message that a call has appended. -/
def appended : Call → Option (List UInt8)
  | .unlock (.appended msg) => some msg
  | .releaseRecv msg => some msg
  | .sent msg => some msg
  | _ => none

/-- The node that a call has taken and not read yet. -/
def toRead : Call → Option Nat
  | .unlock (.taken _ pNode) => pNode
  | .copyOut _ pNode => pNode
  | _ => none

/-- What a call has read, and how much it wanted. -/
def read : Call → Option (Nat × Received)
  | .lock (.free u32IntendedSize out _) => some (u32IntendedSize, out)
  | .list (.free u32IntendedSize out _) => some (u32IntendedSize, out)
  | .unlock (.freed u32IntendedSize out) => some (u32IntendedSize, out)
  | .releaseSend u32IntendedSize out => some (u32IntendedSize, out)
  | .received u32IntendedSize out => some (u32IntendedSize, out)
  | _ => none

/-- A call took a node from the used list. -/
def hasTaken (l : Call) : Bool := l.toRead.isSome || l.read.isSome

/-- So it is in the rest of a call. -/
theorem carries_mem {l : Call} {a : Nat} {msg : List UInt8} (h : l.carries = some (a, msg)) :
    a ∈ l.held := by
  cases l with
  | lock s => exact Section.carries_mem h
  | list s => exact Section.carries_mem h
  | _ => simp [carries] at h

/-- A node that is to be read is held, too. -/
theorem toRead_mem {l : Call} {a : Nat} (h : l.toRead = some a) : a ∈ l.held := by
  cases l with
  | unlock k =>
    cases k with
    | taken size pNode => exact Option.mem_toList.mpr h
    | _ => simp [toRead] at h
  | copyOut size pNode => exact Option.mem_toList.mpr h
  | _ => simp [toRead] at h

end Call

/-- A step onward changes nothing of this. -/
theorem Onward.same {maxSize : Nat} {l l' : Call} (h : Onward maxSize l l') :
    l'.carries = l.carries ∧ l'.appended = l.appended ∧ l'.toRead = l.toRead ∧
      l'.read = l.read := by
  cases h with
  | unlock k => cases k <;> exact ⟨rfl, rfl, rfl, rfl⟩
  | lock s => cases s <;> exact ⟨rfl, rfl, rfl, rfl⟩
  | _ => exact ⟨rfl, rfl, rfl, rfl⟩

/-- The message at the place of the record where call `j` is. -/
def Took (w : World) (j : Nat) (msg : List UInt8) : Prop :=
  ∃ k i : Nat, w.taken[k]? = some j ∧ w.appended[k]? = some (i, msg)

/-- Call `i` and the record. -/
structure Recorded (i : Nat) (w : World) (l : Call) : Prop where
  appended : ∀ msg, (i, msg) ∈ w.appended ↔ l.appended = some msg
  taken : i ∈ w.taken ↔ l.hasTaken = true
  carries : ∀ a msg, l.carries = some (a, msg) → Stored w.queue a msg
  toRead : ∀ a, l.toRead = some a → ∃ msg, Took w i msg ∧ Stored w.queue a msg
  read : ∀ size out, l.read = some (size, out) →
    ∃ msg, Took w i msg ∧ out = ⟨msg.take size, min msg.length size⟩

/-- The record, the used list and the calls. -/
structure Flow (L : Bool → List Nat) (c : Config) : Prop where
  appendedLt : ∀ e ∈ c.shared.appended, e.1 < c.threads.length
  takenLt : ∀ j ∈ c.shared.taken, j < c.threads.length
  appendedOnce : (c.shared.appended.map Prod.fst).Nodup
  takenOnce : c.shared.taken.Nodup
  waiting : c.shared.taken.length + (L false).length = c.shared.appended.length
  stored : ∀ (k a : Nat), (L false)[k]? = some a →
    ∃ e, c.shared.appended[c.shared.taken.length + k]? = some e ∧ Stored c.shared.queue a e.2
  calls : ∀ (j : Nat) (l : Call), c.threads[j]? = some l → Recorded j c.shared l

/-! ## One step -/

variable {w w' : World} {L L' : Bool → List Nat} {l l' : Call} {i j n : Nat} {c : Config}
  {msg : List UInt8}

/-- What was taken stays so while the records grow. -/
theorem Took.mono (h : Took w j msg) (htaken : w.taken <+: w'.taken)
    (happended : w.appended <+: w'.appended) : Took w' j msg := by
  obtain ⟨k, i, hj, hi⟩ := h
  obtain ⟨hk, rfl⟩ := List.getElem?_eq_some_iff.mp hj
  obtain ⟨hk', heq⟩ := List.getElem?_eq_some_iff.mp hi
  exact ⟨k, i, List.prefix_iff_getElem?.mp htaken k hk,
    heq ▸ List.prefix_iff_getElem?.mp happended k hk'⟩

/-- A call that takes no step keeps its part of the record while others add to it and write to
other nodes. -/
theorem Recorded.mono (h : Recorded j w l) (htaken : w.taken <+: w'.taken)
    (happended : w.appended <+: w'.appended) (hj : j ∈ w'.taken ↔ j ∈ w.taken)
    (hj' : ∀ msg, (j, msg) ∈ w'.appended ↔ (j, msg) ∈ w.appended)
    (hnode : ∀ a ∈ l.held, ∀ msg, Stored w.queue a msg → Stored w'.queue a msg) :
    Recorded j w' l where
  appended msg := (hj' msg).trans (h.appended msg)
  taken := hj.trans h.taken
  carries a msg hl := hnode a (Call.carries_mem hl) msg (h.carries a msg hl)
  toRead a hl := by
    -- what was taken before stays taken
    obtain ⟨msg, htook, hstored⟩ := h.toRead a hl
    exact ⟨msg, htook.mono htaken happended, hnode a (Call.toRead_mem hl) msg hstored⟩
  read size out hl := by
    obtain ⟨msg, htook, hout⟩ := h.read size out hl
    exact ⟨msg, htook.mono htaken happended, hout⟩

namespace Flow

/-- The nodes of different calls are different. -/
theorem held_ne (hacc : Accounts n L c) (hi : c.threads[i]? = some l) {l₂ : Call}
    (hj : c.threads[j]? = some l₂) (hne : i ≠ j) {a b : Nat} (ha : a ∈ l.held)
    (hb : b ∈ l₂.held) : b ≠ a := by
  have hnd := (List.nodup_append.mp hacc.nodup).2.1
  rw [List.nodup_flatMap] at hnd
  obtain ⟨hil, rfl⟩ := List.getElem?_eq_some_iff.mp hi
  obtain ⟨hjl, rfl⟩ := List.getElem?_eq_some_iff.mp hj
  rintro rfl
  rcases Nat.lt_or_gt_of_ne hne with hlt | hlt
  · exact List.pairwise_iff_getElem.mp hnd.2 i j hil hjl hlt ha hb
  · exact List.pairwise_iff_getElem.mp hnd.2 j i hjl hil hlt hb ha

/-- A step that leaves the record and the used list as they are. -/
theorem keep (hflow : Flow L c) (happended : w'.appended = c.shared.appended)
    (htaken : w'.taken = c.shared.taken) (hused : L' false = L false)
    (hlist : ∀ a ∈ L false, ∀ msg, Stored c.shared.queue a msg → Stored w'.queue a msg)
    (hother : ∀ j l₂, i ≠ j → c.threads[j]? = some l₂ →
      ∀ a ∈ l₂.held, ∀ msg, Stored c.shared.queue a msg → Stored w'.queue a msg)
    (hself : Recorded i w' l') : Flow L' ⟨w', c.threads.set i l'⟩ where
  appendedLt e he := by
    rw [List.length_set]
    exact hflow.appendedLt e (happended ▸ he)
  takenLt j hj := by
    rw [List.length_set]
    exact hflow.takenLt j (htaken ▸ hj)
  appendedOnce := happended ▸ hflow.appendedOnce
  takenOnce := htaken ▸ hflow.takenOnce
  waiting := by
    show w'.taken.length + (L' false).length = w'.appended.length
    rw [happended, htaken, hused]
    exact hflow.waiting
  stored k a hk := by
    rw [hused] at hk
    obtain ⟨e, he, hstored⟩ := hflow.stored k a hk
    refine ⟨e, ?_, hlist a (List.mem_of_getElem? hk) e.2 hstored⟩
    show w'.appended[w'.taken.length + k]? = some e
    rw [happended, htaken]
    exact he
  calls j l₂ hj := by
    -- the thread that stepped has its own record; the others keep theirs
    rcases eq_or_ne i j with rfl | hne
    · rw [List.getElem?_set_self'] at hj
      obtain ⟨_, -, rfl⟩ := Option.map_eq_some_iff.mp hj
      exact hself
    · rw [List.getElem?_set_ne hne] at hj
      exact (hflow.calls j l₂ hj).mono (htaken ▸ List.prefix_refl _)
        (happended ▸ List.prefix_refl _) (by rw [htaken]) (fun msg => by rw [happended]) (hother j l₂ hne hj)

/-- A message goes to the end of the used list. -/
theorem append (hflow : Flow L c) {a : Nat} (hi : c.threads[i]? = some (.list (.append msg a)))
    {q' : MsOSQueue} (hmsg : q'.msg = c.shared.queue.msg)
    (hsize : q'.msgRealSize = c.shared.queue.msgRealSize) (hused : L' false = L false ++ [a]) :
    Flow L' ⟨⟨q', c.shared.appended ++ [(i, msg)], c.shared.taken⟩,
      c.threads.set i (.unlock (.appended msg))⟩ := by
  have hrec := hflow.calls i _ hi
  have hilt : i < c.threads.length := (List.getElem?_eq_some_iff.mp hi).1
  have hstored : ∀ b m, Stored c.shared.queue b m → Stored q' b m :=
    fun b m h => h.congr (by rw [hsize]) (by rw [hmsg])
  -- thread `i` is still at the append, so none of its messages is recorded
  have hnew : ∀ m, (i, m) ∉ c.shared.appended := fun m hm =>
    absurd ((hrec.appended m).mp hm) (by simp [Call.appended])
  refine ⟨fun e he => ?_, fun j hj => ?_, ?_, hflow.takenOnce, ?_, fun k b hk => ?_,
    fun j l₂ hj => ?_⟩
  · rw [List.length_set]
    rcases List.mem_append.mp he with he | he
    · exact hflow.appendedLt e he
    · rw [List.mem_singleton.mp he]
      exact hilt
  · rw [List.length_set]
    exact hflow.takenLt j hj
  · rw [List.map_append, List.nodup_append]
    refine ⟨hflow.appendedOnce, List.nodup_singleton _, ?_⟩
    intro x hx y hy hxy
    obtain ⟨e, he, rfl⟩ := List.mem_map.mp hx
    rw [List.mem_singleton.mp hy] at hxy
    exact hnew e.2 ((Prod.ext hxy rfl : e = (i, e.2)) ▸ he)
  · rw [hused, List.length_append, List.length_append, List.length_singleton]
    have hwait := hflow.waiting
    simp only [List.length_singleton]
    omega
  · rw [hused] at hk
    -- a place before the new one, the new one, and one past the end of the used list
    rcases Nat.lt_trichotomy k (L false).length with hlt | heq | hgt
    · rw [List.getElem?_append_left hlt] at hk
      obtain ⟨e, he, hst⟩ := hflow.stored k b hk
      refine ⟨e, ?_, hstored b e.2 hst⟩
      have hwait := hflow.waiting
      show (c.shared.appended ++ [(i, msg)])[c.shared.taken.length + k]? = some e
      rw [List.getElem?_append_left (by omega)]
      exact he
    · subst heq
      rw [List.getElem?_concat_length] at hk
      obtain rfl := Option.some.inj hk
      refine ⟨(i, msg), ?_, hstored a msg (hrec.carries a msg rfl)⟩
      show (c.shared.appended ++ [(i, msg)])[c.shared.taken.length + (L false).length]? = _
      rw [hflow.waiting, List.getElem?_concat_length]
    · rw [List.getElem?_eq_none (by simp; omega)] at hk
      exact absurd hk (by simp)
  -- thread `i` has its message recorded now; no pair of another thread was added
  · rcases eq_or_ne i j with rfl | hne
    · rw [List.getElem?_set_self'] at hj
      obtain ⟨_, -, rfl⟩ := Option.map_eq_some_iff.mp hj
      refine ⟨fun m => ?_, hrec.taken, fun _ _ h => absurd h (by simp [Call.carries]),
        fun _ h => absurd h (by simp [Call.toRead]), fun _ _ h => absurd h (by simp [Call.read])⟩
      rw [List.mem_append, List.mem_singleton]
      constructor
      · rintro (hm | hm)
        · exact absurd hm (hnew m)
        · rw [(Prod.mk.inj hm).2]
          rfl
      · intro hm
        exact .inr (by rw [Option.some.inj hm])
    · rw [List.getElem?_set_ne hne] at hj
      refine (hflow.calls j l₂ hj).mono (List.prefix_refl _) (List.prefix_append _ _) Iff.rfl
        (fun m => ?_) (fun b _ m => hstored b m)
      rw [List.mem_append, List.mem_singleton]
      exact or_iff_left fun h => hne (Prod.mk.inj h).1.symm

/-- The first waiting message is taken. -/
theorem take (hflow : Flow L c) {size a : Nat} (hi : c.threads[i]? = some (.list (.take size)))
    {q' : MsOSQueue} (hmsg : q'.msg = c.shared.queue.msg)
    (hsize : q'.msgRealSize = c.shared.queue.msgRealSize) (hused : L false = a :: L' false) :
    Flow L' ⟨⟨q', c.shared.appended, c.shared.taken ++ [i]⟩,
      c.threads.set i (.unlock (.taken size (some a)))⟩ := by
  have hrec := hflow.calls i _ hi
  have hilt : i < c.threads.length := (List.getElem?_eq_some_iff.mp hi).1
  have hstored : ∀ b m, Stored c.shared.queue b m → Stored q' b m :=
    fun b m h => h.congr (by rw [hsize]) (by rw [hmsg])
  have hnew : i ∉ c.shared.taken := fun h => absurd (hrec.taken.mp h) Bool.false_ne_true
  have hwait := hflow.waiting
  rw [hused, List.length_cons] at hwait
  refine ⟨fun e he => ?_, fun j hj => ?_, hflow.appendedOnce, ?_, ?_, fun k b hk => ?_,
    fun j l₂ hj => ?_⟩
  · rw [List.length_set]
    exact hflow.appendedLt e he
  · rw [List.length_set]
    rcases List.mem_append.mp hj with hj | hj
    · exact hflow.takenLt j hj
    · rw [List.mem_singleton.mp hj]
      exact hilt
  · rw [List.nodup_append]
    refine ⟨hflow.takenOnce, List.nodup_singleton _, ?_⟩
    intro x hx y hy hxy
    obtain rfl := List.mem_singleton.mp hy
    exact hnew (hxy ▸ hx)
  · rw [List.length_append, List.length_singleton]
    show c.shared.taken.length + 1 + (L' false).length = c.shared.appended.length
    omega
  · -- the waiting messages move up by one place
    obtain ⟨e, he, hst⟩ := hflow.stored (k + 1) b (by rw [hused]; exact hk)
    refine ⟨e, ?_, hstored b e.2 hst⟩
    show c.shared.appended[(c.shared.taken ++ [i]).length + k]? = some e
    rw [List.length_append, List.length_singleton, Nat.add_assoc, Nat.add_comm 1 k]
    exact he
  · rcases eq_or_ne i j with rfl | hne
    · rw [List.getElem?_set_self'] at hj
      obtain ⟨_, -, rfl⟩ := Option.map_eq_some_iff.mp hj
      refine ⟨hrec.appended, ?_, fun _ _ h => absurd h (by simp [Call.carries]),
        fun b hb => ?_, fun _ _ h => absurd h (by simp [Call.read])⟩
      · exact iff_of_true (List.mem_append_right _ List.mem_cons_self) rfl
      · obtain rfl : a = b := Option.some.inj hb
        obtain ⟨⟨i', m⟩, he, hst⟩ := hflow.stored 0 a (by rw [hused]; rfl)
        exact ⟨m, ⟨_, i', List.getElem?_concat_length, he⟩, hstored a m hst⟩
    · rw [List.getElem?_set_ne hne] at hj
      refine (hflow.calls j l₂ hj).mono (List.prefix_append _ _) (List.prefix_refl _) ?_
        (fun _ => Iff.rfl) (fun b _ m => hstored b m)
      rw [List.mem_append, List.mem_singleton]
      exact or_iff_left hne.symm

/-- Call `i` takes a step. -/
theorem step (hflow : Flow L c) (hacc : Accounts n L c) (hi : c.threads[i]? = some l)
    (heff : Effect i c.shared L l w' L' l') : Flow L' ⟨w', c.threads.set i l'⟩ := by
  have hrec := hflow.calls i l hi
  cases heff with
  | @onward _ _ q' _ h hmsg hsize hused =>
    have hstored : ∀ b m, Stored c.shared.queue b m → Stored q' b m :=
      fun b m h => h.congr (by rw [hsize]) (by rw [hmsg])
    obtain ⟨hcarries, happended, htoRead, hread⟩ := h.same
    refine hflow.keep rfl rfl hused (fun a _ => hstored a) (fun _ _ _ _ a _ => hstored a) ?_
    refine ⟨fun m => ?_, ?_, fun a m ha => ?_, fun a ha => ?_, fun size out hout => ?_⟩
    · rw [happended]
      exact hrec.appended m
    · rw [Call.hasTaken, htoRead, hread]
      exact hrec.taken
    · exact hstored a m (hrec.carries a m (hcarries ▸ ha))
    · obtain ⟨m, htook, hst⟩ := hrec.toRead a (htoRead ▸ ha)
      exact ⟨m, htook, hstored a m hst⟩
    · exact hrec.read size out (hread ▸ hout)
  | @copyIn m a q' hst hsame hlength =>
    -- the node written is the one that the call claimed
    have hmem : a ∈ (Call.copyIn m (some a)).held := List.mem_cons_self
    have hstored : ∀ b, b ≠ a → ∀ m', Stored c.shared.queue b m' → Stored q' b m' :=
      fun b hb m' h => h.congr (hsame b hb).1 (hsame b hb).2
    refine hflow.keep rfl rfl rfl (fun b hb => hstored b ?_)
      (fun j l₂ hne hj b hb => hstored b (held_ne hacc hi hj hne hmem hb)) ?_
    · rintro rfl
      exact (hacc.ready hi).held b hmem false hb
    · refine ⟨hrec.appended, hrec.taken, fun b m' hb => ?_,
        fun _ h => absurd h (by simp [Call.toRead]), fun _ _ h => absurd h (by simp [Call.read])⟩
      obtain ⟨rfl, rfl⟩ := Prod.mk.inj (Option.some.inj hb)
      exact hst
  | append hmsg hsize hused => exact hflow.append hi hmsg hsize hused
  | take hmsg hsize hused => exact hflow.take hi hmsg hsize hused
  | @copyOut size a out hout =>
    refine hflow.keep rfl rfl rfl (fun _ _ _ h => h) (fun _ _ _ _ _ _ _ h => h) ?_
    obtain ⟨m, htook, hst⟩ := hrec.toRead a rfl
    refine ⟨hrec.appended, hrec.taken,
      fun _ _ h => absurd h (by simp [Call.carries, Section.carries]),
      fun _ h => absurd h (by simp [Call.toRead]), fun size' out' h => ?_⟩
    obtain ⟨rfl, rfl⟩ := Prod.mk.inj (Option.some.inj h)
    exact ⟨m, htook, Option.some.inj (hout.symm.trans (hst.deliver size))⟩

/-- A call that starts is not in the record. -/
theorem start (hflow : Flow L c) (r : Request) : Flow L ⟨c.shared, c.threads ++ [r.call]⟩ := by
  have hcall : r.call.appended = none ∧ r.call.carries = none ∧ r.call.toRead = none ∧
      r.call.read = none := by
    cases r <;> exact ⟨rfl, rfl, rfl, rfl⟩
  obtain ⟨happended, hcarries, htoRead, hread⟩ := hcall
  refine ⟨fun e he => ?_, fun j hj => ?_, hflow.appendedOnce, hflow.takenOnce, hflow.waiting,
    hflow.stored, Interleaving.forall_append hflow.calls ?_⟩
  · rw [List.length_append]
    exact Nat.lt_add_right _ (hflow.appendedLt e he)
  · rw [List.length_append]
    exact Nat.lt_add_right _ (hflow.takenLt j hj)
  · -- the record has nothing of a call that starts
    refine ⟨fun m => ?_, ?_, fun _ _ h => absurd h (by simp [hcarries]),
      fun _ h => absurd h (by simp [htoRead]), fun _ _ h => absurd h (by simp [hread])⟩
    · rw [happended]
      exact iff_of_false (fun h => Nat.lt_irrefl _ (hflow.appendedLt _ h)) (by simp)
    · rw [Call.hasTaken, htoRead, hread]
      exact iff_of_false (fun h => Nat.lt_irrefl _ (hflow.takenLt _ h)) (by simp)

end Flow

/-! ## Every schedule -/

variable {size : Nat} {q : MsOSQueue}

/-- At the start nothing has been appended and nothing taken. -/
theorem flow_created (q : MsOSQueue) (n : Nat) : Flow (allFree n) ⟨⟨q, [], []⟩, []⟩ where
  appendedLt _ he := absurd he List.not_mem_nil
  takenLt _ hj := absurd hj List.not_mem_nil
  appendedOnce := List.nodup_nil
  takenOnce := List.nodup_nil
  waiting := rfl
  stored k a hk := absurd hk (by simp [allFree])
  calls j l hj := absurd hj (by simp)

/-- **The record of a run is in order**: along any schedule. -/
theorem runCalls_flow (h : q.Created n size) (es : Schedule) :
    ∃ c L, runCalls q es = some c ∧ Accounts n L c ∧ Flow L c := by
  obtain ⟨c, hrun, L, hacc, hflow⟩ := @Interleaving.run_ok _ _ _ _ calls _
    (fun c => ∃ L, Accounts n L c ∧ Flow L c) (fun _ => True)
    (fun r c _ ⟨L, hacc, hflow⟩ => ⟨L, hacc.start r, hflow.start r⟩)
    (fun i k c l ⟨L, hacc, hflow⟩ hi => by
      obtain ⟨w', L', l', hturn, hbal, heff⟩ := turn_effect k (hacc.ready hi)
      exact ⟨w', l', hturn, L', hacc.step hi hbal heff, hflow.step hacc hi heff⟩)
    es (fun _ _ => trivial)
    ⟨allFree n, accounts_created h, flow_created q n⟩
  exact ⟨c, L, hrun, hacc, hflow⟩

/-! ## The requests -/

namespace Section

def message : Section → Option (List UInt8)
  | .claim msg => some msg
  | .append msg _ => some msg
  | .putBack msg _ => some msg
  | _ => none

def intendedSize : Section → Option Nat
  | .take u32IntendedSize => some u32IntendedSize
  | .free u32IntendedSize _ _ => some u32IntendedSize
  | _ => none

end Section

namespace Call

/-- The message that a call was made with. -/
def message : Call → Option (List UInt8)
  | .obtainSend msg _ => some msg
  | .lock s => s.message
  | .list s => s.message
  | .unlock (.claimed msg _) => some msg
  | .unlock (.appended msg) => some msg
  | .unlock (.putBack msg) => some msg
  | .copyIn msg _ => some msg
  | .releaseRecv msg => some msg
  | .sent msg => some msg
  | .rejected msg => some msg
  | _ => none

/-- The size that a call was made with. -/
def intendedSize : Call → Option Nat
  | .obtainRecv u32IntendedSize _ => some u32IntendedSize
  | .lock s => s.intendedSize
  | .list s => s.intendedSize
  | .unlock (.taken u32IntendedSize _) => some u32IntendedSize
  | .unlock (.freed u32IntendedSize _) => some u32IntendedSize
  | .copyOut u32IntendedSize _ => some u32IntendedSize
  | .releaseSend u32IntendedSize _ => some u32IntendedSize
  | .received u32IntendedSize _ => some u32IntendedSize
  | _ => none

/-- A call that waits at its first semaphore, or that has returned. -/
def outside : Call → Bool
  | .obtainSend _ _ => true
  | .obtainRecv _ _ => true
  | l => l.done

/-- A call was made with the arguments of `r`. -/
def Serves (r : Request) (l : Call) : Prop :=
  (∀ m, l.message = some m → ∃ ms, r = .sendToQueue m ms) ∧
    ∀ s, l.intendedSize = some s → ∃ ms, r = .recvFromQueue s ms

end Call

/-- What a call has appended is its message. -/
theorem Call.message_of_appended {m : List UInt8} (h : l.appended = some m) :
    l.message = some m := by
  cases l with
  | unlock k =>
    cases k with
    | appended _ => exact h
    | _ => simp [Call.appended] at h
  | releaseRecv _ => exact h
  | sent _ => exact h
  | _ => simp [Call.appended] at h

/-- A call that has taken a node and is done has received what was in it. -/
theorem Call.received_of_done (h : l.done = true) (htaken : l.hasTaken = true) :
    ∃ size out, l = .received size out := by
  cases l with
  | received size out => exact ⟨size, out, rfl⟩
  | sent _ => exact absurd htaken Bool.false_ne_true
  | rejected _ => exact absurd htaken Bool.false_ne_true
  | failed => exact absurd htaken Bool.false_ne_true
  | _ => exact absurd h Bool.false_ne_true

/-- A call that is outside has no unit of the other semaphore. -/
theorem Call.recvUnits_of_outside (h : l.outside = true) : l.units false = 0 := by
  cases l with
  | lock _ => exact absurd h Bool.false_ne_true
  | list _ => exact absurd h Bool.false_ne_true
  | unlock _ => exact absurd h Bool.false_ne_true
  | releaseRecv _ => exact absurd h Bool.false_ne_true
  | _ => rfl

/-- A step keeps the arguments of its call, or forgets them. -/
theorem turn_args {k : Choice} (h : turn k i w l = some (w', l')) :
    (l'.message = l.message ∨ l'.message = none) ∧
      (l'.intendedSize = l.intendedSize ∨ l'.intendedSize = none) := by
  cases l with
  | obtainSend m ms =>
    rw [turn] at h
    split_ifs at h <;> obtain ⟨-, rfl⟩ := Prod.mk.inj (Option.some.inj h)
    -- no unit within the time: the call returns, and its arguments go
    · exact ⟨.inr rfl, .inr rfl⟩
    · exact ⟨.inl rfl, .inl rfl⟩
    · exact ⟨.inl rfl, .inl rfl⟩
  | obtainRecv s ms =>
    rw [turn] at h
    split_ifs at h <;> obtain ⟨-, rfl⟩ := Prod.mk.inj (Option.some.inj h)
    · exact ⟨.inr rfl, .inr rfl⟩
    · exact ⟨.inl rfl, .inl rfl⟩
    · exact ⟨.inl rfl, .inl rfl⟩
  | lock s =>
    rw [turn] at h
    split_ifs at h <;> obtain ⟨-, rfl⟩ := Prod.mk.inj (Option.some.inj h) <;>
      exact ⟨.inl rfl, .inl rfl⟩
  | list s =>
    cases s with
    | claim m =>
      obtain ⟨-, rfl⟩ := Prod.mk.inj (Option.some.inj h)
      exact ⟨.inl rfl, .inl rfl⟩
    | take s =>
      obtain ⟨-, rfl⟩ := Prod.mk.inj (Option.some.inj h)
      exact ⟨.inl rfl, .inl rfl⟩
    | _ =>
      obtain ⟨q, -, heq⟩ := Option.map_eq_some_iff.mp h
      obtain ⟨-, rfl⟩ := Prod.mk.inj heq
      exact ⟨.inl rfl, .inl rfl⟩
  | unlock k =>
    obtain ⟨-, rfl⟩ := Prod.mk.inj (Option.some.inj h)
    cases k <;> exact ⟨.inl rfl, .inl rfl⟩
  | copyIn m pNode =>
    cases pNode with
    -- no node was free
    | none =>
      obtain ⟨-, rfl⟩ := Prod.mk.inj (Option.some.inj h)
      exact ⟨.inr rfl, .inr rfl⟩
    | some a =>
      rw [turn] at h
      -- the copy is made only when the message fits the node
      split_ifs at h
      · obtain ⟨q, -, heq⟩ := Option.map_eq_some_iff.mp h
        obtain ⟨-, rfl⟩ := Prod.mk.inj heq
        exact ⟨.inl rfl, .inl rfl⟩
      · obtain ⟨-, rfl⟩ := Prod.mk.inj (Option.some.inj h)
        exact ⟨.inl rfl, .inl rfl⟩
  | copyOut s pNode =>
    cases pNode with
    | none =>
      obtain ⟨-, rfl⟩ := Prod.mk.inj (Option.some.inj h)
      exact ⟨.inr rfl, .inr rfl⟩
    | some a =>
      obtain ⟨out, -, heq⟩ := Option.map_eq_some_iff.mp h
      obtain ⟨-, rfl⟩ := Prod.mk.inj heq
      exact ⟨.inl rfl, .inl rfl⟩
  | _ =>
    obtain ⟨-, rfl⟩ := Prod.mk.inj (Option.some.inj h)
    exact ⟨.inl rfl, .inl rfl⟩

/-- Call `i` was made with the arguments of request `i`. -/
theorem runCalls_serves {es : Schedule} (h : runCalls q es = some c) :
    List.Forall₂ Call.Serves (Interleaving.starts es) c.threads := by
  refine Interleaving.run_starts (S := calls) (fun r => ?_) ?_ .nil h
  · cases r with
    | sendToQueue m ms =>
      exact ⟨fun m' hm => ⟨ms, by rw [Option.some.inj hm]⟩, fun s hs => by cases hs⟩
    | recvFromQueue s ms =>
      exact ⟨fun m hm => (by cases hm), fun s' hs => ⟨ms, by rw [Option.some.inj hs]⟩⟩
  · intro r k i w l w' l' hserves hturn
    -- a turn keeps the arguments, or drops them when it is done with them
    obtain ⟨hmsg | hmsg, hsize | hsize⟩ := turn_args hturn <;>
      refine ⟨fun m hm => ?_, fun s hs => ?_⟩
    all_goals first
      | exact hserves.1 m (hmsg ▸ hm)
      | exact hserves.2 s (hsize ▸ hs)
      | simp [hmsg] at hm
      | simp [hsize] at hs

/-! ## Delivery -/

/-- Call `j` took the message `m` that call `i` sent. -/
def Delivers (w : World) (i j : Nat) (m : List UInt8) : Prop :=
  ∃ k : Nat, w.appended[k]? = some (i, m) ∧ w.taken[k]? = some j

/-- The messages of the calls that served the requests `rs`; `used` is the used list. -/
structure Delivered (rs : List Request) (used : List Nat) (c : Config) : Prop where
  /-- Either list, as its links have it. -/
  links : ∀ b, ∃ xs, IsList c.shared.queue.prev c.shared.queue.next (c.shared.queue.head b) xs
  usedList : IsList c.shared.queue.prev c.shared.queue.next c.shared.queue.pUsedHead used
  /-- A message that was sent was appended once; one receive took it, or it waits at its place
  in the used list. -/
  sent : ∀ i m, c.threads[i]? = some (.sent m) →
    (∃! k : Nat, c.shared.appended[k]? = some (i, m)) ∧
    ((∃! j, Delivers c.shared i j m) ∨
      ∃ k a : Nat, used[k]? = some a ∧ Stored c.shared.queue a m ∧
        c.shared.appended[c.shared.taken.length + k]? = some (i, m))
  /-- No receive takes two messages. -/
  once : ∀ i i' j m m', Delivers c.shared i j m → Delivers c.shared i' j m' → i = i' ∧ m = m'
  /-- The messages are taken in the order in which they were appended. -/
  inOrder : ∀ k j : Nat, c.shared.taken[k]? = some j →
    ∃ i m, c.shared.appended[k]? = some (i, m) ∧ Delivers c.shared i j m
  /-- What is taken is what a request had to send. -/
  notInvented : ∀ i j m, Delivers c.shared i j m → ∃ ms, rs[i]? = some (.sendToQueue m ms)
  /-- A receive that returned 1 gives a message that it took, cut to the size of its request. -/
  received : ∀ (j size : Nat) out, c.threads[j]? = some (.received size out) →
    (∃ ms, rs[j]? = some (.recvFromQueue size ms)) ∧
    ∃ i m, Delivers c.shared i j m ∧ out = ⟨m.take size, min m.length size⟩
  /-- A call that took a message and returned gave it. -/
  given : ∀ i j m l, Delivers c.shared i j m → c.threads[j]? = some l → l.done = true →
    ∃ size, l = .received size ⟨m.take size, min m.length size⟩
  /-- When no call is under way, `recvSemaphore` counts the messages that wait. -/
  counted : (∀ l ∈ c.threads, l.outside = true) → c.shared.queue.recvSemaphore = used.length

namespace Flow

/-- A call is at one place of the record of the appended messages. -/
theorem appended_inj (hflow : Flow L c) {k k' : Nat} {m m' : List UInt8}
    (hk : c.shared.appended[k]? = some (i, m)) (hk' : c.shared.appended[k']? = some (i, m')) :
    k = k' :=
  KeyedList.getElem?_key_inj hflow.appendedOnce hk hk' rfl

/-- What a receive gets is the message of one send. -/
theorem delivers_inj (hflow : Flow L c) {i' : Nat} {m m' : List UInt8}
    (h : Delivers c.shared i j m) (h' : Delivers c.shared i' j m') : i = i' ∧ m = m' := by
  obtain ⟨k, hi, hj⟩ := h
  obtain ⟨k', hi', hj'⟩ := h'
  have hlt := (List.getElem?_eq_some_iff.mp hj).1
  obtain rfl := (List.getElem?_inj hlt hflow.takenOnce).mp (hj.trans hj'.symm)
  exact Prod.mk.inj (Option.some.inj (hi.symm.trans hi'))

/-- A message that was taken is one that was appended. -/
theorem delivers_of_took (h : Took c.shared j msg) : ∃ i, Delivers c.shared i j msg := by
  obtain ⟨k, i, hj, hi⟩ := h
  exact ⟨i, k, hi, hj⟩

/-- What the record says of the messages. -/
theorem delivered (hflow : Flow L c) (hacc : Accounts n L c) {rs : List Request}
    (hserves : List.Forall₂ Call.Serves rs c.threads) : Delivered rs (L false) c := by
  -- every thread serves the request of its number
  have hget : ∀ {j : Nat} {l : Call}, c.threads[j]? = some l →
      ∃ r, rs[j]? = some r ∧ l.Serves r := by
    intro j l hj
    obtain ⟨hlt, rfl⟩ := List.getElem?_eq_some_iff.mp hj
    have hlt' : j < rs.length := hserves.length_eq ▸ hlt
    exact ⟨rs[j], List.getElem?_eq_getElem hlt', (List.forall₂_iff_get.mp hserves).2 j hlt' hlt⟩
  refine ⟨fun b => ⟨L b, hacc.lists.isList b⟩, hacc.lists.isList false, ?_, ?_, ?_, ?_, ?_, ?_, ?_⟩
  · intro i m hi
    obtain ⟨k, hk⟩ := List.mem_iff_getElem?.mp (((hflow.calls i _ hi).appended m).mpr rfl)
    refine ⟨⟨k, hk, fun k' hk' => hflow.appended_inj hk' hk⟩, ?_⟩
    -- the message at place `k` was taken exactly when more than `k` takes are recorded
    rcases Nat.lt_or_ge k c.shared.taken.length with hlt | hge
    · refine .inl ⟨_, ⟨k, hk, List.getElem?_eq_getElem hlt⟩, ?_⟩
      rintro j ⟨k', hk', hj⟩
      obtain rfl := hflow.appended_inj hk' hk
      exact (Option.some.inj ((List.getElem?_eq_getElem hlt).symm.trans hj)).symm
    · have hwait := hflow.waiting
      have hklt := (List.getElem?_eq_some_iff.mp hk).1
      have hplace : c.shared.taken.length + (k - c.shared.taken.length) = k := by omega
      obtain ⟨e, he, hst⟩ := hflow.stored (k - c.shared.taken.length) _
        (List.getElem?_eq_getElem (by omega))
      rw [hplace] at he
      obtain rfl := Option.some.inj (he.symm.trans hk)
      exact .inr ⟨_, _, List.getElem?_eq_getElem _, hst, by rw [hplace]; exact hk⟩
  · exact fun i i' j m m' h h' => hflow.delivers_inj h h'
  -- as many messages are appended as taken, so the `k`-th taken one exists
  · intro k j hk
    have hwait := hflow.waiting
    have hklt := (List.getElem?_eq_some_iff.mp hk).1
    have hlt : k < c.shared.appended.length := by omega
    have hget := List.getElem?_eq_getElem hlt
    exact ⟨_, _, hget, k, hget, hk⟩
  · rintro i j m ⟨k, hk, -⟩
    have hmem := List.mem_of_getElem? hk
    have hlt := hflow.appendedLt _ hmem
    obtain ⟨r, hr, hsend, -⟩ := hget (List.getElem?_eq_getElem hlt)
    have happended := ((hflow.calls i _ (List.getElem?_eq_getElem hlt)).appended m).mp hmem
    obtain ⟨ms, rfl⟩ := hsend m (Call.message_of_appended happended)
    exact ⟨ms, hr⟩
  · intro j size out hj
    obtain ⟨r, hr, -, hrecv⟩ := hget hj
    obtain ⟨ms, rfl⟩ := hrecv size rfl
    obtain ⟨m, htook, hout⟩ := (hflow.calls j _ hj).read size out rfl
    obtain ⟨i, hdel⟩ := delivers_of_took htook
    exact ⟨⟨ms, hr⟩, i, m, hdel, hout⟩
  -- a message has one taker, so what the call read is what was delivered to it
  · rintro i j m l hdel hj hdone
    obtain ⟨k, hk, hk'⟩ := id hdel
    have hrec := hflow.calls j l hj
    obtain ⟨size, out, rfl⟩ :=
      Call.received_of_done hdone (hrec.taken.mp (List.mem_of_getElem? hk'))
    obtain ⟨m', htook, rfl⟩ := hrec.read size out rfl
    obtain ⟨i', hdel'⟩ := delivers_of_took htook
    obtain ⟨-, rfl⟩ := hflow.delivers_inj hdel hdel'
    exact ⟨size, rfl⟩
  -- outside its call a thread holds no unit of the semaphore
  · intro hquiet
    have hrecv := hacc.units false
    have hzero : (c.threads.map (Call.units false)).sum = 0 := by
      refine List.sum_eq_zero fun u hu => ?_
      obtain ⟨l, hl, rfl⟩ := List.mem_map.mp hu
      exact Call.recvUnits_of_outside (hquiet l hl)
    rw [hzero, Nat.add_zero] at hrecv
    exact hrecv

end Flow

/-- Over every schedule of any sends and receives, messages are delivered in their order, each
one at most once, and none is lost. -/
theorem runCalls_delivered (h : msOSCreateQueue n size = some q) (es : Schedule) :
    ∃ c used, runCalls q es = some c ∧ Delivered (Interleaving.starts es) used c := by
  obtain ⟨c, L, hrun, hacc, hflow⟩ := runCalls_flow (created_of_create h) es
  exact ⟨c, L false, hrun, hflow.delivered hacc (runCalls_serves hrun)⟩

/-- A send of three bytes, and a receive that wants two of them. -/
theorem runCalls_delivered_cut :
    ∃ q, msOSCreateQueue 1 4 = some q ∧ ∃ c used,
      runCalls q (sendAlone [1, 2, 3] ++
        .start (.recvFromQueue 2 0) :: List.replicate 9 (.turn 1 .goOn)) = some c ∧
      Delivered [.sendToQueue [1, 2, 3] waitForever, .recvFromQueue 2 0] used c := by
  obtain ⟨q, hq⟩ := @exists_create 1 4 (by decide) (by decide) (by decide)
  exact ⟨q, hq, runCalls_delivered hq _⟩

end PgClient.Pgos
