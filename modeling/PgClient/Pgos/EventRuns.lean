import PgClient.Pgos.EventWaits

/-!
# Lost events

The task serves a request as long as it is in the container, and a call that timed out leaves it
there until its withdrawal is handled. The flags that are cleared for such a call are lost, and
the withdrawal that comes later does not find the request, so nothing is released.

* `NoEventLost` — the flags and the memory of the calls; `NoEventLost.quiet` — what is left in
  the end.
* `Timely` — a step of the task that serves no call that has given up.
* `timely_noEventLost` — all runs of such steps.
-/

namespace PgClient.Pgos.Event

open PartialRun (Along)

/-- The cell and the semaphore that a call uses. -/
def Thread.node : Thread → Option EventNode
  | .sendWait node _ => some node
  | .waiting node _ => some node
  | .sendRelease node => some node
  | .reading node => some node
  | _ => none

/-- A wait that returned. -/
def Thread.returned : Thread → Bool
  | .timedOut => true
  | .served _ => true
  | _ => false

/-- What a call, the container or a message refers to. -/
def Refers (c : Config) (n : EventNode) : Prop :=
  (∃ l ∈ c.threads, l.node = some n) ∨ n ∈ inUse c.shared.container ∨
    .waitEvent n ∈ c.shared.messages ∨ .releaseEvent n ∈ c.shared.messages

/-- No flags are lost, and all memory is released once. -/
structure NoEventLost (c : Config) : Prop where
  /-- A call for which flags were cleared returns 1 with them in its next two turns. -/
  returns : ∀ i v, (i, v) ∈ c.shared.cleared → ∀ k k', ∃ c',
    Interleaving.run threads [.turn i k, .turn i k'] c = some c' ∧
      c'.threads[i]? = some (.served v)
  /-- What is in use is live, and is the call's own. -/
  used : ∀ n, Refers c n → c.shared.allocated n.call = some n
  /-- All that is live belongs to a call. -/
  cells : ∀ addr v, c.shared.cells addr = some v →
    ∃ i n, c.shared.allocated i = some n ∧ n.returnEventAddr = addr
  semaphores : ∀ semaphore count, c.shared.semaphores semaphore = some count →
    ∃ i n, c.shared.allocated i = some n ∧ n.eventSemaphore = semaphore
  /-- The call is in progress, or a message is on its way that releases them. -/
  live : ∀ i n, c.shared.allocated i = some n → i ∉ c.shared.released ∧ ∃ l,
    c.threads[i]? = some l ∧
      (l.node = some n ∨ l = .timedOut ∧ .releaseEvent n ∈ c.shared.messages)
  /-- Nothing is released twice. -/
  once : c.shared.released.Nodup
  /-- After a return it was released, or that message is on its way. -/
  freed : ∀ i l, c.threads[i]? = some l → l.returned →
    i ∈ c.shared.released ∨ ∃ n, c.shared.allocated i = some n ∧ .releaseEvent n ∈ c.shared.messages
  /-- Only the assertion of `_AddEventList` stops the next step. -/
  defined : ∀ e, Interleaving.exec threads e c = none → c.shared.Full

/-- When no wait is in progress and no message is on its way, nothing is live. -/
theorem NoEventLost.quiet {c : Config} (h : NoEventLost c) (hcalls : ∀ l ∈ c.threads, l.node = none)
    (hmessages : c.shared.messages = []) :
    (∀ addr, c.shared.cells addr = none) ∧ ∀ semaphore, c.shared.semaphores semaphore = none := by
  -- what is allocated would have a wait or a release
  have hnone : ∀ i n, c.shared.allocated i ≠ some n := by
    intro i n halloc
    obtain ⟨-, l, hi, hnode | ⟨-, hrelease⟩⟩ := h.live i n halloc
    · exact nomatch (hcalls l (List.mem_of_getElem? hi)).symm.trans hnode
    · rw [hmessages] at hrelease
      exact List.not_mem_nil hrelease
  constructor
  · intro addr
    refine Option.eq_none_iff_forall_ne_some.mpr fun v hv => ?_
    obtain ⟨i, n, halloc, -⟩ := h.cells addr v hv
    exact hnone i n halloc
  · intro semaphore
    refine Option.eq_none_iff_forall_ne_some.mpr fun count hcount => ?_
    obtain ⟨i, n, halloc, -⟩ := h.semaphores semaphore count hcount
    exact hnone i n halloc

/-- The step is not one of the task that serves a call that has given up. -/
def Timely : GroupEvent → Config → Prop
  | .start _, _ => True
  | .turn i _, c => c.threads[i]? = some .task → ∀ m ∈ c.shared.current,
    ∀ n ∈ c.shared.servedBy m, ∀ l ∈ c.threads[n.call]?, l.gaveUp = false

instance : ∀ e c, Decidable (Timely e c)
  | .start _, _ => inferInstanceAs (Decidable True)
  | .turn i _, c => inferInstanceAs (Decidable (c.threads[i]? = some .task →
      ∀ m ∈ c.shared.current, ∀ n ∈ c.shared.servedBy m,
      ∀ l ∈ c.threads[n.call]?, l.gaveUp = false))

/-- The invariant of the runs. -/
def ConfigOk (c : Config) : Prop := Ok c.shared fun i => c.threads[i]?

variable {c c' : Config} {i : Nat} {n : EventNode} {l : Thread} {v : UInt32}

/-- At the start nothing is allocated. -/
theorem initial_ok : ConfigOk initial where
  memory := ⟨.empty, .empty, nofun⟩
  places := {
    requested := by decide
    withdrawn := by decide
    ofRequested := nofun
    ofWithdrawn := nofun
    order := fun ms₁ n hfront => by
      exact absurd (List.prefix_nil.mp hfront) (List.append_ne_nil_of_right_ne_nil ms₁ nofun) }
  once := .nil
  -- there is the event task and no call
  stage i := by
    cases i with
    | zero => exact ⟨rfl, nofun⟩
    | succ i => exact ⟨rfl, nofun⟩
  answered := nofun

/-! ## What the invariant gives -/

section Stages

variable {g : Group}

/-- The node a call goes on with is its own. -/
theorem Stage.ofNode (h : Stage g i (some l)) (hn : l.node = some n) :
    g.allocated i = some n := by
  match l, h, hn with
  | .sendWait _ _, ⟨hholds, _⟩, rfl => exact hholds.allocated
  | .waiting _ _, .inl ⟨hholds, _⟩, rfl => exact hholds.allocated
  | .waiting _ _, .inr ⟨hholds, _⟩, rfl => exact hholds.allocated
  | .sendRelease _, hholds, rfl => exact Group.Holds.allocated hholds
  | .reading _, hholds, rfl => exact Group.Holds.allocated hholds

/-- A node that is allocated and not given back belongs to a call that waits for it, or that has
timed out and asked for its release. -/
theorem Stage.live {l : Option Thread} (h : Stage g i l) (hi : g.allocated i = some n) :
    i ∉ g.released ∧ ∃ l', l = some l' ∧
      (l'.node = some n ∨ l' = .timedOut ∧ .releaseEvent n ∈ g.messages) := by
  -- by the place at which the call is
  match l, h with
  | some (.sendWait _ _), ⟨hholds, _⟩ | some (.waiting _ _), .inl ⟨hholds, _⟩
  | some (.waiting _ _), .inr ⟨hholds, _⟩ | some (.sendRelease _), hholds
  | some (.reading _), hholds =>
    exact ⟨hholds.released, _, rfl, .inl (hholds.allocated.symm.trans hi)⟩
  | some .timedOut, .inl ⟨n', hholds⟩ =>
    obtain rfl := Option.some.inj (hholds.allocated.symm.trans hi)
    exact ⟨hholds.released, _, rfl, .inr ⟨rfl, mem_withdrawn.mp (hholds.withdrawn.mpr trivial)⟩⟩
  | some .timedOut, .inr h => exact nomatch h.allocated.symm.trans hi
  | some (.served _), h => exact nomatch (Group.Freed.allocated h).symm.trans hi
  | none, h | some .task, h | some (.entering _), h | some .refused, h | some (.setting _), h
  | some (.clearing _), h | some .posted, h | some (.wait _ _ _), h | some (.polled _ _), h =>
    exact nomatch (Group.Idle.allocated h).symm.trans hi

/-- A call that is back has given its node back, or asked for that. -/
theorem Stage.freed (h : Stage g i (some l)) (hl : l.returned) :
    i ∈ g.released ∨ ∃ n, g.allocated i = some n ∧ .releaseEvent n ∈ g.messages := by
  match l, h, hl with
  | .timedOut, .inl ⟨n, hholds⟩, _ =>
    exact .inr ⟨n, hholds.allocated, mem_withdrawn.mp (hholds.withdrawn.mpr trivial)⟩
  | .timedOut, .inr h, _ => exact .inl h.released
  | .served _, h, _ => exact .inl (Group.Freed.released h)

end Stages

/-- Once its semaphore is up a wait goes on to read its flag. -/
theorem turn_waiting {g : Group} (k : Choice) (i u32WaitMs : Nat) {count : Nat}
    (hcount : g.semaphores n.eventSemaphore = some (count + 1)) :
    ∃ g', threads.turn k i g (.waiting n u32WaitMs) = some (g', .reading n) ∧
      g'.cells = g.cells ∧ g'.semaphores n.eventSemaphore = some count := by
  have hturn : turn k i g (.waiting n u32WaitMs) = some ({ g with
      semaphores := Function.update g.semaphores n.eventSemaphore (some count) }, .reading n) := by
    rw [turn, hcount]
  exact ⟨_, hturn, rfl, Function.update_self _ _ _⟩

/-- Its cell is there, so that it returns what it reads. -/
theorem turn_reading {g : Group} (k : Choice) (i : Nat) {count : Nat}
    (hcell : g.cells n.returnEventAddr = some v)
    (hcount : g.semaphores n.eventSemaphore = some count) :
    ∃ g', threads.turn k i g (.reading n) = some (g', .served v) := by
  have hturn : turn k i g (.reading n) = (g.release n).map (·, .served v) := by
    rw [turn, hcell]
  rw [Group.release_eq hcell hcount] at hturn
  exact ⟨_, hturn⟩

namespace ConfigOk

/-- A call for which flags were cleared is about to return. -/
theorem returns (h : ConfigOk c) (hv : (i, v) ∈ c.shared.cleared) (k k' : Choice) :
    ∃ c', Interleaving.run threads [.turn i k, .turn i k'] c = some c' ∧
      c'.threads[i]? = some (.served v) := by
  have hstage := h.stage i
  have hanswered := h.answered i v hv
  cases hi : c.threads[i]? with
  | none =>
    rw [hi] at hanswered
    exact hanswered.elim
  | some l =>
    rw [hi] at hstage hanswered
    -- it still waits, is about to read, or has read
    match l, hstage, hanswered with
    | .waiting n u32WaitMs, _, ⟨hcount, hcell⟩ =>
      obtain ⟨g₁, hobtain, hcells, hcount₁⟩ := turn_waiting k i u32WaitMs hcount
      obtain ⟨g₂, hread⟩ := turn_reading k' i (hcells ▸ hcell) hcount₁
      exact Interleaving.run_two hi hobtain hread
    | .reading n, hholds, hcell =>
      obtain ⟨count, hcount⟩ :=
        h.memory.semaphores.live i n (Group.Holds.allocated hholds)
      obtain ⟨g', hread⟩ := turn_reading k i hcell hcount
      exact Interleaving.run_two hi hread rfl
    | .served _, _, rfl => exact Interleaving.run_two hi rfl rfl

/-- **In a good state no event is lost.** -/
theorem noEventLost (h : ConfigOk c) : NoEventLost c where
  returns _ _ hv k k' := h.returns hv k k'
  used n hn := by
    -- a node is used by its call, in the container, or in a message of either kind
    rcases hn with ⟨l, hl, hnode⟩ | hused | hwait | hrelease
    · obtain ⟨i, hi⟩ := List.mem_iff_getElem?.mp hl
      have hstage := h.stage i
      rw [hi] at hstage
      have halloc := hstage.ofNode hnode
      rw [(h.memory.owner i n halloc).1]
      exact halloc
    · exact h.places.ofRequested n (mem_requested.mpr (.inl hused))
    · exact h.places.ofRequested n (mem_requested.mpr (.inr hwait))
    · exact h.places.ofWithdrawn n (mem_withdrawn.mpr hrelease)
  cells := h.memory.cells.owned
  semaphores := h.memory.semaphores.owned
  live i n halloc := (h.stage i).live halloc
  once := h.once
  freed i l hi hreturned := by
    have hstage := h.stage i
    rw [hi] at hstage
    exact hstage.freed hreturned
  defined e hnone := by
    cases e with
    | start v => cases hnone
    | turn i k =>
      rw [Interleaving.exec] at hnone
      cases hi : c.threads[i]? with
      | none =>
        rw [hi] at hnone
        cases hnone
      | some l =>
        simp only [hi, Option.map_eq_none_iff] at hnone
        exact (Ok.turn_defined h hi hnone).2

end ConfigOk

/-- A timely step keeps the invariant. -/
theorem ConfigOk.exec {e : GroupEvent} (htimely : Timely e c) (h : ConfigOk c)
    (hexec : Interleaving.exec threads e c = some c') : ConfigOk c' := by
  obtain ⟨v, rfl, rfl⟩ | ⟨i, k, rfl, -, rfl⟩ | ⟨i, k, l, g', l', rfl, hi, hturn, rfl⟩ :=
    Interleaving.exec_cases hexec
  -- a new call is at its first place
  · have hnone : c.threads[c.threads.length]? = none := List.getElem?_eq_none (Nat.le_refl _)
    rw [ConfigOk, Interleaving.getElem?_append_eq_update]
    refine Ok.onward h ?_ ?_
    · rw [hnone]
      exact id
    · rw [hnone]
      exact fun _ => False.elim
  · exact h
  · rw [ConfigOk, Interleaving.getElem?_set_eq_update hi]
    -- a turn of a timely step is defined and keeps the invariant
    rcases Ok.turn k h hi fun htask => htimely (htask ▸ hi) with
      ⟨g₁, l₁, hturn₁, hok⟩ | ⟨-, -, hturn₁⟩
    · obtain ⟨rfl, rfl⟩ := Prod.mk.inj (Option.some.inj (hturn₁.symm.trans hturn))
      exact hok
    · exact nomatch hturn₁.symm.trans hturn

/-- **Timely runs.** In a run whose steps serve no call that has given up no flags are lost, and
every cell and every semaphore is released once. -/
theorem timely_noEventLost {es : List GroupEvent}
    (hrun : Interleaving.run threads es initial = some c)
    (htimely : Along (Interleaving.exec threads) Timely es initial) : NoEventLost c := by
  have hok : ConfigOk c := PartialRun.runAll_inv_along
    (fun e c c' htimely hc hexec => hc.exec htimely hexec) htimely initial_ok hrun
  exact hok.noEventLost

/-- A wait that times out and is withdrawn, and one that is served; the second gets the addresses
that the first had. -/
def withdrawnRun : List GroupEvent :=
  [.start (.waitEvent 1 .E_OR_CLEAR 10), .turn 1 .goOn, .turn 1 (.malloc 1 1 0), .turn 1 .goOn,
    .turn 1 .timeOut, .turn 0 .goOn, .turn 0 .goOn, .turn 1 .goOn, .turn 0 .goOn, .turn 0 .goOn,
    .start (.waitEvent 1 .E_OR_CLEAR 10), .turn 2 .goOn, .turn 2 (.malloc 1 1 0), .turn 2 .goOn,
    .start (.setEvent 1), .turn 3 .goOn, .turn 3 .goOn, .turn 0 .goOn, .turn 0 .goOn,
    .turn 0 .goOn, .turn 0 .goOn, .turn 2 .goOn, .turn 2 .goOn]

/-- A wait that times out and one that is served. -/
theorem timely_noEventLost_withdrawnRun : ∃ c,
    Interleaving.run threads withdrawnRun initial = some c ∧
      c.threads = [.task, .timedOut, .served 1, .posted] ∧ c.shared.cleared = [(2, 1)] ∧
      NoEventLost c := by
  have hrun : (Interleaving.run threads withdrawnRun initial).map
      (fun c => (c.threads, c.shared.cleared)) =
      some ([.task, .timedOut, .served 1, .posted], [(2, 1)]) := by decide +kernel
  obtain ⟨c, hc, hends⟩ := Option.map_eq_some_iff.mp hrun
  obtain ⟨hthreads, hcleared⟩ := Prod.mk.inj hends
  exact ⟨c, hc, hthreads, hcleared, timely_noEventLost hc (by decide +kernel)⟩

/-- The request and a flag are sent, then the wait times out; its withdrawal is behind the
flag. -/
def lostRun : List GroupEvent :=
  [.start (.waitEvent 1 .E_OR_CLEAR 10), .turn 1 .goOn, .turn 1 (.malloc 1 1 0), .turn 1 .goOn,
    .start (.setEvent 1), .turn 2 .goOn, .turn 2 .goOn, .turn 1 .timeOut, .turn 0 .goOn,
    .turn 0 .goOn, .turn 0 .goOn, .turn 0 .goOn, .turn 1 .goOn, .turn 0 .goOn, .turn 0 .goOn]

/-- The call returned 0, the flag is gone, and the cell and the semaphore are still live. -/
theorem lostRun_loses : ∃ c, Interleaving.run threads lostRun initial = some c ∧
    c.threads = [.task, .timedOut, .posted] ∧ c.shared.cleared = [(1, 1)] ∧
    c.shared.eventFlag = 0 ∧ c.shared.messages = [] ∧ c.shared.cells 1 = some 1 ∧
    c.shared.semaphores 1 = some 1 ∧ ¬ NoEventLost c := by
  have hcalls : (Interleaving.run threads lostRun initial).map
      (fun c => (c.threads, c.shared.cleared)) =
      some ([.task, .timedOut, .posted], [(1, 1)]) := by decide +kernel
  have hgroup : (Interleaving.run threads lostRun initial).map (fun c =>
      (c.shared.eventFlag, c.shared.messages, c.shared.cells 1, c.shared.semaphores 1)) =
      some (0, [], some 1, some 1) := by decide +kernel
  obtain ⟨c, hc, hcalls⟩ := Option.map_eq_some_iff.mp hcalls
  obtain ⟨hthreads, hcleared⟩ := Prod.mk.inj hcalls
  rw [hc, Option.map_some, Option.some_inj] at hgroup
  simp only [Prod.mk.injEq] at hgroup
  obtain ⟨hflag, hmessages, hcell, hsemaphore⟩ := hgroup
  refine ⟨c, hc, hthreads, hcleared, hflag, hmessages, hcell, hsemaphore, ?_⟩
  intro h
  have hthread : c.threads[1]? = some .timedOut := by rw [hthreads]; rfl
  -- two more turns leave the call where it is
  obtain ⟨c₁, hrun₁, hserved⟩ := h.returns 1 1 (by rw [hcleared]; simp) .goOn .goOn
  obtain ⟨c₂, hrun₂, hstill⟩ :=
    @Interleaving.run_two _ _ _ _ threads c .goOn .goOn 1 _ _ _ _ _ hthread rfl rfl
  obtain rfl := Option.some.inj (hrun₁.symm.trans hrun₂)
  exact nomatch hserved.symm.trans hstill

end PgClient.Pgos.Event
