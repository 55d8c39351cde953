import PgClient.Lib.KeyedList
import PgClient.ThreadPool.Pool

/-!
# The jobs of the thread pool

The jobs in the order in which they were added, and in the order in which the workers took them:
the second list follows the first one, and what is missing is the list of jobs.

* `turn_effect` — what one step of one thread does.
* `Ok.step` — what it keeps.
* `threadpool_sound` — the jobs of every schedule.
-/

namespace PgClient.ThreadPool

open LinkedHeap (Heap Linked)

variable {p p' : Pool} {jobs jobs' : List (Nat × Job)} {i : Nat}

/-! ## One step -/

namespace Thread

/-- The job that a call put in the list. -/
def accepted : Thread → Option Job
  | .added job result => if result = 0 then some job else none
  | _ => none

/-- The nodes of a thread. -/
def held : Thread → List Nat
  | .running pjob => [pjob]
  | _ => []

/-- The thread is a worker that has not ended. -/
def works : Thread → Nat
  | .worker => 1
  | .running _ => 1
  | _ => 0

/-- The thread is the one that closes the pool. -/
def closing : Thread → Nat
  | .draining => 1
  | .joining => 1
  | _ => 0

end Thread

/-- The steps that change nothing but their thread. -/
inductive Onward : Thread → Thread → Prop
  | wait (l : Thread) : Onward l l
  | refuse (job : Job) : Onward (.adding job) (.added job (-1))
  | tooLate : Onward .destroying (.destroyed (-1))

/-- What a step of thread `i` does. -/
inductive Effect (i : Nat) (p : Pool) (jobs : List (Nat × Job)) :
    Thread → Pool → List (Nat × Job) → Thread → Prop
  | onward {l l' : Thread} (h : Onward l l') : Effect i p jobs l p jobs l'
  | accept {job : Job} {heap : Heap Job} {head tail : Option Nat} (hopen : p.queue_close = false)
      (hopen' : p.pool_close = false)
      (hlive : ∀ a, (p.heap.cells a).isSome → (heap.cells a).isSome) :
      Effect i p jobs (.adding job) { p with
        heap := heap, head := head, tail := tail, queue_cur_num := p.queue_cur_num + 1,
        accepted := p.accepted ++ [(i, job)] } (jobs ++ [(p.heap.brk, job)]) (.added job 0)
  | take {a : Nat} {job : Job} {jobs' : List (Nat × Job)} {head tail : Option Nat}
      (hjobs : jobs = (a, job) :: jobs') (hopen : p.pool_close = false) :
      Effect i p jobs .worker { p with
        queue_cur_num := p.queue_cur_num - 1, head := head, tail := tail,
        taken := p.taken ++ [(i, job)] } jobs' (.running a)
  | free {a : Nat} {heap : Heap Job} (hother : ∀ b, b ≠ a → heap.cells b = p.heap.cells b) :
      Effect i p jobs (.running a) { p with heap := heap } jobs .worker
  | exit (hclose : p.pool_close = true) :
      Effect i p jobs .worker { p with running := p.running - 1 } jobs .exited
  | close (hopen : p.queue_close = false) (hopen' : p.pool_close = false) :
      Effect i p jobs .destroying { p with queue_close := true } jobs .draining
  | closeEmpty (hopen : p.queue_close = false) (hjobs : jobs = []) :
      Effect i p jobs .destroying { p with queue_close := true, pool_close := true } jobs .joining
  | drained (hjobs : jobs = []) :
      Effect i p jobs .draining { p with pool_close := true } jobs .joining
  | freePool (hrunning : p.running = 0) :
      Effect i p jobs .joining { p with head := none, freed := true } jobs (.destroyed 0)

/-- The record of the accepted jobs and the calls. -/
structure Record (c : Config) : Prop where
  once : (c.shared.accepted.map Prod.fst).Nodup
  lt : ∀ e ∈ c.shared.accepted, e.1 < c.threads.length
  added : ∀ (j : Nat) (l : Thread), c.threads[j]? = some l →
    ∀ job, (j, job) ∈ c.shared.accepted ↔ l.accepted = some job

/-- The nodes of the list and of the workers are different and allocated. -/
structure Cells (jobs : List (Nat × Job)) (c : Config) : Prop where
  nodup : (jobs.map Prod.fst ++ c.threads.flatMap Thread.held).Nodup
  live : ∀ a ∈ c.threads.flatMap Thread.held, (c.shared.heap.cells a).isSome

/-- The flags and the threads. -/
structure Flags (jobs : List (Nat × Job)) (c : Config) : Prop where
  close : c.shared.pool_close = true → c.shared.queue_close = true ∧ jobs = []
  running : c.shared.running = (c.threads.map Thread.works).sum
  closing : (c.threads.map Thread.closing).sum + c.shared.freed.toNat =
    c.shared.queue_close.toNat
  joining : .joining ∈ c.threads → c.shared.pool_close = true
  freed : c.shared.freed = true → c.shared.running = 0

/-- What holds of a pool, its list and its threads. -/
structure Ok (jobs : List (Nat × Job)) (c : Config) : Prop where
  list : JobList c.shared jobs
  record : Record c
  cells : Cells jobs c
  flags : Flags jobs c

variable {c : Config} {l l' : Thread}

/-- A step is defined unless the pool was freed, and has one of the effects. -/
def Steps (i : Nat) (p : Pool) (jobs : List (Nat × Job)) (l : Thread)
    (r : Option (Pool × Thread)) : Prop :=
  (∃ p' jobs' l', r = some (p', l') ∧ JobList p' jobs' ∧ Effect i p jobs l p' jobs' l') ∨
    (p.freed = true ∧ r = none)

section List

variable (k : Choice) (hlist : JobList p jobs)

include hlist

/-- A thread that waits. -/
theorem Steps.wait (l : Thread) : Steps i p jobs l (some (p, l)) :=
  .inl ⟨p, jobs, l, rfl, hlist, .onward (.wait l)⟩

theorem threadpoolFunction_effect : Steps i p jobs .worker (turn k i p .worker) := by
  rw [turn]
  -- freed, closed, without jobs, or with one to take
  cases hfreed : p.freed with
  | true => exact .inr ⟨hfreed, by rw [threadpoolFunction, hfreed]; rfl⟩
  | false =>
    cases hpool : p.pool_close with
    | true =>
      refine .inl ⟨_, jobs, .exited, ?_, ?_, .exit hpool⟩
      · rw [threadpoolFunction, hfreed, hpool]
        simp
      · exact ⟨hlist.linked, hlist.tail, hlist.count, hlist.bound, hlist.record⟩
    | false =>
      cases jobs with
      | nil =>
        have hcur : p.queue_cur_num = 0 := hlist.count
        have hturn : threadpoolFunction i p = some (p, .worker) := by
          rw [threadpoolFunction, hfreed, hpool, hcur]
          rfl
        rw [hturn]
        exact Steps.wait hlist .worker
      | cons x jobs' =>
        obtain ⟨a, job⟩ := x
        obtain ⟨head, tail, hturn, hlist'⟩ := threadpoolFunction_takes hlist hfreed hpool
        exact .inl ⟨_, jobs', .running a, hturn, hlist', .take rfl hpool⟩

theorem threadpoolAddJob_effect (job : Job) :
    Steps i p jobs (.adding job) (turn k i p (.adding job)) := by
  rw [turn]
  cases hfreed : p.freed with
  | true => exact .inr ⟨hfreed, by rw [threadpoolAddJob, hfreed]; rfl⟩
  | false =>
    have hrefuse : JobList p jobs ∧ Effect i p jobs (.adding job) p jobs (.added job (-1)) :=
      ⟨hlist, .onward (.refuse job)⟩
    by_cases hclosed : p.queue_close = true ∨ p.pool_close = true
    · refine .inl ⟨_, jobs, .added job (-1), ?_, hrefuse⟩
      rw [threadpoolAddJob, hfreed, if_neg (by simp), if_neg (by tauto), if_pos hclosed]
    -- a full list that is open makes the caller wait
    · by_cases hfull : p.queue_cur_num = p.queue_max_num
      · rw [threadpoolAddJob, hfreed, if_neg (by simp), if_pos ⟨hfull, hclosed⟩]
        exact Steps.wait hlist (.adding job)
      · cases k with
        | mallocFails =>
          refine .inl ⟨_, jobs, .added job (-1), ?_, hrefuse⟩
          rw [threadpoolAddJob, hfreed, if_neg (by simp), if_neg (by tauto), if_neg hclosed,
            if_pos rfl]
        | goOn =>
          obtain ⟨hopen, hopen'⟩ := not_or.mp hclosed
          rw [Bool.not_eq_true] at hopen hopen'
          obtain ⟨heap, head, tail, hturn, hlist', hlive⟩ :=
            threadpoolAddJob_accepts hlist job hfreed hopen hopen' hfull
          exact .inl ⟨_, _, .added job 0, hturn, hlist', .accept hopen hopen' hlive⟩

/-- `threadpool_destroy` closes the list; it goes on at once where there are no jobs. -/
theorem destroying_effect : Steps i p jobs .destroying (turn k i p .destroying) := by
  rw [turn]
  by_cases hfreed : p.freed = true
  · exact .inr ⟨hfreed, if_pos hfreed⟩
  rw [if_neg hfreed]
  -- somebody else destroys the pool already
  by_cases hclosed : p.queue_close = true ∨ p.pool_close = true
  · exact .inl ⟨_, jobs, .destroyed (-1), if_pos hclosed, hlist, .onward .tooLate⟩
  rw [if_neg hclosed]
  obtain ⟨hopen, hopen'⟩ := not_or.mp hclosed
  rw [Bool.not_eq_true] at hopen hopen'
  -- with jobs left it waits for the workers to take them
  by_cases hcur : p.queue_cur_num ≠ 0
  · refine .inl ⟨_, jobs, .draining, congrArg some (if_pos hcur), ?_, .close hopen hopen'⟩
    exact ⟨hlist.linked, hlist.tail, hlist.count, hlist.bound, hlist.record⟩
  · refine .inl ⟨_, jobs, .joining, congrArg some (if_neg hcur), ?_,
      .closeEmpty hopen (hlist.eq_nil (by omega))⟩
    exact ⟨hlist.linked, hlist.tail, hlist.count, hlist.bound, hlist.record⟩

theorem draining_effect : Steps i p jobs .draining (turn k i p .draining) := by
  rw [turn]
  by_cases hfreed : p.freed = true
  · exact .inr ⟨hfreed, if_pos hfreed⟩
  rw [if_neg hfreed]
  by_cases hcur : p.queue_cur_num ≠ 0
  · rw [drain, if_pos hcur]
    exact Steps.wait hlist .draining
  · refine .inl ⟨_, jobs, .joining, congrArg some (if_neg hcur), ?_,
      .drained (hlist.eq_nil (by omega))⟩
    exact ⟨hlist.linked, hlist.tail, hlist.count, hlist.bound, hlist.record⟩

/-- The pool is freed when the workers have ended; the list is empty by then. -/
theorem joining_effect (hjobs : jobs = []) : Steps i p jobs .joining (turn k i p .joining) := by
  rw [turn]
  by_cases hfreed : p.freed = true
  · exact .inr ⟨hfreed, if_pos hfreed⟩
  rw [if_neg hfreed]
  -- a worker still runs
  by_cases hrunning : p.running ≠ 0
  · rw [if_pos hrunning]
    exact Steps.wait hlist .joining
  have hhead : p.head = none := by
    rw [hlist.head_eq, hjobs]
    rfl
  -- there is no job to free
  have hheap : freeJobs p.heap.brk p.heap p.head = some p.heap := by
    rw [hhead]
    cases p.heap.brk <;> rfl
  refine .inl ⟨_, jobs, .destroyed 0, ?_, ?_, .freePool (by omega)⟩
  · rw [if_neg hrunning, hheap]
    rfl
  · refine ⟨?_, hlist.tail, hlist.count, hlist.bound, hlist.record⟩
    rw [hjobs]
    rfl

end List

/-- A step of a thread is defined unless the pool was freed. -/
theorem turn_effect (k : Choice) (h : Ok jobs c) (hi : c.threads[i]? = some l) :
    Steps i c.shared jobs l (turn k i c.shared l) := by
  cases l with
  | worker => exact threadpoolFunction_effect k h.list
  | running a =>
    have hmem : a ∈ c.threads.flatMap Thread.held :=
      List.mem_flatMap.mpr ⟨_, List.mem_of_getElem? hi, List.mem_cons_self⟩
    -- the worker's job is no longer in the list, so it can be freed
    have hnot : a ∉ jobs.map Prod.fst := fun ha =>
      (List.nodup_append.mp h.cells.nodup).2.2 a ha a hmem rfl
    obtain ⟨heap, hturn, hlist, hother⟩ := runJob_frees h.list hnot (h.cells.live a hmem)
    exact .inl ⟨_, jobs, .worker, hturn, hlist, .free hother⟩
  | adding job => exact threadpoolAddJob_effect k h.list job
  | destroying => exact destroying_effect k h.list
  | draining => exact draining_effect k h.list
  | joining =>
    -- a thread that joins has closed the pool, which empties the list first
    have hclosed := h.flags.joining (List.mem_of_getElem? hi)
    exact joining_effect k h.list (h.flags.close hclosed).2
  | exited => exact Steps.wait h.list _
  | added job result => exact Steps.wait h.list _
  | destroyed result => exact Steps.wait h.list _

/-! ## What a step keeps -/

/-- A step that puts no job in the list. -/
theorem Record.keep (h : Record c) (hi : c.threads[i]? = some l)
    (haccepted : p'.accepted = c.shared.accepted) (hl : l'.accepted = l.accepted) :
    Record ⟨p', c.threads.set i l'⟩ where
  once := haccepted ▸ h.once
  lt e he := by
    rw [List.length_set]
    exact h.lt e (haccepted ▸ he)
  added := by
    -- the other threads, and this one
    refine Interleaving.forall_set (fun j l hj job => ?_) fun job => ?_
    · show (j, job) ∈ p'.accepted ↔ _
      rw [haccepted]
      exact h.added j l hj job
    · show (i, job) ∈ p'.accepted ↔ _
      rw [haccepted, hl]
      exact h.added i l hi job

theorem Record.step (h : Record c) (hi : c.threads[i]? = some l)
    (heff : Effect i c.shared jobs l p' jobs' l') : Record ⟨p', c.threads.set i l'⟩ := by
  cases heff with
  | onward hl => cases hl <;> exact h.keep hi rfl rfl
  | take => exact h.keep hi rfl rfl
  | free => exact h.keep hi rfl rfl
  | exit => exact h.keep hi rfl rfl
  | close => exact h.keep hi rfl rfl
  | closeEmpty => exact h.keep hi rfl rfl
  | drained => exact h.keep hi rfl rfl
  | freePool => exact h.keep hi rfl rfl
  | @accept job heap head tail hopen hopen' hlive =>
    -- the thread was adding, so it has no accepted job yet
    have hnew : ∀ job', (i, job') ∉ c.shared.accepted := fun job' hmem =>
      absurd ((h.added i _ hi job').mp hmem) (by simp [Thread.accepted])
    refine ⟨?_, fun e he => ?_, ?_⟩
    · show ((c.shared.accepted ++ [(i, job)]).map Prod.fst).Nodup
      rw [List.map_append, List.nodup_append]
      refine ⟨h.once, List.nodup_singleton _, ?_⟩
      intro x hx y hy hxy
      obtain ⟨e, he, rfl⟩ := List.mem_map.mp hx
      rw [List.mem_singleton.mp hy] at hxy
      exact hnew e.2 ((Prod.ext hxy rfl : e = (i, e.2)) ▸ he)
    · rw [List.length_set]
      rcases List.mem_append.mp he with he | he
      · exact h.lt e he
      · rw [List.mem_singleton.mp he]
        exact (List.getElem?_eq_some_iff.mp hi).1
    · intro j l₂ hj job'
      show (j, job') ∈ c.shared.accepted ++ [(i, job)] ↔ _
      rw [List.mem_append, List.mem_singleton]
      rcases eq_or_ne i j with rfl | hne
      -- its only accepted job is the new one
      · rw [List.getElem?_set_self'] at hj
        obtain ⟨_, -, rfl⟩ := Option.map_eq_some_iff.mp hj
        rw [or_iff_right (hnew job')]
        show (i, job') = (i, job) ↔ some job = some job'
        rw [Prod.mk.injEq, Option.some.injEq]
        exact ⟨fun h' => h'.2.symm, fun h' => ⟨rfl, h'.symm⟩⟩
      · rw [List.getElem?_set_ne hne] at hj
        rw [or_iff_left fun h' => hne (Prod.mk.inj h').1.symm]
        exact h.added j l₂ hj job'

/-- A step that moves no node. -/
theorem Cells.keep (h : Cells jobs c) (hi : c.threads[i]? = some l)
    (hheap : p'.heap = c.shared.heap) (hl : l'.held = l.held) :
    Cells jobs ⟨p', c.threads.set i l'⟩ := by
  have hperm := Interleaving.flatMap_set_perm Thread.held hi l'
  rw [hl, List.perm_append_left_iff] at hperm
  refine ⟨((hperm.append_left _).nodup_iff).mpr h.nodup, ?_⟩
  intro a ha
  show (p'.heap.cells a).isSome
  rw [hheap]
  exact h.live a (hperm.subset ha)

theorem Cells.step (h : Cells jobs c) (hlist : JobList c.shared jobs)
    (hi : c.threads[i]? = some l) (heff : Effect i c.shared jobs l p' jobs' l') :
    Cells jobs' ⟨p', c.threads.set i l'⟩ := by
  cases heff with
  | onward hl => cases hl <;> exact h.keep hi rfl rfl
  | exit => exact h.keep hi rfl rfl
  | close => exact h.keep hi rfl rfl
  | closeEmpty => exact h.keep hi rfl rfl
  | drained => exact h.keep hi rfl rfl
  | freePool => exact h.keep hi rfl rfl
  | @accept job heap head tail hopen hopen' hlive =>
    have hperm : ((c.threads.set i (.added job 0)).flatMap Thread.held).Perm
        (c.threads.flatMap Thread.held) :=
      Interleaving.flatMap_set_perm Thread.held hi (.added job 0)
    -- no node of a list or a worker is at the address of the new one
    have hfresh : ∀ a, (c.shared.heap.cells a).isSome → a ≠ c.shared.heap.brk := by
      rintro a ha rfl
      rw [c.shared.heap.unused _ (Nat.le_refl _)] at ha
      exact absurd ha (by simp)
    have hlistlive : ∀ a ∈ jobs.map Prod.fst, a ≠ c.shared.heap.brk := by
      intro a ha
      obtain ⟨x, hx, rfl⟩ := List.mem_map.mp ha
      obtain ⟨n, hn⟩ := hlist.linked.live hx
      exact hfresh _ (by rw [hn]; rfl)
    refine ⟨?_, fun a ha => hlive a (h.live a (hperm.subset ha))⟩
    rw [List.map_append, List.append_assoc]
    refine ((List.perm_middle.trans ((hperm.append_left _).cons _)).nodup_iff).mpr ?_
    refine List.nodup_cons.mpr ⟨fun hmem => ?_, h.nodup⟩
    rcases List.mem_append.mp hmem with hmem | hmem
    · exact hlistlive _ hmem rfl
    · exact hfresh _ (h.live _ hmem) rfl
  | @take a job _ head tail hjobs hopen =>
    have hperm : ((c.threads.set i (.running a)).flatMap Thread.held).Perm
        (a :: c.threads.flatMap Thread.held) :=
      Interleaving.flatMap_set_perm Thread.held hi (.running a)
    have hnd := h.nodup
    rw [hjobs] at hnd
    refine ⟨((hperm.append_left _).trans List.perm_middle).nodup_iff.mpr hnd, ?_⟩
    intro b hb
    rcases List.mem_cons.mp (hperm.subset hb) with rfl | hb
    · obtain ⟨n, hn⟩ := hlist.linked.live (x := (b, job)) (by rw [hjobs]; simp)
      show (c.shared.heap.cells b).isSome
      rw [hn]
      rfl
    · exact h.live b hb
  | @free a heap hother =>
    have hperm : (c.threads.flatMap Thread.held).Perm
        (a :: (c.threads.set i .worker).flatMap Thread.held) :=
      (Interleaving.flatMap_set_perm Thread.held hi .worker).symm
    have hnd := (((hperm.append_left _).trans List.perm_middle).nodup_iff).mp h.nodup
    refine ⟨(List.nodup_cons.mp hnd).2, ?_⟩
    intro b hb
    have hne : b ≠ a := fun h' => (List.nodup_cons.mp hnd).1 (List.mem_append_right _ (h' ▸ hb))
    show (heap.cells b).isSome
    rw [hother b hne]
    exact h.live b (hperm.symm.subset (List.mem_cons_of_mem _ hb))

/-- The sums over the threads go with one of them. -/
theorem Flags.change (h : Flags jobs c) (hi : c.threads[i]? = some l)
    (hclose : p'.pool_close = true → p'.queue_close = true ∧ jobs' = [])
    (hrunning : l.works ≤ c.shared.running → p'.running + l.works = c.shared.running + l'.works)
    (hclosing : p'.freed.toNat + l'.closing + c.shared.queue_close.toNat =
      p'.queue_close.toNat + l.closing + c.shared.freed.toNat)
    (hpool : c.shared.pool_close = true → p'.pool_close = true)
    (hjoining : l' = .joining → p'.pool_close = true)
    (hfreed : p'.freed = true → p'.running = 0) : Flags jobs' ⟨p', c.threads.set i l'⟩ where
  close := hclose
  running := by
    -- only this thread's part of the sum changes
    have hsum := Interleaving.sum_map_set Thread.works hi l'
    have hle := Interleaving.le_sum_map Thread.works hi
    have hold := h.running
    have hnew := hrunning (hold ▸ hle)
    show p'.running = ((c.threads.set i l').map Thread.works).sum
    omega
  closing := by
    have hsum := Interleaving.sum_map_set Thread.closing hi l'
    have hold := h.closing
    show ((c.threads.set i l').map Thread.closing).sum + p'.freed.toNat = p'.queue_close.toNat
    omega
  joining hmem := by
    rcases List.mem_or_eq_of_mem_set hmem with hmem | heq
    · exact hpool (h.joining hmem)
    · exact hjoining heq.symm
  freed := hfreed

/-- The one that closes the pool has closed the list. -/
theorem Flags.queue_close (h : Flags jobs c) (hi : c.threads[i]? = some l)
    (hl : l.closing = 1) : c.shared.queue_close = true ∧ c.shared.freed = false := by
  have hle := Interleaving.le_sum_map Thread.closing hi
  have hsum := h.closing
  cases hq : c.shared.queue_close <;> cases hf : c.shared.freed <;>
    simp only [hq, hf, Bool.toNat_true, Bool.toNat_false] at hsum ⊢ <;> first | omega | trivial

/-- The flags go with the threads that set them. -/
theorem Flags.step (h : Flags jobs c) (hi : c.threads[i]? = some l)
    (heff : Effect i c.shared jobs l p' jobs' l') : Flags jobs' ⟨p', c.threads.set i l'⟩ := by
  cases heff with
  | onward hl =>
    cases hl with
    | wait =>
      exact h.change hi h.close (fun _ => rfl) (by omega) id
        (fun heq => h.joining (heq ▸ List.mem_of_getElem? hi)) h.freed
    | refuse job =>
      exact h.change hi h.close (fun _ => rfl) (by simp [Thread.closing, Nat.add_comm]) id
        (by simp) h.freed
    | tooLate =>
      exact h.change hi h.close (fun _ => rfl) (by simp [Thread.closing, Nat.add_comm]) id
        (by simp) h.freed
  -- the pool is not closed, so its clause is void
  | accept hopen hopen' hlive =>
    exact h.change hi (fun hc => absurd hc (by simp [hopen'])) (fun _ => rfl)
      (by simp [Thread.closing, Nat.add_comm]) id (by simp) h.freed
  | take hjobs hopen =>
    exact h.change hi (fun hc => absurd hc (by simp [hopen])) (fun _ => rfl)
      (by simp [Thread.closing, Nat.add_comm]) id (by simp) h.freed
  | free hother =>
    exact h.change hi h.close (fun _ => rfl) (by simp [Thread.closing, Nat.add_comm]) id
      (by simp) h.freed
  | exit hc =>
    -- a worker leaves: it was counted in `running`, so the subtraction is exact
    refine h.change hi h.close (fun hle => ?_) (by simp [Thread.closing, Nat.add_comm]) id
      (by simp) fun hf => ?_
    · exact Nat.sub_add_cancel hle
    · show c.shared.running - 1 = 0
      rw [h.freed hf]
  | close hopen hopen' =>
    exact h.change hi (fun hc => absurd hc (by simp [hopen'])) (fun _ => rfl)
      (by simp [Thread.closing, hopen, Nat.add_comm]) id (by simp) h.freed
  -- no jobs are left: `queue_close` and `pool_close` are set in one turn
  | closeEmpty hopen hjobs =>
    exact h.change hi (fun _ => ⟨rfl, hjobs⟩) (fun _ => rfl)
      (by simp [Thread.closing, hopen, Nat.add_comm]) (fun _ => rfl) (fun _ => rfl) h.freed
  | drained hjobs =>
    -- the closing thread waited for the last job
    obtain ⟨hq, hf⟩ := h.queue_close hi rfl
    exact h.change hi (fun _ => ⟨hq, hjobs⟩) (fun _ => rfl)
      (by simp [Thread.closing, hq, hf]) (fun _ => rfl) (fun _ => rfl) h.freed
  | freePool hzero =>
    obtain ⟨hq, hf⟩ := h.queue_close hi rfl
    exact h.change hi h.close (fun _ => rfl) (by simp [Thread.closing, hq, hf]) id (by simp)
      fun _ => hzero

theorem Ok.step (h : Ok jobs c) (hi : c.threads[i]? = some l) (hlist : JobList p' jobs')
    (heff : Effect i c.shared jobs l p' jobs' l') : Ok jobs' ⟨p', c.threads.set i l'⟩ :=
  ⟨hlist, h.record.step hi heff, h.cells.step h.list hi heff, h.flags.step hi heff⟩

/-- A call that starts has put no job in the list and holds none. -/
theorem Ok.start (h : Ok jobs c) (r : Request) :
    Ok jobs ⟨c.shared, c.threads ++ [r.thread]⟩ := by
  have hr : r.thread.accepted = none ∧ r.thread.held = [] ∧ r.thread.works = 0 ∧
      r.thread.closing = 0 ∧ r.thread ≠ .joining := by
    cases r <;> simp [Request.thread, Thread.accepted, Thread.held, Thread.works, Thread.closing]
  obtain ⟨haccepted, hheld, hworks, hclosing, hjoining⟩ := hr
  -- the new thread holds no job
  have hflat : (c.threads ++ [r.thread]).flatMap Thread.held = c.threads.flatMap Thread.held := by
    rw [List.flatMap_append, List.flatMap_singleton, hheld, List.append_nil]
  refine ⟨h.list, ⟨h.record.once, fun e he => ?_,
    Interleaving.forall_append h.record.added fun job => ?_⟩, ⟨?_, fun a ha => ?_⟩,
    ⟨h.flags.close, ?_, ?_, fun hmem => ?_, h.flags.freed⟩⟩
  · rw [List.length_append]
    exact Nat.lt_add_right _ (h.record.lt e he)
  · rw [haccepted]
    exact iff_of_false (fun hmem => Nat.lt_irrefl _ (h.record.lt _ hmem)) (by simp)
  · rw [hflat]
    exact h.cells.nodup
  · rw [hflat] at ha
    exact h.cells.live a ha
  -- the two sums do not grow
  · rw [List.map_append, List.sum_append, List.map_singleton, List.sum_singleton, hworks]
    exact h.flags.running
  · rw [List.map_append, List.sum_append, List.map_singleton, List.sum_singleton, hclosing]
    exact h.flags.closing
  · rcases List.mem_append.mp hmem with hmem | hmem
    · exact h.flags.joining hmem
    · exact absurd (List.mem_singleton.mp hmem).symm hjoining

/-! ## Every schedule -/

theorem ok_initial (thread_num : Nat) {queue_max_num : Int} (hmax : 0 ≤ queue_max_num) :
    Ok [] (initial thread_num queue_max_num) := by
  have hworker : ∀ l ∈ List.replicate thread_num Thread.worker, l = .worker :=
    fun l hl => List.eq_of_mem_replicate hl
  -- no worker holds a job yet
  have hflat : (List.replicate thread_num Thread.worker).flatMap Thread.held = [] :=
    List.flatMap_eq_nil_iff.mpr fun l hl => by rw [hworker l hl]; rfl
  refine ⟨⟨rfl, rfl, rfl, hmax, rfl⟩, ⟨List.nodup_nil, fun e he => absurd he List.not_mem_nil, ?_⟩,
    ⟨?_, ?_⟩, ⟨fun h => absurd h Bool.false_ne_true, ?_, ?_, fun hmem => ?_,
      fun h => absurd h Bool.false_ne_true⟩⟩
  · intro j l hj job
    rw [hworker l (List.mem_of_getElem? hj)]
    exact iff_of_false List.not_mem_nil (by simp [Thread.accepted])
  · show ([] ++ (List.replicate thread_num Thread.worker).flatMap Thread.held).Nodup
    rw [hflat]
    exact List.nodup_nil
  · intro a ha
    exact absurd (hflat ▸ ha : a ∈ []) List.not_mem_nil
  · show thread_num = ((List.replicate thread_num Thread.worker).map Thread.works).sum
    rw [List.map_replicate, List.sum_replicate]
    exact (Nat.mul_one thread_num).symm
  · show ((List.replicate thread_num Thread.worker).map Thread.closing).sum + 0 = 0
    rw [List.map_replicate, List.sum_replicate]
    exact Nat.mul_zero thread_num
  · exact absurd (hworker _ hmem) (by simp)

/-- The invariant over every schedule that is defined. -/
theorem run_ok {es : Schedule} {c' : Config} (h : ∃ jobs, Ok jobs c)
    (hrun : Interleaving.run threads es c = some c') : ∃ jobs, Ok jobs c' := by
  refine @Interleaving.run_inv _ _ _ _ threads c c' (fun d => ∃ jobs, Ok jobs d)
    (fun r d ⟨jobs, hd⟩ => ⟨jobs, hd.start r⟩) ?_ es h hrun
  rintro i k c l s' l' ⟨jobs, hc⟩ hi hturn
  rcases turn_effect k hc hi with ⟨p', jobs', l₂, hturn', hlist, heff⟩ | ⟨-, hnone⟩
  · obtain ⟨rfl, rfl⟩ := Prod.mk.inj (Option.some.inj (hturn'.symm.trans hturn))
    exact ⟨jobs', hc.step hi hlist heff⟩
  · exact absurd (hnone.symm.trans hturn) (by simp)

/-- Once the list is closed, no step puts a job in it. -/
theorem run_closed {es : Schedule} {c' : Config} (h : ∃ jobs, Ok jobs c)
    (hclosed : c.shared.queue_close = true)
    (hrun : Interleaving.run threads es c = some c') :
    c'.shared.accepted = c.shared.accepted := by
  -- the invariant: closed, and the record as it was
  refine (@Interleaving.run_inv _ _ _ _ threads c c' (fun d => (∃ jobs, Ok jobs d) ∧
    d.shared.queue_close = true ∧ d.shared.accepted = c.shared.accepted) ?_ ?_ es
    ⟨h, hclosed, rfl⟩ hrun).2.2
  · rintro r d ⟨⟨jobs, hd⟩, hq, hacc⟩
    exact ⟨⟨jobs, hd.start r⟩, hq, hacc⟩
  · rintro i k d l s' l' ⟨⟨jobs, hd⟩, hq, hacc⟩ hi hturn
    rcases turn_effect k hd hi with ⟨p', jobs', l₂, hturn', hlist, heff⟩ | ⟨-, hnone⟩
    · obtain ⟨rfl, rfl⟩ := Prod.mk.inj (Option.some.inj (hturn'.symm.trans hturn))
      refine ⟨⟨jobs', hd.step hi hlist heff⟩, ?_⟩
      -- only one step adds to the record, and only while the list is open
      cases heff with
      | accept hopen => exact absurd hq (by simp [hopen])
      | close => exact ⟨rfl, hacc⟩
      | closeEmpty => exact ⟨rfl, hacc⟩
      | _ => exact ⟨hq, hacc⟩
    · exact absurd (hnone.symm.trans hturn) (by simp)

/-- Worker `j` took the job that call `i` added. -/
def Takes (p : Pool) (i j : Nat) (job : Job) : Prop :=
  ∃ k : Nat, p.accepted[k]? = some (i, job) ∧ p.taken[k]? = some (j, job)

/-- What is promised of a pool; `jobs` is its list. -/
structure Sound (jobs : List (Nat × Job)) (c : Config) : Prop where
  linked : Linked c.shared.heap c.shared.head jobs none
  tail : c.shared.tail = jobs.getLast?.map Prod.fst
  count : c.shared.queue_cur_num = jobs.length
  bound : 0 ≤ c.shared.queue_cur_num ∧ c.shared.queue_cur_num ≤ c.shared.queue_max_num
  /-- A call that returned 0 added its job once; one worker took it, or it is in the list. -/
  added : ∀ i job, c.threads[i]? = some (.added job 0) →
    (∃! k : Nat, c.shared.accepted[k]? = some (i, job)) ∧
    ((∃! j, Takes c.shared i j job) ∨
      ∃ k a : Nat, jobs[k]? = some (a, job) ∧
        c.shared.accepted[c.shared.taken.length + k]? = some (i, job))
  /-- The jobs are taken in the order in which they were added. -/
  inOrder : ∀ (k j : Nat) job, c.shared.taken[k]? = some (j, job) →
    ∃ i, c.shared.accepted[k]? = some (i, job)
  /-- When the pool is closed, every job that was added was taken. -/
  closed : c.shared.pool_close = true →
    jobs = [] ∧ ∀ e ∈ c.shared.accepted, ∃! j, Takes c.shared e.1 j e.2
  /-- Once the list is closed, no job is added. -/
  refused : c.shared.queue_close = true → ∀ (es : Schedule) c',
    Interleaving.run threads es c = some c' → c'.shared.accepted = c.shared.accepted
  /-- Only the pool's release makes a step undefined. -/
  defined : c.shared.freed = false → ∀ e, ∃ c', Interleaving.exec threads e c = some c'

/-- The jobs of the record at one place are the same. -/
theorem JobList.record_getElem? (h : JobList p jobs) {k : Nat} {e : Nat × Job}
    (he : p.accepted[k]? = some e) :
    (∃ j, p.taken[k]? = some (j, e.2)) ∨
      p.taken.length ≤ k ∧ ∃ a, jobs[k - p.taken.length]? = some (a, e.2) := by
  -- the record is what was taken, and behind it what is still in the list
  have hsnd : (p.accepted.map Prod.snd)[k]? = some e.2 := by
    rw [List.getElem?_map, he]
    rfl
  rw [h.record] at hsnd
  rcases Nat.lt_or_ge k p.taken.length with hlt | hge
  · rw [List.getElem?_append_left (by simpa using hlt), List.getElem?_map,
      Option.map_eq_some_iff] at hsnd
    obtain ⟨⟨j, job⟩, hj, rfl⟩ := hsnd
    exact .inl ⟨j, hj⟩
  · rw [List.getElem?_append_right (by simpa using hge), List.length_map, List.getElem?_map,
      Option.map_eq_some_iff] at hsnd
    obtain ⟨⟨a, job⟩, ha, rfl⟩ := hsnd
    exact .inr ⟨hge, a, ha⟩

theorem JobList.taken_getElem? (h : JobList p jobs) {k j : Nat} {job : Job}
    (hk : p.taken[k]? = some (j, job)) : ∃ i, p.accepted[k]? = some (i, job) := by
  have hlt := (List.getElem?_eq_some_iff.mp hk).1
  have hsnd : (p.accepted.map Prod.snd)[k]? = some job := by
    rw [h.record, List.getElem?_append_left (by simpa using hlt), List.getElem?_map, hk]
    rfl
  rw [List.getElem?_map, Option.map_eq_some_iff] at hsnd
  obtain ⟨⟨i, job'⟩, hi, rfl⟩ := hsnd
  exact ⟨i, hi⟩

/-- A call is at one place of the record. -/
theorem Record.inj (h : Record c) {k k' : Nat} {job job' : Job}
    (hk : c.shared.accepted[k]? = some (i, job))
    (hk' : c.shared.accepted[k']? = some (i, job')) : k = k' :=
  KeyedList.getElem?_key_inj h.once hk hk' rfl

/-- A job that was added and is not in the list was taken, by one worker. -/
theorem Ok.taken (h : Ok jobs c) {k : Nat} {e : Nat × Job}
    (hk : c.shared.accepted[k]? = some e) :
    (∃! j, Takes c.shared e.1 j e.2) ∨
      c.shared.taken.length ≤ k ∧ ∃ a, jobs[k - c.shared.taken.length]? = some (a, e.2) := by
  refine (h.list.record_getElem? hk).imp_left ?_
  rintro ⟨j, hj⟩
  refine ⟨j, ⟨k, hk, hj⟩, ?_⟩
  rintro j' ⟨k', hk', hj'⟩
  obtain rfl := h.record.inj hk' hk
  exact (Prod.mk.inj (Option.some.inj (hj'.symm.trans hj))).1

theorem Ok.sound (h : Ok jobs c) : Sound jobs c := by
  refine ⟨h.list.linked, h.list.tail, h.list.count, ⟨?_, h.list.bound⟩, ?_, ?_, ?_, ?_, ?_⟩
  · rw [h.list.count]
    exact Int.natCast_nonneg _
  -- a job that a call added is in the record at one place, and was taken or is in the list
  · intro i job hi
    obtain ⟨k, hk⟩ := List.mem_iff_getElem?.mp ((h.record.added i _ hi job).mpr rfl)
    refine ⟨⟨k, hk, fun k' hk' => h.record.inj hk' hk⟩, ?_⟩
    rcases h.taken hk with htaken | ⟨hge, a, ha⟩
    · exact .inl htaken
    · exact .inr ⟨_, a, ha, by rw [Nat.add_sub_cancel' hge]; exact hk⟩
  · exact fun k j job hk => h.list.taken_getElem? hk
  -- the pool closes when the list is empty
  · intro hclose
    obtain ⟨-, rfl⟩ := h.flags.close hclose
    refine ⟨rfl, ?_⟩
    intro e he
    obtain ⟨k, hk⟩ := List.mem_iff_getElem?.mp he
    rcases h.taken hk with htaken | ⟨-, a, ha⟩
    · exact htaken
    · exact absurd ha (by simp)
  · exact fun hclosed es c' hrun => run_closed ⟨jobs, h⟩ hclosed hrun
  -- only a freed pool makes a step undefined
  · intro hfreed e
    cases e with
    | start r => exact ⟨_, rfl⟩
    | turn i k =>
      cases hi : c.threads[i]? with
      | none => exact ⟨c, by rw [Interleaving.exec, hi]⟩
      | some l =>
        rcases turn_effect k h hi with ⟨p', jobs', l', hturn, -, -⟩ | ⟨hfreed', -⟩
        · refine ⟨⟨p', c.threads.set i l'⟩, ?_⟩
          have hturn' : threads.turn k i c.shared l = some (p', l') := hturn
          simp only [Interleaving.exec, hi, hturn', Option.map_some]
        · exact absurd hfreed' (by simp [hfreed])

/-- Every state that a pool can reach. -/
theorem threadpool_sound {thread_num : Nat} {queue_max_num : Int} (hmax : 1 ≤ queue_max_num)
    {es : Schedule}
    (hrun : Interleaving.run threads es (initial thread_num queue_max_num) = some c) :
    ∃ jobs, Sound jobs c := by
  obtain ⟨jobs, hok⟩ := run_ok ⟨[], ok_initial thread_num (by omega)⟩ hrun
  exact ⟨jobs, hok.sound⟩

/-- A job is added, the pool is destroyed, and a second job comes too late. -/
def destroyedRun : Schedule :=
  [.start (.addJob ⟨1, 2⟩), .turn 1 .goOn, .start .destroy, .turn 2 .goOn,
    .start (.addJob ⟨3, 4⟩), .turn 3 .goOn, .turn 0 .goOn, .turn 2 .goOn, .turn 0 .goOn,
    .turn 0 .goOn, .turn 2 .goOn]

theorem threadpool_sound_destroyedRun :
    ∃ c, Interleaving.run threads destroyedRun (initial 1 1) = some c ∧
      c.threads = [.exited, .added ⟨1, 2⟩ 0, .destroyed 0, .added ⟨3, 4⟩ (-1)] ∧
      ∃ jobs, Sound jobs c := by
  have hsome : (Interleaving.run threads destroyedRun (initial 1 1)).map (·.threads) =
      some [.exited, .added ⟨1, 2⟩ 0, .destroyed 0, .added ⟨3, 4⟩ (-1)] := by
    decide +kernel
  obtain ⟨c, hrun, hthreads⟩ := Option.map_eq_some_iff.mp hsome
  exact ⟨c, hrun, hthreads, threadpool_sound (Int.le_refl 1) hrun⟩

end PgClient.ThreadPool
