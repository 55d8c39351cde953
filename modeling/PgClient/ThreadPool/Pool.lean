import PgClient.Lib.Interleaving
import PgClient.Lib.LinkedHeap

/-!
# The thread pool of `threadpool.c`

Worker threads take jobs from a list with a limit; any number of callers add jobs, and
`threadpool_destroy` closes the list, waits until it is empty and ends the workers. What is done
under the mutex is one step. A thread at a condition wait may wake up at any moment and look
again, so a wait is a step that leaves all as it is, and signals need not be modelled.

* `turn` — one step of one thread.
* `JobList` — the list, its counter and its two pointers.
* `threadpoolAddJob_accepts`, `threadpoolFunction_takes`, `runJob_frees` — what is done to it.
-/

namespace PgClient.ThreadPool

open LinkedHeap (Heap Linked)

/-! ## The code -/

/-- What `struct job` has besides its link; neither pointer is NULL, as `threadpool_add_job`
asserts. -/
structure Job where
  callback_function : Nat
  arg : Nat
  deriving DecidableEq

/-- `struct threadpool`, and what becomes of it. -/
structure Pool where
  queue_max_num : Int
  head : Option Nat
  tail : Option Nat
  queue_cur_num : Int
  queue_close : Bool
  pool_close : Bool
  /-- The jobs that `malloc` gave. -/
  heap : Heap Job
  /-- The workers that `pthread_join` would wait for. -/
  running : Nat
  /-- `free(pool)`. -/
  freed : Bool
  /-- The jobs that were put in the list, each with its call; the code does not read this. -/
  accepted : List (Nat × Job)
  /-- The jobs that were taken from the list, each with its worker. -/
  taken : List (Nat × Job)

/-- `threadpool_init`. -/
def threadpoolInit (thread_num : Nat) (queue_max_num : Int) : Pool where
  queue_max_num := queue_max_num
  head := none
  tail := none
  queue_cur_num := 0
  queue_close := false
  pool_close := false
  heap := Heap.empty
  running := thread_num
  freed := false
  accepted := []
  taken := []

/-- A call from outside. -/
inductive Request
  | addJob (job : Job)
  | destroy

/-- The next step of a thread. -/
inductive Thread
  /-- `threadpool_function`, at the mutex. -/
  | worker
  /-- `threadpool_function`, with a job that it took. -/
  | running (pjob : Nat)
  /-- `threadpool_function` after `pthread_exit`. -/
  | exited
  /-- `threadpool_add_job`, at the mutex. -/
  | adding (job : Job)
  /-- `threadpool_add_job` returned. -/
  | added (job : Job) (result : Int)
  /-- `threadpool_destroy`, at the mutex. -/
  | destroying
  /-- `threadpool_destroy`, waiting for the list to get empty. -/
  | draining
  /-- `threadpool_destroy`, at `pthread_join`. -/
  | joining
  /-- `threadpool_destroy` returned. -/
  | destroyed (result : Int)
  deriving DecidableEq

def Request.thread : Request → Thread
  | .addJob job => .adding job
  | .destroy => .destroying

/-- Whether a `malloc` fails. -/
inductive Choice
  | goOn
  | mallocFails
  deriving DecidableEq

/-- The section of `threadpool_add_job` in call `i`; `none` is undefined behaviour, here and
below. -/
def threadpoolAddJob (k : Choice) (i : Nat) (p : Pool) (job : Job) : Option (Pool × Thread) :=
  if p.freed then none
  else if p.queue_cur_num = p.queue_max_num ∧ ¬ (p.queue_close ∨ p.pool_close) then
    some (p, .adding job)
  else if p.queue_close ∨ p.pool_close then some (p, .added job (-1))
  else if k = .mallocFails then some (p, .added job (-1))
  else
    let r := p.heap.alloc job
    let p := { p with
      heap := r.1, queue_cur_num := p.queue_cur_num + 1, accepted := p.accepted ++ [(i, job)] }
    match p.head with
    | none => some ({ p with head := some r.2, tail := some r.2 }, .added job 0)
    | some _ =>
      match p.tail with
      | none => none
      | some tail =>
        (p.heap.setNext tail (some r.2)).map fun heap =>
          ({ p with heap := heap, tail := some r.2 }, .added job 0)

/-- The section of `threadpool_function` in worker `i`. A null `pjob` is dereferenced when its
callback is called, at the latest. -/
def threadpoolFunction (i : Nat) (p : Pool) : Option (Pool × Thread) :=
  if p.freed then none
  else if p.queue_cur_num = 0 ∧ ¬ p.pool_close then some (p, .worker)
  else if p.pool_close then some ({ p with running := p.running - 1 }, .exited)
  else
    match p.head with
    | none => none
    | some pjob =>
      match p.heap.cells pjob with
      | none => none
      | some c =>
        let queue_cur_num := p.queue_cur_num - 1
        some ({ p with
          queue_cur_num := queue_cur_num
          head := if queue_cur_num = 0 then none else c.next
          tail := if queue_cur_num = 0 then none else p.tail
          taken := p.taken ++ [(i, c.val)] }, .running pjob)

/-- The callback, and `free(pjob)`. -/
def runJob (p : Pool) (pjob : Nat) : Option (Pool × Thread) :=
  (p.heap.free pjob).map fun heap => ({ p with heap := heap }, .worker)

/-- The wait of `threadpool_destroy`, and what it does when the list is empty. -/
def drain (p : Pool) : Pool × Thread :=
  if p.queue_cur_num ≠ 0 then (p, .draining) else ({ p with pool_close := true }, .joining)

/-- The last loop of `threadpool_destroy`. -/
def freeJobs : Nat → Heap Job → Option Nat → Option (Heap Job)
  | _, h, none => some h
  | 0, _, some _ => none
  | fuel + 1, h, some p =>
    match h.cells p with
    | none => none
    | some c => (h.free p).bind fun h => freeJobs fuel h c.next

/-- One step of thread `i`. -/
def turn (k : Choice) (i : Nat) (p : Pool) : Thread → Option (Pool × Thread)
  | .worker => threadpoolFunction i p
  | .running pjob => runJob p pjob
  | .exited => some (p, .exited)
  | .adding job => threadpoolAddJob k i p job
  | .added job result => some (p, .added job result)
  | .destroying =>
    if p.freed then none
    else if p.queue_close ∨ p.pool_close then some (p, .destroyed (-1))
    else some (drain { p with queue_close := true })
  | .draining => if p.freed then none else some (drain p)
  | .joining =>
    if p.freed then none
    else if p.running ≠ 0 then some (p, .joining)
    else (freeJobs p.heap.brk p.heap p.head).map fun heap =>
      ({ p with heap := heap, head := none, freed := true }, .destroyed 0)
  | .destroyed result => some (p, .destroyed result)

/-- The threads of a pool. -/
def threads : Interleaving.System Request Choice Pool Thread := ⟨Request.thread, turn⟩

abbrev Schedule := List (Interleaving.Event Request Choice)

abbrev Config := Interleaving.Config Pool Thread

/-- A pool and its workers when `threadpool_init` returns. -/
def initial (thread_num : Nat) (queue_max_num : Int) : Config :=
  ⟨threadpoolInit thread_num queue_max_num, List.replicate thread_num .worker⟩

/-! ## The list of jobs -/

/-- `jobs` is the list, with the addresses of its nodes. -/
structure JobList (p : Pool) (jobs : List (Nat × Job)) : Prop where
  linked : Linked p.heap p.head jobs none
  tail : p.tail = jobs.getLast?.map Prod.fst
  count : p.queue_cur_num = jobs.length
  bound : p.queue_cur_num ≤ p.queue_max_num
  record : p.accepted.map Prod.snd = p.taken.map Prod.snd ++ jobs.map Prod.snd

variable {p p' : Pool} {jobs jobs' : List (Nat × Job)} {i : Nat}

theorem JobList.head_eq (h : JobList p jobs) : p.head = jobs.head?.map Prod.fst := by
  have hlinked := h.linked
  cases jobs with
  | nil => exact hlinked
  | cons x jobs => exact hlinked.1

theorem JobList.eq_nil (h : JobList p jobs) (hcur : p.queue_cur_num = 0) : jobs = [] := by
  have hlen : (jobs.length : Int) = 0 := h.count.symm.trans hcur
  exact List.length_eq_zero_iff.mp (by exact_mod_cast hlen)

/-- The nodes are different, and `malloc` gave them all. -/
theorem JobList.nodup (h : JobList p jobs) : (jobs.map Prod.fst).Nodup :=
  h.linked.nodup (LinkedHeap.dead_none _)

/-- What the code does with the list when a job is added. -/
theorem JobList.append (h : JobList p jobs) (job : Job) (hroom : p.queue_cur_num ≠ p.queue_max_num)
    {heap : Heap Job} {head tail : Option Nat}
    (hlinked : Linked heap head (jobs ++ [(p.heap.brk, job)]) none)
    (htail : tail = some p.heap.brk) :
    JobList { p with
      heap := heap, head := head, tail := tail, queue_cur_num := p.queue_cur_num + 1,
      accepted := p.accepted ++ [(i, job)] } (jobs ++ [(p.heap.brk, job)]) where
  linked := hlinked
  tail := by rw [List.getLast?_concat]; exact htail
  count := by
    show p.queue_cur_num + 1 = _
    rw [h.count, List.length_append, List.length_singleton]
    omega
  bound := by
    have hbound := h.bound
    show p.queue_cur_num + 1 ≤ p.queue_max_num
    omega
  record := by
    -- the job comes last in the record and in the list
    show (p.accepted ++ [(i, job)]).map Prod.snd = _
    rw [List.map_append, h.record, List.map_append, List.append_assoc]
    rfl

/-- A job is added to a list that has room. -/
theorem threadpoolAddJob_accepts (h : JobList p jobs) (job : Job) (hfreed : p.freed = false)
    (hclose : p.queue_close = false) (hpool : p.pool_close = false)
    (hroom : p.queue_cur_num ≠ p.queue_max_num) :
    ∃ heap head tail, let p' := { p with
        heap := heap, head := head, tail := tail, queue_cur_num := p.queue_cur_num + 1,
        accepted := p.accepted ++ [(i, job)] }
      threadpoolAddJob .goOn i p job = some (p', .added job 0) ∧
      JobList p' (jobs ++ [(p.heap.brk, job)]) ∧
      ∀ a, (p.heap.cells a).isSome → (heap.cells a).isSome := by
  have hlive : ∀ a, (p.heap.cells a).isSome → ((p.heap.alloc job).1.cells a).isSome := by
    intro a ha
    obtain ⟨c, hc⟩ := Option.isSome_iff_exists.mp ha
    rw [Heap.alloc_cells_of_ne _ _ (Nat.ne_of_lt (Heap.lt_brk_of_live hc))]
    exact ha
  have hnew := p.heap.alloc_cells_self job
  rcases List.eq_nil_or_concat' jobs with rfl | ⟨front, last, rfl⟩
  · -- the list is empty: both pointers go to the new node
    have hhead : p.head = none := h.linked
    refine ⟨(p.heap.alloc job).1, some p.heap.brk, some p.heap.brk, ?_, ?_, hlive⟩
    · simp [threadpoolAddJob, hfreed, hclose, hpool, hroom, hhead]
    · exact h.append job hroom ⟨rfl, none, hnew, rfl⟩ rfl
  · obtain ⟨a, v⟩ := last
    have htail : p.tail = some a := by
      rw [h.tail, List.getLast?_concat]
      rfl
    obtain ⟨b, hhead⟩ : ∃ b, p.head = some b := by
      rw [h.head_eq]
      cases front <;> exact ⟨_, rfl⟩
    have hlinked := h.linked.alloc job
    obtain ⟨n, hn⟩ := h.linked.live (x := (a, v)) (by simp)
    have hane : p.heap.brk ≠ a := (Nat.ne_of_lt (Heap.lt_brk_of_live hn)).symm
    rw [← Heap.alloc_cells_of_ne _ job hane.symm] at hn
    obtain ⟨heap, hset, hself, hother, -⟩ := Heap.setNext_live (some p.heap.brk) hn
    refine ⟨heap, p.head, some p.heap.brk, ?_, ?_, fun c hc => ?_⟩
    · simp only [threadpoolAddJob, hfreed, hclose, hpool, hroom, hhead, htail, Heap.alloc_addr,
        hset]
      simp
    · refine h.append job hroom ?_ rfl
      have hrelinked := hlinked.setNext_last (some p.heap.brk) (LinkedHeap.dead_none _) hset
      refine LinkedHeap.linked_append.mpr ⟨some p.heap.brk, hrelinked, rfl, none, ?_, rfl⟩
      rw [hother _ hane]
      exact hnew
    · by_cases hca : c = a
      · rw [hca, hself]
        rfl
      · rw [hother c hca]
        exact hlive c hc

/-- The first job is taken from a list that has one. -/
theorem threadpoolFunction_takes {a : Nat} {job : Job} (h : JobList p ((a, job) :: jobs))
    (hfreed : p.freed = false) (hpool : p.pool_close = false) :
    ∃ head tail, let p' := { p with
        queue_cur_num := p.queue_cur_num - 1, head := head, tail := tail,
        taken := p.taken ++ [(i, job)] }
      threadpoolFunction i p = some (p', .running a) ∧ JobList p' jobs := by
  obtain ⟨hhead, n, hcell, hrest⟩ := h.linked
  have hcount := h.count
  rw [List.length_cons] at hcount
  have hcur : p.queue_cur_num ≠ 0 := by omega
  -- the counter tells when the last job is taken, and both ends are cleared then
  have hiff : p.queue_cur_num - 1 = 0 ↔ jobs = [] := by
    rw [← List.length_eq_zero_iff]
    omega
  refine ⟨if p.queue_cur_num - 1 = 0 then none else n,
    if p.queue_cur_num - 1 = 0 then none else p.tail, ?_, ?_⟩
  · simp [threadpoolFunction, hfreed, hpool, hcur, hhead, hcell]
  · refine ⟨?_, ?_, ?_, ?_, ?_⟩
    · show Linked p.heap (if p.queue_cur_num - 1 = 0 then none else n) jobs none
      split_ifs with hzero
      · rw [hiff.mp hzero]
        rfl
      · exact hrest
    · show (if p.queue_cur_num - 1 = 0 then none else p.tail) = _
      split_ifs with hzero
      · rw [hiff.mp hzero]
        rfl
      · rw [h.tail]
        cases jobs with
        | nil => exact absurd (hiff.mpr rfl) hzero
        | cons x jobs => rw [List.getLast?_cons_cons]
    · show p.queue_cur_num - 1 = _
      omega
    · have hbound := h.bound
      show p.queue_cur_num - 1 ≤ p.queue_max_num
      omega
    · show p.accepted.map Prod.snd = (p.taken ++ [(i, job)]).map Prod.snd ++ _
      rw [h.record, List.map_append, List.append_assoc]
      rfl

/-- A job that is done with is not in the list. -/
theorem runJob_frees (h : JobList p jobs) {a : Nat} (ha : a ∉ jobs.map Prod.fst)
    (hlive : (p.heap.cells a).isSome) :
    ∃ heap, runJob p a = some ({ p with heap := heap }, .worker) ∧
      JobList { p with heap := heap } jobs ∧
      ∀ b, b ≠ a → heap.cells b = p.heap.cells b := by
  obtain ⟨c, hc⟩ := Option.isSome_iff_exists.mp hlive
  obtain ⟨heap, hfree, -, hother, -⟩ := Heap.free_live hc
  refine ⟨heap, by rw [runJob, hfree]; rfl, ⟨?_, h.tail, h.count, h.bound, h.record⟩, hother⟩
  refine h.linked.congr fun x hx => hother x.1 fun heq => ha ?_
  exact heq ▸ List.mem_map_of_mem hx

end PgClient.ThreadPool
