import PgClient.Pgos.EventWaits

/-!
# What the modes of a wait mean

The four modes are in the code twice, in `_DisptchEventList` and in `MsOS_WaitEvent` with no time
to wait. A mode with AND stands for all flags of the request, one with OR for any of them, and one
with CLEAR takes the flags of the request away when it is served.

* `dispatch_spec` — what the dispatcher leaves in the container and of the flags.
* `serves_iff`, `polls_iff` — when a message and a poll are handled as the modes mean it.
* `means_iff` — the same all along a run.
-/

namespace PgClient.Pgos.Event

open PartialRun

/-- All flags of the request are wanted. -/
def EventWaitMode.all : EventWaitMode → Bool
  | .E_AND => true
  | .E_OR => false
  | .E_AND_CLEAR => true
  | .E_OR_CLEAR => false

/-- What the mode of the request means. -/
def EventNode.meant (n : EventNode) (flags : UInt32) : Bool :=
  if n.requestEventMode.all then n.requestEventFlag &&& flags = n.requestEventFlag
  else n.requestEventFlag &&& flags ≠ 0

/-! ## The dispatcher -/

/-- The requests of `g` are served as their modes mean it. A request that is served leaves the
container. -/
structure Serves (g g' : Group) : Prop where
  released : ∀ (i : Nat) (n : EventNode), g.container[i]? = some n → n.eventSemaphore ≠ 0 →
    (g'.container[i]? = some { n with eventSemaphore := 0 } ↔ n.meant g.eventFlag)
  /-- A turn of the loop takes only flags away that its request has. -/
  cleared : Along (Group.dispatchNode g.eventFlag) (fun i g₁ => ∀ n g₂,
    g₁.container[i]? = some n → Group.dispatchNode g.eventFlag i g₁ = some g₂ →
      g₁.eventFlag &&& ~~~g₂.eventFlag &&& ~~~n.requestEventFlag = 0)
    (List.range eventNodeNum) g

/-- The request is served, and takes flags away. -/
def EventNode.takes (n : EventNode) (flags : UInt32) : Bool :=
  n.eventSemaphore ≠ 0 && n.wants flags && n.requestEventMode.clears

/-- The first request that takes flags away. -/
def firstTaking (u32EventFlag : UInt32) (container : List EventNode) : Option EventNode :=
  container.find? (·.takes u32EventFlag)

/-- A request with AND that has all its flags has them exactly, and the first one that takes flags
away has them all. -/
structure Exact (u32EventFlag : UInt32) (container : List EventNode) : Prop where
  all : ∀ n ∈ container, n.eventSemaphore ≠ 0 → n.requestEventMode.all →
    n.requestEventFlag &&& u32EventFlag = n.requestEventFlag → n.requestEventFlag = u32EventFlag
  first : ∀ n ∈ firstTaking u32EventFlag container, u32EventFlag &&& ~~~n.requestEventFlag = 0

instance (u32EventFlag : UInt32) (container : List EventNode) :
    Decidable (Exact u32EventFlag container) :=
  decidable_of_iff ((∀ n ∈ container, n.eventSemaphore ≠ 0 → n.requestEventMode.all →
      n.requestEventFlag &&& u32EventFlag = n.requestEventFlag →
        n.requestEventFlag = u32EventFlag) ∧
    ∀ n ∈ firstTaking u32EventFlag container, u32EventFlag &&& ~~~n.requestEventFlag = 0)
    ⟨fun h => ⟨h.1, h.2⟩, fun h => ⟨h.all, h.first⟩⟩

section Dispatch

variable {g g' : Group} {f : UInt32} {n : EventNode} {i k : Nat}

/-- What `_DisptchEventList` compares is what the mode means, if a request with AND does not have
some more flags than its own. -/
theorem meant_eq_wants_iff : n.meant f = n.wants f ↔ (n.requestEventMode.all →
    n.requestEventFlag &&& f = n.requestEventFlag → n.requestEventFlag = f) := by
  have hself : n.requestEventFlag = f → n.requestEventFlag &&& f = n.requestEventFlag := by
    rintro rfl
    exact UInt32.and_self
  cases hmode : n.requestEventMode <;>
    simp [EventNode.meant, EventNode.wants, EventWaitMode.all, hmode]
  · exact ⟨Iff.mp, fun h => ⟨h, hself⟩⟩
  · exact ⟨Iff.mp, fun h => ⟨h, hself⟩⟩

/-- What serving a request does, apart from the memory. -/
theorem serve_cases (h : g.serve f i n = some g') :
    g'.container = g.container.set i { n with eventSemaphore := 0 } ∧
      g'.eventFlag = if n.requestEventMode.clears then g.eventFlag &&& ~~~f else g.eventFlag := by
  obtain ⟨g₁, hwrite, hrest⟩ := Option.bind_eq_some_iff.mp h
  obtain ⟨g₂, hpost, rfl⟩ := Option.map_eq_some_iff.mp hrest
  -- the write to the waiting call's memory
  have hg₁ : g₁.container = g.container ∧ g₁.eventFlag = g.eventFlag := by
    unfold Group.write at hwrite
    split at hwrite
    · exact nomatch hwrite
    · obtain rfl := Option.some.inj hwrite
      exact ⟨rfl, rfl⟩
  -- the post of its semaphore
  have hg₂ : g₂.container = g₁.container ∧ g₂.eventFlag = g₁.eventFlag := by
    unfold Group.post at hpost
    split at hpost
    · exact nomatch hpost
    · obtain rfl := Option.some.inj hpost
      exact ⟨rfl, rfl⟩
  exact ⟨by rw [hg₂.1, hg₁.1], by rw [hg₂.2, hg₁.2]⟩

/-- A request after `k` turns of the dispatcher. -/
def EventNode.after (f : UInt32) (k i : Nat) (n : EventNode) : EventNode :=
  if i < k ∧ n.eventSemaphore ≠ 0 ∧ n.wants f then { n with eventSemaphore := 0 } else n

/-- Nodes behind the dispatcher are as they were. -/
theorem after_of_le (h : k ≤ i) : n.after f k i = n := if_neg fun hserved => by omega

/-- A turn of the dispatcher changes one node at most. -/
theorem after_succ_of_ne (h : i ≠ k) : n.after f (k + 1) i = n.after f k i := by
  have hlt : i < k + 1 ↔ i < k := by omega
  simp only [EventNode.after, hlt]

/-- A turn serves the request in its place, if that wants the flags. -/
theorem dispatchNode_spec (hi : g.container[i]? = some n)
    (h : Group.dispatchNode f i g = some g') :
    g'.container = g.container.set i (n.after f (i + 1) i) ∧
      g'.eventFlag = if n.takes f then g.eventFlag &&& ~~~f else g.eventFlag := by
  simp only [Group.dispatchNode, hi] at h
  -- the request is served, or stays as it is
  split_ifs at h with hserve
  · obtain ⟨hcontainer, hflag⟩ := serve_cases h
    simp [hcontainer, hflag, EventNode.after, EventNode.takes, hserve]
  · obtain rfl := Option.some.inj h
    have hstays : n.after f (i + 1) i = n := by simp [EventNode.after, hserve]
    have htakes : n.takes f = false := by
      simp only [EventNode.takes, Bool.and_eq_false_iff]
      grind
    refine ⟨?_, by simp [htakes]⟩
    rw [hstays]
    obtain ⟨hlt, rfl⟩ := List.getElem?_eq_some_iff.mp hi
    rw [List.set_getElem_self]

/-- **The turns of the dispatcher**: the requests that want the flags are served, and the flags are
gone if one of these takes them. -/
theorem dispatch_spec (hk : k ≤ g.container.length)
    (hrun : runAll (Group.dispatchNode f) (List.range k) g = some g') :
    g'.container = g.container.mapIdx (EventNode.after f k) ∧
      g'.eventFlag = if (g.container.take k).any (·.takes f) then g.eventFlag &&& ~~~f
        else g.eventFlag := by
  induction k generalizing g' with
  | zero =>
    obtain rfl := Option.some.inj hrun
    refine ⟨List.ext_getElem? fun i => ?_, by simp⟩
    rw [List.getElem?_mapIdx]
    cases g.container[i]? with
    | none => rfl
    | some n => rw [Option.map_some, after_of_le (Nat.zero_le i)]
  | succ k ih =>
    rw [runAll_range_succ] at hrun
    obtain ⟨g₁, hrun₁, hturn⟩ := Option.bind_eq_some_iff.mp hrun
    obtain ⟨hcontainer, hflag⟩ := ih (by omega) hrun₁
    -- the request at `k` is still the one of the start
    have hk₁ : g.container[k]? = some g.container[k] := List.getElem?_eq_getElem (by omega)
    have hi : g₁.container[k]? = some g.container[k] := by
      rw [hcontainer, List.getElem?_mapIdx, hk₁, Option.map_some, after_of_le (Nat.le_refl k)]
    obtain ⟨hcontainer', hflag'⟩ := dispatchNode_spec hi hturn
    constructor
    · rw [hcontainer', hcontainer]
      apply List.ext_getElem?
      intro i
      rcases eq_or_ne i k with rfl | hne
      · rw [List.getElem?_set_self (by rw [List.length_mapIdx]; omega), List.getElem?_mapIdx, hk₁]
        rfl
      · rw [List.getElem?_set_ne hne.symm, List.getElem?_mapIdx, List.getElem?_mapIdx]
        cases g.container[i]? with
        | none => rfl
        | some n => rw [Option.map_some, Option.map_some, after_succ_of_ne hne]
    · have hany : (g.container.take (k + 1)).any (·.takes f) =
          ((g.container.take k).any (·.takes f) || g.container[k].takes f) := by
        rw [List.take_add_one, hk₁, List.any_append, Option.toList_some, List.any_cons,
          List.any_nil, Bool.or_false]
      rw [hflag', hflag, hany]
      cases (g.container.take k).any (·.takes f) <;> cases g.container[k].takes f <;>
        simp [UInt32.and_assoc]

/-- A node it has passed is served exactly if the node wants the flags. -/
theorem after_eq_served_iff (hi : i < k) (hn : n.eventSemaphore ≠ 0) :
    n.after f k i = { n with eventSemaphore := 0 } ↔ n.wants f = true := by
  by_cases hwants : n.wants f = true
  · simp [EventNode.after, hi, hn, hwants]
  · have hstays : n.after f k i = n := if_neg fun hserved => hwants hserved.2.2
    rw [hstays]
    refine iff_of_false (fun heq => hn ?_) hwants
    rw [heq]

/-- The requests are served as their modes mean it if none with AND has flags besides its own. -/
theorem released_iff (hsize : g.container.length = eventNodeNum)
    (hdispatch : g.dispatchEventList = some g') :
    (∀ (i : Nat) (n : EventNode), g.container[i]? = some n → n.eventSemaphore ≠ 0 →
      (g'.container[i]? = some { n with eventSemaphore := 0 } ↔ n.meant g.eventFlag)) ↔
      ∀ n ∈ g.container, n.eventSemaphore ≠ 0 → n.requestEventMode.all →
        n.requestEventFlag &&& g.eventFlag = n.requestEventFlag →
          n.requestEventFlag = g.eventFlag := by
  obtain ⟨hcontainer, -⟩ := dispatch_spec (Nat.le_of_eq hsize.symm) hdispatch
  -- for each request alone
  have hone : ∀ (i : Nat) (n : EventNode), g.container[i]? = some n → n.eventSemaphore ≠ 0 →
      ((g'.container[i]? = some { n with eventSemaphore := 0 } ↔ n.meant g.eventFlag) ↔
        (n.requestEventMode.all → n.requestEventFlag &&& g.eventFlag = n.requestEventFlag →
          n.requestEventFlag = g.eventFlag)) := by
    intro i n hi hn
    have hlt : i < eventNodeNum := hsize ▸ (List.getElem?_eq_some_iff.mp hi).1
    rw [hcontainer, List.getElem?_mapIdx, hi, Option.map_some, Option.some_inj,
      after_eq_served_iff hlt hn, ← meant_eq_wants_iff, ← Bool.eq_iff_iff, eq_comm]
  constructor
  · intro h n hmem hn
    obtain ⟨i, hi⟩ := List.mem_iff_getElem?.mp hmem
    exact (hone i n hi hn).mp (h i n hi hn)
  · intro h i n hi hn
    exact (hone i n hi hn).mpr (h n (List.mem_of_getElem? hi) hn)

/-- What is taken away was requested if the first that takes flags requested them all. -/
theorem cleared_iff (hsize : g.container.length = eventNodeNum)
    (hdispatch : g.dispatchEventList = some g') :
    Along (Group.dispatchNode g.eventFlag) (fun i g₁ => ∀ n g₂,
      g₁.container[i]? = some n → Group.dispatchNode g.eventFlag i g₁ = some g₂ →
        g₁.eventFlag &&& ~~~g₂.eventFlag &&& ~~~n.requestEventFlag = 0)
      (List.range eventNodeNum) g ↔ ∀ n ∈ firstTaking g.eventFlag g.container,
        g.eventFlag &&& ~~~n.requestEventFlag = 0 := by
  -- at a turn, the flags are whole or gone
  have hone : ∀ k, ∀ (hk : k < g.container.length), ∀ g₁ g₂,
      runAll (Group.dispatchNode g.eventFlag) (List.range k) g = some g₁ →
      Group.dispatchNode g.eventFlag k g₁ = some g₂ →
      g₁.container[k]? = some g.container[k] ∧
      (g₁.eventFlag &&& ~~~g₂.eventFlag &&& ~~~g.container[k].requestEventFlag = 0 ↔
        ((g.container.take k).any (·.takes g.eventFlag) = false →
          g.container[k].takes g.eventFlag = true →
            g.eventFlag &&& ~~~g.container[k].requestEventFlag = 0)) := by
    intro k hk g₁ g₂ hrun hturn
    obtain ⟨hcontainer, hflag⟩ := dispatch_spec (Nat.le_of_lt hk) hrun
    have hi : g₁.container[k]? = some g.container[k] := by
      rw [hcontainer, List.getElem?_mapIdx, List.getElem?_eq_getElem hk, Option.map_some,
        after_of_le (Nat.le_refl k)]
    obtain ⟨-, hflag'⟩ := dispatchNode_spec hi hturn
    refine ⟨hi, ?_⟩
    rw [hflag', hflag]
    cases (g.container.take k).any (·.takes g.eventFlag) <;>
      cases g.container[k].takes g.eventFlag <;> simp
  rw [along_range_iff]
  constructor
  · intro h n hn
    obtain ⟨htakes, k, hk, rfl, hbefore⟩ := List.find?_eq_some_iff_getElem.mp hn
    obtain ⟨g₁, g₂, hrun, hturn⟩ := exists_runAll_range hdispatch (hsize ▸ hk)
    obtain ⟨hi, hiff⟩ := hone k hk g₁ g₂ hrun hturn
    refine hiff.mp (h k (hsize ▸ hk) g₁ hrun _ g₂ hi hturn) ?_ htakes
    refine List.any_eq_false.mpr fun n hn => ?_
    obtain ⟨j, hj, rfl⟩ := List.mem_take_iff_getElem.mp hn
    have hnot := hbefore j (by omega)
    simpa using hnot
  · intro h k hk g₁ hrun n g₂ hn hturn
    obtain ⟨hi, hiff⟩ := hone k (hsize ▸ hk) g₁ g₂ hrun hturn
    obtain rfl := Option.some.inj (hi.symm.trans hn)
    refine hiff.mpr fun hbefore htakes => h _ ?_
    refine List.find?_eq_some_iff_getElem.mpr ⟨htakes, k, hsize ▸ hk, rfl, fun j hj => ?_⟩
    have hnot := List.any_eq_false.mp hbefore _
      (List.mem_take_iff_getElem.mpr ⟨j, by omega, rfl⟩)
    simpa using hnot

/-- **When a message is handled as the modes mean it.** -/
theorem serves_iff (hsize : g.container.length = eventNodeNum)
    (hdispatch : g.dispatchEventList = some g') : Serves g g' ↔ Exact g.eventFlag g.container := by
  constructor
  · rintro ⟨hreleased, hcleared⟩
    exact ⟨(released_iff hsize hdispatch).mp hreleased, (cleared_iff hsize hdispatch).mp hcleared⟩
  · rintro ⟨hall, hfirst⟩
    exact ⟨(released_iff hsize hdispatch).mpr hall, (cleared_iff hsize hdispatch).mpr hfirst⟩

end Dispatch

/-! ## A wait without time -/

/-- The request of a call, with a cell and a semaphore of its own. -/
def request (u32WaitEventFlag : UInt32) (eWaitMode : EventWaitMode) : EventNode :=
  ⟨1, u32WaitEventFlag, eWaitMode, 0, 0⟩

/-- `MsOS_WaitEvent` with a time, if the event task handles its request, which is the only one, and
the time is over then: the result, `*pu32RetrievedEventFlag`, and the flags that are left. -/
def blocking (u32EventFlag : UInt32) (n : EventNode) : Option (Bool × UInt32 × UInt32) :=
  ((({ newGroup with eventFlag := u32EventFlag }.create n 0).switchMessage (.waitEvent n)).bind
    Group.dispatchEventList).bind fun g =>
      match g.semaphores n.eventSemaphore with
      | none => none
      | some 0 => some (false, 0, g.eventFlag)
      | some (_ + 1) => (g.cells n.returnEventAddr).map fun flags => (true, flags, g.eventFlag)

/-- The wait without time gives what the one with a time does. -/
def Polls (g : Group) (u32WaitEventFlag : UInt32) (eWaitMode : EventWaitMode) : Prop :=
  ∃ g' result flags, poll g u32WaitEventFlag eWaitMode = (g', .polled result flags) ∧
    blocking g.eventFlag (request u32WaitEventFlag eWaitMode) = some (result, flags, g'.eventFlag)

/-- With OR, no flag of the request is set, or only flags of the request are; with AND, no flag of
the request is set, and there is one in it or in the group. -/
def PollExact (u32EventFlag u32WaitEventFlag : UInt32) (eWaitMode : EventWaitMode) : Prop :=
  if eWaitMode.all then u32WaitEventFlag &&& u32EventFlag = 0 ∧ u32WaitEventFlag ≠ u32EventFlag
  else u32WaitEventFlag &&& u32EventFlag = 0 ∨ u32WaitEventFlag &&& u32EventFlag = u32EventFlag

instance (u32EventFlag u32WaitEventFlag : UInt32) (eWaitMode : EventWaitMode) :
    Decidable (PollExact u32EventFlag u32WaitEventFlag eWaitMode) := by
  unfold PollExact
  infer_instance

section Poll

variable {g : Group} {f : UInt32} {n : EventNode}

/-- A free node is passed over. -/
theorem dispatchNode_unused {i : Nat} (hi : g.container[i]? = some n) (hn : n.eventSemaphore = 0) :
    Group.dispatchNode f i g = some g := by
  simp [Group.dispatchNode, hi, hn]

/-- Where only the first place is in use, the first turn is all. -/
theorem dispatch_alone (hn : g.container[0]? = some n)
    (hrest : ∀ i n, 0 < i → g.container[i]? = some n → n.eventSemaphore = 0) (k : Nat) :
    runAll (Group.dispatchNode f) (List.range (k + 1)) g = Group.dispatchNode f 0 g := by
  induction k with
  | zero => exact Option.bind_fun_some _
  | succ k ih =>
    rw [runAll_range_succ, ih]
    cases hturn : Group.dispatchNode f 0 g with
    | none => rfl
    | some g₁ =>
      rw [Option.bind_some]
      -- the places behind the first are unused before and after its turn
      obtain ⟨hcontainer, -⟩ := dispatchNode_spec hn hturn
      cases hi : g₁.container[k + 1]? with
      | none => simp [Group.dispatchNode, hi]
      | some n' =>
        refine dispatchNode_unused hi (hrest (k + 1) n' (Nat.succ_pos k) ?_)
        rw [← hi, hcontainer, List.getElem?_set_ne (by omega)]

/-- **A wait with a time**: the request is served if it wants the flags, and takes them all. -/
theorem blocking_eq (u32WaitEventFlag : UInt32) (eWaitMode : EventWaitMode) :
    blocking f (request u32WaitEventFlag eWaitMode) =
      some (if (request u32WaitEventFlag eWaitMode).wants f then
        (true, f, if eWaitMode.clears then 0 else f) else (false, 0, f)) := by
  set n := request u32WaitEventFlag eWaitMode with hn
  -- the request gets the first place
  let g : Group := { ({ newGroup with eventFlag := f }.create n 0) with
    container := n :: List.replicate 31 ⟨0, 0, .E_AND, 0, 0⟩ }
  have hadd : ({ newGroup with eventFlag := f }.create n 0).switchMessage (.waitEvent n) = some g := rfl
  have hdispatch : g.dispatchEventList = Group.dispatchNode f 0 g := by
    refine @dispatch_alone g f n rfl (fun i n' hi hn' => ?_) 31
    obtain ⟨i, rfl⟩ := Nat.exists_eq_succ_of_ne_zero (Nat.ne_of_gt hi)
    rw [List.getElem?_cons_succ] at hn'
    rw [(List.mem_replicate.mp (List.mem_of_getElem? hn')).2]
  rw [blocking, hadd, Option.bind_some, hdispatch]
  by_cases hwants : n.wants f = true
  · have hserve : Group.dispatchNode f 0 g = g.serve f 0 n := if_pos ⟨Nat.one_ne_zero, hwants⟩
    rw [hserve, if_pos hwants]
    cases eWaitMode <;>
      simp [g, Group.serve, Group.write, Group.post, Group.create, hn, request, EventWaitMode.clears]
  · have hskip : Group.dispatchNode f 0 g = some g := if_neg fun h => hwants h.2
    rw [hskip, if_neg hwants]
    rfl

/-- **A wait without time**: it finds its flags with OR only, and takes only these. -/
theorem poll_eq (u32WaitEventFlag : UInt32) (eWaitMode : EventWaitMode) :
    poll g u32WaitEventFlag eWaitMode =
      ({ g with eventFlag := if eWaitMode = .E_OR_CLEAR then
          g.eventFlag &&& ~~~(u32WaitEventFlag &&& g.eventFlag) else g.eventFlag },
        .polled (!eWaitMode.all && u32WaitEventFlag &&& g.eventFlag ≠ 0)
          (u32WaitEventFlag &&& g.eventFlag)) := by
  cases eWaitMode with
  | E_AND => rfl
  | E_OR => rfl
  | E_AND_CLEAR => rfl
  | E_OR_CLEAR => by_cases hflags : u32WaitEventFlag &&& g.eventFlag = 0 <;>
      simp [poll, EventWaitMode.all, hflags]

/-- **When the wait without time gives what the one with a time does.** -/
theorem polls_iff (u32WaitEventFlag : UInt32) (eWaitMode : EventWaitMode) :
    Polls g u32WaitEventFlag eWaitMode ↔ PollExact g.eventFlag u32WaitEventFlag eWaitMode := by
  have hresult : Polls g u32WaitEventFlag eWaitMode ↔
      (!eWaitMode.all && u32WaitEventFlag &&& g.eventFlag ≠ 0, u32WaitEventFlag &&& g.eventFlag,
        if eWaitMode = .E_OR_CLEAR then g.eventFlag &&& ~~~(u32WaitEventFlag &&& g.eventFlag)
        else g.eventFlag) =
      if (request u32WaitEventFlag eWaitMode).wants g.eventFlag then
        (true, g.eventFlag, if eWaitMode.clears then 0 else g.eventFlag)
      else (false, 0, g.eventFlag) := by
    rw [Polls, blocking_eq, poll_eq]
    constructor
    · rintro ⟨g', result, flags, hpoll, hblocking⟩
      obtain ⟨rfl, hthread⟩ := Prod.mk.inj hpoll
      obtain ⟨rfl, rfl⟩ := Thread.polled.inj hthread
      exact (Option.some.inj hblocking).symm
    · intro h
      exact ⟨_, _, _, rfl, congrArg some h.symm⟩
  rw [hresult, PollExact]
  generalize u32WaitEventFlag = w, g.eventFlag = f
  cases eWaitMode with
  | E_AND => by_cases heq : w = f <;> simp [request, EventNode.wants, EventWaitMode.all, heq]
  | E_AND_CLEAR => by_cases heq : w = f <;> simp [request, EventNode.wants, EventWaitMode.all, heq]
  | E_OR =>
    by_cases hnone : w &&& f = 0 <;>
      simp [request, EventNode.wants, EventWaitMode.all, EventWaitMode.clears, hnone]
  | E_OR_CLEAR =>
    by_cases hnone : w &&& f = 0
    · simp [request, EventNode.wants, EventWaitMode.all, hnone]
    · -- if only flags of the request are set, all are taken
      have hrest : w &&& f = f → f &&& ~~~(w &&& f) = 0 := by
        intro h
        rw [h, UInt32.and_not_self]
      simpa [request, EventNode.wants, EventWaitMode.all, EventWaitMode.clears, hnone] using hrest

end Poll

/-! ## Runs -/

/-- The next step of a thread is handled as the modes mean it: one of the event task with a message,
or a wait without time. -/
def Means (g : Group) : Thread → Prop
  | .task => ∀ m ∈ g.current, ∀ g₁ g₂, { g with current := none }.switchMessage m = some g₁ →
    g₁.dispatchEventList = some g₂ → Serves g₁ g₂
  | .wait u32WaitEventFlag eWaitMode 0 => Polls g u32WaitEventFlag eWaitMode
  | _ => True

def StepMeans : GroupEvent → Config → Prop
  | .start _, _ => True
  | .turn i _, c => ∀ l ∈ c.threads[i]?, Means c.shared l

/-- The container as a message leaves it: a request gets the first free place. -/
def EventMessage.requests (container : List EventNode) : EventMessage → List EventNode
  | .clearEvent _ => container
  | .setEvent _ => container
  | .waitEvent node => container.set (container.findIdx fun n => n.eventSemaphore = 0) node
  | .releaseEvent node =>
    container.modify (container.findIdx fun n => n.eventSemaphore = node.eventSemaphore)
      fun n => { n with eventSemaphore := 0 }

/-- The flags and the requests fit, as the message leaves them or as the wait without time finds
them. -/
def Fits (g : Group) : Thread → Prop
  | .task => ∀ m ∈ g.current, Exact (m.flags g.eventFlag) (m.requests g.container)
  | .wait u32WaitEventFlag eWaitMode 0 => PollExact g.eventFlag u32WaitEventFlag eWaitMode
  | _ => True

def StepFits : GroupEvent → Config → Prop
  | .start _, _ => True
  | .turn i _, c => ∀ l ∈ c.threads[i]?, Fits c.shared l

instance (g : Group) : ∀ l, Decidable (Fits g l)
  | .task => inferInstanceAs (Decidable (∀ m ∈ g.current,
      Exact (m.flags g.eventFlag) (m.requests g.container)))
  | .wait u32WaitEventFlag eWaitMode 0 =>
    inferInstanceAs (Decidable (PollExact g.eventFlag u32WaitEventFlag eWaitMode))
  | .wait _ _ (_ + 1) | .entering _ | .refused | .setting _ | .clearing _ | .posted
  | .sendWait _ _ | .waiting _ _ | .sendRelease _ | .timedOut | .reading _ | .served _
  | .polled _ _ => inferInstanceAs (Decidable True)

instance : ∀ e c, Decidable (StepFits e c)
  | .start _, _ => inferInstanceAs (Decidable True)
  | .turn i _, c => inferInstanceAs (Decidable (∀ l ∈ c.threads[i]?, Fits c.shared l))

/-- The container has its places. -/
def Sized (c : Config) : Prop := c.shared.container.length = eventNodeNum

section Runs

variable {g g' : Group} {n : EventNode} {c c' : Config}

/-- A message does not change the size of the container. -/
theorem length_requests (container : List EventNode) (m : EventMessage) :
    (m.requests container).length = container.length := by
  cases m with
  | clearEvent Param1 => rfl
  | setEvent Param1 => rfl
  | waitEvent node => exact List.length_set
  | releaseEvent node => exact List.length_modify _ _ _

/-- A release leaves the flag and the container alone. -/
theorem release_cases (h : g.release n = some g') :
    g'.eventFlag = g.eventFlag ∧ g'.container = g.container := by
  unfold Group.release at h
  split at h
  · obtain rfl := Option.some.inj h
    exact ⟨rfl, rfl⟩
  · exact nomatch h

/-- What a message leaves. -/
theorem switchMessage_spec {m : EventMessage} (h : g.switchMessage m = some g') :
    g'.eventFlag = m.flags g.eventFlag ∧ g'.container = m.requests g.container := by
  cases m with
  | clearEvent Param1 =>
    obtain rfl := Option.some.inj h
    exact ⟨rfl, rfl⟩
  | setEvent Param1 =>
    obtain rfl := Option.some.inj h
    exact ⟨rfl, rfl⟩
  -- a request goes to the first free place
  | waitEvent node =>
    rw [Group.switchMessage, Group.addEventList] at h
    split at h
    · cases h
    · next i hi =>
      obtain rfl := Option.some.inj h
      obtain ⟨-, rfl⟩ := List.findIdx?_eq_some_iff_findIdx_eq.mp hi
      exact ⟨rfl, rfl⟩
  -- a withdrawn one leaves its place, if it has one
  | releaseEvent node =>
    rw [Group.switchMessage, Group.removeEventList] at h
    split at h
    · next hi =>
      obtain rfl := Option.some.inj h
      have hend := List.findIdx?_eq_none_iff_findIdx_eq.mp hi
      exact ⟨rfl, (List.modify_eq_self (Nat.le_of_eq hend.symm)).symm⟩
    · next i hi =>
      obtain ⟨hlt, hidx⟩ := List.findIdx?_eq_some_iff_findIdx_eq.mp hi
      rw [List.getElem?_eq_getElem hlt] at h
      obtain ⟨g₁, hrelease, rfl⟩ := Option.map_eq_some_iff.mp h
      obtain ⟨hflag, hcontainer⟩ := release_cases hrelease
      refine ⟨hflag, List.ext_getElem? fun j => ?_⟩
      simp only [hcontainer, EventMessage.requests, hidx, List.getElem?_set, List.getElem?_modify]
      by_cases hj : i = j
      · subst hj
        simp [hlt]
      · simp [hj]

/-- The container keeps its size. -/
theorem dispatch_length (hsize : g.container.length = eventNodeNum)
    (h : g.dispatchEventList = some g') : g'.container.length = eventNodeNum := by
  rw [(dispatch_spec (Nat.le_of_eq hsize.symm) h).1, List.length_mapIdx, hsize]

/-- A message in the queue changes nothing in it yet. -/
theorem send_container (m : EventMessage) (l l' : Thread) :
    (send g m l l').1.container = g.container := by
  unfold send
  split <;> rfl

/-- What the event task does to the container with its message. -/
theorem taskStep_container {l' : Thread} (h : taskStep g = some (g', l')) :
    (g.current = none ∧ g'.container = g.container) ∨
    ∃ m g₁, g.current = some m ∧ { g with current := none }.switchMessage m = some g₁ ∧
      g₁.dispatchEventList = some g' := by
  cases hm : g.current with
  | none =>
    rw [taskStep, hm] at h
    -- between messages the task takes the next one
    refine .inl ⟨rfl, ?_⟩
    cases hqueue : g.queue with
    | nil =>
      rw [hqueue] at h
      obtain ⟨rfl, -⟩ := Prod.mk.inj (Option.some.inj h)
      rfl
    | cons m queue =>
      rw [hqueue] at h
      obtain ⟨rfl, -⟩ := Prod.mk.inj (Option.some.inj h)
      rfl
  | some m =>
    -- with a message it handles that and dispatches
    rw [taskStep_handle hm] at h
    obtain ⟨g₂, hhandle, heq⟩ := Option.map_eq_some_iff.mp h
    obtain ⟨rfl, -⟩ := Prod.mk.inj heq
    obtain ⟨g₁, hswitch, hdispatch⟩ := Option.bind_eq_some_iff.mp hhandle
    exact .inr ⟨m, g₁, rfl, hswitch, hdispatch⟩

/-- The calls leave the container as it is. -/
theorem turn_container {k : Choice} {i : Nat} {l l' : Thread} (hl : l ≠ .task)
    (h : turn k i g l = some (g', l')) : g'.container = g.container := by
  -- a step to a group that is given
  have hgiven : ∀ {r : Group × Thread}, some r = some (g', l') → r.1.container = g.container →
      g'.container = g.container := by
    intro r hr hcontainer
    rw [Option.some.inj hr] at hcontainer
    exact hcontainer
  cases l with
  | task => exact absurd rfl hl
  | entering r => 
    obtain ⟨eventDeleted, l, henter, -⟩ := enter_cases g r
    exact hgiven h (by rw [henter])
  | setting u32EventFlag => exact hgiven h (send_container _ _ _)
  | clearing u32EventFlag => exact hgiven h (send_container _ _ _)
  | sendWait node u32WaitMs => exact hgiven h (send_container _ _ _)
  | sendRelease node => exact hgiven h (send_container _ _ _)
  | wait u32WaitEventFlag eWaitMode u32WaitMs =>
    by_cases hnow : u32WaitMs = 0
    · simp only [turn, if_pos hnow] at h
      exact hgiven h (by rw [poll_eq])
    · cases k with
      | malloc cell semaphore garbage =>
        simp only [turn, if_neg hnow] at h
        split_ifs at h
        · exact hgiven h rfl
        · exact hgiven h rfl
      | goOn =>
        simp only [turn, if_neg hnow] at h
        exact hgiven h rfl
      | timeOut =>
        simp only [turn, if_neg hnow] at h
        exact hgiven h rfl
  | waiting node u32WaitMs =>
    rw [turn] at h
    split at h
    · cases h
    · split_ifs at h
      · exact hgiven h rfl
      · exact hgiven h rfl
    · exact hgiven h rfl
  | reading node =>
    rw [turn] at h
    split at h
    · cases h
    · obtain ⟨g₁, hrelease, heq⟩ := Option.map_eq_some_iff.mp h
      obtain ⟨rfl, -⟩ := Prod.mk.inj heq
      exact (release_cases hrelease).2
  | refused | posted | timedOut | served _ | polled _ _ => exact hgiven h rfl

/-- No step changes the size of the container. -/
theorem sized_exec {e : GroupEvent} (h : Sized c) (hexec : Interleaving.exec threads e c = some c') :
    Sized c' := by
  obtain ⟨v, rfl, rfl⟩ | ⟨i, k, rfl, -, rfl⟩ | ⟨i, k, l, g', l', rfl, hi, hturn, rfl⟩ :=
    Interleaving.exec_cases hexec
  · exact h
  · exact h
  -- only the task touches the container
  · by_cases hl : l = .task
    · subst hl
      rcases taskStep_container hturn with ⟨-, hcontainer⟩ | ⟨m, g₁, -, hswitch, hdispatch⟩
      · exact (congrArg List.length hcontainer).trans h
      · refine dispatch_length ?_ hdispatch
        rw [(switchMessage_spec hswitch).2, length_requests]
        exact h
    · exact (congrArg List.length (turn_container hl hturn)).trans h

/-- **Inside one step: a call means what its mode says exactly if the mode fits.** -/
theorem means_iff_fits {k : Choice} {i : Nat} {l l' : Thread}
    (hsize : g.container.length = eventNodeNum) (h : turn k i g l = some (g', l')) :
    Means g l ↔ Fits g l := by
  match l with
  | .task =>
    -- the task serves requests; the other calls but a poll mean nothing here
    rcases taskStep_container h with ⟨hm, -⟩ | ⟨m, g₁, hm, hswitch, hdispatch⟩
    · simp [Means, Fits, hm]
    · obtain ⟨hflag, hcontainer⟩ := switchMessage_spec hswitch
      have hsize₁ : g₁.container.length = eventNodeNum := by
        rw [hcontainer, length_requests]
        exact hsize
      have hserves := serves_iff hsize₁ hdispatch
      rw [hflag, hcontainer] at hserves
      constructor
      · intro hmeans m' hm'
        obtain rfl := Option.some.inj (hm.symm.trans hm')
        exact hserves.mp (hmeans m hm g₁ g' hswitch hdispatch)
      · intro hfits m' hm' g₂ g₃ hswitch' hdispatch'
        obtain rfl := Option.some.inj (hm.symm.trans hm')
        obtain rfl := Option.some.inj (hswitch.symm.trans hswitch')
        obtain rfl := Option.some.inj (hdispatch.symm.trans hdispatch')
        exact hserves.mpr (hfits m hm)
  | .wait u32WaitEventFlag eWaitMode 0 => exact polls_iff _ _
  | .wait _ _ (_ + 1) | .entering _ | .refused | .setting _ | .clearing _ | .posted
  | .sendWait _ _ | .waiting _ _ | .sendRelease _ | .timedOut | .reading _ | .served _
  | .polled _ _ => exact Iff.rfl

/-- So it is with the call whose turn it is. -/
theorem stepMeans_iff_stepFits {e : GroupEvent} (h : Sized c)
    (hexec : Interleaving.exec threads e c = some c') : StepMeans e c ↔ StepFits e c := by
  obtain ⟨v, rfl, -⟩ | ⟨i, k, rfl, hi, -⟩ | ⟨i, k, l, g', l', rfl, hi, hturn, -⟩ :=
    Interleaving.exec_cases hexec
  · exact Iff.rfl
  · simp [StepMeans, StepFits, hi]
  · simp [StepMeans, StepFits, hi, means_iff_fits h hturn]

/-- **What the modes mean, all along a run**: the steps are handled as the modes mean it if and only
if the flags and the requests fit at each of them. -/
theorem means_iff {es : List GroupEvent} (hsized : Sized c)
    (hrun : Interleaving.run threads es c = some c') :
    Along (Interleaving.exec threads) StepMeans es c ↔
      Along (Interleaving.exec threads) StepFits es c :=
  along_congr_of_runAll (fun _ _ _ => stepMeans_iff_stepFits) (fun _ _ _ => sized_exec) hsized hrun

/-- A wait for both of two flags, that are set one after the other. -/
def bothRun : List GroupEvent :=
  [.start (.waitEvent 3 .E_AND_CLEAR 10), .turn 1 .goOn, .turn 1 (.malloc 1 1 0), .turn 1 .goOn,
    .turn 0 .goOn, .turn 0 .goOn, .start (.setEvent 1), .turn 2 .goOn, .turn 2 .goOn,
    .turn 0 .goOn, .turn 0 .goOn, .start (.setEvent 2), .turn 3 .goOn, .turn 3 .goOn,
    .turn 0 .goOn, .turn 0 .goOn]

/-- A wait for both of two flags, one sent after the other. -/
theorem means_iff_bothRun : ∃ c, Interleaving.run threads bothRun initial = some c ∧
    c.shared.semaphores 1 = some 1 ∧ c.shared.eventFlag = 0 ∧
      Along (Interleaving.exec threads) StepMeans bothRun initial := by
  have hends : (Interleaving.run threads bothRun initial).map
      (fun c => (c.shared.semaphores 1, c.shared.eventFlag)) = some (some 1, 0) := by
    decide +kernel
  obtain ⟨c, hc, heq⟩ := Option.map_eq_some_iff.mp hends
  obtain ⟨hsemaphore, hflag⟩ := Prod.mk.inj heq
  have hsized : Sized initial := rfl
  exact ⟨c, hc, hsemaphore, hflag, (means_iff hsized hc).mpr (by decide +kernel)⟩

/-- A flag that is not of the request is set too. -/
def moreRun : List GroupEvent :=
  [.start (.waitEvent 1 .E_AND 10), .turn 1 .goOn, .turn 1 (.malloc 1 1 0), .turn 1 .goOn,
    .turn 0 .goOn, .turn 0 .goOn, .start (.setEvent 3), .turn 2 .goOn, .turn 2 .goOn,
    .turn 0 .goOn, .turn 0 .goOn]

/-- The request is not served, though its flag is set. -/
theorem moreRun_not_means : ∃ c, Interleaving.run threads moreRun initial = some c ∧
    ¬Along (Interleaving.exec threads) StepMeans moreRun initial := by
  have hends : (Interleaving.run threads moreRun initial).isSome = true := by decide +kernel
  obtain ⟨c, hc⟩ := Option.isSome_iff_exists.mp hends
  have hfits : ¬Along (Interleaving.exec threads) StepFits moreRun initial := by decide +kernel
  refine ⟨c, hc, fun hmeans => hfits ?_⟩
  have hsized : Sized initial := rfl
  exact (along_congr_of_runAll (fun _ _ _ => stepMeans_iff_stepFits) (fun _ _ _ => sized_exec)
    hsized hc).mp hmeans

end Runs

end PgClient.Pgos.Event
