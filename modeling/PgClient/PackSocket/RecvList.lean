import Mathlib.Data.List.TakeWhile
import PgClient.Lib.LinkedHeap
import PgClient.PackSocket.Frame

/-!
# The receive list

`gstRecvSocketCmdList` is a singly linked list of received fragments, shared
by all commands. The functions below follow the source on a heap with
explicit release; `none` is undefined behaviour, a read or write of released
memory.

`Held s p severed` relates a list in memory to its fragments `p`. A list is
*severed* when its last reachable node points at a released one. What the
operations do to that view:

* `addRecvList_held`      — a fragment is appended.
* `checkRecvList2_held`   — the count test is `complete`.
* `collectcmd_held`       — the payloads of one command are joined.
* `destoryRecvList2_held` — the nodes of one command go; the nodes behind a
  gap go with them, and the list is severed there (`kept`, `cuts`).
* on a severed list adding is undefined, and so is a count test that fails.
-/

namespace PgClient.PackSocket

open LinkedHeap (Heap Linked walk scan)

/-- `socket_cmd_list_set_t`, with the heap its nodes live on. -/
structure RecvList where
  heap : Heap SocketCmdInfo
  psockCmdListHead : Option Nat

/-- `_initRecvCmdList`. -/
def initRecvCmdList (s : RecvList) : RecvList := { s with psockCmdListHead := none }

/-- `malloc` of the node and `_addRecvList`. -/
def addRecvList (s : RecvList) (info : SocketCmdInfo) : Option RecvList :=
  let heap := (s.heap.alloc info).1
  let pSocketList := (s.heap.alloc info).2
  match s.psockCmdListHead with
  | none => some ⟨heap, some pSocketList⟩
  | some temp =>
    -- while (temp) { prev = temp; temp = temp->next; }
    match walk heap (fun _ temp _ => (.inl (some temp) : Option Nat ⊕ Unit)) heap.brk
        (some temp) none with
    | some (.inl (some prev)) =>
      (heap.setNext prev (some pSocketList)).map fun heap' => ⟨heap', s.psockCmdListHead⟩
    | _ => none

/-- The loop state of `_checkRecvList2`. -/
structure CheckState where
  totalnum : Int
  num : Int

/-- The loop body of `_checkRecvList2`; leaving it is `return 1`. -/
def checkBody (cmd : BitVec 16) (s : CheckState) (_ : Nat) (info : SocketCmdInfo) :
    CheckState ⊕ Unit :=
  let s' : CheckState :=
    if info.cmd = cmd then
      { num := s.num + 1
        -- the first fragment of `cmd` in the list announces the total
        totalnum := if s.totalnum = -1 then (info.lastNo.toNat : Int) + 1 else s.totalnum }
    else s
  -- tested at every node, also at those of other commands
  if s'.num = s'.totalnum then .inr () else .inl s'

/-- `_checkRecvList2`. -/
def checkRecvList2 (s : RecvList) (cmd : BitVec 16) : Option Bool :=
  (walk s.heap (checkBody cmd) s.heap.brk s.psockCmdListHead ⟨-1, 0⟩).map Sum.isRight

/-- `_addcmd`: the joined bytes after one more fragment. -/
def addcmd (pcmd data : List Byte) (len : BitVec 16) : List Byte := pcmd ++ data.take len.toNat

/-- The loop of `parseSocketCmd` that joins the fragments of `cmd`. -/
def collectcmd (s : RecvList) (cmd : BitVec 16) : Option (List Byte) :=
  match walk s.heap (fun pcmd _ info =>
      (.inl (if info.length.toNat > 0 ∧ info.cmd = cmd then addcmd pcmd info.pValid info.length
        else pcmd) : List Byte ⊕ Empty)) s.heap.brk s.psockCmdListHead [] with
  | some (.inl pcmd) => some pcmd
  | some (.inr e) => e.elim
  | none => none

/-- The loop of `_destoryRecvList2`, with the previous and the current node. -/
def destoryLoop (cmd : BitVec 16) :
    Nat → Heap SocketCmdInfo → (head pPrv pTmp : Option Nat) → Option RecvList
  | _, heap, head, _, none => some ⟨heap, head⟩
  | 0, _, _, _, some _ => none
  | fuel + 1, heap, head, pPrv, some pTmp =>
    match heap.cells pTmp with
    | none => none
    | some node =>
      if node.val.cmd = cmd then
        -- the head node
        let head' := if pPrv.isNone then node.next else head
        -- the tail node
        let unlinked :=
          match node.next, pPrv with
          -- only the tail is unlinked from the node in front of it
          | none, some prv => heap.setNext prv none
          -- a node in the middle is released while `prv->next` still points at it
          | _, _ => some heap
        match unlinked.bind (·.free pTmp) with
        | none => none
        | some heap' => destoryLoop cmd fuel heap' head' pPrv node.next
      else destoryLoop cmd fuel heap head (some pTmp) node.next

/-- `_destoryRecvList2`. -/
def destoryRecvList2 (s : RecvList) (cmd : BitVec 16) : Option RecvList :=
  destoryLoop cmd s.heap.brk s.heap s.psockCmdListHead none s.psockCmdListHead

/-! ## The list of pending fragments -/

/-- Where a list ends: at null, or at an address that was released. -/
inductive Ends (h : Heap SocketCmdInfo) : Option Nat → Bool → Prop
  | null : Ends h none false
  | released {a : Nat} (hlt : a < h.brk) (hnone : h.cells a = none) : Ends h (some a) true

/-- What an ended list points to is not in the heap. -/
theorem Ends.dead {h : Heap SocketCmdInfo} {q : Option Nat} {severed : Bool}
    (he : Ends h q severed) : LinkedHeap.Dead h q := by
  cases he with
  | null => exact LinkedHeap.dead_none h
  | released _ hnone => rintro b ⟨⟩; exact hnone

/-- The list in memory holds the fragments `p`, and is severed or not. -/
def Held (s : RecvList) (p : List SocketCmdInfo) (severed : Bool) : Prop :=
  ∃ xs q, Linked s.heap s.psockCmdListHead xs q ∧ Ends s.heap q severed ∧
    xs.map Prod.snd = p

/-- `initRecvCmdList` holds nothing. -/
theorem held_init (s : RecvList) : Held (initRecvCmdList s) [] false :=
  ⟨[], none, rfl, .null, rfl⟩

/-- A list in memory has one reading. -/
theorem Held.unique {s : RecvList} {p p' : List SocketCmdInfo} {sev sev' : Bool}
    (h : Held s p sev) (h' : Held s p' sev') : p = p' ∧ sev = sev' := by
  obtain ⟨xs, q, hl, he, rfl⟩ := h
  obtain ⟨xs', q', hl', he', rfl⟩ := h'
  obtain ⟨rfl, rfl⟩ := hl.unique he.dead he'.dead hl'
  refine ⟨rfl, ?_⟩
  cases he with
  | null => cases he'; rfl
  | released => cases he'; rfl

/-- A null head is the empty list. -/
theorem Held.head_eq_none_iff {s : RecvList} {p : List SocketCmdInfo} {sev : Bool}
    (h : Held s p sev) : s.psockCmdListHead = none ↔ p = [] ∧ sev = false := by
  constructor
  · intro hhead
    exact h.unique ⟨[], none, hhead, .null, rfl⟩
  · rintro ⟨rfl, rfl⟩
    obtain ⟨xs, q, hl, he, hxs⟩ := h
    cases he
    rw [List.map_eq_nil_iff] at hxs
    subst hxs
    exact hl

/-- The fragments of one command, in arrival order. -/
def fragsOf (cmd : BitVec 16) (p : List SocketCmdInfo) : List SocketCmdInfo :=
  p.filter fun i => i.cmd = cmd

/-- As many fragments of `cmd` as the first of them announces. -/
def complete (cmd : BitVec 16) (p : List SocketCmdInfo) : Bool :=
  match fragsOf cmd p with
  | [] => false
  | m :: ms => m.lastNo.toNat + 1 ≤ ms.length + 1

/-- The payload of a fragment: the first `length` bytes of its block. -/
def SocketCmdInfo.payload (i : SocketCmdInfo) : List Byte := i.pValid.take i.length.toNat

/-- The joined payloads of one command. -/
def joined (cmd : BitVec 16) (p : List SocketCmdInfo) : List Byte :=
  (fragsOf cmd p).flatMap SocketCmdInfo.payload

/-- What stays reachable after the nodes of `cmd` are released: the first run
of other fragments. -/
def kept (cmd : BitVec 16) (p : List SocketCmdInfo) : List SocketCmdInfo :=
  (p.dropWhile fun i => i.cmd = cmd).takeWhile fun i => i.cmd ≠ cmd

/-- The release cuts the list: behind a released node there is a fragment of
another command, and in front of it too. -/
def cuts (cmd : BitVec 16) (p : List SocketCmdInfo) : Bool :=
  ((p.dropWhile fun i => i.cmd = cmd).dropWhile fun i => i.cmd ≠ cmd).any fun i => i.cmd ≠ cmd

/-! ## Adding and counting -/

/-- The loop that looks for the last node. -/
theorem scan_last {β : Type} (xs : List (Nat × SocketCmdInfo)) (x : Nat × SocketCmdInfo)
    (p : Option Nat) :
    scan (fun _ a _ => (.inl (some a) : Option Nat ⊕ β)) (xs ++ [x]) p = .inl (some x.1) := by
  induction xs generalizing p with
  | nil => rfl
  | cons y ys ih => exact ih (some y.1)

/-- A fragment is appended to a list that ends at null. -/
theorem addRecvList_held {s : RecvList} {p : List SocketCmdInfo} (h : Held s p false)
    (info : SocketCmdInfo) :
    ∃ s', addRecvList s info = some s' ∧ Held s' (p ++ [info]) false := by
  obtain ⟨xs, q, hl, he, rfl⟩ := h
  cases he
  have hself := s.heap.alloc_cells_self info
  have hnew := hl.alloc info
  rcases List.eq_nil_or_concat xs with rfl | ⟨ys, ⟨a, v⟩, rfl⟩
  · have hhead : s.psockCmdListHead = none := hl
    refine ⟨⟨(s.heap.alloc info).1, some s.heap.brk⟩, by simp [addRecvList, hhead], ?_⟩
    exact ⟨[(s.heap.brk, info)], none, ⟨rfl, none, hself, rfl⟩, .null, rfl⟩
  · rw [List.concat_eq_append] at hl hnew ⊢
    obtain ⟨c, hc⟩ := hl.live (x := (a, v)) (by simp)
    have hne : a ≠ s.heap.brk := Nat.ne_of_lt (Heap.lt_brk_of_live hc)
    obtain ⟨heap', hset, hlast, hother, hbrk⟩ := Heap.setNext_live (some s.heap.brk)
      ((s.heap.alloc_cells_of_ne info hne).trans hc)
    -- the walk ends at the last node, whose `next` is set to the new one
    have hwalk := LinkedHeap.walk_linked
      (fun _ temp _ => (.inl (some temp) : Option Nat ⊕ Unit)) hnew (s.heap.alloc info).1.brk
      (hnew.length_le (LinkedHeap.dead_none _)) none
    rw [scan_last] at hwalk
    obtain ⟨b, hb⟩ : ∃ b, s.psockCmdListHead = some b := by
      cases ys with
      | nil => exact ⟨a, hl.1⟩
      | cons y ys => exact ⟨y.1, hl.1⟩
    refine ⟨⟨heap', s.psockCmdListHead⟩, ?_, ?_⟩
    · rw [hb] at hwalk
      simp [addRecvList, hb, hwalk, hset]
    · refine ⟨(ys ++ [(a, v)]) ++ [(s.heap.brk, info)], none, ?_, .null, by simp⟩
      refine LinkedHeap.linked_append.mpr ⟨some s.heap.brk,
        hnew.setNext_last _ (LinkedHeap.dead_none _) hset, rfl, none, ?_, rfl⟩
      rw [hother _ (Ne.symm hne), hself]

/-- Adding to a severed list runs into released memory. -/
theorem addRecvList_severed {s : RecvList} {p : List SocketCmdInfo} (h : Held s p true)
    (info : SocketCmdInfo) : addRecvList s info = none := by
  obtain ⟨xs, q, hl, he, -⟩ := h
  cases he with
  | released hlt hnone =>
    rename_i a
    have hdead : (s.heap.alloc info).1.cells a = none :=
      (s.heap.alloc_cells_of_ne info (Nat.ne_of_lt hlt)).trans hnone
    obtain ⟨p', hscan⟩ : ∃ p', scan (fun _ temp _ =>
        (.inl (some temp) : Option Nat ⊕ Unit)) xs none = .inl p' := by
      rcases List.eq_nil_or_concat xs with rfl | ⟨ys, x, rfl⟩
      · exact ⟨none, rfl⟩
      · exact ⟨_, by rw [List.concat_eq_append, scan_last]⟩
    -- the search for the last node follows the dangling pointer
    have hwalk := LinkedHeap.walk_dangling _ hdead (hl.alloc info) (s.heap.alloc info).1.brk
      none p' hscan
    obtain ⟨b, hb⟩ : ∃ b, s.psockCmdListHead = some b := by
      cases xs with
      | nil => exact ⟨a, hl⟩
      | cons x xs => exact ⟨x.1, hl.1⟩
    rw [hb] at hwalk
    simp [addRecvList, hb, hwalk]

/-- The count test once the first fragment has fixed the total. -/
theorem scan_check_counting (cmd : BitVec 16) (xs : List (Nat × SocketCmdInfo)) {t n : Int}
    (hn : 0 ≤ n) (hlt : n < t) :
    (scan (checkBody cmd) xs ⟨t, n⟩).isRight =
      decide (t ≤ n + (fragsOf cmd (xs.map Prod.snd)).length) := by
  -- on the nodes still to be read; the total stays as it is
  induction xs generalizing n with
  | nil =>
    simp only [scan, fragsOf]
    simpa using hlt
  | cons x xs ih =>
    obtain ⟨a, v⟩ := x
    by_cases hcmd : v.cmd = cmd
    · have hlen : (fragsOf cmd (((a, v) :: xs).map Prod.snd)).length =
          (fragsOf cmd (xs.map Prod.snd)).length + 1 := by simp [fragsOf, hcmd]
      rw [hlen]
      -- the count reaches the total at this fragment, or goes on
      by_cases hlast : n + 1 = t
      · have hbody : checkBody cmd ⟨t, n⟩ a v = .inr () := by
          simp [checkBody, hcmd, show t ≠ -1 by omega, hlast]
        rw [LinkedHeap.scan_cons_inr hbody, Sum.isRight_inr]
        symm
        rw [decide_eq_true_iff]
        omega
      · have hbody : checkBody cmd ⟨t, n⟩ a v = .inl ⟨t, n + 1⟩ := by
          simp [checkBody, hcmd, show t ≠ -1 by omega, hlast]
        rw [LinkedHeap.scan_cons_inl hbody, ih (by omega) (by omega)]
        congr 1
        push_cast
        rw [eq_iff_iff]
        constructor <;> intro h <;> omega
    · have hlen : fragsOf cmd (((a, v) :: xs).map Prod.snd) =
          fragsOf cmd (xs.map Prod.snd) := by simp [fragsOf, hcmd]
      have hbody : checkBody cmd ⟨t, n⟩ a v = .inl ⟨t, n⟩ := by
        simp [checkBody, hcmd, show n ≠ t by omega]
      rw [LinkedHeap.scan_cons_inl hbody, hlen]
      exact ih hn hlt

/-- The count test over the values of a list. -/
theorem scan_check (cmd : BitVec 16) (xs : List (Nat × SocketCmdInfo)) :
    (scan (checkBody cmd) xs ⟨-1, 0⟩).isRight = complete cmd (xs.map Prod.snd) := by
  induction xs with
  | nil => rfl
  | cons x xs ih =>
    obtain ⟨a, v⟩ := x
    by_cases hcmd : v.cmd = cmd
    · have hfrags : fragsOf cmd (((a, v) :: xs).map Prod.snd) =
          v :: fragsOf cmd (xs.map Prod.snd) := by simp [fragsOf, hcmd]
      rw [complete, hfrags]
      -- the first fragment of `cmd`: a message of one fragment is complete here
      by_cases hone : v.lastNo.toNat = 0
      · have hbody : checkBody cmd ⟨-1, 0⟩ a v = .inr () := by
          simp [checkBody, hcmd, hone]
        rw [LinkedHeap.scan_cons_inr hbody]
        simp [hone]
      · have hbody : checkBody cmd ⟨-1, 0⟩ a v = .inl ⟨(v.lastNo.toNat : Int) + 1, 1⟩ := by
          simp only [checkBody, hcmd, if_true]
          rw [if_neg (by omega)]
          rfl
        rw [LinkedHeap.scan_cons_inl hbody, scan_check_counting cmd xs (by omega) (by omega)]
        congr 1
        rw [eq_iff_iff]
        constructor <;> intro h <;> omega
    · have hfrags : fragsOf cmd (((a, v) :: xs).map Prod.snd) =
          fragsOf cmd (xs.map Prod.snd) := by simp [fragsOf, hcmd]
      have hbody : checkBody cmd ⟨-1, 0⟩ a v = .inl ⟨-1, 0⟩ := by
        simp [checkBody, hcmd]
      rw [LinkedHeap.scan_cons_inl hbody, complete, hfrags]
      exact ih

/-- The count test on a list that ends at null. -/
theorem checkRecvList2_held {s : RecvList} {p : List SocketCmdInfo} (h : Held s p false)
    (cmd : BitVec 16) : checkRecvList2 s cmd = some (complete cmd p) := by
  obtain ⟨xs, q, hl, he, rfl⟩ := h
  cases he
  rw [checkRecvList2, LinkedHeap.walk_linked _ hl _ (hl.length_le (LinkedHeap.dead_none _)),
    Option.map_some, scan_check]

/-- On a severed list a count test that does not succeed early runs into
released memory. -/
theorem checkRecvList2_severed {s : RecvList} {p : List SocketCmdInfo} (h : Held s p true)
    {cmd : BitVec 16} (hno : complete cmd p = false) : checkRecvList2 s cmd = none := by
  obtain ⟨xs, q, hl, he, rfl⟩ := h
  cases he with
  | released hlt hnone =>
    rw [← scan_check] at hno
    -- the loop was not left, so it reads the released node
    obtain ⟨s', hscan⟩ := Sum.isLeft_iff.mp (Sum.isRight_eq_false.mp hno)
    rw [checkRecvList2, LinkedHeap.walk_dangling _ hnone hl _ _ _ hscan, Option.map_none]

/-- Joining the fragments over the values of a list. -/
theorem scan_collect {β : Type} (cmd : BitVec 16) (xs : List (Nat × SocketCmdInfo))
    (pcmd : List Byte) :
    scan (fun pcmd _ info =>
      (.inl (if info.length.toNat > 0 ∧ info.cmd = cmd then addcmd pcmd info.pValid info.length
        else pcmd) : List Byte ⊕ β)) xs pcmd =
      .inl (pcmd ++ joined cmd (xs.map Prod.snd)) := by
  induction xs generalizing pcmd with
  | nil => simp [scan, joined, fragsOf]
  | cons x xs ih =>
    obtain ⟨a, v⟩ := x
    rw [LinkedHeap.scan_cons_inl rfl, ih]
    -- a fragment of the command is joined, if it has bytes at all
    by_cases hcmd : v.cmd = cmd
    · rcases Nat.eq_zero_or_pos v.length.toNat with hz | hpos
      · simp [joined, fragsOf, hcmd, hz, SocketCmdInfo.payload]
      · simp [joined, fragsOf, hcmd, hpos, addcmd, SocketCmdInfo.payload]
    · simp [joined, fragsOf, hcmd]

/-- `collectcmd` joins the payloads of the fragments held. -/
theorem collectcmd_held {s : RecvList} {p : List SocketCmdInfo} (h : Held s p false)
    (cmd : BitVec 16) : collectcmd s cmd = some (joined cmd p) := by
  obtain ⟨xs, q, hl, he, rfl⟩ := h
  cases he
  rw [collectcmd, LinkedHeap.walk_linked _ hl _ (hl.length_le (LinkedHeap.dead_none _)),
    scan_collect, List.nil_append]

/-! ## Releasing one command -/

section Destory

variable {cmd : BitVec 16} {heap : Heap SocketCmdInfo}

/-- A turn of the loop over a node of another command. -/
theorem destoryLoop_other {a : Nat} {v : SocketCmdInfo} {n : Option Nat}
    (hc : heap.cells a = some ⟨v, n⟩) (hcmd : v.cmd ≠ cmd) (fuel : Nat)
    (head pPrv : Option Nat) :
    destoryLoop cmd (fuel + 1) heap head pPrv (some a) =
      destoryLoop cmd fuel heap head (some a) n := by
  simp only [destoryLoop, hc, if_neg hcmd]

/-- A turn over a leading node of `cmd`: the head moves on. -/
theorem destoryLoop_head {a : Nat} {v : SocketCmdInfo} {n : Option Nat}
    (hc : heap.cells a = some ⟨v, n⟩) (hcmd : v.cmd = cmd) (fuel : Nat) (head : Option Nat) :
    ∃ heap', destoryLoop cmd (fuel + 1) heap head none (some a) =
        destoryLoop cmd fuel heap' n none n ∧
      (∀ b, b ≠ a → heap'.cells b = heap.cells b) ∧ heap'.brk = heap.brk := by
  obtain ⟨heap', hfree, -, hother, hbrk⟩ := Heap.free_live hc
  refine ⟨heap', ?_, hother, hbrk⟩
  simp [destoryLoop, hc, hcmd, hfree]

/-- A turn over a later node of `cmd`: the node in front keeps its `next`,
unless the node was the tail. -/
theorem destoryLoop_later {a prv : Nat} {v w : SocketCmdInfo} {n m : Option Nat}
    (hc : heap.cells a = some ⟨v, n⟩) (hcmd : v.cmd = cmd)
    (hp : heap.cells prv = some ⟨w, m⟩) (hne : prv ≠ a) (fuel : Nat) (head : Option Nat) :
    ∃ heap', destoryLoop cmd (fuel + 1) heap head (some prv) (some a) =
        destoryLoop cmd fuel heap' head (some prv) n ∧
      heap'.cells a = none ∧
      heap'.cells prv = some ⟨w, if n = none then none else m⟩ ∧
      (∀ b, b ≠ a → b ≠ prv → heap'.cells b = heap.cells b) ∧ heap'.brk = heap.brk := by
  cases n with
  -- the tail: the node in front of it gets `next = NULL`
  | none =>
    obtain ⟨heap₁, hset, hprv, hother₁, hbrk₁⟩ := Heap.setNext_live none hp
    obtain ⟨heap₂, hfree, hnone, hother₂, hbrk₂⟩ :=
      Heap.free_live ((hother₁ a (Ne.symm hne)).trans hc)
    refine ⟨heap₂, ?_, hnone, ?_, fun b hba hbp => ?_, hbrk₂.trans hbrk₁⟩
    · simp [destoryLoop, hc, hcmd, hset, hfree]
    · rw [hother₂ prv hne, hprv]
      simp
    · rw [hother₂ b hba, hother₁ b hbp]
  -- not the tail: only the node itself is released
  | some n =>
    obtain ⟨heap', hfree, hnone, hother, hbrk⟩ := Heap.free_live hc
    refine ⟨heap', ?_, hnone, ?_, fun b hba _ => hother b hba, hbrk⟩
    · simp [destoryLoop, hc, hcmd, hfree]
    · rw [hother prv hne, hp]
      simp

/-- The loop from behind a fragment that stays. It releases the nodes of
`cmd`, and changes nothing else but the `next` of that fragment, and this
only if nothing but nodes of `cmd` follow. -/
theorem destoryLoop_frame {tmp : Option Nat} {xs : List (Nat × SocketCmdInfo)} {prv : Nat}
    {w : SocketCmdInfo} {m : Option Nat} (hl : Linked heap tmp xs none)
    (hp : heap.cells prv = some ⟨w, m⟩) (hprv : prv ∉ xs.map Prod.fst)
    {fuel : Nat} (hfuel : xs.length ≤ fuel) (head : Option Nat) :
    ∃ heap', destoryLoop cmd fuel heap head (some prv) tmp = some ⟨heap', head⟩ ∧
      (∀ x ∈ xs, x.2.cmd = cmd → heap'.cells x.1 = none) ∧
      heap'.cells prv =
        some ⟨w, if xs ≠ [] ∧ ∀ x ∈ xs, x.2.cmd = cmd then none else m⟩ ∧
      (∀ b, b ≠ prv → b ∉ xs.map Prod.fst → heap'.cells b = heap.cells b) ∧
      heap'.brk = heap.brk := by
  -- the node in front changes where a fragment of another command stays
  induction xs generalizing heap tmp prv w m fuel with
  | nil =>
    obtain rfl : tmp = none := hl
    refine ⟨heap, ?_, by simp, by simpa using hp, fun _ _ _ => rfl, rfl⟩
    cases fuel <;> rfl
  | cons x xs ih =>
    have hnodup := hl.nodup (LinkedHeap.dead_none _)
    obtain ⟨a, v⟩ := x
    obtain ⟨rfl, n, hc, hxs⟩ := hl
    obtain ⟨fuel, rfl⟩ : ∃ k, fuel = k + 1 := ⟨fuel - 1, by simp at hfuel; omega⟩
    simp only [List.map_cons, List.mem_cons, not_or, List.nodup_cons] at hprv hnodup
    simp only [List.length_cons, Nat.add_le_add_iff_right] at hfuel
    by_cases hcmd : v.cmd = cmd
    · -- the node is released; the rest of the list is as before
      obtain ⟨heap₁, hturn, hnone, hp₁, hother₁, hbrk₁⟩ :=
        destoryLoop_later hc hcmd hp hprv.1 fuel head
      have hxs₁ : Linked heap₁ n xs none := hxs.congr fun y hy => by
        have hmem : y.1 ∈ xs.map Prod.fst := List.mem_map_of_mem hy
        exact hother₁ _ (fun h => hnodup.1 (h ▸ hmem)) fun h => hprv.2 (h ▸ hmem)
      obtain ⟨heap₂, hrun, hfreed, hp₂, hother₂, hbrk₂⟩ := ih hxs₁ hp₁ hprv.2 hfuel
      refine ⟨heap₂, hturn.trans hrun, ?_, ?_, ?_, hbrk₂.trans hbrk₁⟩
      · intro y hy hycmd
        rcases List.mem_cons.mp hy with rfl | hy
        · rw [hother₂ a (Ne.symm hprv.1) hnodup.1, hnone]
        · exact hfreed y hy hycmd
      · rw [hp₂]
        cases xs with
        | nil =>
          obtain rfl : n = none := hxs
          simp [hcmd]
        | cons y ys =>
          obtain ⟨rfl, -⟩ := hxs
          rw [if_neg (by simp : ¬ some y.1 = none)]
          simp only [ne_eq, List.cons_ne_nil, not_false_eq_true, true_and,
            List.forall_mem_cons, hcmd]
      · intro b hb hbxs
        rw [List.map_cons, List.mem_cons, not_or] at hbxs
        rw [hother₂ b hb hbxs.2, hother₁ b hbxs.1 hb]
    · -- the fragment `a` stays and becomes the previous node
      obtain ⟨heap', hrun, hfreed, ha, hother, hbrk⟩ := ih hxs hc hnodup.1 hfuel
      refine ⟨heap', (destoryLoop_other hc hcmd fuel head _).trans hrun, ?_, ?_, ?_, hbrk⟩
      · intro y hy hycmd
        rcases List.mem_cons.mp hy with rfl | hy
        · exact absurd hycmd hcmd
        · exact hfreed y hy hycmd
      · rw [hother prv hprv.1 hprv.2, hp, if_neg fun h => hcmd (h.2 _ (List.mem_cons_self ..))]
      · intro b hb hbxs
        rw [List.map_cons, List.mem_cons, not_or] at hbxs
        exact hother b hbxs.1 hbxs.2

/-- The loop from a fragment that stays and is still linked to what follows. -/
theorem destoryLoop_kept {tmp : Option Nat} {xs : List (Nat × SocketCmdInfo)} {prv : Nat}
    {w : SocketCmdInfo} (hl : Linked heap tmp xs none) (hp : heap.cells prv = some ⟨w, tmp⟩)
    (hprv : prv ∉ xs.map Prod.fst) {fuel : Nat} (hfuel : xs.length ≤ fuel)
    (head : Option Nat) :
    ∃ heap' ys q, destoryLoop cmd fuel heap head (some prv) tmp = some ⟨heap', head⟩ ∧
      Linked heap' (some prv) ((prv, w) :: ys) q ∧
      Ends heap' q (((xs.map Prod.snd).dropWhile fun i => i.cmd ≠ cmd).any
        fun i => i.cmd ≠ cmd) ∧
      ys.map Prod.snd = (xs.map Prod.snd).takeWhile fun i => i.cmd ≠ cmd := by
  induction xs generalizing tmp prv w fuel with
  | nil =>
    obtain rfl : tmp = none := hl
    refine ⟨heap, [], none, ?_, ⟨rfl, none, hp, rfl⟩, .null, rfl⟩
    cases fuel <;> rfl
  | cons x xs ih =>
    have hnodup := hl.nodup (LinkedHeap.dead_none _)
    have hwhole := hl
    obtain ⟨a, v⟩ := x
    obtain ⟨rfl, n, hc, hxs⟩ := hl
    by_cases hcmd : v.cmd = cmd
    · obtain ⟨heap', hrun, hfreed, hp', -, hbrk⟩ :=
        @destoryLoop_frame cmd _ _ _ _ _ _ hwhole hp hprv _ hfuel head
      -- from here to the end nothing but `cmd`: the tail is unlinked
      by_cases hall : ∀ x ∈ xs, x.2.cmd = cmd
      · rw [if_pos ⟨by simp, by simpa [hcmd] using hall⟩] at hp'
        refine ⟨heap', [], none, hrun, ⟨rfl, none, hp', rfl⟩, ?_, by simp [hcmd]⟩
        have hnone : (((((a, v) :: xs).map Prod.snd).dropWhile fun i => i.cmd ≠ cmd).any
            fun i => i.cmd ≠ cmd) = false := by
          simpa [hcmd] using hall
        rw [hnone]
        exact .null
      · -- the gap: `prv` still points at the released node `a`
        rw [if_neg fun h => hall fun y hy => h.2 y (List.mem_cons_of_mem _ hy)] at hp'
        refine ⟨heap', [], some a, hrun, ⟨rfl, some a, hp', rfl⟩, ?_, by simp [hcmd]⟩
        have hsome : (((((a, v) :: xs).map Prod.snd).dropWhile fun i => i.cmd ≠ cmd).any
            fun i => i.cmd ≠ cmd) = true := by
          simpa [hcmd] using hall
        rw [hsome]
        refine .released ?_ (hfreed _ (List.mem_cons_self ..) hcmd)
        rw [hbrk]
        exact Heap.lt_brk_of_live hc
    · simp only [List.map_cons, List.mem_cons, not_or, List.nodup_cons] at hprv hnodup
      obtain ⟨fuel, rfl⟩ : ∃ k, fuel = k + 1 := ⟨fuel - 1, by simp at hfuel; omega⟩
      simp only [List.length_cons, Nat.add_le_add_iff_right] at hfuel
      obtain ⟨heap', ys, q, hrun, hlink, hend, hys⟩ := ih hxs hc hnodup.1 hfuel
      obtain ⟨heap₁, hrun₁, -, -, hother, -⟩ :=
        @destoryLoop_frame cmd _ _ _ _ _ _ hxs hc hnodup.1 _ hfuel head
      obtain rfl : heap' = heap₁ := by
        rw [hrun, Option.some.injEq, RecvList.mk.injEq] at hrun₁
        exact hrun₁.1
      refine ⟨heap', (a, v) :: ys, q, (destoryLoop_other hc hcmd fuel head _).trans hrun,
        ⟨rfl, some a, (hother prv hprv.1 hprv.2).trans hp, hlink⟩, ?_, ?_⟩
      · simpa [hcmd] using hend
      · simpa [hcmd] using hys

/-- `_destoryRecvList2` on a list that ends at null. -/
theorem destoryLoop_none {tmp : Option Nat} {xs : List (Nat × SocketCmdInfo)}
    (hl : Linked heap tmp xs none) {fuel : Nat} (hfuel : xs.length ≤ fuel) :
    ∃ s', destoryLoop cmd fuel heap tmp none tmp = some s' ∧
      Held s' (kept cmd (xs.map Prod.snd)) (cuts cmd (xs.map Prod.snd)) := by
  induction xs generalizing heap tmp fuel with
  | nil =>
    obtain rfl : tmp = none := hl
    refine ⟨⟨heap, none⟩, ?_, [], none, rfl, .null, rfl⟩
    cases fuel <;> rfl
  | cons x xs ih =>
    have hnodup := hl.nodup (LinkedHeap.dead_none _)
    obtain ⟨a, v⟩ := x
    obtain ⟨rfl, n, hc, hxs⟩ := hl
    obtain ⟨fuel, rfl⟩ : ∃ k, fuel = k + 1 := ⟨fuel - 1, by simp at hfuel; omega⟩
    simp only [List.length_cons, Nat.add_le_add_iff_right] at hfuel
    simp only [List.map_cons, List.nodup_cons] at hnodup
    -- at the head a node is cut off; behind a kept node `destoryLoop_kept` goes on
    by_cases hcmd : v.cmd = cmd
    · obtain ⟨heap₁, hturn, hother, -⟩ := destoryLoop_head hc hcmd fuel (some a)
      have hxs₁ : Linked heap₁ n xs none := hxs.congr fun y hy =>
        hother _ fun h => hnodup.1 (h ▸ List.mem_map_of_mem hy)
      obtain ⟨s', hrun, hheld⟩ := ih hxs₁ hfuel
      exact ⟨s', hturn.trans hrun, by simpa [kept, cuts, hcmd] using hheld⟩
    · obtain ⟨heap', ys, q, hrun, hlink, hend, hys⟩ :=
        @destoryLoop_kept cmd _ _ _ _ _ hxs hc hnodup.1 _ hfuel (some a)
      refine ⟨⟨heap', some a⟩, (destoryLoop_other hc hcmd fuel _ _).trans hrun,
        (a, v) :: ys, q, hlink, ?_, ?_⟩
      · simpa [cuts, hcmd] using hend
      · simpa [kept, hcmd] using hys

end Destory

/-- Releasing the nodes of one command. -/
theorem destoryRecvList2_held {s : RecvList} {p : List SocketCmdInfo} (h : Held s p false)
    (cmd : BitVec 16) :
    ∃ s', destoryRecvList2 s cmd = some s' ∧ Held s' (kept cmd p) (cuts cmd p) := by
  obtain ⟨xs, q, hl, he, rfl⟩ := h
  cases he
  exact destoryLoop_none hl (hl.length_le (LinkedHeap.dead_none _))

/-- A list, cut where the release of `cmd` cuts it. -/
theorem release_split (cmd : BitVec 16) (p : List SocketCmdInfo) :
    p = (p.takeWhile fun i => i.cmd = cmd) ++ (kept cmd p ++
      (p.dropWhile fun i => i.cmd = cmd).dropWhile fun i => i.cmd ≠ cmd) := by
  rw [kept, List.takeWhile_append_dropWhile, List.takeWhile_append_dropWhile]

/-- What is kept is of another command. -/
theorem ne_of_mem_kept {cmd : BitVec 16} {p : List SocketCmdInfo} {i : SocketCmdInfo}
    (hi : i ∈ kept cmd p) : i.cmd ≠ cmd := by
  rw [kept] at hi
  simpa using List.mem_takeWhile_imp hi

/-- When nothing is cut, exactly the other commands' fragments stay. -/
theorem kept_eq_filter {cmd : BitVec 16} {p : List SocketCmdInfo} (h : cuts cmd p = false) :
    kept cmd p = p.filter fun i => i.cmd ≠ cmd := by
  conv_rhs => rw [release_split cmd p]
  -- of the three pieces of `release_split` only the kept one passes the filter
  have hfront : ((p.takeWhile fun i => i.cmd = cmd).filter fun i => i.cmd ≠ cmd) = [] :=
    List.filter_eq_nil_iff.mpr fun i hi => by simpa using List.mem_takeWhile_imp hi
  have hback : (((p.dropWhile fun i => i.cmd = cmd).dropWhile fun i => i.cmd ≠ cmd).filter
      fun i => i.cmd ≠ cmd) = [] := by
    rw [List.filter_eq_nil_iff]
    rwa [cuts, List.any_eq_false] at h
  have hkept : ((kept cmd p).filter fun i => i.cmd ≠ cmd) = kept cmd p :=
    List.filter_eq_self.mpr fun i hi => by simpa using ne_of_mem_kept hi
  rw [List.filter_append, List.filter_append, hfront, hback, hkept, List.nil_append,
    List.append_nil]

/-- Behind the first node of `cmd` there is another fragment. -/
theorem any_dropWhile_ne_iff {cmd : BitVec 16} {p : List SocketCmdInfo} :
    ((p.dropWhile fun i => i.cmd ≠ cmd).any fun i => i.cmd ≠ cmd) = true ↔
      ∃ y z, [y, z].Sublist p ∧ y.cmd = cmd ∧ z.cmd ≠ cmd := by
  induction p with
  | nil => simp
  | cons v p ih =>
    by_cases hcmd : v.cmd = cmd
    -- the first node of the command is here
    · rw [List.dropWhile_cons_of_neg (by simpa using hcmd), List.any_eq_true]
      constructor
      · rintro ⟨z, hz, hzcmd⟩
        rw [decide_eq_true_eq] at hzcmd
        rcases List.mem_cons.mp hz with rfl | hz
        · exact absurd hcmd hzcmd
        · exact ⟨v, z, (List.singleton_sublist.mpr hz).cons_cons v, hcmd, hzcmd⟩
      · rintro ⟨y, z, hsub, -, hzcmd⟩
        exact ⟨z, hsub.subset (by simp), by simpa using hzcmd⟩
    -- it comes later
    · rw [List.dropWhile_cons_of_pos (by simpa using hcmd), ih]
      constructor
      · rintro ⟨y, z, hsub, h⟩
        exact ⟨y, z, hsub.cons v, h⟩
      · rintro ⟨y, z, hsub, hy, hz⟩
        cases hsub with
        | cons _ hsub => exact ⟨y, z, hsub, hy, hz⟩
        | cons_cons _ _ => exact absurd hy hcmd

/-- A release cuts the list exactly when a fragment of `cmd` lies between two
fragments of other commands. -/
theorem cuts_iff {cmd : BitVec 16} {p : List SocketCmdInfo} :
    cuts cmd p = true ↔
      ∃ x y z, [x, y, z].Sublist p ∧ x.cmd ≠ cmd ∧ y.cmd = cmd ∧ z.cmd ≠ cmd := by
  induction p with
  | nil => simp [cuts]
  | cons v p ih =>
    by_cases hcmd : v.cmd = cmd
    -- the head goes without a cut: it is of the command
    · rw [cuts, List.dropWhile_cons_of_pos (by simpa using hcmd), ← cuts, ih]
      constructor
      · rintro ⟨x, y, z, hsub, h⟩
        exact ⟨x, y, z, hsub.cons v, h⟩
      · rintro ⟨x, y, z, hsub, hx, h⟩
        cases hsub with
        | cons _ hsub => exact ⟨x, y, z, hsub, hx, h⟩
        | cons_cons _ _ => exact absurd hcmd hx
    -- the head stays, and a fragment of the command behind it cuts off the rest
    · rw [cuts, List.dropWhile_cons_of_neg (by simpa using hcmd),
        List.dropWhile_cons_of_pos (by simpa using hcmd), any_dropWhile_ne_iff]
      constructor
      · rintro ⟨y, z, hsub, h⟩
        exact ⟨v, y, z, hsub.cons_cons v, hcmd, h⟩
      · rintro ⟨x, y, z, hsub, -, hy, hz⟩
        cases hsub with
        | cons _ hsub => exact ⟨y, z, (List.sublist_cons_self x _).trans hsub, hy, hz⟩
        | cons_cons _ hsub => exact ⟨y, z, hsub, hy, hz⟩

end PgClient.PackSocket
