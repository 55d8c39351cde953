import PgClient.Lib.LinkedRing
import PgClient.Lib.PartialRun

/-!
# Intrusive lists

`mList.h`: a node carries its two links in itself, and a list is the ring that leads from a head
back to it. All heads and nodes share the memory. `Lists` says which node is a head, and what is
in its list; `Op.spec` is what a call does to that.

* `Op.exec_ok` — each call does to the memory what `Op.spec` says.
* `takeFirst_holds`, `add2Tail_holds` — the two calls of `listApi.cpp`.
* `run_fifo` — what is added at the tail and taken at the front comes in the order it went in.
* `listRun_ok` — both over a run of calls, with `list_empty` and `list_count`.
-/

namespace PgClient.MList

open LinkedRing PartialRun

/-! ## The code -/

/-- `NULL`. -/
def null : Nat := 0

/-- The `node_t` at all addresses. -/
abbrev Nodes := Links Nat

/-- `p->next`; there is no node at `NULL`. -/
def next (p : Nat) (h : Nodes) : Option Nat := if p = null then none else some (h.next p)

/-- `p->prev`. -/
def prev (p : Nat) (h : Nodes) : Option Nat := if p = null then none else some (h.prev p)

/-- `p->next = v`. -/
def setNext (p v : Nat) (h : Nodes) : Option Nodes :=
  if p = null then none else some { h with next := Function.update h.next p v }

/-- `p->prev = v`. -/
def setPrev (p v : Nat) (h : Nodes) : Option Nodes :=
  if p = null then none else some { h with prev := Function.update h.prev p v }

/-- `init_list_head`. -/
def initListHead (pHead : Nat) (h : Nodes) : Option Nodes := do
  let h ← setNext pHead pHead h
  setPrev pHead pHead h

/-- `__list_add`. -/
def listAddBetween (pNew pPrev pNext : Nat) (h : Nodes) : Option Nodes := do
  -- in an empty list `pPrev` and `pNext` are both the head
  let h ← setPrev pNext pNew h
  let h ← setNext pNew pNext h
  let h ← setPrev pNew pPrev h
  setNext pPrev pNew h

/-- `list_add`. -/
def listAdd (pNew pHead : Nat) (h : Nodes) : Option Nodes := do
  let pNext ← next pHead h
  listAddBetween pNew pHead pNext h

/-- `list_add_tail`. -/
def listAddTail (pNew pHead : Nat) (h : Nodes) : Option Nodes := do
  let pPrev ← prev pHead h
  listAddBetween pNew pPrev pHead h

/-- `list_empty`. -/
def listEmpty (pHead : Nat) (h : Nodes) : Option Bool :=
  (next pHead h).map fun pNext => decide (pNext = pHead)

/-- `__list_del`. -/
def listDelBetween (pPrev pNext : Nat) (h : Nodes) : Option Nodes := do
  let h ← setPrev pNext pPrev h
  setNext pPrev pNext h

/-- `list_del`. -/
def listDel (pEntry : Nat) (h : Nodes) : Option Nodes := do
  let pPrev ← prev pEntry h
  let pNext ← next pEntry h
  let h ← listDelBetween pPrev pNext h
  -- the entry keeps no link into the list
  let h ← setNext pEntry null h
  setPrev pEntry null h

/-- `list_take_first`: the memory then, and `pNode`. -/
def listTakeFirst (pHead : Nat) (h : Nodes) : Option (Nodes × Nat) :=
  if pHead = null then some (h, null)
  else do
    let pNode ← next pHead h
    if pHead = pNode then some (h, null)
    else (listDel pNode h).map fun h => (h, pNode)

/-- The loop of `list_count`. A node has 8 of the 2^32 bytes of memory for itself, so `cnt` stays
far below the end of an `int`. -/
def countLoop (pHead : Nat) (h : Nodes) : Nat → Nat → Nat → Option Nat
  | 0, _, _ => none
  | fuel + 1, pTemp, cnt =>
    if pTemp = pHead then some cnt
    else (next pTemp h).bind fun pTemp => countLoop pHead h fuel pTemp (cnt + 1)

/-- `list_count`, with at most `fuel` looks at `pTemp`. -/
def listCount (fuel pHead : Nat) (h : Nodes) : Option Nat :=
  if pHead = null then some 0
  else (next pHead h).bind fun pTemp => countLoop pHead h fuel pTemp 0

/-- What `listApi.cpp` keeps of a list: its head, and how often `signal` was given. -/
structure ListM where
  head : Nat
  signal : Nat

/-- `takeFirst`. `index` is the first member of a node, so the node is where `index` is. -/
def takeFirst (pM : Option ListM) (h : Nodes) : Option (Nodes × Nat) :=
  match pM with
  | none => some (h, null)
  | some pM => if pM.head = null then some (h, null) else listTakeFirst pM.head h

/-- `add2Tail`: the memory, the list and what is returned. -/
def add2Tail (pM : Option ListM) (pData : Nat) (h : Nodes) : Option (Nodes × Option ListM × Int) :=
  match pM with
  | none => some (h, none, -1)
  | some pM =>
    if pData = null ∨ pM.head = null then some (h, some pM, -1)
    else (listAddTail pData pM.head h).map fun h =>
      (h, some { pM with signal := pM.signal + 1 }, 0)

/-- A call on a list. -/
inductive Op
  | initListHead (pHead : Nat)
  | listAdd (pNew pHead : Nat)
  | listAddTail (pNew pHead : Nat)
  | listDel (pEntry : Nat)
  | listTakeFirst (pHead : Nat)
  deriving DecidableEq

/-- A call on the memory, and what it returns if it returns something. -/
def Op.exec : Op → Nodes → Option (Nodes × Option Nat)
  | .initListHead pHead, h => (MList.initListHead pHead h).map fun h => (h, none)
  | .listAdd pNew pHead, h => (MList.listAdd pNew pHead h).map fun h => (h, none)
  | .listAddTail pNew pHead, h => (MList.listAddTail pNew pHead h).map fun h => (h, none)
  | .listDel pEntry, h => (MList.listDel pEntry h).map fun h => (h, none)
  | .listTakeFirst pHead, h => (MList.listTakeFirst pHead h).map fun r => (r.1, some r.2)

/-! ## What the calls are for -/

/-- The nodes that are heads, and the nodes in their lists. -/
abbrev Lists := Nat → Option (List Nat)

/-- The nodes in a list. -/
def Lists.members (L : Lists) (p : Nat) : List Nat := (L p).getD []

/-- A node that is in no list. -/
def Lists.Loose (L : Lists) (n : Nat) : Prop := ∀ p ns, L p = some ns → n ∉ ns

/-- One list becomes this one. -/
def Lists.set (L : Lists) (p : Nat) (ns : List Nat) : Lists := Function.update L p (some ns)

/-- A node goes into a list; it is no head any more. -/
def Lists.put (L : Lists) (n p : Nat) (ns : List Nat) : Lists :=
  Lists.set (Function.update L n none) p ns

/-- What a call does to the lists, and what it returns. -/
def Op.spec : Op → Lists → Lists × Option Nat
  | .initListHead pHead, L => (L.set pHead [], none)
  | .listAdd pNew pHead, L => (L.put pNew pHead (pNew :: L.members pHead), none)
  | .listAddTail pNew pHead, L => (L.put pNew pHead (L.members pHead ++ [pNew]), none)
  | .listDel pEntry, L => (fun p => (L p).map fun ns => ns.erase pEntry, none)
  | .listTakeFirst pHead, L =>
    match L.members pHead with
    | [] => (L, some null)
    | n :: ns => (L.set pHead ns, some n)

/-- A node may be added to a list if it is in no list, and no list hangs on it. -/
def Lists.MayAdd (L : Lists) (n p : Nat) : Prop :=
  n ≠ null ∧ n ≠ p ∧ L.Loose n ∧ L.members n = [] ∧ L p ≠ none

/-- The calls that a program may make. -/
def Op.Allowed : Op → Lists → Prop
  | .initListHead pHead, L => pHead ≠ null ∧ L.Loose pHead
  | .listAdd pNew pHead, L => L.MayAdd pNew pHead
  | .listAddTail pNew pHead, L => L.MayAdd pNew pHead
  | .listDel pEntry, L => ∃ p ns, L p = some ns ∧ pEntry ∈ ns
  | .listTakeFirst pHead, L => pHead = null ∨ L pHead ≠ none

/-- The memory holds the lists, each in a ring of its own. -/
structure Holds (h : Nodes) (L : Lists) : Prop where
  ring : ∀ {p ns}, L p = some ns → Ring h p ns
  nodup : ∀ {p ns}, L p = some ns → (p :: ns).Nodup
  null : ∀ {p ns}, L p = some ns → null ∉ p :: ns
  apart : ∀ {p ns q ms x}, L p = some ns → L q = some ms → p ≠ q → x ∈ p :: ns → x ∉ q :: ms

/-! ## The splices -/

/-- A node with no links. -/
def cleared (n : Nat) (h : Nodes) : Nodes :=
  ⟨Function.update h.next n null, Function.update h.prev n null⟩

theorem initListHead_eq {p : Nat} (hp : p ≠ null) (h : Nodes) :
    initListHead p h = some ⟨Function.update h.next p p, Function.update h.prev p p⟩ := by
  simp [initListHead, setNext, setPrev, hp]

theorem listAddBetween_eq {n x z : Nat} (hn : n ≠ null) (hx : x ≠ null) (hz : z ≠ null)
    (h : Nodes) : listAddBetween n x z h = some (h.insert n x z) := by
  simp [listAddBetween, setNext, setPrev, hn, hx, hz, Links.insert]

theorem listDel_eq {n : Nat} {h : Nodes} (hn : n ≠ null) (hprev : h.prev n ≠ null)
    (hnext : h.next n ≠ null) :
    listDel n h = some (cleared n (h.join (h.prev n) (h.next n))) := by
  simp [listDel, listDelBetween, next, prev, setNext, setPrev, hn, hprev, hnext, Links.join,
    cleared]

theorem cleared_of_ne {n x : Nat} (hx : x ≠ n) (h : Nodes) :
    (cleared n h).next x = h.next x ∧ (cleared n h).prev x = h.prev x :=
  ⟨Function.update_of_ne hx .., Function.update_of_ne hx ..⟩

/-! ## The lists -/

theorem set_eq_some {L : Lists} {p q : Nat} {ns ms : List Nat} :
    L.set p ns q = some ms ↔ q = p ∧ ms = ns ∨ q ≠ p ∧ L q = some ms := by
  unfold Lists.set
  by_cases hq : q = p
  · subst hq
    simp [eq_comm]
  · simp [hq]

theorem set_self {L : Lists} {p : Nat} {ns : List Nat} (hp : L p = some ns) : L.set p ns = L :=
  Function.update_eq_self_iff.mpr hp.symm

theorem drop_eq_some {L : Lists} {n q : Nat} {ms : List Nat} :
    Function.update L n none q = some ms ↔ q ≠ n ∧ L q = some ms := by
  by_cases hq : q = n
  · subst hq
    simp
  · simp [hq]

theorem set_of_ne {L : Lists} {p q : Nat} {ms : List Nat} (hq : p ≠ q) : L.set q ms p = L p :=
  Function.update_of_ne hq ..

theorem put_of_ne {L : Lists} {n p q : Nat} {ms : List Nat} (hn : p ≠ n) (hq : p ≠ q) :
    L.put n q ms p = L p :=
  (set_of_ne hq).trans (Function.update_of_ne hn ..)

/-- A node of no list is no cell of another head's ring. -/
theorem Lists.Loose.ne {L : Lists} {n q x : Nat} {ms : List Nat} (h : L.Loose n)
    (hq : L q = some ms) (hqn : q ≠ n) (hx : x ∈ q :: ms) : x ≠ n := by
  rintro rfl
  rcases List.mem_cons.mp hx with hxq | hx
  · exact hqn hxq.symm
  · exact h q ms hq hx

theorem members_eq {L : Lists} {p : Nat} {ns : List Nat} (hp : L p = some ns) :
    L.members p = ns := by
  rw [Lists.members, hp, Option.getD_some]

variable {h h' : Nodes} {L L' : Lists} {p n : Nat} {ns as bs : List Nat}

theorem Holds.mono (hL : Holds h L) (hsub : ∀ q ms, L' q = some ms → L q = some ms) :
    Holds h L' where
  ring hp := hL.ring (hsub _ _ hp)
  nodup hp := hL.nodup (hsub _ _ hp)
  null hp := hL.null (hsub _ _ hp)
  apart hp hq := hL.apart (hsub _ _ hp) (hsub _ _ hq)

/-- **One list changes**: it is in a ring, and the others have no node of it and keep theirs. -/
theorem Holds.set (hL : Holds h L) (hring : Ring h' p ns) (hnd : (p :: ns).Nodup)
    (hnull : MList.null ∉ p :: ns)
    (hother : ∀ q ms, q ≠ p → L q = some ms → ∀ x ∈ q :: ms,
      x ∉ p :: ns ∧ h'.next x = h.next x ∧ h'.prev x = h.prev x) :
    Holds h' (L.set p ns) where
  ring {q ms} hq := by
    rcases set_eq_some.mp hq with ⟨rfl, rfl⟩ | ⟨hne, hq⟩
    · exact hring
    · exact (hL.ring hq).congr fun x hx => (hother q ms hne hq x hx).2
  nodup {q ms} hq := by
    rcases set_eq_some.mp hq with ⟨rfl, rfl⟩ | ⟨-, hq⟩
    · exact hnd
    · exact hL.nodup hq
  null {q ms} hq := by
    rcases set_eq_some.mp hq with ⟨rfl, rfl⟩ | ⟨-, hq⟩
    · exact hnull
    · exact hL.null hq
  apart {q ms q' ms' x} hq hq' hne hx hx' := by
    rcases set_eq_some.mp hq with ⟨rfl, rfl⟩ | ⟨hqp, hold⟩ <;>
      rcases set_eq_some.mp hq' with ⟨rfl, rfl⟩ | ⟨hqp', hold'⟩
    · exact hne rfl
    -- the list that changed and another one
    · exact (hother q' ms' hqp' hold' x hx').1 hx
    · exact (hother q ms hqp hold x hx).1 hx'
    · exact hL.apart hold hold' hne hx hx'

theorem ring_perm (p n : Nat) (as bs : List Nat) :
    (p :: (as ++ n :: bs)).Perm (n :: (p :: (as ++ bs))) :=
  show ((p :: as) ++ n :: bs).Perm (n :: ((p :: as) ++ bs)) from List.perm_middle

/-- A node into a list, at any place. -/
theorem Holds.insert (hL : Holds h L) (as bs : List Nat) (hp : L p = some (as ++ bs))
    (hadd : L.MayAdd n p) :
    Holds (h.insert n (as.getLastD p) (bs.headD p)) (L.put n p (as ++ n :: bs)) := by
  obtain ⟨hnull, hne, hloose, -, -⟩ := hadd
  have hn : n ∉ p :: (as ++ bs) := by
    rw [List.mem_cons, not_or]
    exact ⟨hne, hloose p _ hp⟩
  have hperm := ring_perm p n as bs
  obtain ⟨hlast, hhead⟩ := ends_mem p as bs
  refine Holds.set (hL.mono fun q ms hq => (drop_eq_some.mp hq).2)
    ((hL.ring hp).insert (hL.nodup hp) hn) ?_ ?_ ?_
  · exact hperm.nodup_iff.mpr (List.nodup_cons.mpr ⟨hn, hL.nodup hp⟩)
  · rw [hperm.mem_iff, List.mem_cons, not_or]
    exact ⟨hnull.symm, hL.null hp⟩
  · intro q ms hqp hq x hx
    obtain ⟨hqn, hold⟩ := drop_eq_some.mp hq
    -- a cell of another list is neither the new node nor in this ring
    have hxp : x ∉ p :: (as ++ bs) := hL.apart hold hp hqp hx
    have hxn : x ≠ n := hloose.ne hold hqn hx
    refine ⟨?_, Links.insert_next_of_ne hxn ?_, Links.insert_prev_of_ne hxn ?_⟩
    · rw [hperm.mem_iff, List.mem_cons, not_or]
      exact ⟨hxn, hxp⟩
    · rintro rfl
      exact hxp hlast
    · rintro rfl
      exact hxp hhead

/-- `list_del` of a node in a list. -/
theorem listDel_holds (hL : Holds h L) (as bs : List Nat) (hp : L p = some (as ++ n :: bs)) :
    ∃ h', listDel n h = some h' ∧ Holds h' (L.set p (as ++ bs)) := by
  have hring := hL.ring hp
  have hnd := hL.nodup hp
  have hperm := ring_perm p n as bs
  have hmem : n ∈ p :: (as ++ n :: bs) := hperm.mem_iff.mpr List.mem_cons_self
  obtain ⟨hn, hnd'⟩ := List.nodup_cons.mp (hperm.nodup_iff.mp hnd)
  obtain ⟨hprev, hnext⟩ := hring.around
  have hne : ∀ x ∈ p :: (as ++ n :: bs), x ≠ MList.null := by
    rintro x hx rfl
    exact hL.null hp hx
  -- both neighbours are cells of the ring, so they are there to be written
  obtain ⟨-, -, hnextMem, hprevMem⟩ := hring.inverse hmem
  refine ⟨_, listDel_eq (hne n hmem) (hne _ hprevMem) (hne _ hnextMem), ?_⟩
  rw [hprev.2, hnext.1]
  have hsub : ∀ x ∈ p :: (as ++ bs), x ∈ p :: (as ++ n :: bs) := by
    intro x hx
    exact hperm.mem_iff.mpr (List.mem_cons_of_mem n hx)
  obtain ⟨hlast, hhead⟩ := ends_mem p as bs
  refine hL.set ((hring.remove hnd).congr fun x hx => cleared_of_ne ?_ _) hnd' ?_ ?_
  · rintro rfl
    exact hn hx
  · exact fun hx => hL.null hp (hsub _ hx)
  · intro q ms hqp hq x hx
    -- a cell of another list is not written
    have hxp : x ∉ p :: (as ++ n :: bs) := hL.apart hq hp hqp hx
    have hxne : ∀ y ∈ p :: (as ++ n :: bs), x ≠ y := by
      rintro y hy rfl
      exact hxp hy
    obtain ⟨hnext', hprev'⟩ :=
      cleared_of_ne (hxne n hmem) (h.join (as.getLastD p) (bs.headD p))
    refine ⟨fun hx' => hxp (hsub x hx'), hnext'.trans ?_, hprev'.trans ?_⟩
    · exact Function.update_of_ne (hxne _ (hsub _ hlast)) ..
    · exact Function.update_of_ne (hxne _ (hsub _ hhead)) ..

/-! ## The calls -/

theorem initListHead_holds (hL : Holds h L) (hp : p ≠ MList.null) (hloose : L.Loose p) :
    ∃ h', initListHead p h = some h' ∧ Holds h' (L.set p []) := by
  refine ⟨_, initListHead_eq hp h, hL.set ?_ (List.nodup_singleton p) ?_ ?_⟩
  · exact ring_nil.mpr ⟨Function.update_self .., Function.update_self ..⟩
  · rw [List.mem_singleton]
    exact hp.symm
  · intro q ms hqp hq x hx
    -- what was in the list of `p` is in no list any more
    have hxp : x ≠ p := hloose.ne hq hqp hx
    refine ⟨?_, Function.update_of_ne hxp .., Function.update_of_ne hxp ..⟩
    rwa [List.mem_singleton]

/-- The links of a ring lead to nodes. -/
theorem Holds.ne_null (hL : Holds h L) (hp : L p = some ns) :
    p ≠ MList.null ∧ ns.headD p ≠ MList.null ∧ ns.getLastD p ≠ MList.null := by
  have hne : ∀ x ∈ p :: ns, x ≠ MList.null := by
    rintro x hx rfl
    exact hL.null hp hx
  exact ⟨hne p List.mem_cons_self, hne _ (ends_mem p [] ns).2, hne _ List.getLastD_mem_cons⟩

theorem listAdd_holds (hL : Holds h L) (hp : L p = some ns) (hadd : L.MayAdd n p) :
    ∃ h', listAdd n p h = some h' ∧ Holds h' (L.put n p (n :: ns)) := by
  obtain ⟨hpnull, hhead, -⟩ := hL.ne_null hp
  refine ⟨h.insert n p (ns.headD p), ?_, hL.insert [] ns hp hadd⟩
  rw [listAdd, next, if_neg hpnull, (hL.ring hp).around_head.2.1]
  exact listAddBetween_eq hadd.1 hpnull hhead h

theorem listAddTail_holds (hL : Holds h L) (hp : L p = some ns) (hadd : L.MayAdd n p) :
    ∃ h', listAddTail n p h = some h' ∧ Holds h' (L.put n p (ns ++ [n])) := by
  obtain ⟨hpnull, -, hlast⟩ := hL.ne_null hp
  refine ⟨h.insert n (ns.getLastD p) p, ?_, ?_⟩
  · rw [listAddTail, prev, if_neg hpnull, (hL.ring hp).around_head.1.2]
    exact listAddBetween_eq hadd.1 hlast hpnull h
  · exact hL.insert ns [] ((List.append_nil ns).symm ▸ hp) hadd

/-- `list_take_first` of a head. -/
theorem listTakeFirst_holds (hL : Holds h L) (hp : L p = some ns) :
    ∃ h', listTakeFirst p h = some (h', ns.headD MList.null) ∧ Holds h' (L.set p ns.tail) := by
  have hpnull := (hL.ne_null hp).1
  have hnext := (hL.ring hp).around_head.2.1
  rw [listTakeFirst, if_neg hpnull, next, if_neg hpnull, hnext]
  cases ns with
  | nil =>
    -- the head is behind itself, and nothing is done
    rw [List.tail_nil, set_self hp]
    exact ⟨h, if_pos rfl, hL⟩
  | cons n ns =>
    obtain ⟨h', hdel, hL'⟩ := listDel_holds hL [] ns hp
    have hne : p ≠ n := by
      rintro rfl
      exact (List.nodup_cons.mp (hL.nodup hp)).1 List.mem_cons_self
    refine ⟨h', ?_, hL'⟩
    show (if p = n then _ else (listDel n h).map _) = _
    rw [if_neg hne, hdel]
    rfl

theorem takeFirst_holds {pM : ListM} (hL : Holds h L) (hp : L pM.head = some ns) :
    ∃ h', takeFirst (some pM) h = some (h', ns.headD MList.null) ∧
      Holds h' (L.set pM.head ns.tail) := by
  obtain ⟨h', htake, hL'⟩ := listTakeFirst_holds hL hp
  exact ⟨h', (if_neg (hL.ne_null hp).1).trans htake, hL'⟩

/-- Only with a node there is something to wait for. -/
theorem add2Tail_holds {pM : ListM} (hL : Holds h L) (hp : L pM.head = some ns)
    (hadd : L.MayAdd n pM.head) :
    ∃ h', add2Tail (some pM) n h = some (h', some ⟨pM.head, pM.signal + 1⟩, 0) ∧
      Holds h' (L.put n pM.head (ns ++ [n])) := by
  obtain ⟨h', htail, hL'⟩ := listAddTail_holds hL hp hadd
  refine ⟨h', ?_, hL'⟩
  rw [add2Tail, if_neg (not_or.mpr ⟨hadd.1, (hL.ne_null hp).1⟩), htail]
  rfl

/-- A node is in one list only, so `list_del` takes it out of that one. -/
theorem spec_listDel (hL : Holds h L) (hp : L p = some (as ++ n :: bs)) :
    (fun q => (L q).map fun ns => ns.erase n) = L.set p (as ++ bs) := by
  obtain ⟨hn, -⟩ := List.nodup_cons.mp ((ring_perm p n as bs).nodup_iff.mp (hL.nodup hp))
  funext q
  by_cases hq : q = p
  -- the list it is in
  · subst hq
    have has : n ∉ as := fun h => hn (List.mem_cons_of_mem q (List.mem_append_left bs h))
    rw [hp, Lists.set, Function.update_self, Option.map_some, List.erase_append_right _ has,
      List.erase_cons_head]
  · rw [Lists.set, Function.update_of_ne hq]
    cases hms : L q with
    | none => rfl
    | some ms =>
      -- the others do not have it
      have hnq : n ∉ q :: ms := by
        refine hL.apart hp hms (Ne.symm hq) ?_
        exact (ring_perm p n as bs).mem_iff.mpr List.mem_cons_self
      rw [Option.map_some, List.erase_of_not_mem fun h => hnq (List.mem_cons_of_mem q h)]

/-- **Each call does what it is for.** -/
theorem Op.exec_ok (op : Op) (hL : Holds h L) (hop : op.Allowed L) :
    ∃ h', op.exec h = some (h', (op.spec L).2) ∧ Holds h' (op.spec L).1 := by
  cases op with
  | initListHead p =>
    obtain ⟨h', hexec, hL'⟩ := initListHead_holds hL hop.1 hop.2
    exact ⟨h', by rw [exec, hexec]; rfl, hL'⟩
  | listAdd n p =>
    obtain ⟨ns, hp⟩ := Option.ne_none_iff_exists'.mp hop.2.2.2.2
    obtain ⟨h', hexec, hL'⟩ := listAdd_holds hL hp hop
    refine ⟨h', by rw [exec, hexec]; rfl, ?_⟩
    rwa [spec, members_eq hp]
  | listAddTail n p =>
    obtain ⟨ns, hp⟩ := Option.ne_none_iff_exists'.mp hop.2.2.2.2
    obtain ⟨h', hexec, hL'⟩ := listAddTail_holds hL hp hop
    refine ⟨h', by rw [exec, hexec]; rfl, ?_⟩
    rwa [spec, members_eq hp]
  | listDel n =>
    obtain ⟨p, ns, hp, hn⟩ := hop
    obtain ⟨as, bs, rfl⟩ := List.append_of_mem hn
    obtain ⟨h', hexec, hL'⟩ := listDel_holds hL as bs hp
    refine ⟨h', by rw [exec, hexec]; rfl, ?_⟩
    rwa [spec, spec_listDel hL hp]
  | listTakeFirst p =>
    cases hp : L p with
    | none =>
      -- no head: it is `NULL`
      obtain rfl : p = MList.null := hop.resolve_right fun hne => hne hp
      have hmembers : L.members MList.null = [] := by rw [Lists.members, hp, Option.getD_none]
      refine ⟨h, ?_, ?_⟩
      · rw [exec, MList.listTakeFirst, if_pos rfl, spec, hmembers]
        rfl
      · rwa [spec, hmembers]
    | some ns =>
      obtain ⟨h', hexec, hL'⟩ := listTakeFirst_holds hL hp
      refine ⟨h', ?_, ?_⟩
      · rw [exec, hexec, spec, members_eq hp]
        cases ns <;> rfl
      · rw [spec, members_eq hp]
        cases ns with
        | nil => rwa [List.tail_nil, set_self hp] at hL'
        | cons n ns => exact hL'

/-! ## Looking at a list -/

theorem listEmpty_eq (hL : Holds h L) (hp : L p = some ns) :
    listEmpty p h = some (decide (ns = [])) := by
  have hhead : p ∉ ns := (List.nodup_cons.mp (hL.nodup hp)).1
  rw [listEmpty, next, if_neg (hL.ne_null hp).1, Option.map_some,
    decide_eq_decide.mpr ((hL.ring hp).next_eq_self_iff hhead)]

/-- The loop gets along the rest of a list to its head. -/
theorem countLoop_eq {fuel cnt : Nat} (hchain : (bs ++ [p]).IsChain h.Joined) (hp : p ∉ bs)
    (hnull : null ∉ bs) (hfuel : bs.length < fuel) :
    countLoop p h fuel (bs.headD p) cnt = some (cnt + bs.length) := by
  -- on what is left of the walk
  induction bs generalizing fuel cnt with
  | nil =>
    obtain ⟨fuel, rfl⟩ := Nat.exists_eq_succ_of_ne_zero (Nat.ne_of_gt hfuel)
    exact if_pos rfl
  | cons b bs ih =>
    obtain ⟨fuel, rfl⟩ := Nat.exists_eq_succ_of_ne_zero (Nat.ne_of_gt (Nat.zero_lt_of_lt hfuel))
    obtain ⟨hpb, hp⟩ := not_or.mp (List.mem_cons.not.mp hp)
    obtain ⟨hnullb, hnull⟩ := not_or.mp (List.mem_cons.not.mp hnull)
    obtain ⟨hjoined, hrest⟩ := chain_cons_iff.mp hchain
    rw [List.headD_cons, countLoop, if_neg (Ne.symm hpb), next, if_neg (Ne.symm hnullb),
      Option.bind_some, hjoined.1, ih hrest hp hnull (Nat.lt_of_succ_lt_succ hfuel),
      List.length_cons, Nat.add_right_comm, Nat.add_assoc]

/-- **`list_count` comes to an end**, with the number of nodes. -/
theorem listCount_eq (hL : Holds h L) (hp : L p = some ns) {fuel : Nat}
    (hfuel : ns.length < fuel) : listCount fuel p h = some ns.length := by
  have hpnull := (hL.ne_null hp).1
  obtain ⟨-, -, hchain⟩ := ring_append.mp (show Ring h p ([] ++ ns) from hL.ring hp)
  rw [listCount, if_neg hpnull, next, if_neg hpnull, Option.bind_some,
    (hL.ring hp).around_head.2.1, countLoop_eq hchain (List.nodup_cons.mp (hL.nodup hp)).1 ?_ hfuel,
    Nat.zero_add]
  exact fun hmem => hL.null hp (List.mem_cons_of_mem p hmem)

/-- What the memory has of one list. -/
structure ListOk (h : Nodes) (p : Nat) (ns : List Nat) : Prop where
  ring : Ring h p ns
  nodup : (p :: ns).Nodup
  inverse : ∀ x ∈ p :: ns, h.prev (h.next x) = x ∧ h.next (h.prev x) = x
  empty : listEmpty p h = some (decide (ns = []))
  count : ∀ fuel, ns.length < fuel → listCount fuel p h = some ns.length

theorem Holds.listOk (hL : Holds h L) (hp : L p = some ns) : ListOk h p ns where
  ring := hL.ring hp
  nodup := hL.nodup hp
  inverse _ hx :=
    have hinv := (hL.ring hp).inverse hx
    ⟨hinv.1, hinv.2.1⟩
  empty := listEmpty_eq hL hp
  count _ hfuel := listCount_eq hL hp hfuel

/-! ## First in, first out -/

/-- The nodes that `list_add_tail` adds to a list. -/
def added (p : Nat) (ops : List Op) : List Nat :=
  ops.filterMap fun
    | .listAddTail n q => if q = p then some n else none
    | _ => none

/-- The nodes that `list_take_first` takes from it. -/
def taken (p : Nat) (ops : List Op) (outs : List (Option Nat)) : List Nat :=
  (ops.zip outs).filterMap fun
    | (.listTakeFirst q, some n) => if q = p ∧ n ≠ null then some n else none
    | _ => none

/-- A call that leaves a list of these nodes to `list_add_tail` and `list_take_first`. -/
def Op.Queues (p : Nat) (nodes : List Nat) : Op → Prop
  | .initListHead q => q ≠ p
  | .listAdd n q => q ≠ p ∧ n ≠ p
  | .listAddTail n _ => n ≠ p
  | .listDel n => n ∉ nodes
  | .listTakeFirst _ => True

/-- One call: what was there and comes in is what goes out and is there then. -/
theorem spec_fifo {nodes : List Nat} (op : Op) (hp : L p = some ns) (hsub : ∀ n ∈ ns, n ∈ nodes)
    (hnull : null ∉ nodes) (hop : op.Queues p nodes) :
    ∃ ns', (op.spec L).1 p = some ns' ∧
      ns ++ added p [op] = taken p [op] [(op.spec L).2] ++ ns' := by
  cases op with
  | initListHead q =>
    exact ⟨ns, (set_of_ne (Ne.symm hop)).trans hp, by simp [added, taken]⟩
  | listAdd n q =>
    refine ⟨ns, (put_of_ne (Ne.symm hop.2) (Ne.symm hop.1)).trans hp, by simp [added, taken]⟩
  | listAddTail n q =>
    by_cases hq : q = p
    · subst hq
      refine ⟨ns ++ [n], ?_, by simp [added, taken]⟩
      rw [Op.spec, members_eq hp]
      exact Function.update_self ..
    · refine ⟨ns, (put_of_ne (Ne.symm hop) (Ne.symm hq)).trans hp, ?_⟩
      simp [added, taken, hq]
  | listDel n =>
    -- a node of another list, or of none
    refine ⟨ns, ?_, by simp [added, taken]⟩
    show (L p).map _ = _
    rw [hp, Option.map_some, List.erase_of_not_mem fun hn => hop (hsub n hn)]
  | listTakeFirst q =>
    by_cases hq : q = p
    · -- the first of the list goes out, if there is one
      subst hq
      rw [Op.spec, members_eq hp]
      cases ns with
      | nil => exact ⟨[], hp, by simp [added, taken]⟩
      | cons n ns =>
        have hn : n ≠ null := fun hn => hnull (hn ▸ hsub n List.mem_cons_self)
        exact ⟨ns, Function.update_self .., by simp [added, taken, hn]⟩
    · -- a node of another list
      rw [Op.spec]
      cases L.members q with
      | nil => exact ⟨ns, hp, by simp [added, taken, hq]⟩
      | cons n ms =>
        exact ⟨ns, (set_of_ne (Ne.symm hq)).trans hp, by simp [added, taken, hq]⟩

theorem added_cons (p : Nat) (op : Op) (ops : List Op) :
    added p (op :: ops) = added p [op] ++ added p ops :=
  List.filterMap_append (l := [op])

theorem taken_cons (p : Nat) (op : Op) (ops : List Op) (out : Option Nat)
    (outs : List (Option Nat)) :
    taken p (op :: ops) (out :: outs) = taken p [op] [out] ++ taken p ops outs :=
  List.filterMap_append (l := [(op, out)])

/-- **First in, first out**: what was there and comes in is what goes out, in this order, and
then what is there. -/
theorem run_fifo {nodes : List Nat} {ops : List Op} {outs : List (Option Nat)}
    (hp : L p = some ns) (hsub : ∀ n ∈ ns ++ added p ops, n ∈ nodes) (hnull : null ∉ nodes)
    (hops : ∀ op ∈ ops, op.Queues p nodes)
    (hrun : runOut (fun op L => some (Op.spec op L)) ops L = some (L', outs)) :
    ∃ ns', L' p = some ns' ∧ ns ++ added p ops = taken p ops outs ++ ns' := by
  induction ops generalizing L ns outs with
  | nil =>
    obtain ⟨rfl, rfl⟩ := Prod.mk.inj (Option.some.inj hrun)
    exact ⟨ns, hp, by simp [added, taken]⟩
  | cons op ops ih =>
    obtain ⟨L₁, out, outs', hstep, hrest, rfl⟩ := runOut_cons_eq_some hrun
    obtain ⟨ns₁, hp₁, hns₁⟩ := spec_fifo op hp (fun n hn => hsub n (List.mem_append_left _ hn))
      hnull (hops op List.mem_cons_self)
    rw [Option.some.inj hstep] at hp₁ hns₁
    -- what is left to come in is the rest of the run
    have hall : ns ++ added p (op :: ops) = taken p [op] [out] ++ (ns₁ ++ added p ops) := by
      rw [added_cons, ← List.append_assoc, hns₁, List.append_assoc]
    rw [hall] at hsub
    obtain ⟨ns', hp', hns'⟩ := ih hp₁ (fun n hn => hsub n (List.mem_append_right _ hn))
      (fun op' hop' => hops op' (List.mem_cons_of_mem op hop')) hrest
    refine ⟨ns', hp', ?_⟩
    rw [hall, hns', taken_cons p op ops out outs', List.append_assoc]

/-- `NULL` is never added. -/
theorem null_notMem_added {ops : List Op}
    (hops : Along (fun op L => some (Op.spec op L).1) Op.Allowed ops L) : null ∉ added p ops := by
  induction ops generalizing L with
  | nil => exact List.not_mem_nil
  | cons op ops ih =>
    rw [added_cons, List.mem_append, not_or]
    refine ⟨fun hmem => ?_, ih (hops.2 _ rfl)⟩
    have hallowed := hops.1
    cases op with
    | listAddTail n q =>
      have hn : n ≠ null := hallowed.1
      by_cases hq : q = p <;> simp [added, hq, hn.symm] at hmem
    | _ => simp [added] at hmem

/-- **A run of calls** on any memory in which there are no lists yet. -/
theorem listRun_ok (ops : List Op) (h : Nodes)
    (hops : Along (fun op L => some (op.spec L).1) Op.Allowed ops fun _ => none) :
    ∃ h' L' outs, runOut Op.exec ops h = some (h', outs) ∧
      runOut (fun op L => some (Op.spec op L)) ops (fun _ => none) = some (L', outs) ∧
      (∀ p ns, L' p = some ns → ListOk h' p ns) ∧
      ∀ pre post p, ops = pre ++ .initListHead p :: post →
        (∀ op ∈ post, op.Queues p (added p post)) →
        ∃ ns, L' p = some ns ∧ added p post = taken p post (outs.drop (pre.length + 1)) ++ ns := by
  have hnone : Holds h fun _ => none := ⟨nofun, nofun, nofun, nofun⟩
  obtain ⟨h', L', outs, hrun, hspec, hL'⟩ :=
    runOut_sim (fun op h L hL hop => Op.exec_ok op hL hop) ops hnone hops
  refine ⟨h', L', outs, hrun, hspec, fun p ns hp => hL'.listOk hp, ?_⟩
  rintro pre post p rfl hqueues
  have hnull : null ∉ added p post := by
    have hall := null_notMem_added (p := p) hops
    rw [added, List.filterMap_append, List.mem_append, not_or] at hall
    exact hall.2
  -- the list starts empty where its head is initialised
  obtain ⟨L₁, outs₁, outs₂, -, hback, rfl, hlen⟩ := runOut_append_eq_some hspec
  obtain ⟨L₂, out, outs₃, hinit, hpost, rfl⟩ := runOut_cons_eq_some hback
  obtain ⟨rfl, rfl⟩ := Prod.mk.inj (Option.some.inj hinit)
  have hset : L₁.set p [] p = some [] := Function.update_self ..
  obtain ⟨ns, hp, hns⟩ := run_fifo hset (fun n hn => hn) hnull hqueues hpost
  refine ⟨ns, hp, ?_⟩
  rw [← hlen, ← List.drop_drop, List.drop_left]
  exact hns

/-- Two nodes in, one of them out. -/
def twoNodes : List Op := [.initListHead 1, .listAddTail 2 1, .listAddTail 3 1, .listTakeFirst 1]

theorem twoNodes_allowed :
    Along (fun op L => some (op.spec L).1) Op.Allowed twoNodes fun _ => none := by
  simp [twoNodes, Along, Op.Allowed, Op.spec, Lists.MayAdd, Lists.Loose, Lists.members, Lists.put,
    Lists.set, Function.update_apply, null]
  intro p ns hp
  split_ifs at hp
  · obtain rfl := Option.some.inj hp
    decide

/-- The first node comes out, and the second one is left. -/
theorem listRun_ok_twoNodes :
    ∃ h', runOut Op.exec twoNodes ⟨fun _ => 0, fun _ => 0⟩ =
      some (h', [none, none, none, some 2]) ∧ ListOk h' 1 [3] := by
  obtain ⟨h', L', outs, hrun, hspec, hok, -⟩ := listRun_ok twoNodes _ twoNodes_allowed
  obtain ⟨rfl, rfl⟩ := Prod.mk.inj (Option.some.inj hspec)
  exact ⟨h', hrun, hok 1 [3] rfl⟩

end PgClient.MList
