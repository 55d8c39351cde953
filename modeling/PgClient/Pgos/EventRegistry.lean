import PgClient.Lib.PartialRun

/-!
# The registry of the event groups

The list `pGroup_list` of `MsOS_event.c`. A group that is deleted stays in memory, and is to be
found again under its name.

A group is known by its address, which is its place among all groups ever created; an address of no
group is NULL, or one that was never given out. Memory, semaphores, queues and tasks are always
there.

* `addLoop_stuck` — the loop of `_AddEventGroupList` never ends on a longer list.
* `keeps_iff` — when a call keeps the registry.
* `registry_iff` — the same all along any calls.
-/

namespace PgClient.Pgos.EventGroups

open PartialRun

/-- `sizeof eventName`. -/
def eventNameSize : Nat := 128

/-- What the registry has to do with in `MSOS_event`. -/
structure EventGroup where
  eventName : List UInt8
  eventDeleted : Bool
  deriving DecidableEq

structure Registry where
  groups : List EventGroup
  /-- The addresses in `pGroup_list`, from its head on. -/
  list : List Nat
  /-- The groups that their callers deleted; the code does not have this. -/
  deleted : List Nat

/-- `_AddEventGroupList`'s loop, for so many turns; `none` is a loop that goes on. -/
def addLoop : Nat → List Nat → Option (List Nat)
  | 0, _ => none
  | _ + 1, [] => some []
  | _ + 1, [pNode] => some [pNode]
  -- `pList` stays where it is
  | fuel + 1, pList => addLoop fuel pList

/-- `_AddEventGroupList`; a loop that went on by one node in each turn would be through. -/
def addEventGroupList (pGroup_list : List Nat) (pNode : Nat) : Option (List Nat) :=
  (addLoop (pGroup_list.length + 1) pGroup_list).map fun pList =>
    if pList = pGroup_list then [pNode] else pGroup_list ++ [pNode]

namespace Registry

variable (r : Registry)

/-- `_ResumEventGroupList`, up to the group that it finds. -/
def resumEventGroupList (pName : List UInt8) : Option Nat :=
  r.list.find? fun pNode => r.groups[pNode]? = some ⟨pName, true⟩

/-- `_SuspendEventGroupList`, up to the group that it finds. -/
def suspendEventGroupList (pName : List UInt8) : Option Nat :=
  r.list.find? fun pNode => r.groups[pNode]?.map EventGroup.eventName = some pName

def setDeleted (pNode : Nat) (eventDeleted : Bool) : List EventGroup :=
  r.groups.modify pNode fun group => { group with eventDeleted := eventDeleted }

/-- `MsOS_CreateEventGroup`; `none` is a loop that never ends, or a name that is copied behind its
array. -/
def createEventGroup (pName : List UInt8) : Option (Registry × Nat) :=
  match r.resumEventGroupList pName with
  | some pEvent =>
    some (⟨r.setDeleted pEvent false, r.list, r.deleted.filter (· ≠ pEvent)⟩, pEvent)
  | none =>
    let pEvent := r.groups.length
    if eventNameSize ≤ pName.length then none
    else (addEventGroupList r.list pEvent).map fun list =>
      (⟨r.groups ++ [⟨pName, false⟩], list, r.deleted⟩, pEvent)

/-- `MsOS_DeleteEventGroup`; `none` is an address of no group. -/
def deleteEventGroup (pEvent : Nat) : Option Registry :=
  match r.groups[pEvent]? with
  | none => none
  | some group =>
    match r.suspendEventGroupList group.eventName with
    | none => some { r with deleted := pEvent :: r.deleted }
    | some pNode => some ⟨r.setDeleted pNode true, r.list, pEvent :: r.deleted⟩

end Registry

inductive Call
  | create (pName : List UInt8)
  | delete (pEvent : Nat)

def Call.step : Call → Registry → Option Registry
  | .create pName, r => (r.createEventGroup pName).map Prod.fst
  | .delete pEvent, r => r.deleteEventGroup pEvent

def newRegistry : Registry := ⟨[], [], []⟩

/-! ## What the registry is for -/

/-- Every group ever created is in the list once. -/
def Registered (r : Registry) : Prop :=
  ∀ pEvent, r.list.count pEvent = if pEvent < r.groups.length then 1 else 0

/-- The call ends and keeps the list; where groups with the name are deleted, a create gives one of
them. -/
def Keeps : Call → Registry → Prop
  | .create pName, r => ∃ r' pEvent, r.createEventGroup pName = some (r', pEvent) ∧
    Registered r' ∧ ∀ pNode ∈ r.deleted, r.groups[pNode]?.map EventGroup.eventName = some pName →
      pEvent ∈ r.deleted ∧ r.groups[pEvent]?.map EventGroup.eventName = some pName
  | .delete pEvent, r => ∃ r', r.deleteEventGroup pEvent = some r' ∧ Registered r'

/-- The first group is created, with a name that fits, or the name is the one of the group and that
is deleted; a group is deleted. -/
def Revives : Call → Registry → Prop
  | .create pName, r => (r.list = [] ∧ pName.length < eventNameSize) ∨
    ∃ pNode ∈ r.list, r.groups[pNode]? = some ⟨pName, true⟩
  | .delete pEvent, r => pEvent < r.groups.length

/-! ## The calls -/

/-- **The loop is stuck** on a list of two or more groups. -/
theorem addLoop_stuck (a b : Nat) (list : List Nat) (fuel : Nat) :
    addLoop fuel (a :: b :: list) = none := by
  induction fuel with
  | zero => rfl
  | succ fuel ih => exact ih

/-- The new group is the only one then, if the call ends at all. -/
theorem addEventGroupList_cases {list list' : List Nat} {pNode : Nat}
    (h : addEventGroupList list pNode = some list') : list.length ≤ 1 ∧ list' = [pNode] := by
  match list with
  | [] => exact ⟨Nat.zero_le 1, (Option.some.inj h).symm⟩
  | [a] =>
    rw [addEventGroupList, List.length_singleton, addLoop, Option.map_some, if_pos rfl] at h
    exact ⟨Nat.le_refl 1, (Option.some.inj h).symm⟩
  | a :: b :: list =>
    rw [addEventGroupList, addLoop_stuck] at h
    exact nomatch h

/-- There is no group, or one, and what its callers deleted is deleted. -/
inductive Single : Registry → Prop
  | none : Single newRegistry
  | one (group : EventGroup) (deleted : List Nat)
    (h : ∀ pEvent, pEvent ∈ deleted ↔ pEvent = 0 ∧ group.eventDeleted) :
    Single ⟨[group], [0], deleted⟩

/-- A group on its own is registered. -/
theorem Single.registered {r : Registry} (h : Single r) : Registered r := by
  cases h with
  | none => exact fun pEvent => rfl
  | one group deleted _ =>
    intro pEvent
    cases pEvent <;> simp

section One

variable {group : EventGroup} {deleted : List Nat} {pName : List UInt8}

/-- The one group is found under its name when it is deleted. -/
theorem create_revived (h : group = ⟨pName, true⟩) :
    (Registry.mk [group] [0] deleted).createEventGroup pName =
      some (⟨[⟨pName, false⟩], [0], deleted.filter (· ≠ 0)⟩, 0) := by
  subst h
  simp [Registry.createEventGroup, Registry.resumEventGroupList, Registry.setDeleted]

/-- Otherwise the new group is linked in its place, and the one group is lost. -/
theorem create_lost (h : group ≠ ⟨pName, true⟩) :
    (Registry.mk [group] [0] deleted).createEventGroup pName =
      if eventNameSize ≤ pName.length then none
      else some (⟨[group, ⟨pName, false⟩], [1], deleted⟩, 1) := by
  simp [Registry.createEventGroup, Registry.resumEventGroupList, h, addEventGroupList, addLoop]

/-- A deleted group keeps its place and is marked. -/
theorem delete_one :
    (Registry.mk [group] [0] deleted).deleteEventGroup 0 =
      some ⟨[{ group with eventDeleted := true }], [0], 0 :: deleted⟩ := by
  simp [Registry.deleteEventGroup, Registry.suspendEventGroupList, Registry.setDeleted]

end One

/-- The first group. -/
theorem create_first (pName : List UInt8) :
    newRegistry.createEventGroup pName =
      if eventNameSize ≤ pName.length then none
      else some (⟨[⟨pName, false⟩], [0], []⟩, 0) := rfl

/-- What a call does that meets the condition. -/
theorem single_step {c : Call} {r r' : Registry} (h : Single r) (hrevives : Revives c r)
    (hstep : c.step r = some r') : Single r' := by
  cases c with
  | create pName =>
    obtain ⟨⟨r₁, pEvent⟩, hcreate, rfl⟩ := Option.map_eq_some_iff.mp hstep
    cases h with
    | none =>
      rw [create_first] at hcreate
      split_ifs at hcreate
      obtain ⟨rfl, -⟩ := Prod.mk.inj (Option.some.inj hcreate)
      exact .one _ _ (by simp)
    | one group deleted hdeleted =>
      -- the group that is there is created again, under its own name
      have hgroup : group = ⟨pName, true⟩ := by simpa [Revives] using hrevives
      rw [create_revived hgroup] at hcreate
      obtain ⟨rfl, -⟩ := Prod.mk.inj (Option.some.inj hcreate)
      refine .one _ _ fun pEvent => ?_
      simp only [List.mem_filter, decide_eq_true_iff, hdeleted, Bool.false_eq_true, and_false,
        iff_false]
      exact fun hmem => hmem.2 hmem.1.1
  | delete pEvent =>
    cases h with
    | none => exact absurd hrevives (Nat.not_lt_zero pEvent)
    | one group deleted hdeleted =>
      -- there is no other to delete
      obtain rfl : pEvent = 0 := Nat.lt_one_iff.mp hrevives
      obtain rfl := Option.some.inj (delete_one.symm.trans hstep)
      refine .one _ _ fun pEvent => ?_
      simp only [List.mem_cons, hdeleted, and_true]
      exact ⟨fun hmem => hmem.elim id And.left, .inl⟩

/-- **When a call keeps the registry.** -/
theorem keeps_iff {c : Call} {r : Registry} (h : Single r) : Keeps c r ↔ Revives c r := by
  constructor
  · intro hkeeps
    cases c with
    | create pName =>
      obtain ⟨r', pEvent, hcreate, hregistered, -⟩ := hkeeps
      cases h with
      | none =>
        rw [create_first] at hcreate
        split_ifs at hcreate with hsize
        exact .inl ⟨rfl, Nat.lt_of_not_le hsize⟩
      | one group deleted hdeleted =>
        by_cases hgroup : group = ⟨pName, true⟩
        · exact .inr ⟨0, by simp, by simp [hgroup]⟩
        -- the first group is not in the list any more
        · rw [create_lost hgroup] at hcreate
          split_ifs at hcreate
          obtain ⟨rfl, -⟩ := Prod.mk.inj (Option.some.inj hcreate)
          exact absurd (hregistered 0) (by simp)
    | delete pEvent =>
      obtain ⟨r', hdelete, -⟩ := hkeeps
      unfold Registry.deleteEventGroup at hdelete
      split at hdelete
      · exact nomatch hdelete
      · next hgroup => exact (List.getElem?_eq_some_iff.mp hgroup).1
  · intro hrevives
    cases c with
    | create pName =>
      have hends : ∃ r' pEvent, r.createEventGroup pName = some (r', pEvent) ∧
          ∀ pNode ∈ r.deleted, pEvent ∈ r.deleted ∧
            r.groups[pEvent]?.map EventGroup.eventName = some pName := by
        cases h with
        | none =>
          have hsize : pName.length < eventNameSize := by simpa [Revives, newRegistry] using hrevives
          rw [create_first, if_neg (Nat.not_le_of_lt hsize)]
          exact ⟨_, _, rfl, by simp [newRegistry]⟩
        | one group deleted hdeleted =>
          have hgroup : group = ⟨pName, true⟩ := by simpa [Revives] using hrevives
          rw [create_revived hgroup]
          exact ⟨_, _, rfl, fun _ _ => ⟨(hdeleted 0).mpr ⟨rfl, by rw [hgroup]⟩, by simp [hgroup]⟩⟩
      obtain ⟨r', pEvent, hcreate, hdeleted⟩ := hends
      have hstep : (Call.create pName).step r = some r' := by
        rw [Call.step, hcreate]
        rfl
      exact ⟨r', pEvent, hcreate, (single_step h hrevives hstep).registered,
        fun pNode hmem _ => hdeleted pNode hmem⟩
    | delete pEvent =>
      cases h with
      | none => exact absurd hrevives (Nat.not_lt_zero pEvent)
      | one group deleted hdeleted =>
        obtain rfl : pEvent = 0 := Nat.lt_one_iff.mp hrevives
        have hsingle := single_step (.one group deleted hdeleted) hrevives delete_one
        exact ⟨_, delete_one, hsingle.registered⟩

/-- **What the calls keep**, all along a run. -/
theorem registry_iff (calls : List Call) :
    Along Call.step Keeps calls newRegistry ↔ Along Call.step Revives calls newRegistry :=
  along_congr (fun _ _ => keeps_iff) (fun _ _ _ => single_step) calls .none

/-- A second name. -/
theorem second_not_keeps : ¬Along Call.step Keeps [.create [97], .create [98]] newRegistry := by
  intro h
  obtain ⟨r', pEvent, hcreate, hregistered, -⟩ := (h.2 ⟨[⟨[97], false⟩], [0], []⟩ rfl).1
  have hgroup : (⟨[97], false⟩ : EventGroup) ≠ ⟨[98], true⟩ := by decide
  rw [create_lost hgroup] at hcreate
  obtain ⟨rfl, -⟩ := Prod.mk.inj (Option.some.inj hcreate)
  exact absurd (hregistered 0) (by decide)

end PgClient.Pgos.EventGroups
