import Mathlib.Data.List.Infix
import Mathlib.Tactic.Common

/-!
# Block readers — functions that walk a block of memory

A reader takes the block from its pointer on. It comes to a result and the block from the
new pointer on, gives up, goes behind the end of the block, or does not come back.

* `loop` — `while (1) { … }` round a reader.
* `Proper` — a reader only goes forward, and what it comes to inside a block does not depend
  on what follows the block.
* `Consumes`, `Ends` — progress, and that a reader comes back.
* `Proper.fault_of_cut` — on a block that is cut short it goes behind the end.
-/

namespace BlockReader

/-- What a reader comes to. -/
inductive Outcome (β α : Type)
  /-- A result, and the block from the new pointer on. -/
  | ok (a : α) (rest : List β)
  /-- The reader gives up. -/
  | null
  /-- The reader goes behind the end of the block. -/
  | fault
  /-- The reader does not come back. -/
  | stuck
  deriving DecidableEq

/-- What of the block is left behind a result. -/
def Outcome.left {β α : Type} : Outcome β α → Option (List β)
  | .ok _ rest => some rest
  | _ => none

/-- A function of the block from a pointer on. -/
def Reader (β α : Type) := List β → Outcome β α

variable {β α γ σ : Type}

namespace Reader

/-- One reader, and another from where it leaves the pointer. -/
protected def bind (r : Reader β α) (f : α → Reader β γ) : Reader β γ := fun m =>
  match r m with
  | .ok a t => f a t
  | .null => .null
  | .fault => .fault
  | .stuck => .stuck

instance instMonad : Monad (Reader β) where
  pure a := fun m => .ok a m
  bind := Reader.bind

/-- `return NULL;` -/
def giveUp : Reader β α := fun _ => .null

/-- An access behind the end of some block. -/
def crash : Reader β α := fun _ => .fault

/-- A call for which there is no stack. -/
def noReturn : Reader β α := fun _ => .stuck

/-- `p[k]`. -/
def look (k : Nat) : Reader β β := fun m =>
  match m[k]? with
  | some c => .ok c m
  | none => .fault

/-- `p += k;` -/
def advance (k : Nat) : Reader β Unit := fun m =>
  if k ≤ m.length then .ok () (m.drop k) else .fault

/-- What a reader comes to, with the pointer left where it was. -/
def ahead (r : Reader β α) : Reader β α := fun m =>
  match r m with
  | .ok a _ => .ok a m
  | .null => .null
  | .fault => .fault
  | .stuck => .stuck

/-- `while (1) { … }`: every turn goes on, further down the block, or leaves the loop. -/
def loop (body : σ → Reader β (σ ⊕ α)) (s : σ) : Reader β α := fun m =>
  match body s m with
  | .ok (.inl s') t => if t.length < m.length then loop body s' t else .stuck
  | .ok (.inr a) t => .ok a t
  | .null => .null
  | .fault => .fault
  | .stuck => .stuck
termination_by m => m.length

end Reader

open Reader

/-! ## What readers do -/

@[simp] theorem pure_apply (a : α) (m : List β) : (pure a : Reader β α) m = .ok a m := rfl

@[simp] theorem giveUp_apply (m : List β) : (giveUp : Reader β α) m = .null := rfl

@[simp] theorem crash_apply (m : List β) : (crash : Reader β α) m = .fault := rfl

@[simp] theorem noReturn_apply (m : List β) : (noReturn : Reader β α) m = .stuck := rfl

/-- A reader that returned hands its value on. -/
theorem bind_ok {r : Reader β α} {m t : List β} {a : α} (h : r m = .ok a t)
    (f : α → Reader β γ) : (r >>= f) m = f a t := by
  show Reader.bind r f m = _
  rw [Reader.bind, h]

/-- A reader that gave up ends there. -/
theorem bind_null {r : Reader β α} {m : List β} (h : r m = .null) (f : α → Reader β γ) :
    (r >>= f) m = .null := by
  show Reader.bind r f m = _
  rw [Reader.bind, h]

/-- A reader that went behind the block ends there. -/
theorem bind_fault {r : Reader β α} {m : List β} (h : r m = .fault) (f : α → Reader β γ) :
    (r >>= f) m = .fault := by
  show Reader.bind r f m = _
  rw [Reader.bind, h]

/-- A reader that does not return ends there. -/
theorem bind_stuck {r : Reader β α} {m : List β} (h : r m = .stuck) (f : α → Reader β γ) :
    (r >>= f) m = .stuck := by
  show Reader.bind r f m = _
  rw [Reader.bind, h]

@[simp] theorem pure_bind_apply (a : α) (f : α → Reader β γ) (m : List β) :
    (pure a >>= f) m = f a m := rfl

@[simp] theorem look_bind_cons (c : β) (f : β → Reader β γ) (m : List β) :
    (look 0 >>= f) (c :: m) = f c (c :: m) := rfl

/-- Looking hands on what is there. -/
theorem look_bind {k : Nat} {c : β} {m : List β} (h : m[k]? = some c) (f : β → Reader β γ) :
    (look k >>= f) m = f c m := by
  have hlook : look k m = .ok c m := by rw [look, h]
  exact bind_ok hlook f

@[simp] theorem advance_bind_cons (c : β) (f : Unit → Reader β γ) (m : List β) :
    (advance 1 >>= f) (c :: m) = f () m := by
  have h : advance 1 (c :: m) = .ok () m := by
    rw [advance, if_pos (by simp), List.drop_succ_cons, List.drop_zero]
  rw [bind_ok h]

/-- Advancing within the block drops what it passes. -/
theorem advance_apply {k : Nat} {m : List β} (h : k ≤ m.length) :
    advance k m = .ok () (m.drop k) := if_pos h

/-- A turn that goes on must have consumed something. -/
theorem loop_of_inl {body : σ → Reader β (σ ⊕ α)} {s s' : σ} {m t : List β}
    (h : body s m = .ok (.inl s') t) (hlt : t.length < m.length) :
    loop body s m = loop body s' t := by
  rw [loop.eq_def, h]
  exact if_pos hlt

/-- A turn that is done ends the loop. -/
theorem loop_of_inr {body : σ → Reader β (σ ⊕ α)} {s : σ} {m t : List β} {a : α}
    (h : body s m = .ok (.inr a) t) : loop body s m = .ok a t := by
  rw [loop.eq_def, h]

/-- A turn that gives up ends the loop. -/
theorem loop_of_null {body : σ → Reader β (σ ⊕ α)} {s : σ} {m : List β}
    (h : body s m = .null) : loop body s m = .null := by
  rw [loop.eq_def, h]

/-- A turn that goes behind the block ends the loop. -/
theorem loop_of_fault {body : σ → Reader β (σ ⊕ α)} {s : σ} {m : List β}
    (h : body s m = .fault) : loop body s m = .fault := by
  rw [loop.eq_def, h]

/-! ## Proper readers -/

/-- The reader only goes forward, and what it comes to inside a block is what it comes to on
any longer block. -/
structure Proper (r : Reader β α) : Prop where
  suffix : ∀ {m t a}, r m = .ok a t → t <:+ m
  ok : ∀ {m t a} (x : List β), r m = .ok a t → r (m ++ x) = .ok a (t ++ x)
  null : ∀ {m} (x : List β), r m = .null → r (m ++ x) = .null

/-- A proper reader leaves no more than it found. -/
theorem Proper.length_le {r : Reader β α} (hr : Proper r) {m t : List β} {a : α}
    (h : r m = .ok a t) : t.length ≤ m.length := (hr.suffix h).length_le

/-- A value consumes nothing. -/
theorem proper_pure (a : α) : Proper (pure a : Reader β α) where
  suffix h := by cases h; exact List.suffix_rfl
  ok x h := by cases h; rfl
  null x h := by cases h

/-- Giving up is proper. -/
theorem proper_giveUp : Proper (giveUp : Reader β α) where
  suffix h := by cases h
  ok x h := by cases h
  null _ _ := rfl

/-- A crash is proper. -/
theorem proper_crash : Proper (crash : Reader β α) where
  suffix h := by cases h
  ok x h := by cases h
  null x h := by cases h

/-- Not returning is proper. -/
theorem proper_noReturn : Proper (noReturn : Reader β α) where
  suffix h := by cases h
  ok x h := by cases h
  null x h := by cases h

/-- Looking leaves the block where it is. -/
theorem look_eq_ok_iff {k : Nat} {m t : List β} {c : β} :
    look k m = .ok c t ↔ m[k]? = some c ∧ t = m := by
  rw [look]
  cases m[k]? with
  | none => simp
  | some d => simp [eq_comm]

/-- Looking is proper. -/
theorem proper_look (k : Nat) : Proper (look k : Reader β β) where
  suffix h := (look_eq_ok_iff.mp h).2 ▸ List.suffix_rfl
  ok x h := by
    obtain ⟨hk, rfl⟩ := look_eq_ok_iff.mp h
    have hlt := (List.getElem?_eq_some_iff.mp hk).1
    exact look_eq_ok_iff.mpr ⟨by rw [List.getElem?_append_left hlt, hk], rfl⟩
  null x h := by
    rw [look] at h
    split at h <;> cases h

/-- Advancing leaves what is behind. -/
theorem advance_eq_ok_iff {k : Nat} {m t : List β} {u : Unit} :
    advance k m = .ok u t ↔ k ≤ m.length ∧ t = m.drop k := by
  rw [advance]
  split
  · next hk => simp [hk, eq_comm]
  · next hk => simp [hk]

/-- Advancing is proper. -/
theorem proper_advance (k : Nat) : Proper (advance k : Reader β Unit) where
  suffix h := (advance_eq_ok_iff.mp h).2 ▸ List.drop_suffix k _
  ok x h := by
    obtain ⟨hk, rfl⟩ := advance_eq_ok_iff.mp h
    refine advance_eq_ok_iff.mpr ⟨?_, (List.drop_append_of_le_length hk).symm⟩
    rw [List.length_append]
    omega
  null x h := by
    rw [advance] at h
    split at h <;> cases h

/-- Two readers in order return if both do. -/
theorem bind_eq_ok_iff {r : Reader β α} {f : α → Reader β γ} {m t : List β} {c : γ} :
    (r >>= f) m = .ok c t ↔ ∃ a s, r m = .ok a s ∧ f a s = .ok c t := by
  -- the second reader runs only on what the first leaves; in the other cases both sides are false
  cases h : r m with
  | ok a s =>
    rw [bind_ok h]
    constructor
    · exact fun hf => ⟨a, s, rfl, hf⟩
    · rintro ⟨a', s', heq, hf⟩
      cases heq
      exact hf
  | null =>
    rw [bind_null h]
    constructor
    · intro hf
      cases hf
    · rintro ⟨a', s', heq, -⟩
      cases heq
  | fault =>
    rw [bind_fault h]
    constructor
    · intro hf
      cases hf
    · rintro ⟨a', s', heq, -⟩
      cases heq
  | stuck =>
    rw [bind_stuck h]
    constructor
    · intro hf
      cases hf
    · rintro ⟨a', s', heq, -⟩
      cases heq

/-- Two proper readers in order. -/
theorem Proper.bind {r : Reader β α} {f : α → Reader β γ} (hr : Proper r)
    (hf : ∀ a, Proper (f a)) : Proper (r >>= f) where
  -- what the second reader leaves is behind what the first left, and that behind the block
  suffix h := by
    obtain ⟨a, s, hs, ht⟩ := bind_eq_ok_iff.mp h
    exact ((hf a).suffix ht).trans (hr.suffix hs)
  ok x h := by
    obtain ⟨a, s, hs, ht⟩ := bind_eq_ok_iff.mp h
    rw [bind_ok (hr.ok x hs), (hf a).ok x ht]
  -- either reader may be the one that gives up
  null {m} x h := by
    cases hm : r m with
    | ok a s =>
      rw [bind_ok hm] at h
      rw [bind_ok (hr.ok x hm), (hf a).null x h]
    | null => rw [bind_null (hr.null x hm)]
    | fault =>
      rw [bind_fault hm] at h
      cases h
    | stuck =>
      rw [bind_stuck hm] at h
      cases h

/-- A choice between proper readers. -/
theorem Proper.ite {p : Prop} [Decidable p] {r r' : Reader β α} (h : Proper r)
    (h' : Proper r') : Proper (if p then r else r') := by
  split
  · exact h
  · exact h'

/-- A proper look ahead. -/
theorem Proper.ahead {r : Reader β α} (hr : Proper r) : Proper (ahead r) where
  -- the position is put back, so that nothing is consumed
  suffix {m t a} h := by
    rw [Reader.ahead] at h
    split at h <;> cases h
    exact List.suffix_rfl
  ok {m t a} x h := by
    rw [Reader.ahead] at h ⊢
    cases hm : r m with
    | ok a' s =>
      rw [hm] at h
      cases h
      rw [hr.ok x hm]
    | null => rw [hm] at h; cases h
    | fault => rw [hm] at h; cases h
    | stuck => rw [hm] at h; cases h
  null {m} x h := by
    rw [Reader.ahead] at h ⊢
    cases hm : r m with
    | ok a' s => rw [hm] at h; cases h
    | null => rw [hr.null x hm]
    | fault => rw [hm] at h; cases h
    | stuck => rw [hm] at h; cases h

/-- What a loop that leaves with a result did in its first turn. -/
theorem loop_eq_ok_iff {body : σ → Reader β (σ ⊕ α)} {s : σ} {m t : List β} {a : α} :
    loop body s m = .ok a t ↔ body s m = .ok (.inr a) t ∨
      ∃ s' u, body s m = .ok (.inl s') u ∧ u.length < m.length ∧ loop body s' u = .ok a t := by
  rw [loop.eq_def]
  cases h : body s m with
  | ok b u =>
    cases b with
    | inl s' =>
      -- another turn is taken only after progress; without it the loop is stuck
      constructor
      · intro heq
        simp only at heq
        split at heq
        · next hlt => exact Or.inr ⟨s', u, rfl, hlt, heq⟩
        · cases heq
      · rintro (heq | ⟨s'', u', heq, hlt, hrest⟩)
        · cases heq
        · cases heq
          exact (if_pos hlt).trans hrest
    | inr b =>
      -- the loop leaves in this turn
      constructor
      · intro heq
        cases heq
        exact Or.inl rfl
      · rintro (heq | ⟨s'', u', heq, -, -⟩)
        · cases heq
          rfl
        · cases heq
  | null => simp
  | fault => simp
  | stuck => simp

/-- What a loop that gives up did in its first turn. -/
theorem loop_eq_null_iff {body : σ → Reader β (σ ⊕ α)} {s : σ} {m : List β} :
    loop body s m = .null ↔ body s m = .null ∨
      ∃ s' u, body s m = .ok (.inl s') u ∧ u.length < m.length ∧ loop body s' u = .null := by
  rw [loop.eq_def]
  cases h : body s m with
  | ok b u =>
    cases b with
    | inl s' =>
      -- the loop gives up in a later turn
      constructor
      · intro heq
        simp only at heq
        split at heq
        · next hlt => exact Or.inr ⟨s', u, rfl, hlt, heq⟩
        · cases heq
      · rintro (heq | ⟨s'', u', heq, hlt, hrest⟩)
        · cases heq
        · cases heq
          exact (if_pos hlt).trans hrest
    | inr b => simp
  | null => simp
  | fault => simp
  | stuck => simp

/-- A loop of proper turns. -/
theorem Proper.loop {body : σ → Reader β (σ ⊕ α)} (hbody : ∀ s, Proper (body s)) (s : σ) :
    Proper (loop body s) := by
  -- all three by induction on the length of the block, which every turn shortens
  refine ⟨?_, ?_, ?_⟩
  · intro m
    induction hn : m.length using Nat.strong_induction_on generalizing m s with
    | _ n ih =>
      intro t a h
      rcases loop_eq_ok_iff.mp h with hlast | ⟨s', u, hgo, hlt, hrest⟩
      · exact (hbody s).suffix hlast
      · exact (ih _ (hn ▸ hlt) s' rfl hrest).trans ((hbody s).suffix hgo)
  · intro m
    induction hn : m.length using Nat.strong_induction_on generalizing m s with
    | _ n ih =>
      intro t a x h
      rcases loop_eq_ok_iff.mp h with hlast | ⟨s', u, hgo, hlt, hrest⟩
      · -- the last turn is the same on the longer block
        exact loop_of_inr ((hbody s).ok x hlast)
      · rw [loop_of_inl ((hbody s).ok x hgo) (by simpa using hlt)]
        exact ih _ (hn ▸ hlt) s' rfl x hrest
  · intro m
    induction hn : m.length using Nat.strong_induction_on generalizing m s with
    | _ n ih =>
      intro x h
      rcases loop_eq_null_iff.mp h with hlast | ⟨s', u, hgo, hlt, hrest⟩
      · exact loop_of_null ((hbody s).null x hlast)
      · rw [loop_of_inl ((hbody s).ok x hgo) (by simpa using hlt)]
        exact ih _ (hn ▸ hlt) s' rfl x hrest

/-- On a block that is cut short a reader neither finishes nor gives up, if it needs something of
what was cut off. -/
theorem Proper.fault_or_stuck_of_cut {r : Reader β α} (hr : Proper r) {m x t : List β} {a : α}
    (h : r (m ++ x) = .ok a t) (hcut : t.length < x.length) : r m = .fault ∨ r m = .stuck := by
  cases hm : r m with
  | ok a' t' =>
    -- then the longer block would leave all that was cut off
    have hext := (hr.ok x hm).symm.trans h
    cases hext
    rw [List.length_append] at hcut
    omega
  | null =>
    rw [hr.null x hm] at h
    cases h
  | fault => exact .inl rfl
  | stuck => exact .inr rfl

/-- **On a block that is cut short a reader goes behind the end**, if it comes back at all. -/
theorem Proper.fault_of_cut {r : Reader β α} (hr : Proper r) {m x t : List β} {a : α}
    (h : r (m ++ x) = .ok a t) (hcut : t.length < x.length) (hback : r m ≠ .stuck) :
    r m = .fault :=
  (hr.fault_or_stuck_of_cut h hcut).resolve_right hback

/-! ## Progress, and coming back -/

/-- A result leaves less of the block. -/
structure Consumes (r : Reader β α) : Prop where
  lt : ∀ {m t a}, r m = .ok a t → t.length < m.length

/-- The reader comes back on blocks of fewer than `n` elements. -/
structure Ends (n : Nat) (r : Reader β α) : Prop where
  back : ∀ {m}, m.length < n → r m ≠ .stuck

/-- A reader that consumes something still does so before others. -/
theorem Consumes.bind {r : Reader β α} {f : α → Reader β γ} (hr : Consumes r)
    (hf : ∀ a, Proper (f a)) : Consumes (r >>= f) := by
  refine ⟨fun h => ?_⟩
  obtain ⟨a, s, hs, ht⟩ := bind_eq_ok_iff.mp h
  exact ((hf a).length_le ht).trans_lt (hr.lt hs)

/-- Advancing consumes. -/
theorem consumes_advance {k : Nat} (hk : 0 < k) : Consumes (advance k : Reader β Unit) := by
  refine ⟨fun h => ?_⟩
  obtain ⟨hle, rfl⟩ := advance_eq_ok_iff.mp h
  rw [List.length_drop]
  omega

/-- A value comes back. -/
theorem ends_pure (n : Nat) (a : α) : Ends n (pure a : Reader β α) := by
  refine ⟨fun _ h => ?_⟩
  cases h

/-- Giving up comes back. -/
theorem ends_giveUp (n : Nat) : Ends n (giveUp : Reader β α) := by
  refine ⟨fun _ h => ?_⟩
  cases h

/-- A crash comes back. -/
theorem ends_crash (n : Nat) : Ends n (crash : Reader β α) := by
  refine ⟨fun _ h => ?_⟩
  cases h

/-- Looking comes back. -/
theorem ends_look (n k : Nat) : Ends n (look k : Reader β β) := by
  refine ⟨fun _ h => ?_⟩
  rw [look] at h
  split at h <;> cases h

/-- Advancing comes back. -/
theorem ends_advance (n k : Nat) : Ends n (advance k : Reader β Unit) := by
  refine ⟨fun _ h => ?_⟩
  rw [advance] at h
  split at h <;> cases h

/-- A choice comes back if both branches do. -/
theorem Ends.ite {n : Nat} {p : Prop} [Decidable p] {r r' : Reader β α} (h : Ends n r)
    (h' : Ends n r') : Ends n (if p then r else r') := by
  split
  · exact h
  · exact h'

/-- A look ahead comes back if the reader does. -/
theorem Ends.ahead {n : Nat} {r : Reader β α} (hr : Ends n r) : Ends n (ahead r) := by
  refine ⟨fun {m} hm h => ?_⟩
  rw [Reader.ahead] at h
  cases hr' : r m with
  | ok a t => rw [hr'] at h; cases h
  | null => rw [hr'] at h; cases h
  | fault => rw [hr'] at h; cases h
  | stuck => exact hr.back hm hr'

/-- Two in order come back; what the first leaves is no longer. -/
theorem Ends.bind {n : Nat} {r : Reader β α} {f : α → Reader β γ} (hr : Ends n r)
    (hproper : Proper r) (hf : ∀ a, Ends n (f a)) : Ends n (r >>= f) := by
  refine ⟨fun {m} hm => ?_⟩
  cases h : r m with
  | ok a s =>
    rw [bind_ok h]
    -- the first reader leaves no more than it got
    exact (hf a).back ((hproper.length_le h).trans_lt hm)
  | null =>
    rw [bind_null h]
    intro heq
    cases heq
  | fault =>
    rw [bind_fault h]
    intro heq
    cases heq
  | stuck => exact absurd h (hr.back hm)

/-- After progress there is one element less to come back on. -/
theorem Ends.bind_consumed {n : Nat} {r : Reader β α} {f : α → Reader β γ} (hr : Ends (n + 1) r)
    (hcons : Consumes r) (hf : ∀ a, Ends n (f a)) : Ends (n + 1) (r >>= f) := by
  refine ⟨fun {m} hm => ?_⟩
  cases h : r m with
  | ok a s =>
    rw [bind_ok h]
    -- the first reader has consumed, so that the second has room left
    have := hcons.lt h
    exact (hf a).back (by omega)
  | null =>
    rw [bind_null h]
    intro heq
    cases heq
  | fault =>
    rw [bind_fault h]
    intro heq
    cases heq
  | stuck => exact absurd h (hr.back hm)

/-- A loop whose turns come back and go on only after progress comes back. -/
theorem Ends.loop {n : Nat} {body : σ → Reader β (σ ⊕ α)} (hbody : ∀ s, Ends n (body s))
    (hgo : ∀ s {s' m t}, body s m = .ok (.inl s') t → t.length < m.length) (s : σ) :
    Ends n (loop body s) := by
  refine ⟨fun {m} => ?_⟩
  -- the induction is on the length of the block
  induction hk : m.length using Nat.strong_induction_on generalizing m s with
  | _ k ih =>
    intro hm
    rw [loop.eq_def]
    cases h : body s m with
    | ok b t =>
      cases b with
      | inl s' =>
        -- the guard of the loop holds, as a turn that goes on makes progress
        have hlt := hgo s h
        simp only [if_pos hlt]
        exact ih _ (hk ▸ hlt) s' rfl (hlt.trans (hk ▸ hm))
      | inr a =>
        intro heq
        cases heq
    | null =>
      intro heq
      cases heq
    | fault =>
      intro heq
      cases heq
    | stuck => exact absurd h ((hbody s).back (hk ▸ hm))

end BlockReader
