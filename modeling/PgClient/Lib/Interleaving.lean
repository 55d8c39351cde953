import Mathlib.Data.List.Basic
import Mathlib.Data.List.Perm.Basic
import Mathlib.Algebra.BigOperators.Group.List.Basic
import Mathlib.Algebra.GroupWithZero.Nat
import PgClient.Lib.PartialRun

/-!
# Interleaved threads

Threads over one shared state. A schedule is a list of events: a thread starts, or a thread
takes a turn. A turn is one atomic step of its thread; a thread that cannot go on leaves all as
it is, and a turn that is undefined ends the run.

* `exec` — one event.
* `run_ok`, `run_inv` — the invariant rules of a schedule.
* `exists_perm_set` — a turn changes one thread among the others; sums and concatenations over
  the threads follow.
* `run_starts` — the threads against what they were started with.
-/

namespace Interleaving

/-- What starts a thread, and the turns of one: the number of the thread and a choice made from
outside are passed to it. -/
structure System (ν κ σ ℓ : Type*) where
  start : ν → ℓ
  turn : κ → Nat → σ → ℓ → Option (σ × ℓ)

/-- An event of a schedule. -/
inductive Event (ν κ : Type*)
  | start (v : ν)
  | turn (i : Nat) (c : κ)

/-- The shared state and the threads, in the order of their starts. -/
structure Config (σ ℓ : Type*) where
  shared : σ
  threads : List ℓ

variable {ν κ σ ℓ : Type*} (S : System ν κ σ ℓ)

/-- One event; a turn of a thread that was not started is none. -/
def exec : Event ν κ → Config σ ℓ → Option (Config σ ℓ)
  | .start v, c => some ⟨c.shared, c.threads ++ [S.start v]⟩
  | .turn i k, c =>
    match c.threads[i]? with
    | none => some c
    | some l => (S.turn k i c.shared l).map fun r => ⟨r.1, c.threads.set i r.2⟩

/-- A schedule. -/
def run : List (Event ν κ) → Config σ ℓ → Option (Config σ ℓ) := PartialRun.runAll (exec S)

variable {S} {c c' : Config σ ℓ}

/-- What an event can do. -/
theorem exec_cases {e : Event ν κ} (h : exec S e c = some c') :
    (∃ v, e = .start v ∧ c' = ⟨c.shared, c.threads ++ [S.start v]⟩) ∨
    (∃ i k, e = .turn i k ∧ c.threads[i]? = none ∧ c' = c) ∨
    ∃ i k l s' l', e = .turn i k ∧ c.threads[i]? = some l ∧
      S.turn k i c.shared l = some (s', l') ∧ c' = ⟨s', c.threads.set i l'⟩ := by
  cases e with
  | start v => exact .inl ⟨v, rfl, (Option.some.inj h).symm⟩
  | turn i k =>
    -- a turn of a thread that is not there does nothing
    rw [exec] at h
    cases hi : c.threads[i]? with
    | none =>
      rw [hi] at h
      exact .inr (.inl ⟨i, k, rfl, hi, (Option.some.inj h).symm⟩)
    | some l =>
      rw [hi] at h
      obtain ⟨r, hr, rfl⟩ := Option.map_eq_some_iff.mp h
      exact .inr (.inr ⟨i, k, l, r.1, r.2, rfl, hi, hr, rfl⟩)

/-- A turn changes the shared state and the state of its own thread. -/
theorem exec_turn {k : κ} {i : Nat} {l l' : ℓ} {s' : σ} (hi : c.threads[i]? = some l)
    (ht : S.turn k i c.shared l = some (s', l')) :
    exec S (.turn i k) c = some ⟨s', c.threads.set i l'⟩ := by
  simp only [exec, hi, ht, Option.map_some]

/-- Two turns of one thread. -/
theorem run_two {k k' : κ} {i : Nat} {l l₁ l₂ : ℓ} {s₁ s₂ : σ} (hi : c.threads[i]? = some l)
    (h₁ : S.turn k i c.shared l = some (s₁, l₁)) (h₂ : S.turn k' i s₁ l₁ = some (s₂, l₂)) :
    ∃ c', run S [.turn i k, .turn i k'] c = some c' ∧ c'.threads[i]? = some l₂ := by
  obtain ⟨hlt, -⟩ := List.getElem?_eq_some_iff.mp hi
  have hi₁ : (c.threads.set i l₁)[i]? = some l₁ := List.getElem?_set_self hlt
  have h₂' : exec S (.turn i k') ⟨s₁, c.threads.set i l₁⟩ =
      some ⟨s₂, (c.threads.set i l₁).set i l₂⟩ := exec_turn hi₁ h₂
  refine ⟨⟨s₂, (c.threads.set i l₁).set i l₂⟩, ?_, ?_⟩
  · rw [run, PartialRun.runAll, exec_turn hi h₁, Option.bind_some, PartialRun.runAll, h₂']
    rfl
  · exact List.getElem?_set_self (by rw [List.length_set]; exact hlt)

/-- A schedule keeps what its starts and its turns keep. -/
theorem run_inv {Inv : Config σ ℓ → Prop}
    (hstart : ∀ v c, Inv c → Inv ⟨c.shared, c.threads ++ [S.start v]⟩)
    (hturn : ∀ i k c l s' l', Inv c → c.threads[i]? = some l →
      S.turn k i c.shared l = some (s', l') → Inv ⟨s', c.threads.set i l'⟩)
    {es : List (Event ν κ)} (hc : Inv c) (h : run S es c = some c') : Inv c' := by
  refine PartialRun.runAll_inv (fun e c c' hinv hexec => ?_) hc h
  obtain ⟨v, rfl, rfl⟩ | ⟨i, k, rfl, -, rfl⟩ | ⟨i, k, l, s', l', rfl, hi, ht, rfl⟩ :=
    exec_cases hexec
  · exact hstart v c hinv
  · exact hinv
  · exact hturn i k c l s' l' hinv hi ht

/-- A schedule whose turns are defined wherever the invariant holds is defined. `Ok` is what is
known of the starts. -/
theorem run_ok {Inv : Config σ ℓ → Prop} {Ok : ν → Prop}
    (hstart : ∀ v c, Ok v → Inv c → Inv ⟨c.shared, c.threads ++ [S.start v]⟩)
    (hturn : ∀ i k c l, Inv c → c.threads[i]? = some l →
      ∃ s' l', S.turn k i c.shared l = some (s', l') ∧ Inv ⟨s', c.threads.set i l'⟩)
    {es : List (Event ν κ)} (hes : ∀ v, .start v ∈ es → Ok v) (hc : Inv c) :
    ∃ c', run S es c = some c' ∧ Inv c' := by
  -- every event is defined and keeps the invariant
  refine PartialRun.runAll_ok (fun e he c hinv => ?_) hc
  cases e with
  | start v => exact ⟨_, rfl, hstart v c (hes v he) hinv⟩
  | turn i k =>
    cases hi : c.threads[i]? with
    | none => exact ⟨c, by rw [exec, hi], hinv⟩
    | some l =>
      obtain ⟨s', l', ht, hinv'⟩ := hturn i k c l hinv hi
      exact ⟨_, exec_turn hi ht, hinv'⟩

/-! ## One thread among the others -/

variable {threads : List ℓ} {i : Nat} {l : ℓ}

/-- Thread `i` apart, the threads stay. -/
theorem exists_perm_set (h : threads[i]? = some l) :
    ∃ others, threads.Perm (l :: others) ∧ ∀ l', (threads.set i l').Perm (l' :: others) := by
  obtain ⟨hi, rfl⟩ := List.getElem?_eq_some_iff.mp h
  refine ⟨threads.eraseIdx i, (List.getElem_cons_eraseIdx_perm hi).symm, ?_⟩
  intro l'
  exact List.set_perm_cons_eraseIdx hi l'

/-- A sum over the threads changes by what one of them changes. -/
theorem sum_map_set (f : ℓ → Nat) (h : threads[i]? = some l) (l' : ℓ) :
    ((threads.set i l').map f).sum + f l = (threads.map f).sum + f l' := by
  obtain ⟨others, hold, hnew⟩ := exists_perm_set h
  rw [((hnew l').map f).sum_eq, (hold.map f).sum_eq, List.map_cons, List.map_cons,
    List.sum_cons, List.sum_cons]
  omega

/-- What the other threads have stays with them. -/
theorem flatMap_set_perm {α : Type*} (f : ℓ → List α) (h : threads[i]? = some l) (l' : ℓ) :
    (f l ++ (threads.set i l').flatMap f).Perm (f l' ++ threads.flatMap f) := by
  obtain ⟨others, hold, hnew⟩ := exists_perm_set h
  have hold' := hold.flatMap_right f
  have hnew' := (hnew l').flatMap_right f
  rw [List.flatMap_cons] at hold' hnew'
  refine (hnew'.append_left _).trans (List.Perm.trans ?_ (hold'.append_left _).symm)
  rw [← List.append_assoc, ← List.append_assoc]
  exact List.perm_append_comm.append_right _

/-- No thread has more than the sum. -/
theorem le_sum_map (f : ℓ → Nat) (h : threads[i]? = some l) : f l ≤ (threads.map f).sum := by
  obtain ⟨others, hold, -⟩ := exists_perm_set h
  rw [(hold.map f).sum_eq, List.map_cons, List.sum_cons]
  omega

/-- What holds of every thread holds after one of them changed to a thread it holds of. -/
theorem forall_set {P : Nat → ℓ → Prop} (h : ∀ j l, threads[j]? = some l → P j l) {l' : ℓ}
    (hl' : P i l') : ∀ j l, (threads.set i l')[j]? = some l → P j l := by
  intro j l hj
  rcases eq_or_ne i j with rfl | hne
  · rw [List.getElem?_set_self'] at hj
    obtain ⟨_, -, rfl⟩ := Option.map_eq_some_iff.mp hj
    exact hl'
  · rw [List.getElem?_set_ne hne] at hj
    exact h j l hj

/-- What holds of every thread and of one that starts holds after the start. -/
theorem forall_append {P : Nat → ℓ → Prop} (h : ∀ j l, threads[j]? = some l → P j l) {l' : ℓ}
    (hl' : P threads.length l') : ∀ j l, (threads ++ [l'])[j]? = some l → P j l := by
  intro j l hj
  rcases Nat.lt_trichotomy j threads.length with hlt | rfl | hgt
  · rw [List.getElem?_append_left hlt] at hj
    exact h j l hj
  · rw [List.getElem?_concat_length] at hj
    obtain rfl := Option.some.inj hj
    exact hl'
  · rw [List.getElem?_eq_none (by simp; omega)] at hj
    exact absurd hj (by simp)

/-- The threads as a function of their numbers; a turn changes it at one place. -/
theorem getElem?_set_eq_update (h : threads[i]? = some l) (l' : ℓ) :
    (fun j => (threads.set i l')[j]?) = Function.update (fun j => threads[j]?) i (some l') := by
  obtain ⟨hi, -⟩ := List.getElem?_eq_some_iff.mp h
  funext j
  rcases eq_or_ne j i with rfl | hne
  · rw [Function.update_self, List.getElem?_set_self hi]
  · rw [Function.update_of_ne hne, List.getElem?_set_ne hne.symm]

/-- A start changes it where there was no thread. -/
theorem getElem?_append_eq_update (threads : List ℓ) (l : ℓ) :
    (fun j => (threads ++ [l])[j]?) =
      Function.update (fun j => threads[j]?) threads.length (some l) := by
  funext j
  rcases Nat.lt_trichotomy j threads.length with hlt | rfl | hgt
  · rw [Function.update_of_ne (by omega), List.getElem?_append_left hlt]
  · rw [Function.update_self, List.getElem?_concat_length]
  · rw [Function.update_of_ne (by omega), List.getElem?_eq_none (by simp; omega),
      List.getElem?_eq_none (by omega)]

/-! ## What the threads were started with -/

/-- The starts of a schedule. -/
def starts (es : List (Event ν κ)) : List ν :=
  es.filterMap fun
    | .start v => some v
    | .turn _ _ => none

/-- What relates each thread to its start need only be kept by the thread whose turn it is. -/
theorem forall₂_set {P : ν → ℓ → Prop} {vs : List ν} (h : List.Forall₂ P vs threads)
    (hi : threads[i]? = some l) {l' : ℓ} (hl : ∀ v, P v l → P v l') :
    List.Forall₂ P vs (threads.set i l') := by
  induction h generalizing i with
  | nil => exact .nil
  | cons hv hrest ih =>
    cases i with
    | zero =>
      obtain rfl := Option.some.inj hi
      exact .cons (hl _ hv) hrest
    | succ i => exact .cons hv (ih hi)

/-- What a start gives its thread and every turn keeps relates the threads to their starts. -/
theorem run_starts {P : ν → ℓ → Prop} (hstart : ∀ v, P v (S.start v))
    (hturn : ∀ v k i s l s' l', P v l → S.turn k i s l = some (s', l') → P v l')
    {es : List (Event ν κ)} {vs : List ν} (hc : List.Forall₂ P vs c.threads)
    (h : run S es c = some c') : List.Forall₂ P (vs ++ starts es) c'.threads := by
  induction es generalizing vs c with
  | nil =>
    obtain rfl := Option.some.inj h
    rw [starts, List.filterMap_nil, List.append_nil]
    exact hc
  | cons e es ih =>
    obtain ⟨c₁, hexec, hrest⟩ := Option.bind_eq_some_iff.mp h
    obtain ⟨v, rfl, rfl⟩ | ⟨i, k, rfl, -, rfl⟩ | ⟨i, k, l, s', l', rfl, hi, ht, rfl⟩ :=
      exec_cases hexec
    -- a start adds a thread, a turn exchanges one for what it becomes
    · have hnew := ih (List.rel_append hc (.cons (hstart v) .nil)) hrest
      rw [List.append_assoc] at hnew
      exact hnew
    · exact ih hc hrest
    · exact ih (forall₂_set hc hi fun v hv => hturn v k i c.shared l s' l' hv ht) hrest

end Interleaving
