import Mathlib.Tactic.Common

/-!
# Partial runs — steps that may be undefined

A step takes a command and a state to a state, or is undefined. A run takes one
command after the other and stops at the first undefined step.

* `Along` — a property of a command and the state it meets, all along a run.
* `runAll_inv`, `runAll_inv_along`, `runAll_ok` — the invariant rules of a run.
* `along_of_inv` — it follows from an invariant.
* `runAll_sim` — a run that follows one of an abstract system.
* `exists_runAll_eq_none` — the termination rule.
* `runAll_range_ok`, `runAll_range_inv` — the invariant rules of a counting loop.
* `observe_inv` — a history of a run against its state.
* `exists_run_of_rank` — the rule of a run that goes down to rank zero.
* `runOut_abs`, `runOut_sim` — a run and its results against those of an abstract system.
* `along_congr`, `along_congr_of_runAll` — two properties that agree wherever an
  invariant holds agree along a run.
* `along_range_iff` — a property all along a counting loop.
-/

namespace PartialRun

variable {κ σ : Type*}

/-- The state after all the commands. -/
def runAll (step : κ → σ → Option σ) : List κ → σ → Option σ
  | [], s => some s
  | c :: cs, s => (step c s).bind (runAll step cs)

/-- `P` holds of every command and the state it meets. -/
def Along (step : κ → σ → Option σ) (P : κ → σ → Prop) : List κ → σ → Prop
  | [], _ => True
  | c :: cs, s => P c s ∧ ∀ s', step c s = some s' → Along step P cs s'

variable {step : κ → σ → Option σ} {P Q : κ → σ → Prop}

instance decidableAlong [∀ c s, Decidable (P c s)] : ∀ cs s, Decidable (Along step P cs s)
  | [], _ => .isTrue trivial
  | c :: cs, s =>
    match h : step c s with
    | none =>
      decidable_of_iff (P c s) ⟨fun hP => ⟨hP, fun _ h' => nomatch h.symm.trans h'⟩, And.left⟩
    | some s₁ =>
      have := decidableAlong cs s₁
      decidable_of_iff (P c s ∧ Along step P cs s₁)
        ⟨fun hP => ⟨hP.1, fun _ h' => Option.some.inj (h.symm.trans h') ▸ hP.2⟩,
          fun hP => ⟨hP.1, hP.2 s₁ h⟩⟩

/-- A run of two lists goes on from where the first one ends. -/
theorem runAll_append (cs cs' : List κ) (s : σ) :
    runAll step (cs ++ cs') s = (runAll step cs s).bind (runAll step cs') := by
  induction cs generalizing s with
  | nil => rfl
  | cons c cs ih =>
    rw [List.cons_append, runAll, runAll]
    cases step c s with
    | none => rfl
    | some s₁ => exact ih s₁

/-- A property along a run is one along its first part, and along the second from there. -/
theorem along_append (cs cs' : List κ) (s : σ) :
    Along step P (cs ++ cs') s ↔
      Along step P cs s ∧ ∀ s', runAll step cs s = some s' → Along step P cs' s' := by
  induction cs generalizing s with
  | nil => simp [Along, runAll]
  | cons c cs ih =>
    simp only [List.cons_append, Along, ih, runAll, Option.bind_eq_some_iff]
    constructor
    · rintro ⟨hP, hrest⟩
      exact ⟨⟨hP, fun s' hs' => (hrest s' hs').1⟩,
        fun s' ⟨s₁, hturn, hrun⟩ => (hrest s₁ hturn).2 s' hrun⟩
    · rintro ⟨⟨hP, hfront⟩, hback⟩
      exact ⟨hP, fun s₁ hturn => ⟨hfront s₁ hturn, fun s' hrun => hback s' ⟨s₁, hturn, hrun⟩⟩⟩

/-- What holds of all commands and states holds along a run. -/
theorem along_of_forall (h : ∀ c s, P c s) : ∀ cs s, Along step P cs s
  | [], _ => trivial
  | c :: cs, s => ⟨h c s, fun s' _ => along_of_forall h cs s'⟩

/-- A run keeps what the steps that meet a condition keep, if all its steps meet it. -/
theorem runAll_inv_along {Inv : σ → Prop}
    (hstep : ∀ c s s', P c s → Inv s → step c s = some s' → Inv s') {cs : List κ} {s s' : σ}
    (halong : Along step P cs s) (hs : Inv s) (hrun : runAll step cs s = some s') : Inv s' := by
  induction cs generalizing s with
  | nil => exact Option.some.inj hrun ▸ hs
  | cons c cs ih =>
    rw [runAll] at hrun
    obtain ⟨s₁, hturn, hrest⟩ := Option.bind_eq_some_iff.mp hrun
    exact ih (halong.2 s₁ hturn) (hstep c s s₁ halong.1 hs hturn) hrest

/-- A run keeps what every step keeps. -/
theorem runAll_inv {Inv : σ → Prop} (hstep : ∀ c s s', Inv s → step c s = some s' → Inv s')
    {cs : List κ} {s s' : σ} (hs : Inv s) (hrun : runAll step cs s = some s') : Inv s' :=
  runAll_inv_along (P := fun _ _ => True) (fun c s s' _ => hstep c s s')
    (along_of_forall (fun _ _ => trivial) cs s) hs hrun

/-- A run whose steps are defined wherever the invariant holds is defined. -/
theorem runAll_ok {Inv : σ → Prop} {cs : List κ}
    (hstep : ∀ c ∈ cs, ∀ s, Inv s → ∃ s', step c s = some s' ∧ Inv s') {s : σ} (hs : Inv s) :
    ∃ s', runAll step cs s = some s' ∧ Inv s' := by
  induction cs generalizing s with
  | nil => exact ⟨s, rfl, hs⟩
  | cons c cs ih =>
    obtain ⟨s₁, hturn, hinv⟩ := hstep c List.mem_cons_self s hs
    obtain ⟨s', hrest, hinv'⟩ := ih (fun c' hc' => hstep c' (List.mem_cons_of_mem _ hc')) hinv
    exact ⟨s', by rw [runAll, hturn]; exact hrest, hinv'⟩

/-- **Forward simulation**: where every step of an abstract system is followed by a step between
related states, so is a run. -/
theorem runAll_sim {τ : Type*} {absStep : κ → τ → Option τ} {R : σ → τ → Prop}
    (hstep : ∀ c s t t', R s t → absStep c t = some t' → ∃ s', step c s = some s' ∧ R s' t')
    {cs : List κ} {s : σ} {t t' : τ} (h : R s t) (hrun : runAll absStep cs t = some t') :
    ∃ s', runAll step cs s = some s' ∧ R s' t' := by
  induction cs generalizing s t with
  | nil => exact ⟨s, rfl, Option.some.inj hrun ▸ h⟩
  | cons c cs ih =>
    rw [runAll] at hrun
    obtain ⟨t₁, hturn, hrest⟩ := Option.bind_eq_some_iff.mp hrun
    obtain ⟨s₁, hstep₁, h₁⟩ := hstep c s t t₁ h hturn
    obtain ⟨s', hrest', h'⟩ := ih h₁ hrest
    exact ⟨s', by rw [runAll, hstep₁]; exact hrest', h'⟩

/-- **Termination**: if all steps go down in a well-founded order, a run becomes undefined,
whatever the commands are. -/
theorem exists_runAll_eq_none {α : Type*} {r : α → α → Prop} (hwf : WellFounded r) (rank : σ → α)
    (hstep : ∀ c s s', step c s = some s' → r (rank s') (rank s)) (cs : Nat → κ) (s : σ) :
    ∃ n, runAll step ((List.range n).map cs) s = none := by
  induction hrank : rank s using hwf.induction generalizing cs s with
  | _ a ih =>
    cases hturn : step (cs 0) s with
    | none => exact ⟨1, by simp [runAll, hturn]⟩
    | some s' =>
      obtain ⟨n, hn⟩ := ih (rank s') (hrank ▸ hstep _ _ _ hturn) (fun k => cs (k + 1)) s' rfl
      refine ⟨n + 1, ?_⟩
      rw [List.range_succ_eq_map, List.map_cons, List.map_map, runAll, hturn]
      exact hn

/-! ## Histories -/

section Histories

variable {α : Type*}

/-- What a run makes of an `a` that every command and the state it meets go into. -/
def observe (step : κ → σ → Option σ) (f : κ → σ → α → α) : List κ → σ → α → α
  | [], _, a => a
  | c :: cs, s, a =>
    match step c s with
    | none => f c s a
    | some s' => observe step f cs s' (f c s a)

/-- A history is related to the state wherever every step keeps the relation. -/
theorem observe_inv {f : κ → σ → α → α} {R : σ → α → Prop}
    (hstep : ∀ c s s' a, R s a → step c s = some s' → R s' (f c s a)) {cs : List κ} {s s' : σ}
    {a : α} (hs : R s a) (hrun : runAll step cs s = some s') : R s' (observe step f cs s a) := by
  induction cs generalizing s a with
  | nil => exact Option.some.inj hrun ▸ hs
  | cons c cs ih =>
    rw [runAll] at hrun
    obtain ⟨s₁, hturn, hrest⟩ := Option.bind_eq_some_iff.mp hrun
    rw [observe, hturn]
    exact ih (hstep c s s₁ a hs hturn) hrest

end Histories

/-- **Progress**: where there is always a step that goes down in rank, a run goes down to zero. -/
theorem exists_run_of_rank {Inv : σ → Prop} (rank : σ → Nat)
    (hstep : ∀ s, Inv s → 0 < rank s → ∃ c s', step c s = some s' ∧ Inv s' ∧ rank s' < rank s)
    {s : σ} (hs : Inv s) : ∃ cs s', runAll step cs s = some s' ∧ Inv s' ∧ rank s' = 0 := by
  induction hrank : rank s using Nat.strongRecOn generalizing s with
  | _ n ih =>
    rcases Nat.eq_zero_or_pos (rank s) with hzero | hpos
    · exact ⟨[], s, rfl, hs, hzero⟩
    · obtain ⟨c, s₁, hturn, hinv, hlt⟩ := hstep s hs hpos
      obtain ⟨cs, s', hrun, hs', hend⟩ := ih (rank s₁) (hrank ▸ hlt) hinv rfl
      exact ⟨c :: cs, s', by rw [runAll, hturn]; exact hrun, hs', hend⟩

section Counting

variable {step : Nat → σ → Option σ} {Inv : Nat → σ → Prop} {n : Nat} {s : σ}

/-- The loop over `0, …, n - 1` peels off its last turn. -/
theorem runAll_range_succ (n : Nat) (s : σ) :
    runAll step (List.range (n + 1)) s = (runAll step (List.range n) s).bind (step n) := by
  rw [List.range_succ, runAll_append]
  congr 1
  funext s'
  exact Option.bind_fun_some (step n s')

/-- A loop whose turns are defined and keep an invariant is defined. -/
theorem runAll_range_ok (h0 : Inv 0 s)
    (hstep : ∀ i < n, ∀ s, Inv i s → ∃ s', step i s = some s' ∧ Inv (i + 1) s') :
    ∃ s', runAll step (List.range n) s = some s' ∧ Inv n s' := by
  induction n with
  | zero => exact ⟨s, rfl, h0⟩
  | succ n ih =>
    obtain ⟨s₁, hrun, hinv⟩ := ih fun i hi => hstep i (by omega)
    obtain ⟨s', hturn, hinv'⟩ := hstep n (by omega) s₁ hinv
    exact ⟨s', by rw [runAll_range_succ, hrun]; exact hturn, hinv'⟩

/-- A loop that is defined keeps what its turns keep. -/
theorem runAll_range_inv (h0 : Inv 0 s)
    (hstep : ∀ i < n, ∀ s s', Inv i s → step i s = some s' → Inv (i + 1) s') {s' : σ}
    (hrun : runAll step (List.range n) s = some s') : Inv n s' := by
  induction n generalizing s' with
  | zero => exact Option.some.inj hrun ▸ h0
  | succ n ih =>
    rw [runAll_range_succ] at hrun
    obtain ⟨s₁, hrun₁, hturn⟩ := Option.bind_eq_some_iff.mp hrun
    exact hstep n (by omega) s₁ s' (ih (fun i hi => hstep i (by omega)) hrun₁) hturn

/-- A loop that is defined reaches each of its turns, and gets through it. -/
theorem exists_runAll_range {s' : σ} (hrun : runAll step (List.range n) s = some s') {k : Nat}
    (hk : k < n) : ∃ s₁ s₂, runAll step (List.range k) s = some s₁ ∧ step k s₁ = some s₂ := by
  induction n generalizing s' with
  | zero => omega
  | succ n ih =>
    rw [runAll_range_succ] at hrun
    obtain ⟨s₁, hrun₁, hturn⟩ := Option.bind_eq_some_iff.mp hrun
    rcases Nat.lt_succ_iff_lt_or_eq.mp hk with hlt | rfl
    · exact ih hrun₁ hlt
    · exact ⟨s₁, s', hrun₁, hturn⟩

/-- All along a counting loop is at each turn that is reached. -/
theorem along_range_iff {P : Nat → σ → Prop} :
    Along step P (List.range n) s ↔
      ∀ k < n, ∀ s', runAll step (List.range k) s = some s' → P k s' := by
  induction n with
  | zero => simp [Along]
  | succ n ih =>
    rw [List.range_succ, along_append, ih, Nat.forall_lt_succ_right]
    refine and_congr_right fun _ => forall₂_congr fun s' _ => ?_
    simp [Along]

end Counting

/-- Where an invariant holds the two properties agree, and either keeps it. -/
theorem along_congr {Inv : σ → Prop} (hPQ : ∀ c s, Inv s → (P c s ↔ Q c s))
    (hstep : ∀ c s s', Inv s → Q c s → step c s = some s' → Inv s') (cs : List κ) {s : σ}
    (hs : Inv s) : Along step P cs s ↔ Along step Q cs s := by
  induction cs generalizing s with
  | nil => exact Iff.rfl
  | cons c cs ih =>
    constructor
    · rintro ⟨hP, hrest⟩
      -- the state is in the invariant, so the two conditions agree on this call
      have hQ := (hPQ c s hs).mp hP
      exact ⟨hQ, fun s' hs' => (ih (hstep c s s' hs hQ hs')).mp (hrest s' hs')⟩
    · rintro ⟨hQ, hrest⟩
      exact ⟨(hPQ c s hs).mpr hQ, fun s' hs' => (ih (hstep c s s' hs hQ hs')).mpr (hrest s' hs')⟩

/-- The same along a run that is defined, where they agree for steps that are defined. -/
theorem along_congr_of_runAll {Inv : σ → Prop}
    (hPQ : ∀ c s s', Inv s → step c s = some s' → (P c s ↔ Q c s))
    (hstep : ∀ c s s', Inv s → step c s = some s' → Inv s') {cs : List κ} {s s' : σ}
    (hs : Inv s) (hrun : runAll step cs s = some s') : Along step P cs s ↔ Along step Q cs s := by
  induction cs generalizing s with
  | nil => exact Iff.rfl
  | cons c cs ih =>
    rw [runAll] at hrun
    obtain ⟨s₁, hturn, hrest⟩ := Option.bind_eq_some_iff.mp hrun
    have hrest_iff := ih (hstep c s s₁ hs hturn) hrest
    -- a step has one result, so the rest is about the same state
    refine and_congr (hPQ c s s₁ hs hturn) ⟨fun h s₂ hs₂ => ?_, fun h s₂ hs₂ => ?_⟩
    · obtain rfl := Option.some.inj (hturn.symm.trans hs₂)
      exact hrest_iff.mp (h s₁ hturn)
    · obtain rfl := Option.some.inj (hturn.symm.trans hs₂)
      exact hrest_iff.mpr (h s₁ hturn)

/-- What an invariant gives for these commands holds along their run. -/
theorem along_of_inv {Inv : σ → Prop} (hstep : ∀ c s s', Inv s → step c s = some s' → Inv s')
    {cs : List κ} (hP : ∀ c ∈ cs, ∀ s, Inv s → P c s) {s : σ} (hs : Inv s) : Along step P cs s := by
  induction cs generalizing s with
  | nil => trivial
  | cons c cs ih =>
    refine ⟨hP c List.mem_cons_self s hs, ?_⟩
    intro s' hs'
    exact ih (fun c' hc' => hP c' (List.mem_cons_of_mem _ hc')) (hstep c s s' hs hs')

/-! ## Runs with results -/

section Results

variable {τ ρ : Type*}

/-- The state after all the commands, and what each of them gave. -/
def runOut (step : κ → σ → Option (σ × ρ)) : List κ → σ → Option (σ × List ρ)
  | [], s => some (s, [])
  | c :: cs, s => (step c s).bind fun r => (runOut step cs r.1).map fun r' => (r'.1, r.2 :: r'.2)

/-- A run with results begins with a step and its result. -/
theorem runOut_cons_eq_some {step : κ → σ → Option (σ × ρ)} {c : κ} {cs : List κ} {s s' : σ}
    {outs : List ρ} (h : runOut step (c :: cs) s = some (s', outs)) :
    ∃ s₁ out outs', step c s = some (s₁, out) ∧ runOut step cs s₁ = some (s', outs') ∧
      outs = out :: outs' := by
  rw [runOut, Option.bind_eq_some_iff] at h
  obtain ⟨⟨s₁, out⟩, hstep, hrest⟩ := h
  obtain ⟨⟨s₂, outs'⟩, hrun, heq⟩ := Option.map_eq_some_iff.mp hrest
  obtain ⟨rfl, rfl⟩ := Prod.mk.inj heq
  exact ⟨s₁, out, outs', hstep, hrun, rfl⟩

/-- A run of a total system is defined. -/
theorem exists_runOut_total (spec : κ → τ → τ × ρ) (cs : List κ) (t : τ) :
    ∃ r, runOut (fun c t => some (spec c t)) cs t = some r := by
  induction cs generalizing t with
  | nil => exact ⟨_, rfl⟩
  | cons c cs ih =>
    obtain ⟨r, hr⟩ := ih (spec c t).1
    exact ⟨_, by rw [runOut, Option.bind_some, hr, Option.map_some]⟩

/-- Steps that agree with those of an abstract system wherever an invariant holds do so along
a run. -/
theorem runOut_abs {step : κ → σ → Option (σ × ρ)} {absStep : κ → τ → Option (τ × ρ)}
    {abs : σ → τ} {Inv : σ → Prop}
    (hstep : ∀ c s, Inv s → (step c s).map (fun r => (abs r.1, r.2)) = absStep c (abs s))
    (hinv : ∀ c s s' out, Inv s → step c s = some (s', out) → Inv s') (cs : List κ) {s : σ}
    (hs : Inv s) :
    (runOut step cs s).map (fun r => (abs r.1, r.2)) = runOut absStep cs (abs s) ∧
      ∀ s' outs, runOut step cs s = some (s', outs) → Inv s' := by
  -- the induction is on the calls; the invariant goes along, as the steps agree only under it
  induction cs generalizing s with
  | nil =>
    refine ⟨rfl, ?_⟩
    intro s' outs h
    obtain ⟨rfl, -⟩ := Prod.mk.inj (Option.some.inj h)
    exact hs
  | cons c cs ih =>
    constructor
    · rw [runOut, runOut, ← hstep c s hs]
      cases hc : step c s with
      | none => rfl
      | some r =>
        rw [Option.map_some, Option.bind_some, Option.bind_some,
          ← (ih (hinv c s r.1 r.2 hs hc)).1]
        cases runOut step cs r.1 <;> rfl
    · intro s' outs h
      obtain ⟨s₁, out, outs', hc, hrun, -⟩ := runOut_cons_eq_some h
      exact (ih (hinv c s s₁ out hs hc)).2 s' outs' hrun

/-- Steps that follow those of a total system, where the states are related and the step is one
that the total system may take, do so along a run. -/
theorem runOut_sim {step : κ → σ → Option (σ × ρ)} {spec : κ → τ → τ × ρ} {May : κ → τ → Prop}
    {R : σ → τ → Prop}
    (hstep : ∀ c s t, R s t → May c t →
      ∃ s', step c s = some (s', (spec c t).2) ∧ R s' (spec c t).1) (cs : List κ) {s : σ} {t : τ}
    (hst : R s t) (hmay : Along (fun c t => some (spec c t).1) May cs t) :
    ∃ s' t' outs, runOut step cs s = some (s', outs) ∧
      runOut (fun c t => some (spec c t)) cs t = some (t', outs) ∧ R s' t' := by
  induction cs generalizing s t with
  | nil => exact ⟨s, t, [], rfl, rfl, hst⟩
  | cons c cs ih =>
    -- one step of both, and the rest from the states it leads to
    obtain ⟨s₁, hs₁, hst₁⟩ := hstep c s t hst hmay.1
    obtain ⟨s', t', outs, hrun, hspec, hst'⟩ := ih hst₁ (hmay.2 _ rfl)
    refine ⟨s', t', (spec c t).2 :: outs, ?_, ?_, hst'⟩
    · rw [runOut, hs₁, Option.bind_some, hrun, Option.map_some]
    · rw [runOut, Option.bind_some, hspec, Option.map_some]

/-- A run with results, cut at a place; there is one result for each command. -/
theorem runOut_append_eq_some {step : κ → σ → Option (σ × ρ)} {cs cs' : List κ} {s s' : σ}
    {outs : List ρ} (h : runOut step (cs ++ cs') s = some (s', outs)) :
    ∃ s₁ outs₁ outs₂, runOut step cs s = some (s₁, outs₁) ∧
      runOut step cs' s₁ = some (s', outs₂) ∧ outs = outs₁ ++ outs₂ ∧
      outs₁.length = cs.length := by
  induction cs generalizing s outs with
  | nil => exact ⟨s, [], outs, rfl, h, rfl, rfl⟩
  | cons c cs ih =>
    obtain ⟨s₁, out, outs', hstep, hrun, rfl⟩ := runOut_cons_eq_some h
    obtain ⟨s₂, outs₁, outs₂, hcs, hcs', rfl, hlen⟩ := ih hrun
    refine ⟨s₂, out :: outs₁, outs₂, ?_, hcs', rfl, by simp [hlen]⟩
    rw [runOut, hstep, Option.bind_some, hcs, Option.map_some]

end Results

end PartialRun
