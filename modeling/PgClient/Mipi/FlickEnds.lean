import PgClient.Mipi.Flick
import Mathlib.Algebra.Group.Nat.Defs
import Mathlib.Algebra.Order.Group.Abs
import Mathlib.Algebra.Order.Group.Int

/-!
# The flicker search ends

Every turn of `z_auto_flick_2` that does not return has either changed the direction, or moved its
VCOM towards the end of the range that it searches to. The direction changes no more than six times.

* `searchTurn_cases` — what a turn that goes on has done.
* `searchTurn_rank` — so turns go down in the lexicographic order of changes left and way left.
* `zAutoFlick2_returns` — the search ends on every sequence of captures.
* `errorCnt_lt` — and its count of errors stays an `int`.
-/

namespace PgClient.Mipi

open PartialRun

/-! ## One turn -/

/-- The way from a VCOM to the end of the range in a direction. -/
def travel (info : VcomInfo) (findDirection vcom : Int) : Nat :=
  if findDirection = -1 then (vcom - info.minvalue).toNat else (info.maxvalue - vcom).toNat

/-- The VCOM moves a step on its way, or the direction changes. -/
theorem moveVcom_cases (info : VcomInfo) (s : FlickState) :
    ((moveVcom info s).changeDirectionCnt = s.changeDirectionCnt ∧
      (moveVcom info s).findDirection = s.findDirection ∧
      (travel info s.findDirection (moveVcom info s).vcom : Int) + flickStep s.lastFlick =
        travel info s.findDirection s.lastVcom) ∨
    (moveVcom info s).changeDirectionCnt = s.changeDirectionCnt + 1 := by
  have hpos : 0 < flickStep s.lastFlick := by
    rcases flickStep_cases s.lastFlick with h | h | h | h <;> omega
  unfold moveVcom travel
  by_cases hleft : s.findDirection = -1
  · simp only [if_pos hleft]
    split_ifs with hgo
    · -- the lower end is more than a step away
      refine .inl ⟨rfl, rfl, ?_⟩
      dsimp only
      omega
    · exact .inr rfl
  · -- to the right, also for a search that has no direction yet
    simp only [if_neg hleft]
    split_ifs with hgo
    · refine .inl ⟨rfl, rfl, ?_⟩
      dsimp only
      omega
    · exact .inr rfl

/-- What is written lies in the range, or a step of ten next to it. -/
theorem moveVcom_near {info : VcomInfo} {bound : Int} (hmin : |info.minvalue| < bound)
    (hmax : |info.maxvalue| < bound) (s : FlickState) : |(moveVcom info s).vcom| < bound + 10 := by
  have hstep := flickStep_cases s.lastFlick
  rw [abs_lt] at hmin hmax ⊢
  unfold moveVcom
  by_cases hleft : s.findDirection = -1
  · simp only [if_pos hleft]
    split_ifs with hgo
    · -- the last VCOM is in the range, the new one above its lower end
      have := inside_le hgo.2
      dsimp only
      omega
    · -- a step above the lower end, which may be above the upper one
      dsimp only
      omega
  · simp only [if_neg hleft]
    split_ifs with hgo
    · have := inside_le hgo.1
      dsimp only
      omega
    · dsimp only
      omega

/-- The measurement changes the direction, or leaves it as it is. -/
theorem turnAround_cases (s : FlickState) (m : Move) (flick : Int) :
    turnAround s m flick = (m.findDirection, m.changeDirectionCnt) ∨
      (turnAround s m flick).2 = m.changeDirectionCnt + 1 := by
  unfold turnAround
  by_cases hworse : worse s flick
  · rw [if_pos hworse]
    exact .inr rfl
  · rw [if_neg hworse]
    exact .inl rfl

/-- **What a turn that goes on has done.** -/
theorem searchTurn_cases {info : VcomInfo} {c : Capture} {s s' : FlickState}
    (h : searchTurn info c s = some s') :
    s'.changeDirectionCnt < maxChangeDirectCnt ∧ s'.flickErrorCnt = errorCnt s ∧
      s'.lastVcom = (moveVcom info s).vcom ∧
      (s.changeDirectionCnt < s'.changeDirectionCnt ∨
        s'.changeDirectionCnt = s.changeDirectionCnt ∧
          (travel info s'.findDirection s'.lastVcom : Int) + flickStep s.lastFlick =
            travel info s.findDirection s.lastVcom) := by
  unfold searchTurn judge at h
  split_ifs at h with hlast hnow hright hten hfive
  obtain rfl := Option.some.inj h
  refine ⟨Nat.lt_of_not_le hfive, rfl, rfl, ?_⟩
  dsimp only
  -- the direction can change twice: at the end of the range, and for a worse value
  rcases moveVcom_cases info s with ⟨hcnt, hdir, htravel⟩ | hcnt
  · rcases turnAround_cases s (moveVcom info s) (zFlickTest c).2 with hsame | hturn
    · -- neither: a step on the way
      refine .inr ?_
      rw [hsame]
      exact ⟨hcnt, by rw [hdir]; exact htravel⟩
    · exact .inl (by omega)
  · rcases turnAround_cases s (moveVcom info s) (zFlickTest c).2 with hsame | hturn
    · exact .inl (by rw [hsame]; dsimp only; omega)
    · exact .inl (by omega)

/-! ## The whole search -/

/-- The changes left, then the way left. -/
def rank (info : VcomInfo) (s : FlickState) : Nat × Nat :=
  (maxChangeDirectCnt - s.changeDirectionCnt, travel info s.findDirection s.lastVcom)

/-- **A turn that goes on goes down.** -/
theorem searchTurn_rank {info : VcomInfo} {c : Capture} {s s' : FlickState}
    (h : searchTurn info c s = some s') :
    Prod.Lex (· < ·) (· < ·) (rank info s') (rank info s) := by
  obtain ⟨hfive, -, -, hcases⟩ := searchTurn_cases h
  rcases hcases with hchanged | ⟨hcnt, htravel⟩
  · -- a change may start on a longer way, but there is one change less to come
    exact .left _ _ (by omega)
  · have hpos : 0 < flickStep s.lastFlick := by
      rcases flickStep_cases s.lastFlick with h | h | h | h <;> omega
    rw [rank, rank, hcnt]
    exact .right _ (by omega)

/-- The search has ended once its run of turns is undefined. -/
theorem ends_of_runAll_none {info : VcomInfo} {captures : List Capture} {s : FlickState}
    (h : runAll (searchTurn info) captures s = none) : ∃ e, (zAutoFlick2 info captures s).2 = some e := by
  induction captures generalizing s with
  | nil => cases h
  | cons c captures ih =>
    rw [runAll, searchTurn] at h
    cases hjudge : judge info s (moveVcom info s) (zFlickTest c).2 with
    | inl e => exact ⟨e, by simp only [zAutoFlick2, hjudge]⟩
    | inr s' =>
      rw [hjudge] at h
      simp only [zAutoFlick2, hjudge]
      exact ih h

/-- `change_direction_cnt` at the end: a better value before ends the search without a change. -/
def changesAtEnd (info : VcomInfo) : List Capture → FlickState → Nat
  | [], s => s.changeDirectionCnt
  | c :: cs, s =>
    let m := moveVcom info s
    match judge info s m (zFlickTest c).2 with
    | .inl _ =>
      if foundLast s m (zFlickTest c).2 then m.changeDirectionCnt
      else (turnAround s m (zFlickTest c).2).2
    | .inr s' => changesAtEnd info cs s'

/-- A turn starts with less than five changes, and makes two at most. -/
theorem changesAtEnd_le (info : VcomInfo) (captures : List Capture) {s : FlickState}
    (hs : s.changeDirectionCnt < maxChangeDirectCnt) :
    changesAtEnd info captures s ≤ maxChangeDirectCnt + 1 := by
  induction captures generalizing s with
  | nil =>
    unfold changesAtEnd
    omega
  | cons c captures ih =>
    have hmove : (moveVcom info s).changeDirectionCnt ≤ s.changeDirectionCnt + 1 := by
      rcases moveVcom_cases info s with ⟨hcnt, -, -⟩ | hcnt <;> omega
    have hturn : (turnAround s (moveVcom info s) (zFlickTest c).2).2 ≤
        (moveVcom info s).changeDirectionCnt + 1 := by
      rcases turnAround_cases s (moveVcom info s) (zFlickTest c).2 with hsame | hturn
      · rw [hsame]
        exact Nat.le_succ _
      · exact hturn.le
    rw [changesAtEnd]
    cases hjudge : judge info s (moveVcom info s) (zFlickTest c).2 with
    | inl e =>
      dsimp only
      split_ifs <;> omega
    | inr s' =>
      -- a turn that goes on has not reached the limit
      have hstep : searchTurn info c s = some s' := by rw [searchTurn, hjudge]
      exact ih (searchTurn_cases hstep).1

/-- Every VCOM that is written is near the range. -/
theorem writes_near {info : VcomInfo} {bound : Int} (hmin : |info.minvalue| < bound)
    (hmax : |info.maxvalue| < bound) (captures : List Capture) (s : FlickState) :
    ∀ v ∈ (zAutoFlick2 info captures s).1.map Prod.fst, |v| < bound + 10 := by
  induction captures generalizing s with
  | nil => exact nofun
  | cons c captures ih =>
    rw [zAutoFlick2]
    cases judge info s (moveVcom info s) (zFlickTest c).2 with
    | inl e => exact List.forall_mem_singleton.mpr (moveVcom_near hmin hmax s)
    | inr s' => exact List.forall_mem_cons.mpr ⟨moveVcom_near hmin hmax s, ih s'⟩

/-- **The search returns**: on every infinite sequence of captures, after so many of them, with at
most six changes of the direction; and no VCOM that it writes leaves an `int`. -/
theorem zAutoFlick2_returns {info : VcomInfo} (hmin : |info.minvalue| < 2 ^ 30)
    (hmax : |info.maxvalue| < 2 ^ 30) {s : FlickState} (hcnt : s.changeDirectionCnt = 0)
    (captures : Nat → Capture) :
    ∃ n e, (zAutoFlick2 info ((List.range n).map captures) s).2 = some e ∧
      changesAtEnd info ((List.range n).map captures) s ≤ maxChangeDirectCnt + 1 ∧
      ∀ v ∈ (zAutoFlick2 info ((List.range n).map captures) s).1.map Prod.fst,
        -2 ^ 31 ≤ v ∧ v < 2 ^ 31 := by
  -- the termination rule of partial runs, in the lexicographic order
  have hwf : WellFounded (Prod.Lex (· < ·) (· < ·) : Nat × Nat → Nat × Nat → Prop) :=
    (Prod.lex ⟨_, wellFounded_lt⟩ ⟨_, wellFounded_lt⟩).wf
  obtain ⟨n, hn⟩ := exists_runAll_eq_none hwf (rank info) (fun _ _ _ => searchTurn_rank) captures s
  obtain ⟨e, he⟩ := ends_of_runAll_none hn
  refine ⟨n, e, he, changesAtEnd_le info _ (by rw [hcnt]; decide), ?_⟩
  intro v hv
  have hnear := abs_lt.mp (writes_near hmin hmax _ s v hv)
  omega

/-- A probe that never gives anything. -/
theorem zAutoFlick2_returns_wide :
    ∃ n e, (zAutoFlick2 wideInfo ((List.range n).map fun _ => .bad) (firstTurn wideInfo .bad)).2 =
        some e ∧
      changesAtEnd wideInfo ((List.range n).map fun _ => .bad) (firstTurn wideInfo .bad) ≤
        maxChangeDirectCnt + 1 ∧
      ∀ v ∈ (zAutoFlick2 wideInfo ((List.range n).map fun _ => .bad)
        (firstTurn wideInfo .bad)).1.map Prod.fst, -2 ^ 31 ≤ v ∧ v < 2 ^ 31 :=
  zAutoFlick2_returns (by decide) (by decide) rfl fun _ => .bad

/-! ## The count of errors -/

/-- A number of errors that is never exceeded: those so far, those of the way left at ten a step,
and those of a whole range for each change left. -/
def errorBudget (info : VcomInfo) (s : FlickState) : Nat :=
  s.flickErrorCnt + (maxChangeDirectCnt - s.changeDirectionCnt) * 214748367 +
    travel info s.findDirection s.lastVcom / 10

/-- The way left is shorter than the `int`s are. -/
theorem travel_lt {info : VcomInfo} (hmin : |info.minvalue| < 2 ^ 30)
    (hmax : |info.maxvalue| < 2 ^ 30) {vcom : Int} (hvcom : |vcom| < 2 ^ 30 + 10) (findDirection : Int) :
    travel info findDirection vcom < 2 ^ 31 + 10 := by
  rw [abs_lt] at hmin hmax hvcom
  unfold travel
  split_ifs <;> omega

/-- A turn does not raise the budget: an error costs a step of ten, or a change. -/
theorem searchTurn_errorBudget {info : VcomInfo} (hmin : |info.minvalue| < 2 ^ 30)
    (hmax : |info.maxvalue| < 2 ^ 30) {c : Capture} {s s' : FlickState}
    (h : searchTurn info c s = some s') : errorBudget info s' ≤ errorBudget info s := by
  obtain ⟨hfive, herrors, hvcom, hcases⟩ := searchTurn_cases h
  have hlt : travel info s'.findDirection s'.lastVcom < 2 ^ 31 + 10 := by
    rw [hvcom]
    exact travel_lt hmin hmax (moveVcom_near hmin hmax s) _
  have herror : s'.flickErrorCnt = s.flickErrorCnt ∨
      s'.flickErrorCnt = s.flickErrorCnt + 1 ∧ flickStep s.lastFlick = 10 := by
    rw [herrors]
    unfold errorCnt flickStep
    split_ifs <;> simp
  unfold errorBudget
  have hchanges : maxChangeDirectCnt = 5 := rfl
  rcases hcases with hchanged | ⟨hcnt, htravel⟩
  · -- the change pays for the error and for the whole new way
    omega
  · have hpos : 0 < flickStep s.lastFlick := by
      rcases flickStep_cases s.lastFlick with h | h | h | h <;> omega
    -- without an error the way only gets shorter; with one, by ten
    rcases herror with herror | ⟨herror, hten⟩ <;> omega

/-- **`flick_error_cnt` does not overflow**: no turn of a search has counted `2^31 - 1` errors. -/
theorem errorCnt_lt {info : VcomInfo} (hmin : |info.minvalue| < 2 ^ 30)
    (hmax : |info.maxvalue| < 2 ^ 30) {s : FlickState} (hvcom : |s.lastVcom| < 2 ^ 30)
    (herrors : s.flickErrorCnt = 0) {captures : List Capture} {s' : FlickState}
    (hrun : runAll (searchTurn info) captures s = some s') : errorCnt s' < 2 ^ 31 - 1 := by
  -- the budget of the start is never exceeded
  have hkeeps : ∀ c s₁ s₂, errorBudget info s₁ ≤ errorBudget info s →
      searchTurn info c s₁ = some s₂ → errorBudget info s₂ ≤ errorBudget info s := by
    intro c s₁ s₂ hinv hturn
    exact (searchTurn_errorBudget hmin hmax hturn).trans hinv
  have hbudget : errorBudget info s' ≤ errorBudget info s := runAll_inv hkeeps le_rfl hrun
  have hlt := travel_lt hmin hmax (hvcom.trans (by decide)) s.findDirection
  have hchanges : maxChangeDirectCnt = 5 := rfl
  have herror : errorCnt s' ≤ s'.flickErrorCnt + 1 := by
    unfold errorCnt
    split_ifs <;> omega
  unfold errorBudget at hbudget
  omega

end PgClient.Mipi
