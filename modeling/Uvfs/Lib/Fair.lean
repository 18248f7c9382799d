import Uvfs.Lib.Run
import Mathlib.Tactic

/-!
# Runs that go on for ever, and what they must reach

`Reach` and `Trace` speak of what has happened so far.  That something *will* happen is a statement
about runs without end in which nobody is kept waiting for ever.

* `Execution step G` : an infinite run whose steps meet the guard `G`; `Execution.weaken`.
* `Execution.Fair ρ A` : weak fairness of a party whose steps are those in `A`.  If from some time
  on it could always take a step, it takes one.  Whether it could does not depend on the guard.
* `Execution.eventually_of_descent` : what comes to the goal or to a lower rank again and again
  comes to the goal.
* `Execution.eventually_of_rank` : a rank that no step raises and each step of a party lowers, while
  that party is never blocked, leads to the goal.
* `sum_range_le`, `sum_range_add_le` : how a sum over numbered parties changes with its terms.
* `Execution.exists_ofList` : a list of actions followed by one action that is always possible.
-/

namespace Transition

/-! ## Ranks that are sums over many parties -/

section Sums

variable {f g : ℕ → ℕ} {i m n : ℕ}

/-- A sum whose terms get smaller, where nothing stands behind the end. -/
theorem sum_range_le (hle : ∀ j, f j ≤ g j) (hend : ∀ j, n ≤ j → g j = 0) :
    ∑ j ∈ Finset.range m, f j ≤ ∑ j ∈ Finset.range n, g j := by
  calc ∑ j ∈ Finset.range m, f j
      ≤ ∑ j ∈ Finset.range m, g j := Finset.sum_le_sum fun j _ => hle j
    _ ≤ ∑ j ∈ Finset.range (max m n), g j :=
        Finset.sum_le_sum_of_subset (Finset.range_mono (le_max_left m n))
    _ = ∑ j ∈ Finset.range n, g j := by
        refine (Finset.sum_subset (Finset.range_mono (le_max_right m n)) fun j _ hj => ?_).symm
        exact hend j (not_lt.mp (Finset.mem_range.not.mp hj))

/-- The same when one term may get larger. -/
theorem sum_range_add_le (hi : i < n) (hle : ∀ j, j ≠ i → f j ≤ g j)
    (hend : ∀ j, n ≤ j → g j = 0) :
    ∑ j ∈ Finset.range m, f j + g i ≤ ∑ j ∈ Finset.range n, g j + f i := by
  have hrest : ∑ j ∈ Finset.range m, Function.update f i 0 j ≤
      ∑ j ∈ Finset.range n, Function.update g i 0 j := by
    refine sum_range_le (fun j => ?_) fun j hj => ?_
    · by_cases hji : j = i
      · simp [hji]
      · simpa [hji] using hle j hji
    · rw [Function.update_of_ne (by omega), hend j hj]
  have hg : ∑ j ∈ Finset.range n, g j = ∑ j ∈ Finset.range n, Function.update g i 0 j + g i := by
    rw [Finset.sum_update_of_mem (Finset.mem_range.mpr hi), zero_add, ← Finset.sum_sdiff
      (Finset.singleton_subset_iff.mpr (Finset.mem_range.mpr hi)), Finset.sum_singleton]
  have hf : ∑ j ∈ Finset.range m, f j ≤ ∑ j ∈ Finset.range m, Function.update f i 0 j + f i := by
    by_cases him : i < m
    · rw [Finset.sum_update_of_mem (Finset.mem_range.mpr him), zero_add, ← Finset.sum_sdiff
        (Finset.singleton_subset_iff.mpr (Finset.mem_range.mpr him)), Finset.sum_singleton]
    · refine le_add_right (le_of_eq (Finset.sum_congr rfl fun j hj => ?_))
      have := Finset.mem_range.mp hj
      rw [Function.update_of_ne (by omega)]
  omega

end Sums

variable {σ α : Type}

/-! ## Runs without end -/

/-- A run without end. -/
structure Execution (step : σ → α → Option σ) (G : σ → α → Prop) where
  /-- The states. -/
  state : ℕ → σ
  /-- The action that is taken in each state. -/
  act : ℕ → α
  /-- Each step meets the guard. -/
  guard : ∀ n, G (state n) (act n)
  /-- Each step leads to the next state. -/
  next : ∀ n, step (state n) (act n) = some (state (n + 1))

namespace Execution

variable {step : σ → α → Option σ} {G : σ → α → Prop} (ρ : Execution step G)

/-- The states of the run are reachable from its first one. -/
theorem reach (n : ℕ) : Reach step G (ρ.state 0) (ρ.state n) := by
  induction n with
  | zero => exact .refl
  | succ n ih => exact ih.tail (ρ.guard n) (ρ.next n)

/-- A party whose steps are those in `A` can take one. -/
def Enabled (step : σ → α → Option σ) (A : σ → α → Prop) (s : σ) : Prop :=
  ∃ a, A s a ∧ (step s a).isSome = true

/-- A party that could always take a step from some time on takes one. -/
def Fair (A : σ → α → Prop) : Prop :=
  ∀ n, (∀ m, n ≤ m → Enabled step A (ρ.state m)) → ∃ m, n ≤ m ∧ A (ρ.state m) (ρ.act m)

/-- The same run, as one that meets a weaker guard. -/
def weaken {G' : σ → α → Prop} (hG : ∀ s a, G s a → G' s a) : Execution step G' where
  state := ρ.state
  act := ρ.act
  guard n := hG _ _ (ρ.guard n)
  next := ρ.next

variable {ρ} {A : σ → α → Prop} {P Q : σ → Prop} {μ : σ → ℕ} {n : ℕ}

/-- **The descent rule.**  When from each time at which `P` holds the run comes to the goal or to a
time of lower rank at which `P` holds again, it comes to the goal. -/
theorem eventually_of_descent (hstart : P (ρ.state n))
    (hdescend : ∀ m, n ≤ m → P (ρ.state m) → ∃ k, m ≤ k ∧
      (Q (ρ.state k) ∨ P (ρ.state k) ∧ μ (ρ.state k) < μ (ρ.state m))) :
    ∃ m, n ≤ m ∧ Q (ρ.state m) := by
  induction hr : μ (ρ.state n) using Nat.strong_induction_on generalizing n with
  | _ r ih =>
      obtain ⟨k, hnk, hQ | ⟨hP, hlt⟩⟩ := hdescend n (le_refl n) hstart
      · exact ⟨k, hnk, hQ⟩
      · obtain ⟨m, hkm, hm⟩ := ih _ (hr ▸ hlt) hP (fun m hm => hdescend m (hnk.trans hm)) rfl
        exact ⟨m, hnk.trans hkm, hm⟩

/-- **The rank rule.**  From a time at which `P` holds: as long as the goal `Q` is not reached, the
party can take a step, each step of the run keeps `P` and does not raise the rank, and each step of
the party lowers it.  Then the goal is reached. -/
theorem eventually_of_rank (hfair : ρ.Fair A) (hstart : P (ρ.state n))
    (henabled : ∀ m, n ≤ m → P (ρ.state m) → ¬ Q (ρ.state m) → Enabled step A (ρ.state m))
    (hstep : ∀ m, n ≤ m → P (ρ.state m) → ¬ Q (ρ.state m) → ¬ Q (ρ.state (m + 1)) →
      P (ρ.state (m + 1)) ∧ μ (ρ.state (m + 1)) ≤ μ (ρ.state m) ∧
        (A (ρ.state m) (ρ.act m) → μ (ρ.state (m + 1)) < μ (ρ.state m))) :
    ∃ m, n ≤ m ∧ Q (ρ.state m) := by
  refine eventually_of_descent (μ := μ) hstart fun m hnm hP => ?_
  by_contra! hnever
  have hkeep : ∀ k, P (ρ.state (m + k)) ∧ μ (ρ.state (m + k)) ≤ μ (ρ.state m) := by
    intro k
    induction k with
    | zero => exact ⟨hP, le_refl _⟩
    | succ k ih =>
        obtain ⟨hP', hle, -⟩ := hstep (m + k) (by omega) ih.1 (hnever _ (by omega)).1
          (hnever _ (by omega)).1
        exact ⟨hP', hle.trans ih.2⟩
  -- the party is never blocked, so it moves, and then the rank is lower
  obtain ⟨i, hmi, hA⟩ := hfair m fun i hi => by
    obtain ⟨k, rfl⟩ := Nat.exists_eq_add_of_le hi
    exact henabled _ (by omega) (hkeep k).1 (hnever _ (by omega)).1
  obtain ⟨k, rfl⟩ := Nat.exists_eq_add_of_le hmi
  obtain ⟨hP', -, hlt⟩ := hstep (m + k) (by omega) (hkeep k).1 (hnever _ (by omega)).1
    (hnever _ (by omega)).1
  have hle := (hnever (m + k + 1) (by omega)).2 hP'
  exact absurd ((hlt hA).trans_le (hkeep k).2) (not_lt.mpr hle)

/-! ## A list of actions, and then one for ever -/

/-- The states of a list of actions, followed by `idle`. -/
def listState (step : σ → α → Option σ) (as : List α) (idle : α) (s : σ) : ℕ → σ
  | 0 => s
  | n + 1 => (step (listState step as idle s n) (as.getD n idle)).getD s

variable {as : List α} {idle : α} {s : σ}

/-- Behind the end of the list stands `idle`. -/
theorem getD_of_le {n : ℕ} (h : as.length ≤ n) : as.getD n idle = idle := by
  rw [List.getD_eq_getElem?_getD, List.getElem?_eq_none h, Option.getD_none]

/-- A run that starts with the actions of a list and goes on with one that is always possible. -/
def ofList (as : List α) (idle : α) (s : σ) (hidle : ∀ s, (step s idle).isSome)
    (hguard : ∀ s, G s idle)
    (hlist : ∀ n < as.length, G (listState step as idle s n) (as.getD n idle) ∧
      (step (listState step as idle s n) (as.getD n idle)).isSome) : Execution step G where
  state := listState step as idle s
  act n := as.getD n idle
  guard n := by
    by_cases hn : n < as.length
    · exact (hlist n hn).1
    · rw [getD_of_le (not_lt.mp hn)]
      exact hguard _
  next n := by
    have hsome : (step (listState step as idle s n) (as.getD n idle)).isSome := by
      by_cases hn : n < as.length
      · exact (hlist n hn).2
      · rw [getD_of_le (not_lt.mp hn)]
        exact hidle _
    obtain ⟨s', hs'⟩ := Option.isSome_iff_exists.mp hsome
    rw [listState, hs']
    rfl

/-- Such a run exists, and it passes the checks that its first states pass. -/
theorem exists_ofList (step : σ → α → Option σ) (G : σ → α → Prop) (as : List α) (idle : α) (s : σ)
    (hidle : ∀ s, (step s idle).isSome) (hguard : ∀ s, G s idle)
    (hlist : ∀ n < as.length, G (listState step as idle s n) (as.getD n idle) ∧
      (step (listState step as idle s n) (as.getD n idle)).isSome)
    (check : ℕ → σ → Prop) (hcheck : ∀ n ≤ as.length, check n (listState step as idle s n)) :
    ∃ ρ : Execution step G, ρ.state 0 = s ∧ (∀ n ≤ as.length, check n (ρ.state n)) ∧
      ∀ m, as.length ≤ m → ρ.act m = idle :=
  ⟨ofList as idle s hidle hguard hlist, rfl, hcheck, fun _ hm => getD_of_le hm⟩

/-- What one action keeps holds from then on when no other is taken any more. -/
theorem forever (hidle : ∀ m, n ≤ m → ρ.act m = idle) (hstart : P (ρ.state n))
    (hkeep : ∀ s s', P s → step s idle = some s' → P s') {m : ℕ} (hm : n ≤ m) :
    P (ρ.state m) := by
  induction m, hm using Nat.le_induction with
  | base => exact hstart
  | succ m hm ih =>
      have hnext := ρ.next m
      rw [hidle m hm] at hnext
      exact hkeep _ _ ih hnext

/-- A run is fair to a party that can do nothing from some time on. -/
theorem fair_of_blocked (hblocked : ∀ m, n ≤ m → ¬ Enabled step A (ρ.state m)) : ρ.Fair A := by
  intro k hk
  exact absurd (hk (max k n) (le_max_left _ _)) (hblocked _ (le_max_right _ _))

end Execution

end Transition
