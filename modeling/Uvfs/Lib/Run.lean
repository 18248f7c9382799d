import Mathlib.Logic.Basic
import Mathlib.Logic.Relation

/-!
# Runs of a partial step function

A transition system is given by its step function `step : σ → α → Option σ`: `none` says that
the action is not enabled.  Everything that is assumed about the environment (which actions it
offers in which states) is a *guard* `G : σ → α → Prop`, so that one system can be studied under
several environments.

* `Reach step G s₀ s` : `s` is reached from `s₀` by enabled actions that meet `G`.
* `Trace step G s₀ tr s` : the same, with the list `tr` of the steps taken, so that a statement can
  speak of the steps of one party of the system; `Trace.failed_imp_iff` is about a party that
  commits itself and may fail later.
* `run step g s₀ as` : the execution of a list of actions under a decidable guard; `Reach.of_run`
  turns an evaluated run into a reachability proof, `Reach.of_check` a check at its end into a
  reachable state that passes it.
* `Reach.invariant` : the induction rule; `Reach.invariant_of` uses an invariant already proved.
* `Reach.simulate` : a relation that every step carries along, with moves of a second system,
  relates every reachable state to a state of that system.
-/

namespace Transition

variable {σ α : Type}

/-- `s` is reached from `s₀` by enabled actions that meet the guard `G`. -/
inductive Reach (step : σ → α → Option σ) (G : σ → α → Prop) (s₀ : σ) : σ → Prop
  | refl : Reach step G s₀ s₀
  | tail {s s' : σ} {a : α} : Reach step G s₀ s → G s a → step s a = some s' → Reach step G s₀ s'

/-- One step of a run: the state before, the action and the state after. -/
structure Taken (σ α : Type) where
  /-- The state before the step. -/
  pre : σ
  /-- The action. -/
  act : α
  /-- The state after the step. -/
  post : σ

/-- `s` is reached from `s₀` by the steps of `tr`, the last one first. -/
inductive Trace (step : σ → α → Option σ) (G : σ → α → Prop) (s₀ : σ) :
    List (Taken σ α) → σ → Prop
  | nil : Trace step G s₀ [] s₀
  | cons {s s' : σ} {a : α} {tr : List (Taken σ α)} : Trace step G s₀ tr s → G s a →
      step s a = some s' → Trace step G s₀ (⟨s, a, s'⟩ :: tr) s'

variable {step : σ → α → Option σ} {G G' : σ → α → Prop} {s₀ s s' : σ}

/-- **The invariant rule.** What holds at the start and is kept by every guarded step holds in
every reachable state. -/
theorem Reach.invariant {P : σ → Prop} (h₀ : P s₀)
    (hstep : ∀ s a s', P s → G s a → step s a = some s' → P s') (h : Reach step G s₀ s) : P s := by
  induction h with
  | refl => exact h₀
  | tail _ hG hs ih => exact hstep _ _ _ ih hG hs

/-- The invariant rule on top of an invariant `I` that is already known of every reachable state. -/
theorem Reach.invariant_of {I P : σ → Prop} (hI : ∀ s, Reach step G s₀ s → I s) (h₀ : P s₀)
    (hstep : ∀ s a s', I s → P s → G s a → step s a = some s' → P s') (h : Reach step G s₀ s) :
    P s := by
  induction h with
  | refl => exact h₀
  | tail hr hG hs ih => exact hstep _ _ _ (hI _ hr) ih hG hs

/-- **Simulation.** When every guarded step from related states is matched by a move of the second
system or by none, every reachable state is related to a state the second system can reach. -/
theorem Reach.simulate {τ : Type} {move : τ → τ → Prop} {R : σ → τ → Prop} {t₀ : τ} (h₀ : R s₀ t₀)
    (hstep : ∀ s a s' t, Reach step G s₀ s → R s t → G s a → step s a = some s' →
      ∃ t', R s' t' ∧ (t' = t ∨ move t t')) (h : Reach step G s₀ s) :
    ∃ t, R s t ∧ Relation.ReflTransGen move t₀ t := by
  induction h with
  | refl => exact ⟨t₀, h₀, .refl⟩
  | tail hr hG hs ih =>
      obtain ⟨t, hR, ht⟩ := ih
      obtain ⟨t', hR', rfl | hm⟩ := hstep _ _ _ t hr hR hG hs
      · exact ⟨t', hR', ht⟩
      · exact ⟨t', hR', ht.tail hm⟩

/-- A run under a stronger guard is a run under the weaker one. -/
theorem Reach.mono (hG : ∀ s a, G s a → G' s a) (h : Reach step G s₀ s) : Reach step G' s₀ s := by
  induction h with
  | refl => exact .refl
  | tail _ hg hs ih => exact ih.tail (hG _ _ hg) hs

/-- Runs compose. -/
theorem Reach.trans (h : Reach step G s₀ s) (h' : Reach step G s s') : Reach step G s₀ s' := by
  induction h' with
  | refl => exact h
  | tail _ hg hs ih => exact ih.tail hg hs

/-- The last state of a trace is reachable. -/
theorem Trace.reach {tr : List (Taken σ α)} (h : Trace step G s₀ tr s) : Reach step G s₀ s := by
  induction h with
  | nil => exact .refl
  | cons _ hg hs ih => exact ih.tail hg hs

/-- A reachable state is the last state of a trace. -/
theorem Reach.exists_trace (h : Reach step G s₀ s) : ∃ tr, Trace step G s₀ tr s := by
  induction h with
  | refl => exact ⟨[], .nil⟩
  | tail _ hg hs ih =>
      obtain ⟨tr, htr⟩ := ih
      exact ⟨_, htr.cons hg hs⟩

/-- Traces compose. -/
theorem Trace.append {tr tr' : List (Taken σ α)} (h : Trace step G s₀ tr s)
    (h' : Trace step G s tr' s') : Trace step G s₀ (tr' ++ tr) s' := by
  induction h' with
  | nil => exact h
  | cons _ hg hs ih => exact ih.cons hg hs

/-- **Failing after the commitment.** One party commits itself at some step of the run (`took`), and
that step is the first to do what a failing party must not have done (`¬ L`); from then on the party
has failed exactly when one of its steps was not as it should be (`¬ F`).  Then a party that fails
has done no such thing exactly when all its steps were as they should be. -/
theorem Trace.failed_imp_iff (took failed : σ → Prop) (L F : Taken σ α → Prop) (h₀ : ¬ took s₀)
    (hstep : ∀ k, Reach step G s₀ k.pre → step k.pre k.act = some k.post →
      (¬ took k.pre ∧ ¬ took k.post ∧ L k ∧ F k) ∨
      (¬ took k.pre ∧ took k.post ∧ ¬ L k ∧ F k ∧ ¬ failed k.post) ∨
      (took k.pre ∧ took k.post ∧ (failed k.post ↔ failed k.pre ∨ ¬ F k)))
    {tr : List (Taken σ α)} (h : Trace step G s₀ tr s) :
    (failed s → ∀ k ∈ tr, L k) ↔ ∀ k ∈ tr, F k := by
  -- before the commitment nothing has happened; after it `failed` counts the steps that went wrong
  have hinv : (¬ took s → (∀ k ∈ tr, L k) ∧ ∀ k ∈ tr, F k) ∧
      (took s → ¬ (∀ k ∈ tr, L k) ∧ (failed s ↔ ¬ ∀ k ∈ tr, F k)) := by
    induction h with
    | nil => exact ⟨fun _ => ⟨by simp, by simp⟩, fun h => absurd h h₀⟩
    | @cons s s' a tr htr _ hs ih =>
        simp only [List.forall_mem_cons]
        rcases hstep ⟨s, a, s'⟩ htr.reach hs with ⟨ht, ht', hL, hF⟩ | ⟨ht, ht', hL, hF, hfail⟩ |
          ⟨ht, ht', hfail⟩
        · exact ⟨fun _ => ⟨⟨hL, (ih.1 ht).1⟩, hF, (ih.1 ht).2⟩, fun h => absurd h ht'⟩
        · exact ⟨fun h => absurd ht' h, fun _ => ⟨fun h => hL h.1,
            ⟨fun h => absurd h hfail, fun h => absurd ⟨hF, (ih.1 ht).2⟩ h⟩⟩⟩
        · refine ⟨fun h => absurd ht' h, fun _ => ⟨fun h => (ih.2 ht).1 h.2, ?_⟩⟩
          rw [hfail, (ih.2 ht).2, not_and_or, or_comm]
  by_cases ht : took s
  · obtain ⟨hL, hfail⟩ := hinv.2 ht
    rw [← not_iff_not, Classical.not_imp, and_iff_left hL, hfail]
  · obtain ⟨hL, hF⟩ := hinv.1 ht
    exact iff_of_true (fun _ => hL) hF

/-- The actions `as`, each of which meets the guard, lead from one state to the other. -/
def Follows (step : σ → α → Option σ) (G : σ → α → Prop) : σ → List α → σ → Prop
  | s, [], s' => s = s'
  | s, a :: as, s' => G s a ∧ ∃ s₁, step s a = some s₁ ∧ Follows step G s₁ as s'

/-- What a list of actions leads to is reachable. -/
theorem Follows.reach {as : List α} (h : Follows step G s as s') : Reach step G s s' := by
  induction as generalizing s with
  | nil =>
      cases h
      exact .refl
  | cons a as ih =>
      obtain ⟨hG, s₁, hs₁, h⟩ := h
      exact (Reach.refl.tail hG hs₁).trans (ih h)

/-! ## Executing a list of actions -/

/-- The state after the actions `as`, each of which must meet the decidable guard `g`. -/
def run (step : σ → α → Option σ) (g : σ → α → Bool) : σ → List α → Option σ
  | s, [] => some s
  | s, a :: as => if g s a then (step s a).bind fun s' => run step g s' as else none

/-- An evaluated run is a reachability proof. -/
theorem Reach.of_run {g : σ → α → Bool} (hg : ∀ s a, g s a = true → G s a) {as : List α} :
    ∀ {s : σ}, run step g s as = some s' → Reach step G s s' := by
  induction as with
  | nil =>
      intro s h
      cases h
      exact .refl
  | cons a as ih =>
      intro s h
      unfold run at h
      split at h
      · rename_i hga
        obtain ⟨s₁, hs₁, h⟩ := Option.bind_eq_some_iff.mp h
        exact (Reach.refl.tail (hg _ _ hga) hs₁).trans (ih h)
      · cases h

/-- A check that an evaluated run passes holds in a reachable state. -/
theorem Reach.of_check (step : σ → α → Option σ) (G : σ → α → Prop) [∀ s a, Decidable (G s a)]
    (s : σ) (as : List α) (p : σ → Prop) [DecidablePred p]
    (h : (run step (fun s a => decide (G s a)) s as).any (fun s' => decide (p s')) = true) :
    ∃ s', Reach step G s s' ∧ p s' := by
  obtain ⟨s', hs', hp⟩ := (Option.any_eq_true _ _).mp h
  exact ⟨s', Reach.of_run (fun _ _ => of_decide_eq_true) hs', of_decide_eq_true hp⟩

end Transition
