import Mathlib.Data.List.Nodup

/-!
# Calls of one object

Callers that do not know of each other call an object that does one thing at a time.  From outside
one sees calls and returns.  They are *linearizable* when they can be put down to one history of the
object, in which every call takes effect once, somewhere between its start and its return.  A call
that never returns, or returns without an answer, may have taken effect or not.

* `Event` : what is seen from outside; `Entry` : one thing that the object does.
* `Legal serve x history x'` : the object does one entry after the other.
* `Linearizes serve x x' events history` : the history puts the events down to the object.
* `Linearizes.call`, `Linearizes.effect`, `Linearizes.ret` : a call may start at any time, takes
  effect when it has started and returns when it has taken effect.
-/

namespace Linear

variable {ι M R σ : Type}

/-- What is seen from outside. -/
inductive Event (ι M R : Type)
  /-- A call starts. -/
  | call (i : ι) (m : M)
  /-- A call returns with an answer. -/
  | ret (i : ι) (r : R)

/-- One thing that the object does. -/
structure Entry (ι M R : Type) where
  /-- The call. -/
  id : ι
  /-- What it asks for. -/
  message : M
  /-- The answer. -/
  answer : R

/-- The object does one entry after the other, from `x` to `x'`. -/
def Legal (serve : σ → M → σ × R) : σ → List (Entry ι M R) → σ → Prop
  | x, [], x' => x = x'
  | x, e :: h, x' => (serve x e.message).2 = e.answer ∧ Legal serve (serve x e.message).1 h x'

/-- The history puts the events down to the object. -/
structure Linearizes (serve : σ → M → σ × R) (x x' : σ) (events : List (Event ι M R))
    (history : List (Entry ι M R)) : Prop where
  /-- It is a history of the object. -/
  legal : Legal serve x history x'
  /-- Every call takes effect at most once. -/
  once : (history.map Entry.id).Nodup
  /-- What takes effect was called. -/
  called : ∀ e ∈ history, Event.call e.id e.message ∈ events
  /-- What has returned has taken effect, with that answer. -/
  answered : ∀ i r, Event.ret i r ∈ events → ∃ e ∈ history, e.id = i ∧ e.answer = r
  /-- A call that has returned before another one starts has taken effect before it. -/
  order : ∀ e ∈ history, ∀ e' ∈ history,
    [Event.ret e.id e.answer, Event.call e'.id e'.message].Sublist events →
      [e, e'].Sublist history

variable {serve : σ → M → σ × R} {x x' : σ} {events : List (Event ι M R)}
  {history : List (Entry ι M R)}

theorem Legal.concat (h : Legal serve x history x') {e : Entry ι M R}
    (he : (serve x' e.message).2 = e.answer) :
    Legal serve x (history ++ [e]) (serve x' e.message).1 := by
  induction history generalizing x with
  | nil =>
      obtain rfl : x = x' := h
      exact ⟨he, rfl⟩
  | cons e' history ih => exact ⟨h.1, ih h.2⟩

/-- One stands before the other in a list that has grown. -/
theorem pair_sublist_concat {α : Type} {a b c : α} {l : List α} :
    [a, b].Sublist (l ++ [c]) ↔ [a, b].Sublist l ∨ a ∈ l ∧ b = c := by
  constructor
  · intro h
    obtain ⟨l₁, l₂, heq, h₁, h₂⟩ := List.sublist_append_iff.mp h
    rcases List.sublist_singleton.mp h₂ with rfl | rfl
    · rw [List.append_nil] at heq
      exact .inl (heq ▸ h₁)
    · obtain ⟨rfl, hbc⟩ := List.append_inj' (show [a] ++ [b] = l₁ ++ [c] from heq) rfl
      exact .inr ⟨List.singleton_sublist.mp h₁, List.singleton_inj.mp hbc⟩
  · rintro (h | ⟨ha, rfl⟩)
    · exact h.trans (List.sublist_append_left _ _)
    · exact (List.singleton_sublist.mpr ha).append (List.Sublist.refl [b])

namespace Linearizes

theorem start (x : σ) : Linearizes serve x x ([] : List (Event ι M R)) [] where
  legal := rfl
  once := List.nodup_nil
  called _ h := absurd h List.not_mem_nil
  answered _ _ h := absurd h List.not_mem_nil
  order _ h := absurd h List.not_mem_nil

/-- A call starts. -/
theorem call (h : Linearizes serve x x' events history) {i : ι} (m : M)
    (hi : ∀ e ∈ history, e.id ≠ i) : Linearizes serve x x' (events ++ [.call i m]) history where
  legal := h.legal
  once := h.once
  called e he := List.mem_append_left _ (h.called e he)
  answered j r hr := by
    rcases List.mem_append.mp hr with hr | hr
    · exact h.answered j r hr
    · cases List.mem_singleton.mp hr
  order e he e' he' hsub := by
    rcases pair_sublist_concat.mp hsub with hsub | ⟨_, heq⟩
    · exact h.order e he e' he' hsub
    · exact absurd (Event.call.inj heq).1 (hi e' he')

/-- A call takes effect. -/
theorem effect (h : Linearizes serve x x' events history) {i : ι} {m : M}
    (hcall : Event.call i m ∈ events) (hi : ∀ e ∈ history, e.id ≠ i) :
    Linearizes serve x (serve x' m).1 events (history ++ [⟨i, m, (serve x' m).2⟩]) where
  legal := h.legal.concat rfl
  once := by
    rw [List.map_append, List.map_singleton, List.nodup_append]
    refine ⟨h.once, List.nodup_singleton _, fun j hj k hk => ?_⟩
    obtain ⟨e, he, rfl⟩ := List.mem_map.mp hj
    rw [List.mem_singleton.mp hk]
    exact hi e he
  called e he := by
    rcases List.mem_append.mp he with he | he
    · exact h.called e he
    · rw [List.mem_singleton.mp he]
      exact hcall
  answered j r hr := by
    obtain ⟨e, he, hj⟩ := h.answered j r hr
    exact ⟨e, List.mem_append_left _ he, hj⟩
  order e he e' he' hsub := by
    -- the call has not returned, since what has returned is in the history already
    have hold : e ∈ history := by
      rcases List.mem_append.mp he with he | he
      · exact he
      · obtain ⟨e₀, he₀, hid, _⟩ := h.answered e.id e.answer (hsub.subset (List.mem_cons_self ..))
        rw [List.mem_singleton.mp he] at hid
        exact absurd hid (hi e₀ he₀)
    rcases List.mem_append.mp he' with he' | he'
    · exact (h.order e hold e' he' hsub).trans (List.sublist_append_left _ _)
    · exact pair_sublist_concat.mpr (.inr ⟨hold, List.mem_singleton.mp he'⟩)

/-- A call returns. -/
theorem ret (h : Linearizes serve x x' events history) {e : Entry ι M R} (he : e ∈ history) :
    Linearizes serve x x' (events ++ [.ret e.id e.answer]) history where
  legal := h.legal
  once := h.once
  called e' he' := List.mem_append_left _ (h.called e' he')
  answered j r hr := by
    rcases List.mem_append.mp hr with hr | hr
    · exact h.answered j r hr
    · obtain ⟨rfl, rfl⟩ := Event.ret.inj (List.mem_singleton.mp hr)
      exact ⟨e, he, rfl, rfl⟩
  order e₁ he₁ e₂ he₂ hsub := by
    rcases pair_sublist_concat.mp hsub with hsub | ⟨_, heq⟩
    · exact h.order e₁ he₁ e₂ he₂ hsub
    · cases heq

end Linearizes

end Linear
