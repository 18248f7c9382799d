import Mathlib.Tactic

/-!
# Scanning what changes

A collection whose members have keys is read in pieces.  A piece is made of the next members in the
order of their keys, and the reader goes on behind the key of the last one that it has taken.
Between two pieces the collection may change in any way.

What the reader gets was there when it was read, no key comes twice, and a member that is there all
the time is not missed.

* `Cursor.after key p es` : where the reader stands after `es`.
* `Cursor.Scanned key D p n n' es ended` : from `p` on, while the collection was `D n`, ..,
  `D (n' - 1)`, the reader has taken `es`, and has come to the end or not.
* `Scanned.piece`, `Scanned.last`, `Scanned.append` : one piece, the end, and one part after the
  other.
-/

namespace Cursor

variable {α : Type} (key : α → ℕ)

/-- Where the reader stands after the members `es`: behind the last one. -/
def after : ℤ → List α → ℤ
  | p, [] => p
  | _, e :: es => after (key e + 1) es

variable {key} {p : ℤ} {es es' : List α}

theorem after_append (p : ℤ) (es es' : List α) :
    after key p (es ++ es') = after key (after key p es) es' := by
  induction es generalizing p with
  | nil => rfl
  | cons e es ih => exact ih (key e + 1)

/-- What was taken lies between the two positions. -/
theorem lt_after (hsorted : es.Pairwise fun e e' => key e < key e') (hahead : ∀ e ∈ es, p ≤ key e) :
    p ≤ after key p es ∧ ∀ e ∈ es, (key e : ℤ) < after key p es := by
  induction es generalizing p with
  | nil => exact ⟨le_rfl, by simp⟩
  | cons e es ih =>
      rw [List.pairwise_cons] at hsorted
      have hnext : ∀ e' ∈ es, (key e + 1 : ℤ) ≤ key e' := fun e' he' => by
        have := hsorted.1 e' he'
        omega
      obtain ⟨hle, hlt⟩ := ih hsorted.2 hnext
      have hp := hahead e (.head _)
      refine ⟨by unfold after; omega, fun e' he' => ?_⟩
      rcases List.mem_cons.mp he' with rfl | he'
      · unfold after
        omega
      · exact hlt e' he'

/-- The reader stays below a bound of the keys. -/
theorem after_le {M : ℕ} (hp : p ≤ M + 1) (hM : ∀ e ∈ es, key e ≤ M) :
    after key p es ≤ M + 1 := by
  induction es generalizing p with
  | nil => exact hp
  | cons e es ih =>
      have he := hM e (.head _)
      exact ih (by omega) fun e' he' => hM e' (.tail _ he')

/-- What lies in front of the reader's new position was taken, when it was there. -/
theorem mem_of_lt_after {L : List α} {e : α} (hL : L.Pairwise fun e e' => key e < key e')
    (hes : es <+: L) (he : e ∈ L) (hp : p ≤ key e) (hlt : (key e : ℤ) < after key p es) :
    e ∈ es := by
  induction es generalizing p L with
  | nil => exact absurd hlt (not_lt.mpr hp)
  | cons x es ih =>
      obtain ⟨rest, rfl⟩ := hes
      rw [List.cons_append, List.pairwise_cons] at hL
      rcases List.mem_cons.mp he with rfl | he
      · exact .head _
      · have hx := hL.1 e he
        exact .tail _ (ih hL.2 (List.prefix_append _ _) he (by omega) hlt)

variable (key)

/-- What a reader has taken from the position `p` on, while the collection was `D n`, ..,
`D (n' - 1)`. -/
structure Scanned (D : ℕ → List α) (p : ℤ) (n n' : ℕ) (es : List α) (ended : Bool) : Prop where
  le : n ≤ n'
  /-- No key comes twice. -/
  sorted : es.Pairwise fun e e' => key e < key e'
  ahead : ∀ e ∈ es, p ≤ key e
  /-- It was there. -/
  seen : ∀ e ∈ es, ∃ k, n ≤ k ∧ k < n' ∧ e ∈ D k
  /-- What is there all the time is not missed. -/
  kept : ∀ e, (∀ k, n ≤ k → k < n' → e ∈ D k) → p ≤ key e →
    (key e : ℤ) < after key p es ∨ ended = true → e ∈ es

namespace Scanned

variable {key} {D : ℕ → List α} {n n₁ n' : ℕ} {ended : Bool}

/-- Nothing was taken. -/
theorem idle (h : n ≤ n') : Scanned key D p n n' [] false where
  le := h
  sorted := .nil
  ahead e he := absurd he List.not_mem_nil
  seen e he := absurd he List.not_mem_nil
  kept e _ hp hlt := absurd (hlt.resolve_right (by simp)) (not_lt.mpr hp)

/-- One piece. -/
theorem piece (hD : (D n).Pairwise fun e e' => key e < key e')
    (hes : es <+: (D n).filter fun e => p ≤ key e) : Scanned key D p n (n + 1) es false where
  le := Nat.le_succ n
  sorted := (hD.filter _).sublist hes.sublist
  ahead e he := by
    have := (List.mem_filter.mp (hes.subset he)).2
    simpa using this
  seen e he := ⟨n, le_rfl, Nat.lt_succ_self n, (List.mem_filter.mp (hes.subset he)).1⟩
  kept e he hp hlt := by
    refine mem_of_lt_after (hD.filter _) hes ?_ hp (hlt.resolve_right (by simp))
    rw [List.mem_filter]
    exact ⟨he n le_rfl (Nat.lt_succ_self n), by simpa using hp⟩

/-- There is nothing more. -/
theorem last (hnone : (D n).filter (fun e => p ≤ key e) = []) :
    Scanned key D p n (n + 1) [] true where
  le := Nat.le_succ n
  sorted := .nil
  ahead e he := absurd he List.not_mem_nil
  seen e he := absurd he List.not_mem_nil
  kept e he hp _ := by
    have hmem : e ∈ (D n).filter fun e => p ≤ key e := by
      rw [List.mem_filter]
      exact ⟨he n le_rfl (Nat.lt_succ_self n), by simpa using hp⟩
    rwa [hnone] at hmem

/-- One part after the other. -/
theorem append (h : Scanned key D p n n₁ es false)
    (h' : Scanned key D (after key p es) n₁ n' es' ended) :
    Scanned key D p n n' (es ++ es') ended := by
  obtain ⟨hle, hlt⟩ := lt_after h.sorted h.ahead
  refine ⟨h.le.trans h'.le, ?_, fun e he => ?_, fun e he => ?_, fun e hall hp hin => ?_⟩
  · rw [List.pairwise_append]
    refine ⟨h.sorted, h'.sorted, fun e he e' he' => ?_⟩
    have h₁ := hlt e he
    have h₂ := h'.ahead e' he'
    omega
  · rcases List.mem_append.mp he with he | he
    · exact h.ahead e he
    · exact hle.trans (h'.ahead e he)
  · rcases List.mem_append.mp he with he | he
    · obtain ⟨k, hn, hk, hmem⟩ := h.seen e he
      exact ⟨k, hn, lt_of_lt_of_le hk h'.le, hmem⟩
    · obtain ⟨k, hn, hk, hmem⟩ := h'.seen e he
      exact ⟨k, h.le.trans hn, hk, hmem⟩
  · rw [after_append] at hin
    by_cases hkey : (key e : ℤ) < after key p es
    · exact List.mem_append_left _
        (h.kept e (fun k hn hk => hall k hn (lt_of_lt_of_le hk h'.le)) hp (.inl hkey))
    · exact List.mem_append_right _
        (h'.kept e (fun k hn hk => hall k (h.le.trans hn) hk) (not_lt.mp hkey) hin)

/-- Some time passes before. -/
theorem wait (h : Scanned key D p n₁ n' es ended) (hle : n ≤ n₁) :
    Scanned key D p n n' es ended :=
  (idle hle).append h

/-- Some time passes behind. -/
theorem rest (h : Scanned key D p n n₁ es ended) (hle : n₁ ≤ n') :
    Scanned key D p n n' es ended where
  le := h.le.trans hle
  sorted := h.sorted
  ahead := h.ahead
  seen e he := by
    obtain ⟨k, hn, hk, hmem⟩ := h.seen e he
    exact ⟨k, hn, lt_of_lt_of_le hk hle, hmem⟩
  kept e hall := h.kept e fun k hn hk => hall k hn (lt_of_lt_of_le hk hle)

end Scanned

end Cursor
