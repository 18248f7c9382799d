import Uvfs.Lib.Dialogue

/-!
# Programs that borrow one thing at a time

Some of the calls of a program get a thing from a store, some use it and some give it back.  A
program that always has at most one, uses it once and gives it back before it ends can be run in
company: what it has is its own, and nothing is left behind.

* `Use` : what a call is for; `Phase` : what the program has.
* `Dialogue.Obeys fits kind d p` : from the phase `p` on, whatever the answers, the calls come in
  that order, the thing is only used as `fits` allows and nothing is kept at the end.
* `Dialogue.Led d answers d'` : the answers have led from one program to another.
-/

/-- What a call is for, when its answer is of type `A`. -/
inductive Use (β τ A : Type)
  /-- It gets a thing, if there is one. -/
  | get (ok : Bool → A)
  /-- It has the thing used as `b` says, and reads the answer off it. -/
  | use (b : β) (read : τ → A)
  /-- It gives the thing back. -/
  | give (a : A)

/-- What a program has. -/
inductive Phase
  /-- Nothing. -/
  | none
  /-- A thing that has not been used. -/
  | fresh
  /-- A thing that has been used. -/
  | used
  deriving DecidableEq

namespace Dialogue

variable {Q : Type} {R : Q → Type} {β τ α γ : Type} (fits : β → Prop)
  (kind : (q : Q) → Use β τ (R q))

/-- Get, use and give back, over and over, whatever the answers are. -/
def Obeys : Dialogue Q R α → Phase → Prop
  | .result _, p => p = .none
  | .send q k, p =>
      match kind q, p with
      | .get ok, .none => Obeys (k (ok true)) .fresh ∧ Obeys (k (ok false)) .none
      | .use b read, .fresh => fits b ∧ ∀ x, Obeys (k (read x)) .used
      | .give a, .used => Obeys (k a) .none
      | _, _ => False

variable {fits} {kind} {d : Dialogue Q R α} {p : Phase}

theorem obeys_pure (a : α) : (pure a : Dialogue Q R α).Obeys fits kind .none := rfl

/-- One program after the other. -/
theorem Obeys.bind {f : α → Dialogue Q R γ} (h : d.Obeys fits kind p)
    (hf : ∀ a, (f a).Obeys fits kind .none) : (d >>= f).Obeys fits kind p := by
  induction d generalizing p with
  | result a =>
      cases h
      exact hf a
  | send q k ih =>
      change (Dialogue.send q fun r => k r >>= f).Obeys fits kind p
      unfold Obeys at h ⊢
      cases hq : kind q with
      | get ok =>
          cases p with
          | none =>
              rw [hq] at h
              exact ⟨ih _ h.1, ih _ h.2⟩
          | fresh | used =>
              rw [hq] at h
              exact h.elim
      | use b read =>
          cases p with
          | fresh =>
              rw [hq] at h
              exact ⟨h.1, fun x => ih _ (h.2 x)⟩
          | none | used =>
              rw [hq] at h
              exact h.elim
      | give a =>
          cases p with
          | used =>
              rw [hq] at h
              exact ih _ h
          | none | fresh =>
              rw [hq] at h
              exact h.elim

/-- A call that gets a thing. -/
theorem Obeys.of_get {q : Q} {k : R q → Dialogue Q R α} {ok : Bool → R q}
    (h : (Dialogue.send q k).Obeys fits kind p) (hq : kind q = .get ok) :
    p = .none ∧ (k (ok true)).Obeys fits kind .fresh ∧ (k (ok false)).Obeys fits kind .none := by
  unfold Obeys at h
  rw [hq] at h
  cases p with
  | none => exact ⟨rfl, h⟩
  | fresh | used => exact h.elim

/-- A call that uses it. -/
theorem Obeys.of_use {q : Q} {k : R q → Dialogue Q R α} {b : β} {read : τ → R q}
    (h : (Dialogue.send q k).Obeys fits kind p) (hq : kind q = .use b read) :
    p = .fresh ∧ fits b ∧ ∀ x, (k (read x)).Obeys fits kind .used := by
  unfold Obeys at h
  rw [hq] at h
  cases p with
  | fresh => exact ⟨rfl, h⟩
  | none | used => exact h.elim

/-- A call that gives it back. -/
theorem Obeys.of_give {q : Q} {k : R q → Dialogue Q R α} {a : R q}
    (h : (Dialogue.send q k).Obeys fits kind p) (hq : kind q = .give a) :
    p = .used ∧ (k a).Obeys fits kind .none := by
  unfold Obeys at h
  rw [hq] at h
  cases p with
  | used => exact ⟨rfl, h⟩
  | none | fresh => exact h.elim

/-- These answers, the last one first, have led from one program to another. -/
inductive Led (d : Dialogue Q R α) : List ((q : Q) × R q) → Dialogue Q R α → Prop
  | start : Led d [] d
  | next {as : List ((q : Q) × R q)} {q : Q} {k : R q → Dialogue Q R α} (r : R q) :
      Led d as (.send q k) → Led d (⟨q, r⟩ :: as) (k r)

end Dialogue
