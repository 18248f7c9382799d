import Mathlib.Tactic

/-!
# Programs that talk to another party

A `Dialogue Q R α` is a program that makes calls `q : Q`, each answered by a value of type `R q`,
and ends with a result.  It is a tree: after a call there is one branch for each answer, so a
statement about every answer is a statement about every branch.

* `Dialogue.call q` : one call; dialogues are a monad.
* `Dialogue.run serve d s` : the dialogue against a party with the state `s` that answers by
  `serve`. The simp lemmas `run_pure`, `run_bind` and `run_call` take a program apart.
* `Dialogue.calls serve d s` : the calls it makes on the way, with the same simp lemmas.
* `Dialogue.Yields ok P d` : answers as `ok` says lead to a result as `P` says.
-/

/-- A program that makes calls and goes on with their answers. -/
inductive Dialogue (Q : Type) (R : Q → Type) (α : Type)
  | result (a : α)
  | send (q : Q) (k : R q → Dialogue Q R α)

namespace Dialogue

variable {Q : Type} {R : Q → Type} {α β σ : Type}

/-- First one dialogue, then the one its result leads to. -/
def bind : Dialogue Q R α → (α → Dialogue Q R β) → Dialogue Q R β
  | .result a, f => f a
  | .send q k, f => .send q fun r => (k r).bind f

instance : Monad (Dialogue Q R) where
  pure := .result
  bind := bind

/-- One call. -/
def call (q : Q) : Dialogue Q R (R q) := .send q .result

/-- The dialogue against a party that answers from its state. -/
def run (serve : σ → (q : Q) → R q × σ) : Dialogue Q R α → σ → α × σ
  | .result a, s => (a, s)
  | .send q k, s => (k (serve s q).1).run serve (serve s q).2

variable (serve : σ → (q : Q) → R q × σ) (s : σ)

@[simp] theorem run_pure (a : α) : (pure a : Dialogue Q R α).run serve s = (a, s) := rfl

@[simp] theorem run_call (q : Q) : (call q : Dialogue Q R (R q)).run serve s = serve s q := rfl

@[simp] theorem run_ite (p : Prop) [Decidable p] (d d' : Dialogue Q R α) :
    (if p then d else d').run serve s = if p then d.run serve s else d'.run serve s := by
  split <;> rfl

/-- A sequence of two dialogues. -/
@[simp] theorem run_bind (d : Dialogue Q R α) (f : α → Dialogue Q R β) :
    (d >>= f).run serve s = (f (d.run serve s).1).run serve (d.run serve s).2 := by
  induction d generalizing s with
  | result a => rfl
  | send q k ih => exact ih (serve s q).1 (serve s q).2

/-- The calls that are made, in their order. -/
def calls (serve : σ → (q : Q) → R q × σ) : Dialogue Q R α → σ → List Q
  | .result _, _ => []
  | .send q k, s => q :: (k (serve s q).1).calls serve (serve s q).2

@[simp] theorem calls_pure (a : α) : (pure a : Dialogue Q R α).calls serve s = [] := rfl

@[simp] theorem calls_call (q : Q) : (call q : Dialogue Q R (R q)).calls serve s = [q] := rfl

@[simp] theorem calls_ite (p : Prop) [Decidable p] (d d' : Dialogue Q R α) :
    (if p then d else d').calls serve s = if p then d.calls serve s else d'.calls serve s := by
  split <;> rfl

/-- The calls of a sequence. -/
@[simp] theorem calls_bind (d : Dialogue Q R α) (f : α → Dialogue Q R β) :
    (d >>= f).calls serve s =
      d.calls serve s ++ (f (d.run serve s).1).calls serve (d.run serve s).2 := by
  induction d generalizing s with
  | result a => rfl
  | send q k ih => exact congrArg (q :: ·) (ih (serve s q).1 (serve s q).2)

end Dialogue
