import Mathlib.Tactic

/-!
# A hand-over board

Jobs are posted on a board, handed out in the order in which they were posted, and taken off again:
one that waits may be withdrawn, one that is handed out may be settled or withdrawn, and the board
may be cleared as a whole.  A `Board` carries the proofs that make this a discipline: no job is
posted twice, what has been handed out and what still waits are, in this order, a subsequence of
what was posted, and what is outstanding is a subsequence of what has been handed out.

* `Board` : the lists with their invariant; `post`, `give`, `drop`, `clear` are its operations.
* `Board.Move` : one operation.
* `Board.nodup` : a job is in at most one of the two lists, once.
* `Board.given_nodup`, `Board.given_sublist` : handed out at most once, in the order of posting.
-/

/-- A board of jobs. -/
structure Board (ι : Type) [DecidableEq ι] where
  /-- Everything that was ever posted, in order. -/
  posted : List ι
  /-- What waits to be handed out, first to last. -/
  pending : List ι
  /-- Everything that was ever handed out, in order. -/
  given : List ι
  /-- What is handed out and not taken off. -/
  outstanding : List ι
  /-- No job is posted twice. -/
  posted_nodup : posted.Nodup
  /-- Jobs are handed out in the order of posting, and what waits comes after them. -/
  order : (given ++ pending).Sublist posted
  /-- What is outstanding has been handed out. -/
  outstanding_sublist : outstanding.Sublist given

namespace Board

variable {ι : Type} [DecidableEq ι]

/-- The board before anything is posted. -/
def empty : Board ι where
  posted := []
  pending := []
  given := []
  outstanding := []
  posted_nodup := List.nodup_nil
  order := List.Sublist.refl _
  outstanding_sublist := List.Sublist.refl _

/-- Post a job. -/
def post (b : Board ι) (t : ι) (h : t ∉ b.posted) : Board ι where
  posted := b.posted ++ [t]
  pending := b.pending ++ [t]
  given := b.given
  outstanding := b.outstanding
  posted_nodup := List.nodup_append.mpr
    ⟨b.posted_nodup, List.nodup_singleton t, by
      rintro x hx y hy rfl
      rw [List.mem_singleton] at hy
      exact h (hy ▸ hx)⟩
  order := by
    rw [← List.append_assoc]
    exact b.order.append_right [t]
  outstanding_sublist := b.outstanding_sublist

/-- Hand out the first job that waits. -/
def give (b : Board ι) (t : ι) (rest : List ι) (h : b.pending = t :: rest) : Board ι where
  posted := b.posted
  pending := rest
  given := b.given ++ [t]
  outstanding := b.outstanding ++ [t]
  posted_nodup := b.posted_nodup
  order := by
    have := b.order
    rw [h] at this
    simpa using this
  outstanding_sublist := b.outstanding_sublist.append_right [t]

/-- Take a job off, wherever it is. -/
def drop (b : Board ι) (t : ι) : Board ι where
  posted := b.posted
  pending := b.pending.erase t
  given := b.given
  outstanding := b.outstanding.erase t
  posted_nodup := b.posted_nodup
  order := (List.Sublist.append_left List.erase_sublist _).trans b.order
  outstanding_sublist := List.erase_sublist.trans b.outstanding_sublist

/-- Take everything off. -/
def clear (b : Board ι) : Board ι where
  posted := b.posted
  pending := []
  given := b.given
  outstanding := []
  posted_nodup := b.posted_nodup
  order := by
    rw [List.append_nil]
    exact (List.sublist_append_left _ _).trans b.order
  outstanding_sublist := List.nil_sublist _

/-- One operation on the board. -/
inductive Move : Board ι → Board ι → Prop
  | post (b : Board ι) (t : ι) (h : t ∉ b.posted) : Move b (b.post t h)
  | give (b : Board ι) (t : ι) (rest : List ι) (h : b.pending = t :: rest) :
      Move b (b.give t rest h)
  | drop (b : Board ι) (t : ι) : Move b (b.drop t)
  | clear (b : Board ι) : Move b b.clear

/-- What was handed out or waits was posted once. -/
theorem given_append_pending_nodup (b : Board ι) : (b.given ++ b.pending).Nodup :=
  b.posted_nodup.sublist b.order

/-- No job is handed out twice. -/
theorem given_nodup (b : Board ι) : b.given.Nodup :=
  (List.nodup_append.mp b.given_append_pending_nodup).1

/-- Jobs are handed out in the order of posting. -/
theorem given_sublist (b : Board ι) : b.given.Sublist b.posted :=
  (List.sublist_append_left _ _).trans b.order

/-- A job that waits has not been handed out. -/
theorem not_mem_given (b : Board ι) {t : ι} (h : t ∈ b.pending) : t ∉ b.given := fun hg =>
  (List.nodup_append.mp b.given_append_pending_nodup).2.2 t hg t h rfl

/-- A job is in at most one of the two lists, once. -/
theorem nodup (b : Board ι) : (b.pending ++ b.outstanding).Nodup := by
  refine List.nodup_append.mpr
    ⟨(List.nodup_append.mp b.given_append_pending_nodup).2.1,
      b.given_nodup.sublist b.outstanding_sublist, ?_⟩
  rintro x hx y hy rfl
  exact b.not_mem_given hx (b.outstanding_sublist.subset hy)

end Board
