import Uvfs.Lib.Run
import Uvfs.Vfs.Page

/-!
# Revalidation and extending writes

Several processes work on one file at once.  Each sends a request, the server processes it at some
moment, and the process applies the reply at some later moment: `uvfs_revalidate_inode` and
`uvfs_lookup` store the attributes of the reply in the inode, `uvfs_commit_write` compares the end
of what it wrote with `i_size` and moves `i_size` up.  Nothing orders the applications, and nothing
keeps the comparison and the assignment of `uvfs_commit_write` together.

* `FileState`, `fileStep` : the server's attributes, the inode and the calls in progress.
* `stale_getattr_rolls_size_back` : a getattr answered before an extending write and applied after
  it.
* `Sized` : `i_size` is the server's size, or a write that ends there is still to be applied.
* `KeepsSize` : an assignment to `i_size` lowers it only while such a write is still to come.
* `size_eq_of_quiescent` : in a run that meets it, `i_size` is right whenever nothing is
  outstanding.
-/

namespace Uvfs.Vfs

open Transition

/-! ## The processes and the server -/

/-- What a process does: `uvfs_revalidate_inode`, `uvfs_lookup` with `uvfs_iget`, or
`uvfs_commit_write` on a part of a page (`uvfs_write_end` calls it so). -/
inductive Operation
  | revalidate
  | lookup
  | commitWrite (index offset upto : ℕ)
  deriving DecidableEq

/-- Where the process stands. -/
inductive CallPc
  /-- The request is made. -/
  | sent
  /-- The server has processed it; the reply is not applied. -/
  | replied (error : ℤ) (attr : UvfsAttr)
  /-- `uvfs_commit_write` has found `pos > inode->i_size`. -/
  | storing
  /-- The reply is applied. -/
  | finished
  deriving DecidableEq

/-- A process. -/
structure Call where
  /-- What it does. -/
  op : Operation
  /-- `current_fsuid()`. -/
  fsuid : Word
  /-- Its program counter. -/
  pc : CallPc

/-- One file: at the server, in the inode cache, and the calls on it. -/
structure FileState where
  /-- The server's attributes of the file; `i_size` is the size of the file. -/
  attr : UvfsAttr
  /-- The cached inode. -/
  inode : Option Inode
  /-- How many calls have started. -/
  nCalls : ℕ
  /-- The calls. -/
  calls : ℕ → Call

/-- The steps. -/
inductive FileAct
  /-- `uvfs_revalidate_inode` makes its request. -/
  | revalidate (fsuid : Word)
  /-- `uvfs_lookup` makes its request. -/
  | lookup (fsuid : Word)
  /-- `uvfs_commit_write` makes its request. -/
  | commitWrite (fsuid : Word) (index offset upto : ℕ)
  /-- The server processes the request; `attr` are the attributes of the file after it. -/
  | serve (c : ℕ) (error : ℤ) (attr : UvfsAttr)
  /-- The process goes on with the reply: `uvfs_refresh_inode`, `uvfs_iget`, or the comparison of
  `uvfs_commit_write`. -/
  | apply (c : ℕ)
  /-- `inode->i_size = pos`. -/
  | store (c : ℕ)

/-- The size of the file after a successful operation: a write that carries bytes extends it to
their end. -/
def Operation.sizeAfter (l : LongWidth) (size : ℕ) : Operation → ℕ
  | .commitWrite index offset upto =>
      if commitCount offset upto = 0 then size
      else max size ((commitOff l index offset).toNat + (commitCount offset upto).toNat)
  | .revalidate | .lookup => size

namespace FileState

/-- The size of the file at the server. -/
def size (s : FileState) : ℕ := s.attr.iSize.toNat

/-- A new call. -/
def start (s : FileState) (op : Operation) (fsuid : Word) : FileState :=
  { s with nCalls := s.nCalls + 1, calls := Function.update s.calls s.nCalls ⟨op, fsuid, .sent⟩ }

/-- Move a call. -/
def setPc (s : FileState) (c : ℕ) (pc : CallPc) : FileState :=
  { s with calls := Function.update s.calls c { s.calls c with pc := pc } }

/-- What a process does with its reply.
Source: `super.c`, `uvfs_revalidate_inode`; `dir.c`, `uvfs_lookup`; `file.c`, `uvfs_commit_write`,
lines 301–302. -/
def applyReply (l : LongWidth) (fh : Fhandle) (s : FileState) (c : ℕ) (error : ℤ)
    (attr : UvfsAttr) : Option FileState :=
  match (s.calls c).op, s.inode with
  | .revalidate, some i =>
      if error = 0 then
        let i' := (uvfsRefreshInode l (s.calls c).fsuid i attr).1
        some ({ s with inode := some i' }.setPc c .finished)
      else some (s.setPc c .finished)
  | .lookup, cached =>
      if error < 0 then some (s.setPc c .finished)
      else
        let i' := uvfsIget l (s.calls c).fsuid fh attr cached
        some ({ s with inode := some i' }.setPc c .finished)
  | .commitWrite index _ upto, some i =>
      some (s.setPc c (if commitPos l index upto > i.iSize then .storing else .finished))
  | .revalidate, none | .commitWrite _ _ _, none => none

/-- The assignment of `uvfs_commit_write`. -/
def storeSize (l : LongWidth) (s : FileState) (c : ℕ) : Option FileState :=
  match (s.calls c).op, s.inode with
  | .commitWrite index _ upto, some i =>
      some ({ s with inode := some { i with iSize := commitPos l index upto } }.setPc c .finished)
  | _, _ => none

end FileState

/-- The server processes a request: a successful one leaves the file with the size it should have, a
failed one leaves it alone. -/
def Serves (l : LongWidth) (attr : UvfsAttr) (op : Operation) (error : ℤ) (attr' : UvfsAttr) :
    Prop :=
  if error = 0 then attr'.iSize.toNat = op.sizeAfter l attr.iSize.toNat else attr' = attr

instance (l : LongWidth) (attr : UvfsAttr) (op : Operation) (error : ℤ) (attr' : UvfsAttr) :
    Decidable (Serves l attr op error attr') :=
  inferInstanceAs (Decidable (ite _ _ _))

/-- One step. -/
def fileStep (l : LongWidth) (fh : Fhandle) (s : FileState) : FileAct → Option FileState
  | .revalidate fsuid => if s.inode.isSome then some (s.start .revalidate fsuid) else none
  | .lookup fsuid => some (s.start .lookup fsuid)
  | .commitWrite fsuid index offset upto =>
      if s.inode.isSome ∧ Admitted index offset upto then
        some (s.start (.commitWrite index offset upto) fsuid)
      else none
  | .serve c error attr =>
      if (s.calls c).pc = .sent ∧ Serves l s.attr (s.calls c).op error attr then
        some ({ s with attr := attr }.setPc c (.replied error attr))
      else none
  | .apply c =>
      match (s.calls c).pc with
      | .replied error attr => s.applyReply l fh c error attr
      | _ => none
  | .store c => if (s.calls c).pc = .storing then s.storeSize l c else none

/-- No inode is cached and no call has started. -/
def FileState.init (attr : UvfsAttr) : FileState where
  attr := attr
  inode := none
  nCalls := 0
  calls _ := ⟨.revalidate, 0, .finished⟩

/-- No request is outstanding and every reply is applied. -/
def FileState.Quiescent (s : FileState) : Prop := ∀ c < s.nCalls, (s.calls c).pc = .finished

instance (s : FileState) : Decidable s.Quiescent :=
  inferInstanceAs (Decidable (∀ c < s.nCalls, _))

/-- The server answers with success. -/
def Succeeds : FileAct → Prop
  | .serve _ error _ => error = 0
  | _ => True

instance : (a : FileAct) → Decidable (Succeeds a)
  | .serve _ _ _ => inferInstanceAs (Decidable (_ = _))
  | .revalidate _ | .lookup _ | .commitWrite _ _ _ _ | .apply _ | .store _ => isTrue trivial

variable {l : LongWidth} {fh : Fhandle} {s s' : FileState} {a : FileAct} {attr₀ : UvfsAttr}

/-! ## The size goes back -/

/-- Attributes of an empty regular file. -/
def emptyFile : UvfsAttr :=
  ⟨0o100644, 1, 0, 0, 0, ⟨0, 0⟩, ⟨0, 0⟩, ⟨0, 0⟩, 4096, 0, 0⟩

/-- The file is looked up while it is empty.  A getattr is answered, then a write of ten bytes is
answered and applied, then the reply to the getattr is applied: nothing is outstanding, the server
has ten bytes and `i_size` is zero. -/
theorem stale_getattr_rolls_size_back : ∃ s, Reach (fileStep .w64 ⟨0, 0, 0, 0, 0, 0, 0, 0⟩)
    (fun _ a => Succeeds a) (.init emptyFile) s ∧ s.Quiescent ∧ s.size = 10 ∧
    s.inode.map Inode.iSize = some 0 := by
  obtain ⟨s, hs, hp⟩ := Reach.of_check (fileStep .w64 ⟨0, 0, 0, 0, 0, 0, 0, 0⟩)
    (fun _ a => Succeeds a) (.init emptyFile)
    [.lookup 0, .serve 0 0 emptyFile, .apply 0, .revalidate 0, .serve 1 0 emptyFile,
      .commitWrite 0 0 0 10, .serve 2 0 { emptyFile with iSize := 10 }, .apply 2, .store 2,
      .apply 1]
    (fun s => s.Quiescent ∧ s.size = 10 ∧ s.inode.map Inode.iSize = some 0) (by decide +kernel)
  exact ⟨s, hs, hp⟩

/-! ## The invariant -/

/-- Where a write ends that the server has processed and that is still to be applied. -/
def Call.due (l : LongWidth) (c : Call) : Option ℤ :=
  match c.op, c.pc with
  | .commitWrite index _ upto, .replied _ _ => some (commitPos l index upto)
  | .commitWrite index _ upto, .storing => some (commitPos l index upto)
  | _, _ => none

/-- A write other than `c` is still to be applied that ends where the file ends. -/
def FileState.DueBut (l : LongWidth) (s : FileState) (c : ℕ) : Prop :=
  ∃ c' < s.nCalls, c' ≠ c ∧ (s.calls c').due l = some (s.size : ℤ)

instance (s : FileState) (c : ℕ) : Decidable (s.DueBut l c) :=
  inferInstanceAs (Decidable (∃ c' < s.nCalls, _))

/-- The call carries no bytes. -/
def Operation.Empty : Operation → Prop
  | .commitWrite _ offset upto => offset = upto
  | .revalidate | .lookup => False

instance : (op : Operation) → Decidable op.Empty
  | .commitWrite _ _ _ => inferInstanceAs (Decidable (_ = _))
  | .revalidate | .lookup => isFalse id

/-- Which size the step is about to assign. -/
def FileState.assigns (l : LongWidth) (s : FileState) : FileAct → Option (ℕ × ℤ)
  | .apply c =>
      match (s.calls c).op, (s.calls c).pc with
      | .revalidate, .replied _ attr => some (c, attr.iSize.toNat)
      | .lookup, .replied _ attr => some (c, attr.iSize.toNat)
      | _, _ => none
  | .store c =>
      match (s.calls c).op with
      | .commitWrite index _ upto => some (c, commitPos l index upto)
      | .revalidate | .lookup => none
  | _ => none

/-- An assignment to `i_size` does not lower it, unless another write that ends where the file ends
is still to be applied; and a write without bytes does not raise it beyond the end of the file. -/
def KeepsSize (l : LongWidth) (s : FileState) (a : FileAct) : Prop :=
  ∀ p ∈ s.assigns l a, ((∀ i ∈ s.inode, i.iSize ≤ p.2) ∨ s.DueBut l p.1) ∧
    ((s.calls p.1).op.Empty → p.2 ≤ s.size)

instance (s : FileState) (a : FileAct) : Decidable (KeepsSize l s a) :=
  inferInstanceAs (Decidable (∀ p ∈ s.assigns l a, _))

theorem Call.due_eq_none {c : Call} (h : c.pc = .sent ∨ c.pc = .finished) : c.due l = none := by
  unfold Call.due
  rcases h with h | h <;> rw [h] <;> cases c.op <;> rfl

theorem Operation.size_le_sizeAfter (op : Operation) (size : ℕ) : size ≤ op.sizeAfter l size := by
  cases op with
  | revalidate => exact le_refl _
  | lookup => exact le_refl _
  | commitWrite index offset upto =>
      simp only [Operation.sizeAfter]
      split_ifs
      · exact le_refl _
      · exact le_max_left _ _

/-- A write that the generic path admits extends the file to its end, if it carries bytes. -/
theorem Operation.sizeAfter_commitWrite {index offset upto : ℕ} (h : Admitted index offset upto)
    (size : ℕ) : (Operation.commitWrite index offset upto).sizeAfter l size =
      if offset = upto then size else max size (index * pageCacheSize + upto) := by
  have hle := h.le
  have hcount : commitCount offset upto = 0 ↔ offset = upto := by
    rw [← BitVec.toNat_inj, h.commitCount_eq]
    simp only [BitVec.ofNat_eq_ofNat, BitVec.toNat_ofNat, Nat.zero_mod]
    omega
  have hend : (commitOff l index offset).toNat + (commitCount offset upto).toNat =
      index * pageCacheSize + upto := by
    rw [h.commitOff_eq, h.commitCount_eq]
    omega
  simp only [Operation.sizeAfter, hcount, hend]

/-- **The size of the inode.**  It is the server's, or a write is still to be applied that ends
where the file ends; nothing that is still to be applied lies beyond that. -/
structure Sized (l : LongWidth) (s : FileState) : Prop where
  lt : ∀ c, (s.calls c).pc ≠ .finished → c < s.nCalls
  admitted : ∀ c index offset upto, (s.calls c).op = .commitWrite index offset upto →
    Admitted index offset upto
  reply : ∀ c e a, (s.calls c).pc = .replied e a → a.iSize.toNat ≤ s.size
  ends : ∀ c p, (s.calls c).due l = some p → ¬ (s.calls c).op.Empty → p ≤ s.size
  fresh : s.inode = none → (∀ c e a, (s.calls c).pc = .replied e a → a.iSize.toNat = s.size) ∧
    ∀ c index offset upto, (s.calls c).op ≠ .commitWrite index offset upto
  le : ∀ i ∈ s.inode, i.iSize ≤ s.size
  due : ∀ i ∈ s.inode, i.iSize = s.size ∨ ∃ c, (s.calls c).due l = some (s.size : ℤ)

namespace Sized

theorem init : Sized l (.init attr₀) where
  lt _ h := absurd rfl h
  admitted _ _ _ _ h := by cases h
  reply _ _ _ h := by cases h
  ends _ _ h := by cases h
  fresh _ := ⟨(fun _ _ _ h => by cases h), fun _ _ _ _ h => by cases h⟩
  le _ h := by cases h
  due _ h := by cases h

/-- A new call. -/
theorem start (h : Sized l s) {op : Operation} (fsuid : Word)
    (hop : ∀ index offset upto, op = .commitWrite index offset upto →
      s.inode ≠ none ∧ Admitted index offset upto) : Sized l (s.start op fsuid) := by
  have hself : (s.start op fsuid).calls s.nCalls = ⟨op, fsuid, .sent⟩ := Function.update_self ..
  have hother : ∀ c, c ≠ s.nCalls → (s.start op fsuid).calls c = s.calls c := fun c hc =>
    Function.update_of_ne hc ..
  have hdue : (Call.mk op fsuid .sent).due l = none := Call.due_eq_none (.inl rfl)
  refine ⟨fun c hc => ?_, fun c index offset upto hc => ?_, fun c e a hc => ?_,
    fun c p hc hne => ?_, fun hnone => ⟨fun c e a hc => ?_, fun c index offset upto hc => ?_⟩,
    h.le, fun i hi => ?_⟩
  · by_cases hn : c = s.nCalls
    · exact hn ▸ Nat.lt_succ_self _
    · exact lt_trans (h.lt c (hother c hn ▸ hc)) (Nat.lt_succ_self _)
  · by_cases hn : c = s.nCalls
    · subst hn
      rw [hself] at hc
      exact (hop _ _ _ hc).2
    · exact h.admitted c _ _ _ (hother c hn ▸ hc)
  · by_cases hn : c = s.nCalls
    · subst hn
      rw [hself] at hc
      cases hc
    · exact h.reply c e a (hother c hn ▸ hc)
  · by_cases hn : c = s.nCalls
    · subst hn
      rw [hself, hdue] at hc
      cases hc
    · rw [hother c hn] at hc hne
      exact h.ends c p hc hne
  · by_cases hn : c = s.nCalls
    · subst hn
      rw [hself] at hc
      cases hc
    · exact (h.fresh hnone).1 c e a (hother c hn ▸ hc)
  · by_cases hn : c = s.nCalls
    · subst hn
      rw [hself] at hc
      exact (hop _ _ _ hc).1 hnone
    · exact (h.fresh hnone).2 c _ _ _ (hother c hn ▸ hc)
  · refine (h.due i hi).imp_right fun ⟨c, hc⟩ => ⟨c, ?_⟩
    have hn : c ≠ s.nCalls := by
      rintro rfl
      by_cases hp : (s.calls s.nCalls).pc = .finished
      · rw [Call.due_eq_none (.inr hp)] at hc
        cases hc
      · exact lt_irrefl _ (h.lt _ hp)
    rw [hother c hn]
    exact hc

/-- The call `c` moves to `pc`, the file and the inode change as they may. -/
theorem setPc (h : Sized l s) (s₁ : FileState) {c : ℕ} {pc : CallPc} (hcalls : s₁.calls = s.calls)
    (hn : s₁.nCalls = s.nCalls) (hlt : c < s.nCalls) (hsize : s.size ≤ s₁.size)
    (hreply : ∀ e a, pc = .replied e a → a.iSize.toNat ≤ s₁.size)
    (hends : ∀ p, ({ s.calls c with pc := pc } : Call).due l = some p →
      ¬ (s.calls c).op.Empty → p ≤ s₁.size)
    (hfresh : s₁.inode = none → s.inode = none ∧ s₁.size = s.size ∧
      ∀ e a, pc = .replied e a → a.iSize.toNat = s₁.size)
    (hle : ∀ i ∈ s₁.inode, i.iSize ≤ s₁.size)
    (hdue : ∀ i ∈ s₁.inode, i.iSize = s₁.size ∨
      ({ s.calls c with pc := pc } : Call).due l = some (s₁.size : ℤ) ∨
      ∃ c' ≠ c, (s.calls c').due l = some (s₁.size : ℤ)) :
    Sized l (s₁.setPc c pc) := by
  have hself : (s₁.setPc c pc).calls c = { s.calls c with pc := pc } := by
    rw [← hcalls]
    exact Function.update_self ..
  have hother : ∀ c', c' ≠ c → (s₁.setPc c pc).calls c' = s.calls c' := fun c' hc' => by
    rw [← hcalls]
    exact Function.update_of_ne hc' ..
  have hop : ∀ c', ((s₁.setPc c pc).calls c').op = (s.calls c').op := fun c' => by
    by_cases hc : c' = c
    · subst hc
      rw [hself]
    · rw [hother c' hc]
  refine ⟨fun c' hc' => ?_, fun c' _ _ _ hc' => h.admitted c' _ _ _ (hop c' ▸ hc'),
    fun c' e a hc' => ?_, fun c' p hc' hne => ?_, fun hnone => ⟨fun c' e a hc' => ?_, ?_⟩, hle,
    fun i hi => ?_⟩
  · change c' < s₁.nCalls
    rw [hn]
    by_cases hc : c' = c
    · exact hc ▸ hlt
    · exact h.lt c' (hother c' hc ▸ hc')
  · by_cases hc : c' = c
    · subst hc
      rw [hself] at hc'
      exact hreply e a hc'
    · exact le_trans (h.reply c' e a (hother c' hc ▸ hc')) hsize
  · rw [hop c'] at hne
    by_cases hc : c' = c
    · subst hc
      rw [hself] at hc'
      exact hends p hc' hne
    · exact le_trans (h.ends c' p (hother c' hc ▸ hc') hne) (Int.ofNat_le.mpr hsize)
  · obtain ⟨hnone', heq, hpc⟩ := hfresh hnone
    by_cases hc : c' = c
    · subst hc
      rw [hself] at hc'
      exact hpc e a hc'
    · exact ((h.fresh hnone').1 c' e a (hother c' hc ▸ hc')).trans heq.symm
  · intro c' _ _ _ hc'
    exact (h.fresh (hfresh hnone).1).2 c' _ _ _ (hop c' ▸ hc')
  · rcases hdue i hi with heq | hc | ⟨c', hne, hc'⟩
    · exact .inl heq
    · exact .inr ⟨c, by rw [hself]; exact hc⟩
    · exact .inr ⟨c', by rw [hother c' hne]; exact hc'⟩

/-- The server processes a request. -/
theorem serve (h : Sized l s) {c : ℕ} {attr : UvfsAttr} (hp : (s.calls c).pc = .sent)
    (hserve : attr.iSize.toNat = (s.calls c).op.sizeAfter l s.size) :
    Sized l ({ s with attr := attr }.setPc c (.replied 0 attr)) := by
  have hsize : s.size ≤ attr.iSize.toNat := hserve ▸ (s.calls c).op.size_le_sizeAfter s.size
  have hlt : c < s.nCalls := h.lt c (by rw [hp]; simp)
  -- a call that was only sent is not the one that is due
  have hne : ∀ c' p, (s.calls c').due l = some p → c' ≠ c := by
    rintro c' p hc' rfl
    rw [Call.due_eq_none (.inl hp)] at hc'
    cases hc'
  refine h.setPc { s with attr := attr } rfl rfl hlt hsize ?_ ?_ ?_ ?_ ?_
  · intro e a heq
    cases heq
    exact le_refl _
  · intro p hdue hempty
    cases hop : (s.calls c).op with
    | revalidate => simp [Call.due, hop] at hdue
    | lookup => simp [Call.due, hop] at hdue
    | commitWrite index offset upto =>
        have had := h.admitted c _ _ _ hop
        simp only [Call.due, hop, Option.some.injEq] at hdue
        have hne : ¬ offset = upto := by
          rw [hop] at hempty
          exact hempty
        rw [hop, Operation.sizeAfter_commitWrite had, if_neg hne] at hserve
        rw [← hdue, had.commitPos_eq]
        change _ ≤ ((attr.iSize.toNat : ℕ) : ℤ)
        rw [hserve]
        exact_mod_cast le_max_right _ _
  · intro hnone
    refine ⟨hnone, ?_, fun e a heq => by cases heq; rfl⟩
    cases hop : (s.calls c).op with
    | revalidate => rw [hop] at hserve; exact hserve
    | lookup => rw [hop] at hserve; exact hserve
    | commitWrite index offset upto => exact absurd hop ((h.fresh hnone).2 c _ _ _)
  · exact fun i hi => le_trans (h.le i hi) (Int.ofNat_le.mpr hsize)
  · intro i hi
    rcases eq_or_lt_of_le hsize with heq | hgt
    · have hs : ({ s with attr := attr } : FileState).size = s.size := heq.symm
      rw [hs]
      exact (h.due i hi).imp_right fun ⟨c', hc'⟩ => .inr ⟨c', hne c' _ hc', hc'⟩
    · -- the file has grown, so this write ends where it ends now
      refine .inr (.inl ?_)
      cases hop : (s.calls c).op with
      | revalidate => rw [hserve, hop] at hgt; exact absurd hgt (lt_irrefl _)
      | lookup => rw [hserve, hop] at hgt; exact absurd hgt (lt_irrefl _)
      | commitWrite index offset upto =>
          have had := h.admitted c _ _ _ hop
          rw [hop, Operation.sizeAfter_commitWrite had] at hserve
          split_ifs at hserve with hempty
          · exact absurd hgt (hserve ▸ lt_irrefl _)
          · simp only [Call.due, hop, Option.some.injEq, had.commitPos_eq]
            change _ = ((attr.iSize.toNat : ℕ) : ℤ)
            rw [hserve, max_eq_right (by omega)]
            push_cast
            rfl

/-- The call `c` assigns `p` to `i_size` and is done. -/
theorem assign (h : Sized l s) {c : ℕ} {p : ℤ} {i' : Inode} (hlt : c < s.nCalls)
    (hi' : i'.iSize = p) (hp : p ≤ s.size) (hguard : (∀ i ∈ s.inode, i.iSize ≤ p) ∨ s.DueBut l c)
    (hfresh : s.inode = none → p = s.size) (hown : ∀ q, (s.calls c).due l = some q → q = p) :
    Sized l ({ s with inode := some i' }.setPc c .finished) := by
  refine h.setPc { s with inode := some i' } rfl rfl hlt (le_refl _)
    (fun e a heq => by cases heq) (fun q hq => ?_) (fun hnone => by cases hnone) ?_ ?_
  · rw [Call.due_eq_none (.inr rfl)] at hq
    cases hq
  · intro i hi
    cases hi
    exact hi' ▸ hp
  · intro i hi
    cases hi
    rw [hi']
    by_cases heq : p = s.size
    · exact .inl heq
    refine .inr (.inr ?_)
    rcases hguard with hle | ⟨c', _, hne, hc'⟩
    · cases hin : s.inode with
      | none => exact absurd (hfresh hin) heq
      | some i₀ =>
          rcases h.due i₀ (by rw [hin]; rfl) with hi₀ | ⟨c', hc'⟩
          · exact absurd (le_antisymm hp (hi₀ ▸ hle i₀ (by rw [hin]; rfl))) heq
          · refine ⟨c', ?_, hc'⟩
            rintro rfl
            exact heq (hown _ hc').symm
    · exact ⟨c', hne, hc'⟩

/-- `uvfs_commit_write` compares the end of its write with `i_size`. -/
theorem compare (h : Sized l s) {c index offset upto : ℕ} {e : ℤ} {attr : UvfsAttr} {i : Inode}
    (hp : (s.calls c).pc = .replied e attr) (hop : (s.calls c).op = .commitWrite index offset upto)
    (hi : s.inode = some i) :
    Sized l (s.setPc c (if commitPos l index upto > i.iSize then .storing else .finished)) := by
  have hlt : c < s.nCalls := h.lt c (by rw [hp]; simp)
  have hdue : (s.calls c).due l = some (commitPos l index upto) := by simp only [Call.due, hop, hp]
  have hnone : ∀ {P : Prop}, s.inode = none → P := fun h => by rw [hi] at h; cases h
  split_ifs with hpos
  · have hsame : ({ s.calls c with pc := .storing } : Call).due l = (s.calls c).due l := by
      simp only [Call.due, hop, hp]
    refine h.setPc s rfl rfl hlt (le_refl _) (fun e a heq => by cases heq) (fun p hp => ?_) hnone
      h.le fun i' hi' => (h.due i' hi').imp_right fun ⟨c', hc'⟩ => ?_
    · exact h.ends c p (hsame ▸ hp)
    · by_cases hc : c' = c
      · exact .inl (by rw [hsame, ← hc]; exact hc')
      · exact .inr ⟨c', hc, hc'⟩
  · refine h.setPc s rfl rfl hlt (le_refl _) (fun e a heq => by cases heq) (fun p hp => ?_) hnone
      h.le fun i' hi' => ?_
    · rw [Call.due_eq_none (.inr rfl)] at hp
      cases hp
    · rcases h.due i' hi' with heq | ⟨c', hc'⟩
      · exact .inl heq
      · by_cases hc : c' = c
        · subst hc
          obtain rfl : i' = i := by rw [hi] at hi'; exact (Option.some.inj hi').symm
          rw [hdue] at hc'
          have hend := Option.some.inj hc'
          exact .inl (le_antisymm (h.le i' hi') (by omega))
        · exact .inr (.inr ⟨c', hc, hc'⟩)

/-- The call `c`, which is not a write, ends without an assignment. -/
theorem skip (h : Sized l s) {c : ℕ} (hlt : c < s.nCalls) (hown : (s.calls c).due l = none) :
    Sized l (s.setPc c .finished) := by
  refine h.setPc s rfl rfl hlt (le_refl _) (fun e a heq => by cases heq) (fun p hp => ?_)
    (fun hnone => ⟨hnone, rfl, fun e a heq => by cases heq⟩) h.le
    fun i hi => (h.due i hi).imp_right fun ⟨c', hc'⟩ => .inr ⟨c', ?_, hc'⟩
  · rw [Call.due_eq_none (.inr rfl)] at hp
    cases hp
  · rintro rfl
    rw [hown] at hc'
    cases hc'

/-- A process goes on with its reply. -/
theorem applyReply (h : Sized l s) {c : ℕ} {error : ℤ} {attr : UvfsAttr}
    (hp : (s.calls c).pc = .replied error attr) (hk : KeepsSize l s (.apply c))
    (hstep : s.applyReply l fh c error attr = some s') : Sized l s' := by
  have hlt : c < s.nCalls := h.lt c (by rw [hp]; simp)
  have hreply : ((attr.iSize.toNat : ℕ) : ℤ) ≤ s.size := Int.ofNat_le.mpr (h.reply c error attr hp)
  have hfresh : s.inode = none → ((attr.iSize.toNat : ℕ) : ℤ) = s.size := fun hnone =>
    congrArg _ ((h.fresh hnone).1 c error attr hp)
  cases hop : (s.calls c).op with
  | revalidate =>
      have hown : (s.calls c).due l = none := by simp only [Call.due, hop]
      cases hi : s.inode with
      | none => simp only [FileState.applyReply, hop, hi] at hstep; cases hstep
      | some i =>
          have hguard :=
            (hk (c, attr.iSize.toNat) (by simp only [FileState.assigns, hop, hp]; rfl)).1
          simp only [FileState.applyReply, hop, hi] at hstep
          split_ifs at hstep <;> cases hstep
          · exact h.assign hlt rfl hreply hguard hfresh fun q hq => by rw [hown] at hq; cases hq
          · exact h.skip hlt hown
  | lookup =>
      have hown : (s.calls c).due l = none := by simp only [Call.due, hop]
      have hguard := (hk (c, attr.iSize.toNat) (by simp only [FileState.assigns, hop, hp]; rfl)).1
      simp only [FileState.applyReply, hop] at hstep
      split_ifs at hstep <;> cases hstep
      · exact h.skip hlt hown
      · exact h.assign hlt (uvfsIget_iSize ..) hreply hguard hfresh fun q hq => by
          rw [hown] at hq
          cases hq
  | commitWrite index offset upto =>
      cases hi : s.inode with
      | none => simp only [FileState.applyReply, hop, hi] at hstep; cases hstep
      | some i =>
          simp only [FileState.applyReply, hop, hi, Option.some.injEq] at hstep
          subst hstep
          exact h.compare hp hop hi

/-- `uvfs_commit_write` assigns the end of its write. -/
theorem storeSize (h : Sized l s) {c : ℕ} (hp : (s.calls c).pc = .storing)
    (hk : KeepsSize l s (.store c)) (hstep : s.storeSize l c = some s') : Sized l s' := by
  have hlt : c < s.nCalls := h.lt c (by rw [hp]; simp)
  cases hop : (s.calls c).op with
  | revalidate => simp only [FileState.storeSize, hop] at hstep; cases hstep
  | lookup => simp only [FileState.storeSize, hop] at hstep; cases hstep
  | commitWrite index offset upto =>
      cases hi : s.inode with
      | none => simp only [FileState.storeSize, hop, hi] at hstep; cases hstep
      | some i =>
          have hdue : (s.calls c).due l = some (commitPos l index upto) := by
            simp only [Call.due, hop, hp]
          obtain ⟨hguard, hempty⟩ :=
            hk (c, commitPos l index upto) (by simp only [FileState.assigns, hop]; rfl)
          have hle : commitPos l index upto ≤ s.size := by
            by_cases he : (s.calls c).op.Empty
            · exact hempty he
            · exact h.ends c _ hdue he
          simp only [FileState.storeSize, hop, hi, Option.some.injEq] at hstep
          subst hstep
          refine h.assign hlt rfl hle hguard (fun hnone => by rw [hi] at hnone; cases hnone) ?_
          exact fun q hq => Option.some.inj (hq.symm.trans hdue)

/-- **One step** keeps the invariant. -/
theorem step (h : Sized l s) (hs : Succeeds a) (hk : KeepsSize l s a)
    (hstep : fileStep l fh s a = some s') : Sized l s' := by
  cases a with
  | revalidate fsuid =>
      unfold fileStep at hstep
      split_ifs at hstep
      cases hstep
      exact h.start fsuid fun _ _ _ hop => by cases hop
  | lookup fsuid =>
      cases hstep
      exact h.start fsuid fun _ _ _ hop => by cases hop
  | commitWrite fsuid index offset upto =>
      simp only [fileStep] at hstep
      split_ifs at hstep with hc
      cases hstep
      refine h.start fsuid fun _ _ _ hop => ?_
      cases hop
      exact ⟨Option.isSome_iff_ne_none.mp hc.1, hc.2⟩
  | serve c error attr =>
      obtain rfl : error = 0 := hs
      simp only [fileStep] at hstep
      split_ifs at hstep with hc
      cases hstep
      exact h.serve hc.1 (by have hserve := hc.2; rw [Serves, if_pos rfl] at hserve; exact hserve)
  | apply c =>
      simp only [fileStep] at hstep
      split at hstep
      · rename_i error attr hp
        exact h.applyReply hp hk hstep
      · cases hstep
  | store c =>
      simp only [fileStep] at hstep
      split_ifs at hstep with hp
      exact h.storeSize hp hk hstep

end Sized

/-- **No roll-back of the size**: in every run of successful calls in which an assignment to
`i_size` lowers it only while another write that ends where the file ends is still to be applied,
and no write without bytes raises it beyond the end of the file, `i_size` is the server's size in
every state in which no call is outstanding. -/
theorem size_eq_of_quiescent {i : Inode}
    (h : Reach (fileStep l fh) (fun s a => Succeeds a ∧ KeepsSize l s a) (.init attr₀) s)
    (hq : s.Quiescent) (hi : s.inode = some i) : i.iSize = s.size := by
  have hsized : Sized l s := Reach.invariant (P := Sized l) Sized.init
    (fun _ _ _ hs hG hstep => hs.step hG.1 hG.2 hstep) h
  refine (hsized.due i hi).resolve_right fun ⟨c, hc⟩ => ?_
  have hfin : (s.calls c).pc = .finished := by
    by_contra hne
    exact hne (hq c (hsized.lt c hne))
  rw [Call.due_eq_none (.inr hfin)] at hc
  cases hc

/-- Two processes extend the file at once, and a third fetches the attributes after both writes were
answered and stores them before the first of the writes is applied. -/
theorem size_eq_of_quiescent_two : ∃ s i, Reach (fileStep .w32 ⟨0, 0, 0, 0, 0, 0, 7, 0⟩)
    (fun s a => Succeeds a ∧ KeepsSize .w32 s a) (.init emptyFile) s ∧ s.Quiescent ∧
    s.inode = some i ∧ s.size = 4196 ∧ i.iSize = s.size := by
  obtain ⟨s, hs, hq, hsome, hsize⟩ := Reach.of_check (fileStep .w32 ⟨0, 0, 0, 0, 0, 0, 7, 0⟩)
    (fun s a => Succeeds a ∧ KeepsSize .w32 s a) (.init emptyFile)
    [.lookup 0, .serve 0 0 emptyFile, .apply 0, .commitWrite 0 0 0 10, .commitWrite 0 1 0 100,
      .serve 2 0 { emptyFile with iSize := 4196 }, .revalidate 5,
      .serve 1 0 { emptyFile with iSize := 4196 }, .serve 3 0 { emptyFile with iSize := 4196 },
      .apply 3, .apply 1, .apply 2]
    (fun s => s.Quiescent ∧ s.inode.isSome = true ∧ s.size = 4196) (by decide +kernel)
  obtain ⟨i, hi⟩ := Option.isSome_iff_exists.mp hsome
  exact ⟨s, i, hs, hq, hi, hsize, size_eq_of_quiescent hs hq hi⟩

end Uvfs.Vfs
