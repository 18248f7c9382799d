import Uvfs.Vfs.Page

/-!
# Writes that fail

A write transaction can fail in many ways: there is no memory for it, the server is gone or the
caller interrupted (`-EIO` and `-ERESTARTSYS`, stored in the reply by the driver), the server
answers with an error, or it writes fewer bytes than it was given.  `uvfs_commit_write` and
`uvfs_write_end` are the two ways in which the kernel learns about it.

* `Acknowledged count o` : the server has taken all the bytes.
* `FailureReported` : a write that was not acknowledged is reported by both paths and leaves
  `i_size` alone.
* `write_failure_reported_iff` : this is so only when there is nothing to report; with the exact
  conditions for each path.
-/

namespace Uvfs.Vfs

/-- `bytes_written`, which lies where the reply of a read has `bytes_read`. -/
def FileReply.bytesWritten (r : FileReply) : Word := r.bytesRead

/-- The driver during one write: `none` when there is no memory for a transaction, else the reply
that `uvfs_make_request` leaves. -/
def answerWrite (o : Option FileReply) : Unit → (q : DriverCall) → q.Answer × Unit
  | _, .newTransaction => (o.isSome, ())
  | _, .makeRequest _ => (o.getD ⟨0, 0, fun _ => 0⟩, ())
  | _, .kfree => ((), ())

/-- The server has taken all the bytes. -/
def Acknowledged (count : ℕ) (o : Option FileReply) : Prop :=
  ∃ r ∈ o, r.error = 0 ∧ r.bytesWritten.toNat = count

section

variable (l : LongWidth) (c : Cred) (inode : Inode) (pg : Page) (o : Option FileReply)

/-- `uvfs_commit_write` with this outcome. -/
def commitWriteWith (offset upto : ℕ) : Inode × Page × ℤ :=
  ((uvfsCommitWrite l c inode pg offset upto).run (answerWrite o) ()).1

/-- `uvfs_write_end` with this outcome. -/
def writeEndWith (pos len copied : ℕ) : Inode × Page × ℕ :=
  ((uvfsWriteEnd l c inode pg pos len copied).run (answerWrite o) ()).1

/-- `uvfs_commit_write` tells its caller that the write failed. -/
def CommitReports (offset upto : ℕ) : Prop :=
  (commitWriteWith l c inode pg o offset upto).2.2 < 0

/-- `uvfs_write_end` tells its caller that fewer bytes were written. -/
def EndReports (pos len copied : ℕ) : Prop :=
  ((writeEndWith l c inode pg o pos len copied).2.2 : ℤ) < copied

/-- What a write of `copied` bytes at `pos` owes its caller: a failure is reported by both paths,
`i_size` stays as it is, and the paths agree. -/
structure FailureReported (pos len copied : ℕ) : Prop where
  commit : ¬ Acknowledged copied o →
    CommitReports l c inode pg o (pos % pageCacheSize) (pos % pageCacheSize + copied)
  writeEnd : ¬ Acknowledged copied o → EndReports l c inode pg o pos len copied
  commitSize : ¬ Acknowledged copied o →
    (commitWriteWith l c inode pg o (pos % pageCacheSize)
      (pos % pageCacheSize + copied)).1.iSize = inode.iSize
  endSize : ¬ Acknowledged copied o →
    (writeEndWith l c inode pg o pos len copied).1.iSize = inode.iSize
  agree : CommitReports l c inode pg o (pos % pageCacheSize) (pos % pageCacheSize + copied) ↔
    EndReports l c inode pg o pos len copied

end

variable {l : LongWidth} {c : Cred} {inode : Inode} {pg : Page} {o : Option FileReply}
  {offset upto pos len copied : ℕ}

/-- What `uvfs_write` returns. -/
def writeValue : Option FileReply → ℤ
  | none => enomem
  | some r => r.error.toInt

theorem run_uvfsWrite_answerWrite (buff : Mem) (off count : Word) :
    (uvfsWrite c inode buff off count).run (answerWrite o) () = (writeValue o, ()) := by
  cases o with
  | none => rfl
  | some r => rfl

/-- `uvfs_commit_write` returns the error, and moves `i_size` whatever it was. -/
theorem commitWriteWith_eq : commitWriteWith l c inode pg o offset upto =
    (if commitPos l pg.index upto > inode.iSize then
      { inode with iSize := commitPos l pg.index upto } else inode,
      pg.setUptodate, writeValue o) := by
  simp only [commitWriteWith, uvfsCommitWrite, Dialogue.run_bind, run_uvfsWrite_answerWrite,
    Dialogue.run_pure]

theorem commitWriteWith_iSize : (commitWriteWith l c inode pg o offset upto).1.iSize =
    inode.iSize ↔ commitPos l pg.index upto ≤ inode.iSize := by
  rw [commitWriteWith_eq]
  by_cases h : commitPos l pg.index upto > inode.iSize
  · simp only [if_pos h]
    omega
  · simp only [if_neg h, true_iff]
    omega

/-- `uvfs_write_end` does the same to `i_size`, and returns what it was given. -/
theorem writeEndWith_eq :
    (writeEndWith l c inode pg o pos len copied).1.iSize =
      (commitWriteWith l c inode pg o (pos % pageCacheSize)
        (pos % pageCacheSize + copied)).1.iSize ∧
    (writeEndWith l c inode pg o pos len copied).2.2 = copied := by
  unfold writeEndWith
  rw [commitWriteWith_eq, uvfsWriteEnd_eq, uvfsCommitWrite]
  refine ⟨?_, ?_⟩
  · simp only [Dialogue.run_bind, run_uvfsWrite_answerWrite, Dialogue.run_pure, clearRest_index]
  · simp only [Dialogue.run_bind, Dialogue.run_pure]

/-- `uvfs_write_end` never reports anything. -/
theorem not_endReports : ¬ EndReports l c inode pg o pos len copied := by
  unfold EndReports
  rw [writeEndWith_eq.2]
  exact lt_irrefl _

/-- `uvfs_commit_write` reports what `uvfs_write` reports: not a short write. -/
theorem commitReports_iff : CommitReports l c inode pg o offset upto ↔
    o = none ∨ ∃ r ∈ o, r.error.toInt < 0 := by
  unfold CommitReports
  rw [commitWriteWith_eq]
  cases o with
  | none => simp [writeValue, enomem]
  | some r => simp [writeValue]

/-- A one-byte write at the start of an empty file that the server answers with `-ENOSPC`:
`uvfs_write_end` returns 1 and both paths move `i_size` to 1. -/
theorem write_end_hides_enospc :
    ¬ Acknowledged 1 (some ⟨BitVec.ofInt 32 (-28), 0, fun _ => 0⟩) ∧
      let pg : Page := ⟨0, fun _ => 0, false, false, 0⟩
      let inode := newInode ⟨0, 0, 0, 0, 0, 0, 7, 0⟩
      let o : Option FileReply := some ⟨BitVec.ofInt 32 (-28), 0, fun _ => 0⟩
      (writeEndWith .w64 ⟨0, 0⟩ inode pg o 0 1 1).2.2 = 1 ∧
        (writeEndWith .w64 ⟨0, 0⟩ inode pg o 0 1 1).1.iSize = 1 ∧
        (commitWriteWith .w64 ⟨0, 0⟩ inode pg o 0 1).1.iSize = 1 := by
  refine ⟨?_, by decide⟩
  rintro ⟨r, hr, herror, -⟩
  cases hr
  exact absurd herror (by decide)

/-- **When a failed write is reported**: both paths do what they owe exactly when the server has
taken all the bytes.  Of the parts, `uvfs_commit_write` reports exactly the negative errors,
`uvfs_write_end` reports nothing, and `i_size` stays exactly when the write ends at or before it. -/
theorem write_failure_reported_iff :
    (FailureReported l c inode pg o pos len copied ↔ Acknowledged copied o) ∧
      (CommitReports l c inode pg o offset upto ↔ o = none ∨ ∃ r ∈ o, r.error.toInt < 0) ∧
      ¬ EndReports l c inode pg o pos len copied ∧
      ((commitWriteWith l c inode pg o offset upto).1.iSize = inode.iSize ↔
        commitPos l pg.index upto ≤ inode.iSize) ∧
      ((writeEndWith l c inode pg o pos len copied).1.iSize = inode.iSize ↔
        commitPos l pg.index (pos % pageCacheSize + copied) ≤ inode.iSize) := by
  refine ⟨⟨?_, ?_⟩, commitReports_iff, not_endReports, commitWriteWith_iSize, ?_⟩
  · intro h
    by_contra hack
    exact not_endReports (h.writeEnd hack)
  · rintro hack
    have hcommit : ¬ CommitReports l c inode pg o (pos % pageCacheSize)
        (pos % pageCacheSize + copied) := by
      obtain ⟨r, hr, herror, -⟩ := hack
      rw [commitReports_iff]
      cases hr
      simp [herror]
    exact ⟨absurd hack, absurd hack, absurd hack, absurd hack,
      iff_of_false hcommit not_endReports⟩
  · rw [writeEndWith_eq.1]
    exact commitWriteWith_iSize

end Uvfs.Vfs
