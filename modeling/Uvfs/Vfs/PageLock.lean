import Uvfs.Vfs.Positions

/-!
# Who unlocks the page

The kernel calls `uvfs_readpage`, `uvfs_writepage` and `uvfs_write_end` with the page locked, and
each of them has to unlock it on every way out.  A page that stays locked blocks whoever wants it
next.

* `OneTransaction` : a function gets no transaction, or it uses it for one request and frees it.
* `Disciplined` : the page is unlocked once, and the transaction is freed once.
* `FillsOrKeeps` : `uvfs_readpage` makes a page `Uptodate` from a reply without error only.
* `page_lock_discipline_iff` : `uvfs_readpage` leaves the page locked when there is no transaction.
-/

namespace Uvfs.Vfs

variable {σ : Type} {serve : σ → (q : DriverCall) → q.Answer × σ} {s : σ} {l : LongWidth} {c : Cred}
  {inode : Inode} {pg : Page}

/-- What the calls of a function do with its transaction. -/
inductive OneTransaction (serve : σ → (q : DriverCall) → q.Answer × σ) (s : σ) :
    List DriverCall → Prop
  /-- It asks for none. -/
  | unused : OneTransaction serve s []
  /-- There is none. -/
  | refused (h : hasTransaction serve s = false) : OneTransaction serve s [.newTransaction]
  /-- It makes one request and frees it. -/
  | freed (h : hasTransaction serve s = true) (r : FileRequest) :
      OneTransaction serve s [.newTransaction, .makeRequest r, .kfree]

/-- A function is given a locked page: it unlocks the page once, and frees the transaction it
allocated once. -/
structure Disciplined {α : Type} (serve : σ → (q : DriverCall) → q.Answer × σ) (s : σ) (pg : Page)
    (d : Request α) (page : α → Page) : Prop where
  unlock : (page (d.run serve s).1).unlocked = pg.unlocked + 1
  transaction : OneTransaction serve s (d.calls serve s)

theorem oneTransaction_of_request {r : FileRequest} :
    OneTransaction serve s (.newTransaction ::
      if hasTransaction serve s then [.makeRequest r, .kfree] else []) := by
  split_ifs with h
  · exact .freed h r
  · exact .refused (Bool.eq_false_of_not_eq_true h)

/-! ## Writing -/

theorem disciplined_writePageBytes (count : Word) :
    Disciplined serve s pg (writePageBytes l c inode pg count) Prod.fst where
  unlock := by
    simp only [writePageBytes, Dialogue.run_bind, Dialogue.run_pure]
    split_ifs
    · rfl
    · rfl
  transaction := by
    rw [writePageBytes, Dialogue.calls_bind, Dialogue.calls_pure, List.append_nil, calls_uvfsWrite]
    exact oneTransaction_of_request

/-- `uvfs_writepage` keeps the discipline on every way out. -/
theorem disciplined_uvfsWritepage :
    Disciplined serve s pg (uvfsWritepage l c inode pg) Prod.fst := by
  unfold uvfsWritepage
  dsimp only
  split_ifs
  · exact disciplined_writePageBytes _
  · exact ⟨rfl, .unused⟩
  · exact disciplined_writePageBytes _

/-- `uvfs_write_end` does so too, whatever `uvfs_commit_write` returns. -/
theorem disciplined_uvfsWriteEnd {pos len copied : ℕ} :
    Disciplined serve s pg (uvfsWriteEnd l c inode pg pos len copied) fun r => r.2.1 where
  unlock := by
    rw [uvfsWriteEnd_eq, uvfsCommitWrite]
    simp only [Dialogue.run_bind, Dialogue.run_pure, Page.unlock, Page.setUptodate, clearRest]
    split_ifs
    · rfl
    · rfl
  transaction := by
    rw [uvfsWriteEnd_eq, uvfsCommitWrite]
    simp only [Dialogue.calls_bind, Dialogue.calls_pure, List.append_nil, calls_uvfsWrite]
    exact oneTransaction_of_request

/-! ## Reading -/

/-- The reply to `uvfs_readpage`, if there is a transaction. -/
def readReply (serve : σ → (q : DriverCall) → q.Answer × σ) (s : σ) (r : ReadRequest) : FileReply :=
  (serve (serve s .newTransaction).2 (.makeRequest (.read r))).1

/-- The page after `uvfs_readpage`. -/
theorem page_uvfsReadpage : ((uvfsReadpage l c inode pg).run serve s).1.1 =
    let reply := readReply serve s (readRequest l c inode pg)
    if hasTransaction serve s then
      if reply.error.toInt < 0 then pg.setError.unlock
      else { pg with data := fillPage l pg.data reply }.setUptodate.unlock
    else pg := by
  change (Dialogue.run (α := Page × ℤ) serve (if hasTransaction serve s then _ else _) _).1.1 = _
  rw [Dialogue.run_ite]
  dsimp only
  split_ifs with htrans herror
  · change (Dialogue.run (α := Page × ℤ) serve
      (if (readReply serve s _).error.toInt < 0 then _ else _) _).1.1 = _
    rw [if_pos herror]
    rfl
  · change (Dialogue.run (α := Page × ℤ) serve
      (if (readReply serve s _).error.toInt < 0 then _ else _) _).1.1 = _
    rw [if_neg herror]
    rfl
  · rfl

/-- A page that is `Uptodate` after `uvfs_readpage` was so before, or it has been filled from a
reply without error. -/
def FillsOrKeeps (serve : σ → (q : DriverCall) → q.Answer × σ) (s : σ) (l : LongWidth) (c : Cred)
    (inode : Inode) (pg : Page) : Prop :=
  let pg' := ((uvfsReadpage l c inode pg).run serve s).1.1
  pg'.uptodate = true → pg.uptodate = true ∧ pg'.data = pg.data ∨
    hasTransaction serve s = true ∧
      let reply := readReply serve s (readRequest l c inode pg)
      0 ≤ reply.error.toInt ∧ pg'.data = fillPage l pg.data reply

theorem fillsOrKeeps_uvfsReadpage : FillsOrKeeps serve s l c inode pg := by
  unfold FillsOrKeeps
  rw [page_uvfsReadpage]
  dsimp only
  split_ifs with htrans herror
  · exact fun hu => .inl ⟨hu, rfl⟩
  · exact fun _ => .inr ⟨htrans, not_lt.mp herror, rfl⟩
  · exact fun hu => .inl ⟨hu, rfl⟩

/-- `uvfs_readpage` keeps the discipline if there is a transaction. -/
theorem disciplined_uvfsReadpage_iff :
    Disciplined serve s pg (uvfsReadpage l c inode pg) Prod.fst ↔
      hasTransaction serve s = true := by
  refine ⟨fun h => ?_, fun htrans => ⟨?_, ?_⟩⟩
  · by_contra htrans
    have hunlock := h.unlock
    rw [page_uvfsReadpage] at hunlock
    simp only [if_neg htrans] at hunlock
    exact Nat.succ_ne_self _ hunlock.symm
  · rw [page_uvfsReadpage]
    simp only [if_pos htrans]
    split_ifs
    · rfl
    · rfl
  · rw [calls_uvfsReadpage]
    exact oneTransaction_of_request

/-- **Page-lock discipline.**  For every driver, every inode, every page and every reply:
`uvfs_readpage` unlocks the page once and frees its transaction once if and only if there is a
transaction; it makes a page `Uptodate` only when it has filled it from a reply without error.
`uvfs_writepage` and `uvfs_write_end` unlock the page once and free their transaction once. -/
theorem page_lock_discipline_iff (serve : σ → (q : DriverCall) → q.Answer × σ) (s : σ)
    (l : LongWidth) (c : Cred) (inode : Inode) (pg : Page) (pos len copied : ℕ) :
    (Disciplined serve s pg (uvfsReadpage l c inode pg) Prod.fst ↔
      hasTransaction serve s = true) ∧
    FillsOrKeeps serve s l c inode pg ∧
    Disciplined serve s pg (uvfsWritepage l c inode pg) Prod.fst ∧
    Disciplined serve s pg (uvfsWriteEnd l c inode pg pos len copied) fun r => r.2.1 := by
  refine ⟨disciplined_uvfsReadpage_iff, fillsOrKeeps_uvfsReadpage, ?_, ?_⟩
  · exact disciplined_uvfsWritepage
  · exact disciplined_uvfsWriteEnd

/-- A driver without memory for a transaction. -/
def refusing : Unit → (q : DriverCall) → q.Answer × Unit
  | _, .newTransaction => (false, ())
  | _, .makeRequest _ => (⟨0, 0, fun _ => 0⟩, ())
  | _, .kfree => ((), ())

/-- `uvfs_readpage` fails with `-ENOMEM` and the page is still locked. -/
theorem readpage_leaves_page_locked :
    let pg : Page := ⟨0, fun _ => 0, false, false, 0⟩
    let d := uvfsReadpage .w64 ⟨0, 0⟩ (newInode ⟨0, 0, 0, 1, 0, 3, 7, 0⟩) pg
    (d.run refusing ()).1.2 = enomem ∧ (d.run refusing ()).1.1.unlocked = 0 ∧
      ¬ Disciplined refusing () pg d Prod.fst := by
  refine ⟨rfl, rfl, fun h => ?_⟩
  exact absurd h.unlock (by decide)

end Uvfs.Vfs
