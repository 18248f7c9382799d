import Uvfs.Vfs.Page

/-!
# The pages of a file tile it

`uvfs_writepage` writes the part of a page that lies below `i_size`.  Over all pages of a file these
parts are the file: no byte is left out, none is written twice, and none lies behind the end.

* `written` : the write requests among the calls of a function.
* `written_uvfsWritepage` : what one page sends.
* `writepages` : `uvfs_writepage` on one page after the other.
* `writepage_tiles_file` : how often a position is written.
-/

namespace Uvfs.Vfs

/-- A call that sends a write request. -/
def DriverCall.write? : DriverCall → Option WriteRequest
  | .makeRequest (.write w) => some w
  | .makeRequest (.read _) | .newTransaction | .kfree => none

/-- The write requests among some calls. -/
def written (calls : List DriverCall) : List WriteRequest := calls.filterMap DriverCall.write?

/-- The request writes the byte at a position of the file. -/
def WriteRequest.Covers (w : WriteRequest) (p : ℕ) : Prop :=
  w.offset.toNat ≤ p ∧ p < w.offset.toNat + w.count.toNat

instance (w : WriteRequest) (p : ℕ) : Decidable (w.Covers p) := inferInstanceAs (Decidable (_ ∧ _))

variable {σ : Type} {serve : σ → (q : DriverCall) → q.Answer × σ} {s : σ} {l : LongWidth} {c : Cred}
  {inode : Inode} {pg : Page} {pages : List Page} {size p : ℕ}

/-! ## One page -/

/-- `uvfs_new_transaction` has a transaction. -/
def hasTransaction (serve : σ → (q : DriverCall) → q.Answer × σ) (s : σ) : Bool :=
  (serve s .newTransaction).1

/-- The calls of `uvfs_write`. -/
theorem calls_uvfsWrite {buff : Mem} {offset count : Word} :
    (uvfsWrite c inode buff offset count).calls serve s =
      .newTransaction :: if hasTransaction serve s then
        [.makeRequest (.write (writeRequest c inode buff offset count)), .kfree] else [] := by
  refine congrArg (DriverCall.newTransaction :: ·) ?_
  change Dialogue.calls serve (if hasTransaction serve s then _ else _) _ = _
  rw [Dialogue.calls_ite]
  rfl

/-- The requests of `uvfs_write`: one, if there is a transaction. -/
theorem written_uvfsWrite {buff : Mem} {offset count : Word} :
    written ((uvfsWrite c inode buff offset count).calls serve s) =
      if hasTransaction serve s then [writeRequest c inode buff offset count] else [] := by
  rw [calls_uvfsWrite]
  split_ifs
  · rfl
  · rfl

/-- The request for a page of a file. -/
def pageRequest (c : Cred) (inode : Inode) (pg : Page) (size : ℕ) : WriteRequest :=
  writeRequest c inode pg.data (BitVec.ofNat 32 (pg.index * pageCacheSize))
    (BitVec.ofNat 32 (bytesInPage size pg.index))

theorem bytesInPage_eq_zero_iff {index : ℕ} :
    bytesInPage size index = 0 ↔ size ≤ index * pageCacheSize := by
  unfold bytesInPage pageCacheSize
  omega

/-- The requests of `uvfs_writepage`: none when no byte of the page lies below the end of the file,
or when there is no transaction. -/
theorem written_uvfsWritepage (hsize : inode.iSize = size) (hmax : size ≤ sMaxbytes) :
    written ((uvfsWritepage l c inode pg).calls serve s) =
      if pg.index * pageCacheSize < size ∧ hasTransaction serve s then
        [pageRequest c inode pg size] else [] := by
  rw [uvfsWritepage_eq hsize hmax]
  by_cases hlt : pg.index * pageCacheSize < size
  · have hstart : pageStart l pg.index = pg.index * pageCacheSize :=
      pageStart_of_le (hlt.le.trans hmax)
    rw [if_neg (mt bytesInPage_eq_zero_iff.mp (not_le.mpr hlt)), writePageBytes, hstart,
      Dialogue.calls_bind, Dialogue.calls_pure, List.append_nil, written_uvfsWrite]
    simp only [hlt, true_and]
    rfl
  · rw [if_pos (bytesInPage_eq_zero_iff.mpr (not_lt.mp hlt)), Dialogue.calls_pure]
    simp only [hlt, false_and, if_false]
    rfl

/-- The request for a page that begins below the end of the file. -/
theorem pageRequest_interval (hmax : size ≤ sMaxbytes) (hlt : pg.index * pageCacheSize < size) :
    (pageRequest c inode pg size).offset.toNat = pg.index * pageCacheSize ∧
      (pageRequest c inode pg size).offset.toNat + (pageRequest c inode pg size).count.toNat =
        min ((pg.index + 1) * pageCacheSize) size := by
  have hoff : (pageRequest c inode pg size).offset.toNat = pg.index * pageCacheSize := by
    unfold sMaxbytes at hmax
    exact Width.toNat_ofNat_of_lt (by omega)
  have hcount : (pageRequest c inode pg size).count.toNat = bytesInPage size pg.index := by
    refine Width.toNat_ofNat_of_lt (lt_of_le_of_lt (min_le_left _ _) ?_)
    norm_num [pageCacheSize]
  refine ⟨hoff, ?_⟩
  rw [hoff, hcount]
  unfold bytesInPage pageCacheSize at *
  omega

/-- A position is covered by the page it is in, if it lies below the end of the file. -/
theorem covers_pageRequest_iff (hmax : size ≤ sMaxbytes) (hlt : pg.index * pageCacheSize < size) :
    (pageRequest c inode pg size).Covers p ↔ p < size ∧ p / pageCacheSize = pg.index := by
  obtain ⟨hoff, hend⟩ := @pageRequest_interval c inode pg size hmax hlt
  unfold WriteRequest.Covers
  rw [hend, hoff]
  unfold pageCacheSize at *
  omega

/-! ## All pages -/

/-- `uvfs_writepage` on each of some pages. -/
def writepages (l : LongWidth) (c : Cred) (inode : Inode) : List Page → Request Unit
  | [] => return
  | pg :: pages => do
      let _ ← uvfsWritepage l c inode pg
      writepages l c inode pages

theorem written_append (calls calls' : List DriverCall) :
    written (calls ++ calls') = written calls ++ written calls' :=
  List.filterMap_append

/-- How often a position is written. -/
def timesWritten (calls : List DriverCall) (p : ℕ) : ℕ := (written calls).countP fun w => w.Covers p

theorem timesWritten_append (calls calls' : List DriverCall) (p : ℕ) :
    timesWritten (calls ++ calls') p = timesWritten calls p + timesWritten calls' p := by
  unfold timesWritten
  rw [written_append, List.countP_append]

/-- How often one page writes a position. -/
theorem timesWritten_uvfsWritepage (hsize : inode.iSize = size) (hmax : size ≤ sMaxbytes) :
    timesWritten ((uvfsWritepage l c inode pg).calls serve s) p =
      if hasTransaction serve s ∧ p < size ∧ p / pageCacheSize = pg.index then 1 else 0 := by
  unfold timesWritten
  rw [written_uvfsWritepage hsize hmax]
  by_cases hlt : pg.index * pageCacheSize < size
  · cases htrans : hasTransaction serve s with
    | true => simp [hlt, List.countP_cons, covers_pageRequest_iff hmax hlt]
    | false => simp
  · have hnot : ¬ (p < size ∧ p / pageCacheSize = pg.index) := by
      unfold pageCacheSize at *
      omega
    simp [hlt, hnot]

/-- The calls for one page and then for the others. -/
theorem calls_writepages_cons :
    (writepages l c inode (pg :: pages)).calls serve s =
      (uvfsWritepage l c inode pg).calls serve s ++
        (writepages l c inode pages).calls serve ((uvfsWritepage l c inode pg).run serve s).2 := by
  rw [writepages, Dialogue.calls_bind]

/-- Every request is that of one of the pages. -/
theorem written_writepages (hsize : inode.iSize = size) (hmax : size ≤ sMaxbytes) {w : WriteRequest}
    (hw : w ∈ written ((writepages l c inode pages).calls serve s)) :
    ∃ pg ∈ pages, pg.index * pageCacheSize < size ∧ w = pageRequest c inode pg size := by
  induction pages generalizing s with
  | nil => cases hw
  | cons pg pages ih =>
      rw [calls_writepages_cons, written_append, List.mem_append,
        written_uvfsWritepage hsize hmax] at hw
      rcases hw with hw | hw
      · split_ifs at hw with hlt
        · exact ⟨pg, List.mem_cons_self, hlt.1, List.mem_singleton.mp hw⟩
        · cases hw
      · obtain ⟨pg', hpg', hrest⟩ := ih hw
        exact ⟨pg', List.mem_cons_of_mem _ hpg', hrest⟩

/-- How often the page of a position is among some pages; never for a position behind the end. -/
def timesListed (pages : List Page) (size p : ℕ) : ℕ :=
  if p < size then (pages.map Page.index).count (p / pageCacheSize) else 0

theorem timesListed_cons : timesListed (pg :: pages) size p =
    (if p < size ∧ p / pageCacheSize = pg.index then 1 else 0) + timesListed pages size p := by
  unfold timesListed
  rw [List.map_cons, List.count_cons]
  by_cases hlt : p < size
  · by_cases hindex : p / pageCacheSize = pg.index
    · simp [hlt, hindex, add_comm]
    · simp [hlt, hindex, Ne.symm hindex]
  · simp [hlt]

/-- A position is written at most as often as its page is listed. -/
theorem timesWritten_writepages_le (hsize : inode.iSize = size) (hmax : size ≤ sMaxbytes) :
    timesWritten ((writepages l c inode pages).calls serve s) p ≤ timesListed pages size p := by
  induction pages generalizing s with
  | nil => exact Nat.zero_le _
  | cons pg pages ih =>
      rw [calls_writepages_cons, timesWritten_append, timesWritten_uvfsWritepage hsize hmax,
        timesListed_cons]
      refine Nat.add_le_add ?_ ih
      split_ifs with h h'
      · exact le_refl _
      · exact absurd h.2 h'
      · exact Nat.zero_le _
      · exact le_refl _

/-- A driver that always has a transaction writes it as often. -/
theorem timesWritten_writepages (hsize : inode.iSize = size) (hmax : size ≤ sMaxbytes)
    (htrans : ∀ s, hasTransaction serve s = true) :
    timesWritten ((writepages l c inode pages).calls serve s) p = timesListed pages size p := by
  induction pages generalizing s with
  | nil =>
      unfold timesListed
      split_ifs
      · rfl
      · rfl
  | cons pg pages ih =>
      rw [calls_writepages_cons, timesWritten_append, timesWritten_uvfsWritepage hsize hmax,
        timesListed_cons, ih]
      simp only [htrans, true_and]

/-- Each page of a file is listed once. -/
structure AllPages (pages : List Page) (size : ℕ) : Prop where
  nodup : (pages.map Page.index).Nodup
  complete : ∀ p < size, p / pageCacheSize ∈ pages.map Page.index

theorem AllPages.timesListed_eq (h : AllPages pages size) (p : ℕ) :
    timesListed pages size p = if p < size then 1 else 0 := by
  unfold timesListed
  split_ifs with hlt
  · exact List.count_eq_one_of_mem h.nodup (h.complete p hlt)
  · rfl

/-- **The pages of a file tile it.**  For every size up to `s_maxbytes`: `uvfs_writepage` sends at
most one request, for the bytes of the page that lie below the end of the file, at their place, and
none when there are no such bytes; over all pages of the file every position below the end is
written once, with the byte of its page, and none behind the end is. -/
theorem writepage_tiles_file (hsize : inode.iSize = size) (hmax : size ≤ sMaxbytes) :
    (∀ pg (s : σ), let sent := written ((uvfsWritepage l c inode pg).calls serve s)
      (∀ w ∈ sent, sent = [w] ∧ w.offset.toNat = pg.index * pageCacheSize ∧
        w.offset.toNat + w.count.toNat = min ((pg.index + 1) * pageCacheSize) size ∧
        w.buff = pg.data ∧ w.fh = inode.fh) ∧
      (size ≤ pg.index * pageCacheSize → sent = []) ∧
      (pg.index * pageCacheSize < size → hasTransaction serve s = true → sent ≠ [])) ∧
    ∀ pages, AllPages pages size → ∀ s : σ,
      let calls := (writepages l c inode pages).calls serve s
      (∀ p, size ≤ p → timesWritten calls p = 0) ∧
      (∀ p < size, timesWritten calls p ≤ 1 ∧
        ((∀ s, hasTransaction serve s = true) → timesWritten calls p = 1)) ∧
      ∀ w ∈ written calls, ∀ p, w.Covers p →
        ∃ pg ∈ pages, pg.index = p / pageCacheSize ∧
          w.buff (p - w.offset.toNat) = pg.data (p % pageCacheSize) := by
  refine ⟨fun pg s => ?_, fun pages hall s => ⟨fun p hp => ?_, fun p hp => ⟨?_, fun htrans => ?_⟩,
    fun w hw p hcovers => ?_⟩⟩
  · intro sent
    have hsent : sent = _ := written_uvfsWritepage hsize hmax
    refine ⟨fun w hw => ?_, fun hle => ?_, fun hlt htrans => ?_⟩
    · rw [hsent] at hw ⊢
      split_ifs at hw ⊢ with h
      · obtain rfl := List.mem_singleton.mp hw
        obtain ⟨hoff, hend⟩ := @pageRequest_interval c inode pg size hmax h.1
        exact ⟨rfl, hoff, hend, rfl, rfl⟩
      · cases hw
    · rw [hsent, if_neg fun h => absurd h.1 (not_lt.mpr hle)]
    · rw [hsent, if_pos ⟨hlt, htrans⟩]
      exact List.cons_ne_nil _ _
  · have hle := @timesWritten_writepages_le σ serve s l c inode pages size p hsize hmax
    rw [hall.timesListed_eq, if_neg (not_lt.mpr hp)] at hle
    exact Nat.le_zero.mp hle
  · have hle := @timesWritten_writepages_le σ serve s l c inode pages size p hsize hmax
    rwa [hall.timesListed_eq, if_pos hp] at hle
  · rw [timesWritten_writepages hsize hmax htrans, hall.timesListed_eq, if_pos hp]
  · obtain ⟨pg, hpg, hlt, rfl⟩ := written_writepages hsize hmax hw
    obtain ⟨-, hindex⟩ := (covers_pageRequest_iff hmax hlt).mp hcovers
    obtain ⟨hoff, -⟩ := @pageRequest_interval c inode pg size hmax hlt
    refine ⟨pg, hpg, hindex.symm, ?_⟩
    rw [hoff, ← hindex, Nat.mul_comm, ← Nat.mod_eq_sub]
    rfl

/-- A driver that has a transaction for every request and no error in any reply. -/
def accepting : Unit → (q : DriverCall) → q.Answer × Unit
  | _, .newTransaction => (true, ())
  | _, .makeRequest _ => (⟨0, 0, fun _ => 0⟩, ())
  | _, .kfree => ((), ())

/-- A file of a page and 904 bytes. -/
theorem writepage_tiles_file_two :
    let inode := uvfsIget .w64 0 ⟨0, 0, 0, 1, 0, 3, 7, 0⟩
      ⟨0o100644, 1, 0, 0, 5000, ⟨0, 0⟩, ⟨0, 0⟩, ⟨0, 0⟩, 0, 0, 0⟩ none
    let pages : List Page := [⟨0, fun _ => 1, true, false, 0⟩, ⟨1, fun _ => 2, true, false, 0⟩]
    let calls := (writepages .w64 ⟨0, 0⟩ inode pages).calls accepting ()
    timesWritten calls 4999 = 1 ∧ timesWritten calls 5000 = 0 := by
  intro inode pages calls
  have hall : AllPages pages 5000 := by
    refine ⟨by decide, fun p hp => ?_⟩
    have hindex : p / pageCacheSize = 0 ∨ p / pageCacheSize = 1 := by
      unfold pageCacheSize
      omega
    rcases hindex with h | h
    · simp [pages, h]
    · simp [pages, h]
  obtain ⟨hbehind, hbelow, -⟩ := (@writepage_tiles_file Unit accepting .w64 ⟨0, 0⟩ inode 5000 rfl
    (by decide)).2 pages hall ()
  exact ⟨(hbelow 4999 (by decide)).2 fun _ => rfl, hbehind 5000 (le_refl _)⟩

end Uvfs.Vfs
