import Uvfs.Vfs.Tiling

/-!
# File positions

A position of the file is split into the index of a page and an offset in it, and the requests put
the two together again, in `unsigned long`, in `unsigned` and in `loff_t`.  `s_maxbytes` is one less
than `2 ^ 32`.

* `written_uvfsWriteEnd`, `run_uvfsWriteEnd_iSize` : what a buffered write sends and what it does to
  `i_size`.
* `buffered_write_addresses` : both in terms of the position that was written.
* `NamesPosition` : the requests for a page name where it starts.
* `namesPosition_iff` : from 2 GiB on the `int` of a read request does not.
-/

namespace Uvfs.Vfs

variable {σ : Type} {serve : σ → (q : DriverCall) → q.Answer × σ} {s : σ} {l : LongWidth} {c : Cred}
  {inode : Inode} {pg : Page} {pos len copied : ℕ}

/-! ## Buffered writes -/

/-- The page that `uvfs_write_begin` returns is the page of the position. -/
theorem index_of_uvfsWriteBegin {grab : ℕ → Option Page}
    (hgrab : ∀ index pg, grab index = some pg → pg.index = index) (hmax : pos ≤ sMaxbytes)
    (hbegin : (uvfsWriteBegin l grab pos len).1 = some pg) : pg.index = pos / pageCacheSize := by
  have hwrap : l.wrap (pos / pageCacheSize) = pos / pageCacheSize := wrap_index hmax
  cases hg : grab (pos / pageCacheSize) with
  | none => simp [uvfsWriteBegin, hwrap, hg] at hbegin
  | some pg' =>
      simp only [uvfsWriteBegin, hwrap, hg, Option.some.injEq] at hbegin
      exact hbegin ▸ hgrab _ _ hg

/-- The request of `uvfs_write_end`: one, if there is a transaction. -/
theorem written_uvfsWriteEnd :
    written ((uvfsWriteEnd l c inode pg pos len copied).calls serve s) =
      if hasTransaction serve s then [writeRequest c inode
        (fun i => (clearRest pg pos len copied).data (pos % pageCacheSize + i))
        (commitOff l pg.index (pos % pageCacheSize))
        (commitCount (pos % pageCacheSize) (pos % pageCacheSize + copied))] else [] := by
  rw [uvfsWriteEnd_eq, Dialogue.calls_bind, uvfsCommitWrite, Dialogue.calls_bind, written_append,
    written_append, written_uvfsWrite, clearRest_index]
  simp [written]

/-- `uvfs_write_end` moves `i_size` to the end of the copied part if it lies behind, whatever the
reply. -/
theorem run_uvfsWriteEnd_iSize (h : Admitted pg.index (pos % pageCacheSize)
    (pos % pageCacheSize + copied)) :
    ((uvfsWriteEnd l c inode pg pos len copied).run serve s).1.1.iSize =
      max inode.iSize (pg.index * pageCacheSize + (pos % pageCacheSize + copied) : ℕ) := by
  rw [uvfsWriteEnd_eq, uvfsCommitWrite]
  simp only [Dialogue.run_bind, Dialogue.run_pure, clearRest_index, h.commitPos_eq]
  push_cast
  split_ifs with hgt
  · exact (max_eq_right hgt.lt.le).symm
  · exact (max_eq_left (not_lt.mp hgt)).symm

/-- **Buffered writes address the bytes they mean.**  The write lies in one page and ends at or
below `s_maxbytes`, and `i_size` does not lie behind that.  Whatever of the page's bytes the copy
from the user changes: `uvfs_write_end` sends one request, if there is a transaction, for the
copied bytes of the page and with their position in the file; and `i_size` becomes the end of the
copied part, if that is more, which is at most `s_maxbytes` again. -/
theorem buffered_write_addresses {grab : ℕ → Option Page}
    (hgrab : ∀ index pg, grab index = some pg → pg.index = index)
    (hpage : pos % pageCacheSize + len ≤ pageCacheSize) (hmax : pos + len ≤ sMaxbytes)
    (hcopied : copied ≤ len) (hsize : inode.iSize ≤ sMaxbytes)
    (hbegin : (uvfsWriteBegin l grab pos len).1 = some pg) (data : Mem) :
    let d := uvfsWriteEnd l c inode { pg with data := data } pos len copied
    let sent := written (d.calls serve s)
    let iSize := (d.run serve s).1.1.iSize
    (hasTransaction serve s = true → sent ≠ []) ∧
    (∀ w ∈ sent, sent = [w] ∧ w.fh = inode.fh ∧ w.offset.toNat = pos ∧ w.count.toNat = copied ∧
      ∀ i < copied, w.buff i = data (pos % pageCacheSize + i)) ∧
    iSize = max inode.iSize (pos + copied : ℕ) ∧ iSize ≤ sMaxbytes := by
  have hindex := index_of_uvfsWriteBegin hgrab (by omega) hbegin
  have had : Admitted pg.index (pos % pageCacheSize) (pos % pageCacheSize + copied) :=
    hindex ▸ .of_write hpage hmax hcopied
  have hstart : pg.index * pageCacheSize + pos % pageCacheSize = pos := by
    rw [hindex, Nat.div_add_mod']
  intro d sent iSize
  have hsent : sent = _ := written_uvfsWriteEnd
  have hiSize : iSize = max inode.iSize (pos + copied : ℕ) := by
    rw [← hstart, add_assoc]
    exact run_uvfsWriteEnd_iSize had
  refine ⟨fun htrans => ?_, fun w hw => ?_, hiSize, ?_⟩
  · rw [hsent, if_pos htrans]
    exact List.cons_ne_nil _ _
  · rw [hsent] at hw ⊢
    split_ifs at hw ⊢ with htrans
    · obtain rfl := List.mem_singleton.mp hw
      refine ⟨rfl, rfl, had.commitOff_eq.trans hstart, had.commitCount_eq.trans (by omega),
        fun i hi => ?_⟩
      exact clearRest_data (by omega)
    · cases hw
  · rw [hiSize]
    exact max_le hsize (Int.ofNat_le.mpr (by omega))

/-- The last bytes that a file can have, of which one is copied. -/
theorem buffered_write_addresses_last :
    let inode := uvfsIget .w32 0 ⟨0, 0, 0, 1, 0, 3, 7, 0⟩
      ⟨0o100644, 1, 0, 0, 5000, ⟨0, 0⟩, ⟨0, 0⟩, ⟨0, 0⟩, 0, 0, 0⟩ none
    let pg : Page := ⟨0xFFFFF, fun i => BitVec.ofNat 8 i, true, false, 0⟩
    let d := uvfsWriteEnd .w32 ⟨0, 0⟩ inode pg 0xFFFFFFFD 2 1
    (∀ w ∈ written (d.calls accepting ()), w.offset.toNat = 0xFFFFFFFD ∧ w.count.toNat = 1) ∧
    (d.run accepting ()).1.1.iSize = 0xFFFFFFFE := by
  intro inode pg d
  obtain ⟨-, hsent, hiSize, -⟩ := @buffered_write_addresses Unit accepting () .w32 ⟨0, 0⟩ inode
    ⟨0xFFFFF, fun _ => 0, true, false, 0⟩ 0xFFFFFFFD 2 1
    (fun index => some ⟨index, fun _ => 0, true, false, 0⟩)
    (fun index pg h => by rw [← Option.some.inj h]) (by decide) (by decide) (by decide) (by decide)
    rfl (fun i => BitVec.ofNat 8 i)
  exact ⟨fun w hw => ⟨(hsent w hw).2.2.1, (hsent w hw).2.2.2.1⟩, hiSize⟩

/-! ## Whole pages -/

/-- A call that sends a read request. -/
def DriverCall.read? : DriverCall → Option ReadRequest
  | .makeRequest (.read r) => some r
  | .makeRequest (.write _) | .newTransaction | .kfree => none

/-- The read requests among some calls. -/
def asked (calls : List DriverCall) : List ReadRequest := calls.filterMap DriverCall.read?

/-- The calls of `uvfs_readpage`. -/
theorem calls_uvfsReadpage : (uvfsReadpage l c inode pg).calls serve s =
    .newTransaction :: if hasTransaction serve s then
      [.makeRequest (.read (readRequest l c inode pg)), .kfree] else [] := by
  refine congrArg (DriverCall.newTransaction :: ·) ?_
  change Dialogue.calls serve (if hasTransaction serve s then _ else _) _ = _
  rw [Dialogue.calls_ite]
  refine if_congr Iff.rfl (congrArg (DriverCall.makeRequest _ :: ·) ?_) rfl
  -- the transaction is freed after an error and after none
  change Dialogue.calls serve (if _ then _ else _) _ = _
  rw [Dialogue.calls_ite]
  split_ifs
  · rfl
  · rfl

/-- The requests of `uvfs_readpage`: one, if there is a transaction. -/
theorem asked_uvfsReadpage :
    asked ((uvfsReadpage l c inode pg).calls serve s) =
      if hasTransaction serve s then [readRequest l c inode pg] else [] := by
  rw [calls_uvfsReadpage]
  split_ifs
  · rfl
  · rfl

/-- Every request of `uvfs_writepage` starts where the page does. -/
theorem offset_of_written_uvfsWritepage {w : WriteRequest}
    (hw : w ∈ written ((uvfsWritepage l c inode pg).calls serve s)) :
    w.offset = BitVec.ofNat 32 (pageStart l pg.index) := by
  have hbytes : ∀ count, w ∈ written ((writePageBytes l c inode pg count).calls serve s) →
      w.offset = BitVec.ofNat 32 (pageStart l pg.index) := by
    intro count hw
    rw [writePageBytes, Dialogue.calls_bind, Dialogue.calls_pure, List.append_nil,
      written_uvfsWrite] at hw
    split_ifs at hw
    · rw [List.mem_singleton.mp hw]
      rfl
    · cases hw
  unfold uvfsWritepage at hw
  simp only [Dialogue.calls_ite] at hw
  split_ifs at hw
  · exact hbytes _ hw
  · cases hw
  · exact hbytes _ hw

/-- The requests for a page, whatever the driver does: each has the start of the page as its offset,
read with the type that `protocol.h` declares, `int` for a read and `unsigned` for a write. -/
def NamesPosition (l : LongWidth) (c : Cred) (inode : Inode) (pg : Page) : Prop :=
  ∀ (σ : Type) (serve : σ → (q : DriverCall) → q.Answer × σ) (s : σ),
    (∀ r ∈ asked ((uvfsReadpage l c inode pg).calls serve s),
      r.offset.toInt = (pg.index * pageCacheSize : ℕ)) ∧
    ∀ w ∈ written ((uvfsWritepage l c inode pg).calls serve s),
      w.offset.toNat = pg.index * pageCacheSize

/-- **Reads and writes of a page name one position below 2 GiB only.**  For every page that starts
below `s_maxbytes`: the requests of `uvfs_readpage` and `uvfs_writepage` both have the start of the
page as their offset if and only if the `int` of the read request holds it.  The write request has
it always. -/
theorem namesPosition_iff (hmax : pg.index * pageCacheSize < sMaxbytes) :
    NamesPosition l c inode pg ↔ pg.index * pageCacheSize < 2 ^ 31 := by
  have hlt : pg.index * pageCacheSize < 2 ^ 32 := by
    unfold sMaxbytes at hmax
    omega
  have hstart : pageStart l pg.index = pg.index * pageCacheSize := pageStart_of_le hmax.le
  have hread : (readRequest l c inode pg).offset.toInt = (pg.index * pageCacheSize : ℕ) ↔
      pg.index * pageCacheSize < 2 ^ 31 := by
    rw [readRequest, hstart, Width.toInt_ofNat_eq_iff hlt]
    omega
  refine ⟨fun h => ?_, fun h σ serve s => ⟨fun r hr => ?_, fun w hw => ?_⟩⟩
  · refine hread.mp ((h Unit accepting ()).1 _ ?_)
    rw [asked_uvfsReadpage]
    exact List.mem_singleton_self _
  · rw [asked_uvfsReadpage] at hr
    split_ifs at hr
    · rw [List.mem_singleton.mp hr]
      exact hread.mpr h
    · cases hr
  · rw [offset_of_written_uvfsWritepage hw, hstart]
    exact Width.toNat_ofNat_of_lt hlt

/-- The last page below 2 GiB. -/
theorem namesPosition_last :
    NamesPosition .w64 ⟨0, 0⟩ (newInode ⟨0, 0, 0, 1, 0, 3, 7, 0⟩)
      ⟨0x7FFFF, fun _ => 0, true, false, 0⟩ :=
  (namesPosition_iff (by decide)).mpr (by decide)

/-- The page at 2 GiB: the read request names a position before the start of the file. -/
theorem read_of_page_at_two_gib :
    let pg : Page := ⟨0x80000, fun _ => 0, false, false, 0⟩
    pg.index * pageCacheSize < sMaxbytes ∧
    let d := uvfsReadpage .w64 ⟨0, 0⟩ (newInode ⟨0, 0, 0, 1, 0, 3, 7, 0⟩) pg
    ∃ r ∈ asked (d.calls accepting ()),
      r.offset.toInt = -0x80000000 ∧ r.offset.toInt ≠ (pg.index * pageCacheSize : ℕ) := by
  refine ⟨by decide, _, List.mem_singleton_self _, by decide, by decide⟩

end Uvfs.Vfs
