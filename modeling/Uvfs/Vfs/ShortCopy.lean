import Uvfs.Vfs.Coherence
import Uvfs.Vfs.Positions

/-!
# Short copies

The copy from the user stops early when the user's buffer faults.  `uvfs_write_end` then clears the
part of the page that was to be written and was not, "the stale part", and sends the copied part
only.  A page that is `Uptodate` is not stale there: it held what the file holds.

* `Matches` : a page holds what the file holds, below `i_size`.
* `endWrite` : `uvfs_write_end` after a copy, with a server that accepts the write.
* `short_copy_keeps_page_iff` : when the page still matches.
-/

namespace Uvfs.Vfs

/-- The page holds what the file holds there, at every position below `i_size`. -/
def Matches (st : Store) (inode : Inode) (pg : Page) : Prop :=
  ∀ k < pageCacheSize, ((pg.index * pageCacheSize + k : ℕ) : ℤ) < inode.iSize →
    pg.data k = st.bytes (pg.index * pageCacheSize + k)

/-- The copy from the user into a page: `copied` bytes for the position `pos`. -/
def copyIn (pg : Page) (pos copied : ℕ) (user : Mem) : Page :=
  { pg with data := pg.data.overlay (pos % pageCacheSize) copied user }

/-- The write of `len` bytes at `pos`, of which `copied` were copied: the inode, the page and the
file after `uvfs_write_end`. -/
def endWrite (l : LongWidth) (c : Cred) (inode : Inode) (pg : Page) (st : Store)
    (pos len copied : ℕ) (user : Mem) : Inode × Page × Store :=
  let r := (uvfsWriteEnd l c inode (copyIn pg pos copied user) pos len copied).run serve st
  (r.1.1, r.1.2.1, r.2)

variable {l : LongWidth} {c : Cred} {inode : Inode} {pg : Page} {st : Store} {pos len copied k : ℕ}
  {user : Mem}

/-- The write lies in the page and below `s_maxbytes`, and the copy was short. -/
structure ShortCopy (pg : Page) (pos len copied : ℕ) : Prop where
  index : pg.index = pos / pageCacheSize
  page : pos % pageCacheSize + len ≤ pageCacheSize
  bound : pos + len ≤ sMaxbytes
  short : copied < len

namespace ShortCopy

theorem start (h : ShortCopy pg pos len copied) :
    pg.index * pageCacheSize + pos % pageCacheSize = pos := by
  rw [h.index, Nat.div_add_mod']

theorem admitted (h : ShortCopy pg pos len copied) :
    Admitted pg.index (pos % pageCacheSize) (pos % pageCacheSize + copied) :=
  h.index ▸ .of_write h.page h.bound h.short.le

/-- `i_size` after the write. -/
theorem endWrite_iSize (h : ShortCopy pg pos len copied) :
    (endWrite l c inode pg st pos len copied user).1.iSize =
      max inode.iSize (pos + copied : ℕ) := by
  conv_rhs => rw [← h.start, add_assoc]
  exact @run_uvfsWriteEnd_iSize _ _ _ _ _ _ (copyIn pg pos copied user) _ _ _ h.admitted

/-- The page and the file after the write. -/
theorem endWrite_eq (h : ShortCopy pg pos len copied) :
    let pg' := clearRest (copyIn pg pos copied user) pos len copied
    (endWrite l c inode pg st pos len copied user).2 = (pg'.setUptodate.unlock,
      st.write pos copied fun i => pg'.data (pos % pageCacheSize + i)) := by
  have hindex : (clearRest (copyIn pg pos copied user) pos len copied).index = pg.index :=
    clearRest_index
  have had : Admitted (clearRest (copyIn pg pos copied user) pos len copied).index _ _ :=
    hindex ▸ h.admitted
  unfold endWrite
  rw [uvfsWriteEnd_eq]
  simp only [Dialogue.run_bind, Dialogue.run_pure, run_uvfsCommitWrite had]
  rw [hindex, h.start, Nat.add_sub_cancel_left]

theorem endWrite_index (h : ShortCopy pg pos len copied) :
    (endWrite l c inode pg st pos len copied user).2.1.index = pg.index := by
  rw [h.endWrite_eq]
  exact clearRest_index

/-- A byte of the page after the write: from the user, cleared, or as it was. -/
theorem endWrite_data (h : ShortCopy pg pos len copied) :
    (endWrite l c inode pg st pos len copied user).2.1.data k =
      if k < pos % pageCacheSize then pg.data k
      else if k < pos % pageCacheSize + copied then user (k - pos % pageCacheSize)
      else if k < pos % pageCacheSize + len then 0 else pg.data k := by
  have hshort := h.short
  rw [h.endWrite_eq]
  simp only [Page.setUptodate, Page.unlock, clearRest, if_pos hshort, copyIn]
  split_ifs with h₁ h₂ h₃
  · rw [Mem.overlay_of_not_mem (by omega), Mem.overlay_of_not_mem (by omega)]
  · rw [Mem.overlay_of_not_mem (by omega), Mem.overlay_of_mem (by omega) (by omega)]
  · rw [Mem.overlay_of_mem (by omega) (by omega)]
  · rw [Mem.overlay_of_not_mem (by omega), Mem.overlay_of_not_mem (by omega)]

/-- A byte of the file after the write: from the user, or as it was. -/
theorem endWrite_bytes (h : ShortCopy pg pos len copied) :
    (endWrite l c inode pg st pos len copied user).2.2.bytes (pg.index * pageCacheSize + k) =
      if k < pos % pageCacheSize then st.bytes (pg.index * pageCacheSize + k)
      else if k < pos % pageCacheSize + copied then user (k - pos % pageCacheSize)
      else st.bytes (pg.index * pageCacheSize + k) := by
  have hstart := h.start
  rw [h.endWrite_eq]
  simp only [Store.write]
  split_ifs with h₁ h₂
  · rw [Mem.overlay_of_not_mem (by omega)]
  · have hoff : pos % pageCacheSize + (pg.index * pageCacheSize + k - pos) = k := by omega
    rw [Mem.overlay_of_mem (by omega) (by omega), hoff, clearRest_data h₂]
    simp only [copyIn]
    rw [Mem.overlay_of_mem (by omega) (by omega)]
  · rw [Mem.overlay_of_not_mem (by omega)]

/-- The page and the file after the write, byte by byte. -/
theorem matches_endWrite_iff (h : ShortCopy pg pos len copied) :
    let r := endWrite l c inode pg st pos len copied user
    Matches r.2.2 r.1 r.2.1 ↔ ∀ k < pageCacheSize,
      ((pg.index * pageCacheSize + k : ℕ) : ℤ) < max inode.iSize (pos + copied : ℕ) →
      (if k < pos % pageCacheSize then pg.data k
        else if k < pos % pageCacheSize + copied then user (k - pos % pageCacheSize)
        else if k < pos % pageCacheSize + len then 0 else pg.data k) =
      if k < pos % pageCacheSize then st.bytes (pg.index * pageCacheSize + k)
        else if k < pos % pageCacheSize + copied then user (k - pos % pageCacheSize)
        else st.bytes (pg.index * pageCacheSize + k) := by
  simp only [Matches, h.endWrite_index, h.endWrite_iSize, h.endWrite_data, h.endWrite_bytes]

end ShortCopy

/-- **A short copy keeps a good page only by chance.**  The page holds what the file holds below
`i_size`, and a part of the bytes for it was copied.  After `uvfs_write_end` and a write that the
server accepted the page holds what the file holds below `i_size` again if and only if

* the file has zeros in that part of the write that was not copied and lies below the old `i_size`,
  and
* the page holds what the file holds between the old `i_size` and the write, which now lies below
  `i_size`. -/
theorem short_copy_keeps_page_iff (h : ShortCopy pg pos len copied) (hgood : Matches st inode pg) :
    let r := endWrite l c inode pg st pos len copied user
    Matches r.2.2 r.1 r.2.1 ↔
      (∀ p, pos + copied ≤ p → p < pos + len → (p : ℤ) < inode.iSize → st.bytes p = 0) ∧
      ∀ k < pos % pageCacheSize, inode.iSize ≤ (pg.index * pageCacheSize + k : ℕ) →
        pg.data k = st.bytes (pg.index * pageCacheSize + k) := by
  have hstart := h.start
  have hpage := h.page
  have hshort := h.short
  refine h.matches_endWrite_iff.trans ⟨fun hm => ⟨fun p hfrom hto hlt => ?_, fun k hk hle => ?_⟩,
    fun ⟨hzero, hgap⟩ k hk hlt => ?_⟩
  · have hp : pg.index * pageCacheSize + (p - pg.index * pageCacheSize) = p := by omega
    have hbyte := hm (p - pg.index * pageCacheSize) (by omega) (by omega)
    rw [if_neg (by omega), if_neg (by omega), if_pos (by omega), if_neg (by omega),
      if_neg (by omega), hp] at hbyte
    exact hbyte.symm
  · have hbyte := hm k (by omega) (by omega)
    rwa [if_pos hk, if_pos hk] at hbyte
  · split_ifs with h₁ h₂ h₃
    · by_cases hold : ((pg.index * pageCacheSize + k : ℕ) : ℤ) < inode.iSize
      · exact hgood k hk hold
      · exact hgap k h₁ (not_lt.mp hold)
    · rfl
    · exact (hzero _ (by omega) (by omega) (by omega)).symm
    · exact hgood k hk (by omega)

/-- In a file of ten bytes `7`, one byte of two is written at the end; what is cleared lies behind
it. -/
theorem short_copy_keeps_page_at_end :
    let pg : Page := ⟨0, tenSevens.bytes, true, false, 0⟩
    let r := endWrite .w64 ⟨0, 0⟩ tenByteInode pg tenSevens 9 2 1 fun _ => 1
    Matches tenSevens tenByteInode pg ∧ Matches r.2.2 r.1 r.2.1 := by
  intro pg r
  have hgood : Matches tenSevens tenByteInode pg := by
    intro k _ _
    simp [pg]
  refine ⟨hgood, (short_copy_keeps_page_iff ⟨rfl, by decide, by decide, by decide⟩ hgood).mpr
    ⟨fun p hfrom hto hlt => ?_, fun k hk hle => ?_⟩⟩
  · exact tenSevens.tail p hfrom
  · simp [pg]

/-- One byte of two is written at position 3 of that file.  The page now has `0` at position 4,
where the file has `7`. -/
theorem short_copy_damages_page :
    let pg : Page := ⟨0, tenSevens.bytes, true, false, 0⟩
    let r := endWrite .w64 ⟨0, 0⟩ tenByteInode pg tenSevens 3 2 1 fun _ => 1
    pg.uptodate = true ∧ Matches tenSevens tenByteInode pg ∧ ShortCopy pg 3 2 1 ∧
      ¬ Matches r.2.2 r.1 r.2.1 := by
  intro pg r
  have hshort : ShortCopy pg 3 2 1 := ⟨rfl, by decide, by decide, by decide⟩
  refine ⟨rfl, fun k _ _ => by simp [pg], hshort, fun h => ?_⟩
  have hbyte := hshort.matches_endWrite_iff.mp h 4 (by decide) (by decide)
  simp [pg, tenSevens, pageCacheSize] at hbyte

end Uvfs.Vfs
