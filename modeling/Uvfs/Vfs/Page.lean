import Uvfs.Lib.Dialogue
import Uvfs.Vfs.Inode

/-!
# Pages

`file.c` moves pages between the page cache and the server.  Each function is a `Dialogue` with the
driver: it gets a transaction, makes one request and frees the transaction, and what it does to the
page and the inode depends on the reply.

A page is an image of memory: the offsets below `PAGE_CACHE_SIZE` are the page, the others lie
behind it; the same holds for the buffer of a reply.  Lengths are computed as the code does, with
the widths of its types.

* `DriverCall` : the calls; `FileReply` : what the code reads of a reply.
* `uvfsWrite`, `uvfsWritepage`, `uvfsReadpage`, `uvfsWriteBegin`, `uvfsWriteEnd`,
  `uvfsPrepareWrite`, `uvfsCommitWrite`.
-/

namespace Uvfs.Vfs

/-- `s_maxbytes`, as `uvfs_read_super` sets it. -/
def sMaxbytes : ℕ := 0xFFFFFFFF

/-- `-ENOMEM`. -/
def enomem : ℤ := -12

/-- Who makes the call: `current_fsuid` and `current_fsgid`. -/
structure Cred where
  /-- `current_fsuid()`. -/
  fsuid : Word
  /-- `current_fsgid()`. -/
  fsgid : Word

/-! ## Messages -/

/-- `uvfs_file_write_req_s`, without type and serial. -/
structure WriteRequest where
  /-- `size`. -/
  size : Word
  /-- `uid` and `gid`. -/
  cred : Cred
  /-- `fh`. -/
  fh : Fhandle
  /-- `count`, `unsigned`. -/
  count : Word
  /-- `offset`, `unsigned`. -/
  offset : Word
  /-- `buff`. -/
  buff : Mem

/-- `uvfs_file_read_req_s`, without type and serial. -/
structure ReadRequest where
  /-- `size`. -/
  size : Word
  /-- `uid` and `gid`. -/
  cred : Cred
  /-- `fh`. -/
  fh : Fhandle
  /-- `count`, `int`. -/
  count : Word
  /-- `offset`, `int`. -/
  offset : Word

/-- The requests of `file.c` for pages. -/
inductive FileRequest
  | write (r : WriteRequest)
  | read (r : ReadRequest)

/-- `uvfs_file_read_rep_s`; of a write's reply only `error` is read. -/
structure FileReply where
  /-- `error`. -/
  error : Word
  /-- `bytes_read`. -/
  bytesRead : Word
  /-- `buff`. -/
  buff : Mem

/-- The calls into the driver. -/
inductive DriverCall
  /-- `uvfs_new_transaction`. -/
  | newTransaction
  /-- `uvfs_make_request`. -/
  | makeRequest (r : FileRequest)
  /-- `kfree`. -/
  | kfree

/-- What a call returns: whether there is a transaction, the reply, nothing. -/
def DriverCall.Answer : DriverCall → Type
  | .newTransaction => Bool
  | .makeRequest _ => FileReply
  | .kfree => Unit

/-- A function that talks to the driver. -/
abbrev Request := Dialogue DriverCall DriverCall.Answer

/-- `uvfs_new_transaction`. -/
def newTransaction : Request Bool := Dialogue.call DriverCall.newTransaction

/-- `uvfs_make_request`. -/
def makeRequest (r : FileRequest) : Request FileReply := Dialogue.call (DriverCall.makeRequest r)

/-- `kfree(trans)`. -/
def kfree : Request Unit := Dialogue.call DriverCall.kfree

/-! ## Pages -/

/-- A page of the page cache. -/
structure Page where
  /-- `index`. -/
  index : ℕ
  /-- The bytes of the page, and those behind it. -/
  data : Mem
  /-- `PageUptodate`. -/
  uptodate : Bool
  /-- `PageError`. -/
  error : Bool
  /-- History: how often `unlock_page` was called. -/
  unlocked : ℕ

namespace Page

/-- `SetPageUptodate`. -/
def setUptodate (pg : Page) : Page := { pg with uptodate := true }

/-- `SetPageError`. -/
def setError (pg : Page) : Page := { pg with error := true }

/-- `unlock_page`. -/
def unlock (pg : Page) : Page := { pg with unlocked := pg.unlocked + 1 }

end Page

/-- `index << PAGE_CACHE_SHIFT`, in `unsigned long`. -/
def pageStart (l : LongWidth) (index : ℕ) : ℕ := l.wrap (index * pageCacheSize)

/-- It is exact up to `s_maxbytes`. -/
theorem pageStart_of_le {l : LongWidth} {index : ℕ} (h : index * pageCacheSize ≤ sMaxbytes) :
    pageStart l index = index * pageCacheSize := by
  unfold sMaxbytes at h
  exact LongWidth.wrap_of_lt (by omega)

/-- So is the index of a position, `pos >> PAGE_CACHE_SHIFT`. -/
theorem wrap_index {l : LongWidth} {pos : ℕ} (h : pos ≤ sMaxbytes) :
    l.wrap (pos / pageCacheSize) = pos / pageCacheSize := by
  unfold sMaxbytes at h
  exact LongWidth.wrap_of_lt (lt_of_le_of_lt (Nat.div_le_self _ _) (by omega))

/-! ## Writing -/

/-- `offsetof(uvfs_file_write_req_s, buff)`. -/
def offsetofBuff : ℕ := (requestLayout .write).dropLast.sum

/-- The request of `uvfs_write`. -/
def writeRequest (c : Cred) (inode : Inode) (buff : Mem) (offset count : Word) : WriteRequest where
  size := BitVec.ofNat 32 offsetofBuff + count
  cred := c
  fh := inode.fh
  count := count
  offset := offset
  buff := buff

/-- `uvfs_write`.
Source: `file.c`, `uvfs_write`. -/
def uvfsWrite (c : Cred) (inode : Inode) (buff : Mem) (offset count : Word) : Request ℤ := do
  if ← newTransaction then
    let reply ← makeRequest (.write (writeRequest c inode buff offset count))
    kfree
    return reply.error.toInt
  else return enomem

/-- The tail of `uvfs_writepage`: write the first `count` bytes of the page. -/
def writePageBytes (l : LongWidth) (c : Cred) (inode : Inode) (pg : Page) (count : Word) :
    Request (Page × ℤ) := do
  let err ← uvfsWrite c inode pg.data (BitVec.ofNat 32 (pageStart l pg.index)) count
  return ((if err ≠ 0 then pg.setError else pg.setUptodate).unlock, err)

/-- `uvfs_writepage`: the page after it and the returned value.
Source: `file.c`, `uvfs_writepage`. -/
def uvfsWritepage (l : LongWidth) (c : Cred) (inode : Inode) (pg : Page) : Request (Page × ℤ) :=
  let endIndex : Word := BitVec.ofInt 32 (inode.iSize / pageCacheSize)
  if pg.index < endIndex.toNat then writePageBytes l c inode pg (BitVec.ofNat 32 pageCacheSize)
  else
    let count : Word := BitVec.ofInt 32 (inode.iSize % pageCacheSize)
    if endIndex.toNat < pg.index ∨ count = 0 then return (pg.setUptodate.unlock, 0)
    else writePageBytes l c inode pg count

/-- How many bytes of a page lie below the end of a file. -/
def bytesInPage (size index : ℕ) : ℕ := min pageCacheSize (size - index * pageCacheSize)

/-- What the two tests of `uvfs_writepage` come to: the part of the page below the end of the file
is written, if there is one. -/
theorem uvfsWritepage_eq {l : LongWidth} {c : Cred} {inode : Inode} {pg : Page} {size : ℕ}
    (hsize : inode.iSize = size) (hmax : size ≤ sMaxbytes) :
    uvfsWritepage l c inode pg =
      if bytesInPage size pg.index = 0 then pure (pg.setUptodate.unlock, 0)
      else writePageBytes l c inode pg (BitVec.ofNat 32 (bytesInPage size pg.index)) := by
  unfold sMaxbytes at hmax
  have hend : (BitVec.ofInt 32 (inode.iSize / pageCacheSize)).toNat = size / pageCacheSize := by
    rw [hsize, ← Int.natCast_div, BitVec.ofInt_natCast]
    exact Width.toNat_ofNat_of_lt (lt_of_le_of_lt (Nat.div_le_self _ _) (by omega))
  have hrest : BitVec.ofInt 32 (inode.iSize % pageCacheSize) =
      BitVec.ofNat 32 (size % pageCacheSize) := by
    rw [hsize, ← Int.natCast_mod, BitVec.ofInt_natCast]
  have hzero : BitVec.ofNat 32 (size % pageCacheSize) = 0 ↔ size % pageCacheSize = 0 := by
    have hlt : size % pageCacheSize < 2 ^ 32 :=
      lt_trans (Nat.mod_lt _ (by decide)) (by norm_num [pageCacheSize])
    rw [← BitVec.toNat_inj, Width.toNat_ofNat_of_lt hlt]
    rfl
  simp only [uvfsWritepage, hend, hrest, hzero]
  rcases lt_trichotomy pg.index (size / pageCacheSize) with hlt | heq | hgt
  · have hbytes : bytesInPage size pg.index = pageCacheSize := by
      unfold bytesInPage pageCacheSize at *
      omega
    rw [if_pos hlt, hbytes, if_neg (by decide)]
  · have hbytes : bytesInPage size pg.index = size % pageCacheSize := by
      unfold bytesInPage pageCacheSize at *
      omega
    rw [if_neg heq.not_lt, hbytes]
    simp only [heq, lt_irrefl, false_or]
  · have hbytes : bytesInPage size pg.index = 0 := by
      unfold bytesInPage pageCacheSize at *
      omega
    rw [if_neg (by omega), if_pos (.inl hgt), if_pos hbytes]

/-- `uvfs_prepare_write`, which does nothing.
Source: `file.c`, `uvfs_prepare_write`. -/
def uvfsPrepareWrite (_pg : Page) (_offset _upto : ℕ) : ℤ := 0

/-- `off` of `uvfs_commit_write`: where the written part of the page starts. -/
def commitOff (l : LongWidth) (index offset : ℕ) : Word :=
  BitVec.ofNat 32 (pageStart l index + offset)

/-- `count` of `uvfs_commit_write`. -/
def commitCount (offset upto : ℕ) : Word := BitVec.ofNat 32 upto - BitVec.ofNat 32 offset

/-- `pos` of `uvfs_commit_write`: where the written part of the page ends. -/
def commitPos (l : LongWidth) (index upto : ℕ) : ℤ :=
  l.toLoff (pageStart l index + upto)

/-- `uvfs_commit_write`: the inode and the page after it, and the returned value.  `i_size` moves
and the page becomes `Uptodate` whatever the reply.
Source: `file.c`, `uvfs_commit_write`. -/
def uvfsCommitWrite (l : LongWidth) (c : Cred) (inode : Inode) (pg : Page) (offset upto : ℕ) :
    Request (Inode × Page × ℤ) := do
  let retval ← uvfsWrite c inode (fun i => pg.data (offset + i)) (commitOff l pg.index offset)
    (commitCount offset upto)
  let pos := commitPos l pg.index upto
  return (if pos > inode.iSize then { inode with iSize := pos } else inode, pg.setUptodate, retval)

/-- The part of a page that the generic write path asks for: inside the page and below
`s_maxbytes`. -/
structure Admitted (index offset upto : ℕ) : Prop where
  le : offset ≤ upto
  page : upto ≤ pageCacheSize
  max : index * pageCacheSize + upto ≤ sMaxbytes

instance (index offset upto : ℕ) : Decidable (Admitted index offset upto) :=
  decidable_of_iff (offset ≤ upto ∧ upto ≤ pageCacheSize ∧ index * pageCacheSize + upto ≤ sMaxbytes)
    ⟨fun ⟨h₁, h₂, h₃⟩ => ⟨h₁, h₂, h₃⟩, fun ⟨h₁, h₂, h₃⟩ => ⟨h₁, h₂, h₃⟩⟩

namespace Admitted

variable {l : LongWidth} {index offset upto : ℕ}

/-- A write of `len` bytes at `pos` that lies in one page, of which `copied` were copied. -/
theorem of_write {pos len copied : ℕ} (hpage : pos % pageCacheSize + len ≤ pageCacheSize)
    (hmax : pos + len ≤ sMaxbytes) (hcopied : copied ≤ len) :
    Admitted (pos / pageCacheSize) (pos % pageCacheSize) (pos % pageCacheSize + copied) where
  le := Nat.le_add_right _ _
  page := by omega
  max := by
    rw [← add_assoc, Nat.div_add_mod']
    omega

theorem pageStart_eq (h : Admitted index offset upto) :
    pageStart l index = index * pageCacheSize := by
  have hmax := h.max
  exact pageStart_of_le (by omega)

theorem commitOff_eq (h : Admitted index offset upto) :
    (commitOff l index offset).toNat = index * pageCacheSize + offset := by
  have hmax := h.max
  have hle := h.le
  unfold sMaxbytes at hmax
  rw [commitOff, h.pageStart_eq]
  exact Width.toNat_ofNat_of_lt (by omega)

theorem commitCount_eq (h : Admitted index offset upto) :
    (commitCount offset upto).toNat = upto - offset := by
  have hle := h.le
  have hpage := h.page
  unfold pageCacheSize at hpage
  rw [commitCount, BitVec.toNat_sub, BitVec.toNat_ofNat, BitVec.toNat_ofNat]
  omega

theorem commitPos_eq (h : Admitted index offset upto) :
    commitPos l index upto = index * pageCacheSize + upto := by
  have hmax := h.max
  unfold sMaxbytes at hmax
  rw [commitPos, h.pageStart_eq, LongWidth.toLoff_of_lt (by omega)]
  push_cast
  rfl

end Admitted

/-- `uvfs_write_begin`: the page that `grab_cache_page_write_begin` finds or adds, and the returned
value; `none` when there is no memory for a page.
Source: `file.c`, `uvfs_write_begin`. -/
def uvfsWriteBegin (l : LongWidth) (grabCachePage : ℕ → Option Page) (pos len : ℕ) :
    Option Page × ℤ :=
  let index := l.wrap (pos / pageCacheSize)
  let start := pos % pageCacheSize
  match grabCachePage index with
  | none => (none, enomem)
  | some pg => (some pg, uvfsPrepareWrite pg start (start + len))

/-- `uvfs_write_end`: the inode and the page after it, and the returned value.  After a short copy
the rest of the range is cleared.
Source: `file.c`, `uvfs_write_end`. -/
def uvfsWriteEnd (l : LongWidth) (c : Cred) (inode : Inode) (pg : Page) (pos len copied : ℕ) :
    Request (Inode × Page × ℕ) := do
  let start := pos % pageCacheSize
  -- the bytes of a page that is `Uptodate` are not stale, and are cleared all the same
  let pg := if copied < len then
    { pg with data := pg.data.overlay (start + copied) (len - copied) fun _ => 0 } else pg
  let (inode, pg, _) ← uvfsCommitWrite l c inode pg start (start + copied)
  return (inode, pg.unlock, copied)

section

variable {l : LongWidth} {c : Cred} {inode : Inode} {pg : Page} {pos len copied : ℕ}

/-- The page that `uvfs_write_end` commits: after a short copy the rest of the range is cleared. -/
def clearRest (pg : Page) (pos len copied : ℕ) : Page :=
  if copied < len then
    { pg with data := pg.data.overlay (pos % pageCacheSize + copied) (len - copied) fun _ => 0 }
  else pg

theorem clearRest_index : (clearRest pg pos len copied).index = pg.index := by
  unfold clearRest
  split_ifs
  · rfl
  · rfl

/-- The part of the page that was copied is not cleared. -/
theorem clearRest_data {k : ℕ} (hk : k < pos % pageCacheSize + copied) :
    (clearRest pg pos len copied).data k = pg.data k := by
  unfold clearRest
  split_ifs
  · dsimp only
    rw [Mem.overlay_of_not_mem (.inl hk)]
  · rfl

/-- `uvfs_write_end` is `uvfs_commit_write` on that page. -/
theorem uvfsWriteEnd_eq : uvfsWriteEnd l c inode pg pos len copied = do
    let r ← uvfsCommitWrite l c inode (clearRest pg pos len copied) (pos % pageCacheSize)
      (pos % pageCacheSize + copied)
    return (r.1, r.2.1.unlock, copied) := rfl

end

/-! ## Reading -/

/-- The request of `uvfs_readpage`. -/
def readRequest (l : LongWidth) (c : Cred) (inode : Inode) (pg : Page) : ReadRequest where
  size := BitVec.ofNat 32 (requestLayout .read).sum
  cred := c
  fh := inode.fh
  count := BitVec.ofNat 32 pageCacheSize
  offset := BitVec.ofNat 32 (pageStart l pg.index)

/-- The page filled from a reply: `memcpy` of `bytes_read` bytes, then zeros up to the end of the
page. The length of the `memcpy` and the comparison are unsigned.
Source: `file.c`, `uvfs_readpage`, lines 205–211. -/
def fillPage (l : LongWidth) (data : Mem) (reply : FileReply) : Mem :=
  let n := l.ofInt reply.bytesRead
  let copied := data.overlay 0 n reply.buff
  if n < pageCacheSize then copied.overlay n (pageCacheSize - n) fun _ => 0 else copied

/-- A byte of the page: from the reply, or zero. -/
theorem fillPage_apply {l : LongWidth} {data : Mem} {reply : FileReply} {k : ℕ}
    (hk : k < pageCacheSize) :
    fillPage l data reply k = if k < l.ofInt reply.bytesRead then reply.buff k else 0 := by
  have hcopied : ∀ n, k < n → data.overlay 0 n reply.buff k = reply.buff k := fun n h => by
    rw [Mem.overlay_of_mem (Nat.zero_le k) (by omega), Nat.sub_zero]
  unfold fillPage
  split_ifs with hlt hkn hkn
  · rw [Mem.overlay_of_not_mem (.inl hkn)]
    exact hcopied _ hkn
  · rw [Mem.overlay_of_mem (by omega) (by omega)]
  · exact hcopied _ hkn
  · exact absurd (lt_of_lt_of_le hk (Nat.le_of_not_lt hlt)) hkn

/-- `uvfs_readpage`: the page after it and the returned value.
Source: `file.c`, `uvfs_readpage`. -/
def uvfsReadpage (l : LongWidth) (c : Cred) (inode : Inode) (pg : Page) : Request (Page × ℤ) := do
  if ← newTransaction then
    let reply ← makeRequest (.read (readRequest l c inode pg))
    if reply.error.toInt < 0 then
      kfree
      return (pg.setError.unlock, reply.error.toInt)
    else
      kfree
      return ({ pg with data := fillPage l pg.data reply }.setUptodate.unlock, 0)
  else return (pg, enomem)

end Uvfs.Vfs
