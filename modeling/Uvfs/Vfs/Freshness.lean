import Uvfs.Vfs.Coherence

/-!
# Several kernels and one file

Other machines change the file too.  Before it reads, writes or maps, each kernel asks the server
for the attributes and throws its pages away when the size or the modification time is not the one
it has recorded.  So what it has recorded stands for the bytes it has cached: as long as every
change by somebody else shows in the size or the time, a kernel whose record matches has the right
pages, and a kernel whose record does not match loses them before it uses them.

That its pages were right when it recorded them is not the module's doing: a page that is written in
part before it was read is `Uptodate` with what its memory held, however well the change shows.  So
the runs here also meet `FillsPages`.

* `Generic` : what the module leaves to the kernel, the read and write paths and the invalidation;
  `Generic.Documented` : what the kernel's documentation says of them.
* `Share` : the file at the server, and what each kernel has of it.
* `ShareAct`, `shareStep` : the steps of each kernel on its pages, revalidation, eviction, and
  changes at the server.
* `Share.Matches` : the record matches the file; `Shows` : changes by others show; `Fills` : who
  matches meets `FillsPages`; `ShowsAndFills` : both.
* `Share.Fresh` : who matches is coherent; `Fresh.step`.
* `pageByPage` : paths that are as documented.
* `uvfsFileRead`, `uvfsFileWrite` : the calls; `file_read_returns_server_bytes`,
  `file_write_seen_by_all`.
-/

namespace Uvfs.Vfs

open Transition

variable {l : LongWidth} {c : Cred}

/-! ## What a step of one kernel keeps in any case -/

/-- What holds of a kernel's copy whether it is up to date or not. -/
structure InOrder (s : CacheState) : Prop where
  nonneg : 0 ≤ s.inode.iSize
  le : s.inode.iSize ≤ sMaxbytes
  max : s.store.size ≤ sMaxbytes
  index : ∀ index pg, s.pages index = some pg → pg.index = index

namespace InOrder

variable {s s' : CacheState} {index : ℕ} {pg : Page}

theorem grab_index (h : InOrder s) (index : ℕ) (junk : Mem) :
    (s.grab index junk).index = index := by
  cases hp : s.pages index with
  | none => simp [CacheState.grab, hp]
  | some pg => simpa [CacheState.grab, hp] using h.index index pg hp

/-- A page is put where it belongs. -/
theorem setPage (h : InOrder s) (pg : Page) : InOrder (s.setPage pg) := by
  refine ⟨h.nonneg, h.le, h.max, fun i pg' hp => ?_⟩
  by_cases hi : i = pg.index
  · subst hi
    simp only [CacheState.setPage, Function.update_self, Option.some.injEq] at hp
    exact congrArg Page.index hp.symm
  · simp only [CacheState.setPage, Function.update_of_ne hi] at hp
    exact h.index i pg' hp

/-- The file grows by a write below `s_maxbytes`. -/
theorem write (h : InOrder s) (data : Mem) {off count : ℕ} (hle : off + count ≤ sMaxbytes) :
    InOrder { s with store := s.store.write off count data } := by
  refine ⟨h.nonneg, h.le, ?_, h.index⟩
  have hmax := h.max
  simp only [Store.write]
  split_ifs <;> omega

/-- The write of a part of a page. -/
theorem commit (h : InOrder s) (pg : Page) {offset upto : ℕ} (had : Admitted pg.index offset upto) :
    InOrder { s with
      inode := ((uvfsCommitWrite l c s.inode pg offset upto).run serve s.store).1.1
      store := ((uvfsCommitWrite l c s.inode pg offset upto).run serve s.store).2 } := by
  have hmax := had.max
  have hle : pg.index * pageCacheSize + offset + (upto - offset) ≤ sMaxbytes := by
    have hle := had.le
    omega
  rw [run_uvfsCommitWrite had]
  obtain ⟨_, _, hstore, hindex⟩ := h.write (fun i => pg.data (offset + i)) hle
  refine ⟨?_, ?_, hstore, hindex⟩ <;> dsimp only <;> split_ifs
  · exact Int.natCast_nonneg _
  · exact h.nonneg
  · exact Int.ofNat_le.mpr hmax
  · exact h.le

theorem readpage (h : InOrder s) {junk : Mem} (hstep : s.readpage l c index junk = some s') :
    InOrder s' := by
  unfold CacheState.readpage at hstep
  split_ifs at hstep
  rw [run_uvfsReadpage] at hstep
  cases hstep
  exact h.setPage _

theorem bufferedWrite (h : InOrder s) {pos len : ℕ} {user junk : Mem}
    (hstep : s.bufferedWrite l c pos len user junk = some s') : InOrder s' := by
  unfold CacheState.bufferedWrite at hstep
  split_ifs at hstep with hpos
  obtain ⟨hlen, hpage, hmax⟩ := hpos
  have hwrap : l.wrap (pos / pageCacheSize) = pos / pageCacheSize := wrap_index (by omega)
  have hindex := h.grab_index (pos / pageCacheSize) junk
  have had : Admitted (s.grab (pos / pageCacheSize) junk).index (pos % pageCacheSize)
      (pos % pageCacheSize + len) := by
    rw [hindex]
    exact .of_write hpage hmax le_rfl
  simp only [uvfsWriteBegin, hwrap, run_uvfsWriteEnd] at hstep
  cases hstep
  exact (h.commit (l := l) (c := c) { s.grab (pos / pageCacheSize) junk with
    data := (s.grab (pos / pageCacheSize) junk).data.overlay (pos % pageCacheSize) len user }
    had).setPage _

theorem committedWrite (h : InOrder s) {offset upto : ℕ} {user junk : Mem}
    (hstep : s.committedWrite l c index offset upto user junk = some s') : InOrder s' := by
  simp only [CacheState.committedWrite, uvfsPrepareWrite, if_true] at hstep
  split_ifs at hstep with had
  have hindex := h.grab_index index junk
  have had' : Admitted (s.grab index junk).index offset upto := hindex.symm ▸ had.2
  cases hstep
  exact (h.commit (l := l) (c := c) { s.grab index junk with
    data := (s.grab index junk).data.overlay offset (upto - offset) user } had').setPage _

/-- `uvfs_writepage` on any page: what lies below the end that the inode knows is written. -/
theorem run_uvfsWritepage_of_size {inode : Inode} {st : Store} {size : ℕ}
    (hsize : inode.iSize = size) (hmax : size ≤ sMaxbytes) :
    ((uvfsWritepage l c inode pg).run serve st) = ((pg.setUptodate.unlock, 0),
      if bytesInPage size pg.index = 0 then st
      else st.write (pg.index * pageCacheSize) (bytesInPage size pg.index) pg.data) := by
  rw [uvfsWritepage_eq hsize hmax]
  unfold sMaxbytes at hmax
  split_ifs with hzero
  · rfl
  · have hle : pg.index * pageCacheSize + bytesInPage size pg.index ≤ size := by
      unfold bytesInPage pageCacheSize at *
      omega
    have hoff : (BitVec.ofNat 32 (pageStart l pg.index)).toNat = pg.index * pageCacheSize := by
      rw [pageStart_of_le (by unfold sMaxbytes; omega)]
      exact Width.toNat_ofNat_of_lt (by omega)
    have hcount : (BitVec.ofNat 32 (bytesInPage size pg.index)).toNat =
        bytesInPage size pg.index := Width.toNat_ofNat_of_lt (by omega)
    simp only [writePageBytes, Dialogue.run_bind, run_uvfsWrite, Dialogue.run_pure, hoff, hcount]
    rfl

theorem writepage (h : InOrder s) (hstep : s.writepage l c index = some s') : InOrder s' := by
  obtain ⟨pg, hp, rfl⟩ := Option.map_eq_some_iff.mp hstep
  obtain ⟨size, hsize⟩ := Int.eq_ofNat_of_zero_le h.nonneg
  have hmax : size ≤ sMaxbytes := by
    have hle := h.le
    rw [hsize] at hle
    exact Int.ofNat_le.mp hle
  rw [run_uvfsWritepage_of_size hsize hmax]
  refine InOrder.setPage ?_ _
  dsimp only
  split_ifs with hzero
  · exact h
  · refine h.write pg.data ?_
    unfold bytesInPage pageCacheSize at *
    omega

/-- Every step of a kernel keeps its copy in order. -/
theorem step {a : CacheAct} (h : InOrder s) (hstep : cacheStep l c s a = some s') : InOrder s' := by
  cases a with
  | readpage index junk => exact h.readpage hstep
  | write pos len user junk => exact h.bufferedWrite hstep
  | commit index offset upto user junk => exact h.committedWrite hstep
  | writepage index => exact h.writepage hstep

end InOrder

/-- No step of a kernel touches the modification time that it has recorded. -/
theorem cacheStep_iMtime {s s' : CacheState} {a : CacheAct} (hstep : cacheStep l c s a = some s') :
    s'.inode.iMtime = s.inode.iMtime := by
  have hcommit : ∀ (pg : Page) (offset upto : ℕ),
      ((uvfsCommitWrite l c s.inode pg offset upto).run serve s.store).1.1.iMtime =
        s.inode.iMtime := by
    intro pg offset upto
    simp only [uvfsCommitWrite, Dialogue.run_bind, Dialogue.run_pure]
    split_ifs <;> rfl
  cases a with
  | readpage index junk =>
      simp only [cacheStep, CacheState.readpage] at hstep
      split_ifs at hstep
      cases hstep
      rfl
  | write pos len user junk =>
      simp only [cacheStep, CacheState.bufferedWrite, uvfsWriteBegin, run_uvfsWriteEnd] at hstep
      split_ifs at hstep
      cases hstep
      exact hcommit _ (pos % pageCacheSize) (pos % pageCacheSize + len)
  | commit index offset upto user junk =>
      simp only [cacheStep, CacheState.committedWrite, uvfsPrepareWrite, if_true] at hstep
      split_ifs at hstep
      cases hstep
      exact hcommit _ offset upto
  | writepage index =>
      obtain ⟨pg, _, rfl⟩ := Option.map_eq_some_iff.mp hstep
      rfl

/-- To read a page changes neither the file nor the inode. -/
theorem cacheStep_readpage {s s' : CacheState} {index : ℕ} {junk : Mem}
    (hstep : cacheStep l c s (.readpage index junk) = some s') :
    s'.store = s.store ∧ s'.inode = s.inode := by
  simp only [cacheStep, CacheState.readpage, run_uvfsReadpage] at hstep
  split_ifs at hstep
  cases hstep
  exact ⟨rfl, rfl⟩

/-! ## What the kernel does by itself -/

/-- The byte of the page at a position. -/
def CacheState.byteAt (s : CacheState) (p : ℕ) : Byte :=
  ((s.pages (p / pageCacheSize)).map fun pg => pg.data (p % pageCacheSize)).getD 0

/-- The functions of the kernel that the module calls for a file. -/
structure Generic where
  /-- `invalidate_inode_pages2`, before Linux 2.6.18 `invalidate_inode_pages`. -/
  invalidate : (ℕ → Option Page) → ℕ → Option Page
  /-- `do_sync_read`, before Linux 2.6.32 `generic_file_read`: the bytes for the user, and what the
  kernel has then. -/
  read : CacheState → ℕ → ℕ → List Byte × CacheState
  /-- `do_sync_write`, before Linux 2.6.32 `generic_file_write`: the writes to parts of pages that
  it makes, one after the other. -/
  write : ℕ → ℕ → Mem → List CacheAct

/-- A read of `count` bytes at `pos`: some pages are read in that start below the end of the file
and no more than `ahead` bytes behind the bytes asked for; then those of the bytes that lie below
the end of the file are `Uptodate`, and they are copied out. -/
structure ReadsIn (l : LongWidth) (c : Cred) (ahead : ℕ) (s : CacheState) (pos count : ℕ)
    (r : List Byte × CacheState) : Prop where
  fills : ∃ ps : List (ℕ × Mem),
    (∀ p ∈ ps, p.1 * pageCacheSize < min (pos + count + ahead) s.inode.iSize.toNat) ∧
    Follows (cacheStep l c) (fun _ _ => True) s (ps.map fun p => .readpage p.1 p.2) r.2
  read : ∀ i < min count (s.inode.iSize.toNat - pos), r.2.Read ((pos + i) / pageCacheSize)
  bytes : r.1 =
    (List.range (min count (s.inode.iSize.toNat - pos))).map fun i => r.2.byteAt (pos + i)

/-- A write of `count` bytes at `pos`: one part after the other, each inside of a page, through
`uvfs_write_begin` and `uvfs_write_end` or through `uvfs_prepare_write` and `uvfs_commit_write`. -/
inductive WritesParts : ℕ → ℕ → Mem → List CacheAct → Prop
  | done {pos : ℕ} {user : Mem} : WritesParts pos 0 user []
  | write {pos len count : ℕ} {user junk : Mem} {as : List CacheAct} (hlen : 0 < len)
      (hpage : pos % pageCacheSize + len ≤ pageCacheSize)
      (hrest : WritesParts (pos + len) count (fun i => user (len + i)) as) :
      WritesParts pos (len + count) user (.write pos len user junk :: as)
  | commit {pos len count : ℕ} {user junk : Mem} {as : List CacheAct} (hlen : 0 < len)
      (hpage : pos % pageCacheSize + len ≤ pageCacheSize)
      (hrest : WritesParts (pos + len) count (fun i => user (len + i)) as) :
      WritesParts pos (len + count) user (.commit (pos / pageCacheSize) (pos % pageCacheSize)
        (pos % pageCacheSize + len) user junk :: as)

/-- What the documentation of the kernel says of its functions, when there is memory and the user's
buffer can be copied.  The invalidation removes every page: those here are written through and
unlocked before a function returns, and nobody maps the file. -/
structure Generic.Documented (g : Generic) (l : LongWidth) (c : Cred) (ahead : ℕ) : Prop where
  invalidates : ∀ pages i, g.invalidate pages i = none
  reads : ∀ s pos count, InOrder s → ReadsIn l c ahead s pos count (g.read s pos count)
  writes : ∀ pos count user, WritesParts pos count user (g.write pos count user)

/-! ## The system -/

/-- A file at the server, and what each kernel has of it. -/
structure Share where
  /-- The file. -/
  store : Store
  /-- Its modification time. -/
  mtime : UvfsTimespec
  /-- The inode of each kernel. -/
  inode : ℕ → Inode
  /-- The page cache of each kernel. -/
  pages : ℕ → ℕ → Option Page

/-- What happens to it. -/
inductive ShareAct
  /-- Kernel `k` works on its pages; a request that writes leaves the file with the time `stamp`. -/
  | cache (k : ℕ) (a : CacheAct) (stamp : UvfsTimespec)
  /-- `uvfs_revalidate_inode` in kernel `k`, which the server answers; `a` are the attributes other
  than size and modification time. -/
  | revalidate (k : ℕ) (fsuid : Word) (a : UvfsAttr)
  /-- Kernel `k` takes a page out of its cache. -/
  | evict (k index : ℕ)
  /-- The file is changed by somebody else. -/
  | change (store : Store) (stamp : UvfsTimespec)

/-- The step can make a request that writes. -/
def CacheAct.Stores : CacheAct → Prop
  | .readpage _ _ => False
  | .write _ _ _ _ | .commit _ _ _ _ _ | .writepage _ => True

instance : (a : CacheAct) → Decidable a.Stores
  | .readpage _ _ => isFalse id
  | .write _ _ _ _ | .commit _ _ _ _ _ | .writepage _ => isTrue trivial

namespace Share

/-- What kernel `k` sees. -/
def view (s : Share) (k : ℕ) : CacheState := ⟨s.inode k, s.pages k, s.store⟩

/-- Kernel `k` has changed what it sees. -/
def setView (s : Share) (k : ℕ) (v : CacheState) : Share :=
  { s with
    store := v.store
    inode := Function.update s.inode k v.inode
    pages := Function.update s.pages k v.pages }

/-- The attributes that the server reports. -/
def attr (s : Share) (a : UvfsAttr) : UvfsAttr :=
  { a with iSize := BitVec.ofNat 32 s.store.size, iMtime := s.mtime }

/-- `uvfs_revalidate_inode` after a reply without an error.
Source: `super.c`, `uvfs_revalidate_inode` and `uvfs_refresh_inode`. -/
def revalidate (g : Generic) (l : LongWidth) (s : Share) (k : ℕ) (fsuid : Word) (a : UvfsAttr) :
    Share :=
  let r := uvfsRefreshInode l fsuid (s.inode k) (s.attr a)
  { s with
    inode := Function.update s.inode k r.1
    pages := if r.2 then Function.update s.pages k (g.invalidate (s.pages k)) else s.pages }

/-- Kernel `k` takes a page out of its cache. -/
def evict (s : Share) (k index : ℕ) : Share :=
  { s with pages := Function.update s.pages k (Function.update (s.pages k) index none) }

/-- Each kernel has an inode that `uvfs_iget` has made at some time, and no pages. -/
def init (l : LongWidth) (store : Store) (mtime : UvfsTimespec) (fh : Fhandle)
    (attrs : ℕ → UvfsAttr) : Share :=
  ⟨store, mtime, fun k => uvfsIget l 0 fh (attrs k) none, fun _ _ => none⟩

end Share

/-- One step. -/
def shareStep (g : Generic) (l : LongWidth) (c : Cred) (s : Share) : ShareAct → Option Share
  | .cache k a stamp => (cacheStep l c (s.view k) a).map fun v =>
      { s.setView k v with mtime := if a.Stores then stamp else s.mtime }
  | .revalidate k fsuid a => some (s.revalidate g l k fsuid a)
  | .evict k index => some (s.evict k index)
  | .change store stamp => some { s with store := store, mtime := stamp }

/-! ## Records that match -/

namespace Share

/-- Kernel `k` has recorded this size and time. -/
def Recorded (l : LongWidth) (s : Share) (k size : ℕ) (stamp : UvfsTimespec) : Prop :=
  (s.inode k).iSize = size ∧ (s.inode k).iMtime = timespec l stamp

/-- What kernel `k` has recorded is what the file has. -/
def Matches (l : LongWidth) (s : Share) (k : ℕ) : Prop := s.Recorded l k s.store.size s.mtime

instance (s : Share) (k : ℕ) : Decidable (s.Matches l k) := inferInstanceAs (Decidable (_ ∧ _))

/-- A change by kernel `k` leaves nothing as it was recorded by another kernel, and makes no match
in kernel `k` where there was none; or it changes nothing at all. -/
def News (l : LongWidth) (s : Share) (k : ℕ) (v : CacheState) (stamp : UvfsTimespec) : Prop :=
  (v.store = s.store ∧ v.inode = s.inode k ∧ stamp = s.mtime) ∨
    (∀ j, j ≠ k → ¬ s.Recorded l j v.store.size stamp) ∧
      ((s.inode k).iMtime = timespec l stamp → s.Matches l k)

end Share

/-- Changes show: what the kernels and others do to the file leaves it with a size or a time that no
other kernel has recorded. -/
def Shows (l : LongWidth) (c : Cred) (s : Share) : ShareAct → Prop
  | .cache k a stamp => a.Stores → ∀ v, cacheStep l c (s.view k) a = some v → s.News l k v stamp
  | .change store stamp => store.size ≤ sMaxbytes ∧ ∀ j, ¬ s.Recorded l j store.size stamp
  | .revalidate _ _ _ | .evict _ _ => True

/-- A kernel whose record is the file's reads a page before it writes a part of it, and reads no
page of the file from 2 GiB on. -/
def Fills (l : LongWidth) (s : Share) : ShareAct → Prop
  | .cache k a _ => s.Matches l k → FillsPages (s.view k) a
  | .revalidate _ _ _ | .evict _ _ | .change _ _ => True

/-- Changes show, and pages are filled before they are written. -/
def ShowsAndFills (l : LongWidth) (c : Cred) (s : Share) (a : ShareAct) : Prop :=
  Shows l c s a ∧ Fills l s a

namespace Share

variable {s s' : Share} {k : ℕ} {g : Generic} {ahead : ℕ}

@[simp] theorem setView_view (s : Share) (k : ℕ) (v : CacheState) : (s.setView k v).view k = v := by
  simp [view, setView]

/-- What another kernel sees of a step: the file, and its own copy as before. -/
theorem view_setView_of_ne {j : ℕ} (h : j ≠ k) (s : Share) (v : CacheState) :
    (s.setView k v).view j = { s.view j with store := v.store } := by
  simp [view, setView, h]

/-- Nothing but the file is different for a kernel that did not take the step. -/
theorem recorded_setView_of_ne {j size : ℕ} {stamp : UvfsTimespec} (h : j ≠ k) (s : Share)
    (v : CacheState) : (s.setView k v).Recorded l j size stamp ↔ s.Recorded l j size stamp := by
  simp [Recorded, setView, h]

theorem matches_of_view (h : s'.view k = s.view k) (hm : s'.mtime = s.mtime) :
    s'.Matches l k ↔ s.Matches l k := by
  have hinode : s'.inode k = s.inode k := congrArg CacheState.inode h
  have hstore : s'.store = s.store := congrArg CacheState.store h
  rw [Matches, Matches, Recorded, Recorded, hinode, hstore, hm]

/-- **Who matches is coherent**: a kernel whose record is the file's has the file's bytes. -/
structure Fresh (l : LongWidth) (s : Share) : Prop where
  kept : ∀ k, InOrder (s.view k)
  coherent : ∀ k, s.Matches l k → Coherent (s.view k)

namespace Fresh

theorem init {store : Store} (hmax : store.size ≤ sMaxbytes) (mtime : UvfsTimespec) (fh : Fhandle)
    (attrs : ℕ → UvfsAttr) : Fresh l (Share.init l store mtime fh attrs) where
  kept k := by
    refine ⟨?_, ?_, hmax, fun _ _ h => by cases h⟩
    · exact Int.natCast_nonneg _
    · have hlt := (attrs k).iSize.isLt
      exact Int.ofNat_le.mpr (by unfold sMaxbytes; omega)
  coherent k h := ⟨h.1, hmax, fun _ _ h => by cases h⟩

/-- The size that the server reports is the size. -/
theorem attr_iSize (h : Fresh l s) (a : UvfsAttr) : (s.attr a).iSize.toNat = s.store.size := by
  have hmax := (h.kept 0).max
  unfold sMaxbytes at hmax
  exact Width.toNat_ofNat_of_lt (lt_of_le_of_lt hmax (by norm_num))

/-- After `uvfs_revalidate_inode` the kernel is coherent: its pages are gone, or its record matched
and they were right. -/
theorem revalidated (h : Fresh l s) (hg : g.Documented l c ahead) (k : ℕ) (fsuid : Word)
    (a : UvfsAttr) : Coherent ((s.revalidate g l k fsuid a).view k) := by
  have hsize := h.attr_iSize a
  have hmax := (h.kept k).max
  have hnew : (setAttributes l fsuid (s.inode k) (s.attr a)).iSize = s.store.size :=
    congrArg Nat.cast hsize
  by_cases hflag : (uvfsRefreshInode l fsuid (s.inode k) (s.attr a)).2 = true
  · refine ⟨?_, hmax, fun index pg hp => ?_⟩
    · simpa [revalidate, view, uvfsRefreshInode] using hnew
    · simp [revalidate, view, hflag, hg.invalidates] at hp
  · have hmatch : s.Matches l k := by
      simp only [uvfsRefreshInode, hsize, decide_eq_true_eq, not_or, not_not] at hflag
      exact hflag
    obtain ⟨_, _, hpage⟩ := h.coherent k hmatch
    refine ⟨?_, hmax, fun index pg hp => hpage index pg ?_⟩
    · simpa [revalidate, view, uvfsRefreshInode] using hnew
    · simpa [revalidate, view, hflag] using hp

theorem revalidate (h : Fresh l s) (hg : g.Documented l c ahead) (k : ℕ) (fsuid : Word)
    (a : UvfsAttr) : Fresh l (s.revalidate g l k fsuid a) := by
  have hk := h.revalidated hg k fsuid a
  have hview : ∀ j, j ≠ k → (s.revalidate g l k fsuid a).view j = s.view j := fun j hj => by
    simp only [Share.revalidate, view, Function.update_of_ne hj]
    split_ifs <;> simp [hj]
  refine ⟨fun j => ?_, fun j hm => ?_⟩
  · by_cases hj : j = k
    · subst hj
      exact ⟨by rw [hk.size]; exact Int.natCast_nonneg _,
        by rw [hk.size]; exact Int.ofNat_le.mpr hk.max, hk.max,
        fun index pg hp => (hk.page index pg hp).1⟩
    · rw [hview j hj]
      exact h.kept j
  · by_cases hj : j = k
    · subst hj
      exact hk
    · rw [matches_of_view (hview j hj) rfl] at hm
      rw [hview j hj]
      exact h.coherent j hm

theorem evict (h : Fresh l s) (k index : ℕ) : Fresh l (s.evict k index) := by
  have hpages : ∀ j i pg, (s.evict k index).pages j i = some pg → s.pages j i = some pg := by
    intro j i pg hp
    by_cases hj : j = k
    · subst hj
      by_cases hi : i = index
      · subst hi
        simp [Share.evict] at hp
      · simpa [Share.evict, hi] using hp
    · simpa [Share.evict, hj] using hp
  refine ⟨fun j => ?_, fun j hm => ?_⟩
  · obtain ⟨hnonneg, hle, hmax, hindex⟩ := h.kept j
    exact ⟨hnonneg, hle, hmax, fun i pg hp => hindex i pg (hpages j i pg hp)⟩
  · obtain ⟨hsize, hmax, hpage⟩ := h.coherent j hm
    exact ⟨hsize, hmax, fun i pg hp => hpage i pg (hpages j i pg hp)⟩

/-- The file changes under everybody, and nobody's record matches any more. -/
theorem change (h : Fresh l s) {store : Store} {stamp : UvfsTimespec}
    (hmax : store.size ≤ sMaxbytes) (hnews : ∀ j, ¬ s.Recorded l j store.size stamp) :
    Fresh l { s with store := store, mtime := stamp } where
  kept k := ⟨(h.kept k).nonneg, (h.kept k).le, hmax, (h.kept k).index⟩
  coherent k hm := absurd hm (hnews k)

/-- A kernel takes a step, and the file has the time `m` then. -/
theorem cache (h : Fresh l s) {v : CacheState} {m : UvfsTimespec} (hkept : InOrder v)
    (hself : Share.Matches l { s.setView k v with mtime := m } k → Coherent v)
    (hothers : ∀ j, j ≠ k → s.Recorded l j v.store.size m →
      v.store = s.store ∧ m = s.mtime) : Fresh l { s.setView k v with mtime := m } := by
  refine ⟨fun j => ?_, fun j hm => ?_⟩
  · by_cases hj : j = k
    · subst hj
      rw [show view { s.setView j v with mtime := m } j = v from setView_view s j v]
      exact hkept
    · rw [show view { s.setView k v with mtime := m } j = _ from view_setView_of_ne hj s v]
      exact ⟨(h.kept j).nonneg, (h.kept j).le, hkept.max, (h.kept j).index⟩
  · by_cases hj : j = k
    · subst hj
      rw [show view { s.setView j v with mtime := m } j = v from setView_view s j v]
      exact hself hm
    · obtain ⟨hstore, hmtime⟩ := hothers j hj ((recorded_setView_of_ne hj s v).mp hm)
      rw [show view { s.setView k v with mtime := m } j = _ from view_setView_of_ne hj s v,
        hstore]
      refine h.coherent j ?_
      have hrec := (recorded_setView_of_ne hj s v).mp hm
      rw [show ({ s.setView k v with mtime := m } : Share).store = s.store from hstore,
        show ({ s.setView k v with mtime := m } : Share).mtime = s.mtime from hmtime] at hrec
      exact hrec

/-- A page is read: nothing changes but the page. -/
theorem readpage (h : Fresh l s) {index : ℕ} {junk : Mem} {v : CacheState}
    (hG : s.Matches l k → FillsPages (s.view k) (.readpage index junk))
    (hstep : cacheStep l c (s.view k) (.readpage index junk) = some v) :
    Fresh l (s.setView k v) := by
  have hsame : v.store = s.store ∧ v.inode = s.inode k := cacheStep_readpage hstep
  refine h.cache (m := s.mtime) ((h.kept k).step hstep) (fun hm => ?_)
    fun j _ _ => ⟨hsame.1, rfl⟩
  have hm' : s.Matches l k := by
    simpa [Share.Matches, Share.Recorded, setView, hsame.1, hsame.2] using hm
  exact (h.coherent k hm').step (hG hm') hstep

/-- A page is written: nobody else's record matches, unless nothing has changed. -/
theorem stores (h : Fresh l s) {a : CacheAct} {v : CacheState} {stamp : UvfsTimespec}
    (hG : s.Matches l k → FillsPages (s.view k) a)
    (hstep : cacheStep l c (s.view k) a = some v) (hnews : s.News l k v stamp) :
    Fresh l { s.setView k v with mtime := stamp } := by
  refine h.cache ((h.kept k).step hstep) (fun hm => ?_) fun j hj hrec => ?_
  · have hm' : s.Matches l k := by
      rcases hnews with ⟨hstore, hinode, rfl⟩ | ⟨_, hown⟩
      · simpa [Share.Matches, Share.Recorded, setView, hstore, hinode] using hm
      · refine hown ?_
        have htime := hm.2
        simp only [setView, Function.update_self] at htime
        exact (cacheStep_iMtime hstep).symm.trans htime
    exact (h.coherent k hm').step (hG hm') hstep
  · rcases hnews with ⟨hstore, _, hstamp⟩ | ⟨hothers, _⟩
    · exact ⟨hstore, hstamp⟩
    · exact absurd hrec (hothers j hj)

/-- **One step** of a run in which changes show. -/
theorem step {a : ShareAct} (h : Fresh l s) (hg : g.Documented l c ahead)
    (hG : ShowsAndFills l c s a) (hstep : shareStep g l c s a = some s') : Fresh l s' := by
  cases a with
  | cache k a stamp =>
      obtain ⟨v, hv, rfl⟩ := Option.map_eq_some_iff.mp hstep
      cases a with
      | readpage index junk => exact h.readpage hG.2 hv
      | write pos len user junk => exact h.stores hG.2 hv (hG.1 trivial v hv)
      | commit index offset upto user junk => exact h.stores hG.2 hv (hG.1 trivial v hv)
      | writepage index => exact h.stores hG.2 hv (hG.1 trivial v hv)
  | revalidate k fsuid a =>
      cases hstep
      exact h.revalidate hg k fsuid a
  | evict k index =>
      cases hstep
      exact h.evict k index
  | change store stamp =>
      cases hstep
      exact h.change hG.1.1 hG.1.2

end Fresh

end Share

namespace CacheState

/-- The pages that are not `Uptodate` are read, one after the other. -/
def fill (l : LongWidth) (c : Cred) (junk : Mem) : List ℕ → CacheState → Option CacheState
  | [], s => some s
  | i :: is, s => (if s.Read i then some s else s.readpage l c i junk).bind (fill l c junk is)

end CacheState

namespace InOrder

variable {s : CacheState}

/-- A page that is read in is `Uptodate`, and no other page is lost. -/
theorem read_readpage (h : InOrder s) {i : ℕ} {junk : Mem} {s₁ : CacheState}
    (hs₁ : s.readpage l c i junk = some s₁) : s₁.Read i ∧ ∀ j, s.Read j → s₁.Read j := by
  have hindex := h.grab_index i junk
  unfold CacheState.readpage at hs₁
  split_ifs at hs₁
  rw [run_uvfsReadpage] at hs₁
  cases hs₁
  have hread : CacheState.Read (s.setPage
      ({ s.grab i junk with data := fillPage l (s.grab i junk).data (s.store.read (BitVec.ofNat 32
        (pageStart l (s.grab i junk).index)).toInt pageCacheSize) }.setUptodate.unlock)) i := by
    simp [CacheState.Read, CacheState.setPage, Page.setUptodate, Page.unlock, hindex]
  refine ⟨hread, fun j hj => ?_⟩
  by_cases hji : j = i
  · rw [hji]
    exact hread
  · simpa [CacheState.Read, CacheState.setPage, Page.setUptodate, Page.unlock, hindex, hji] using hj

/-- Reading in pages below `s_maxbytes`. -/
theorem fill (h : InOrder s) (junk : Mem) {is : List ℕ}
    (his : ∀ i ∈ is, i * pageCacheSize < sMaxbytes) :
    ∃ s', ∃ ps : List (ℕ × Mem), s.fill l c junk is = some s' ∧ (∀ p ∈ ps, p.1 ∈ is) ∧
      Follows (cacheStep l c) (fun _ _ => True) s (ps.map fun p => .readpage p.1 p.2) s' ∧
      (∀ i, s.Read i → s'.Read i) ∧ ∀ i ∈ is, s'.Read i := by
  induction is generalizing s with
  | nil => exact ⟨s, [], rfl, by simp, rfl, fun _ hr => hr, by simp⟩
  | cons i is ih =>
      by_cases hr : s.Read i
      · obtain ⟨s', ps, hs', hps, hsteps, hkeep, hread⟩ := ih h fun j hj => his j (.tail _ hj)
        refine ⟨s', ps, ?_, fun p hp => .tail _ (hps p hp), hsteps, hkeep, fun j hj => ?_⟩
        · rw [CacheState.fill, if_pos hr]
          exact hs'
        · rcases List.mem_cons.mp hj with rfl | hj
          · exact hkeep j hr
          · exact hread j hj
      · -- the page is read, and the others stay as they are
        obtain ⟨s₁, hs₁⟩ : ∃ s₁, s.readpage l c i junk = some s₁ := by
          rw [CacheState.readpage, if_pos (his i (.head _))]
          exact ⟨_, rfl⟩
        obtain ⟨hread₁, hkeep₁⟩ := h.read_readpage hs₁
        obtain ⟨s', ps, hs', hps, hsteps, hkeep, hread⟩ :=
          ih (h.readpage hs₁) fun j hj => his j (.tail _ hj)
        refine ⟨s', (i, junk) :: ps, ?_, ?_, ⟨trivial, s₁, hs₁, hsteps⟩,
          fun j hj => hkeep j (hkeep₁ j hj), fun j hj => ?_⟩
        · rw [CacheState.fill, if_neg hr, hs₁]
          exact hs'
        · intro p hp
          rcases List.mem_cons.mp hp with rfl | hp
          · exact .head _
          · exact .tail _ (hps p hp)
        · rcases List.mem_cons.mp hj with rfl | hj
          · exact hkeep j hread₁
          · exact hread j hj

end InOrder

namespace Coherent

variable {s s' : CacheState}

/-- A page that has been read has the file's bytes. -/
theorem byteAt (h : Coherent s) {p : ℕ} (hr : s.Read (p / pageCacheSize)) :
    s.byteAt p = s.store.bytes p := by
  obtain ⟨pg, hp, _⟩ := (Option.any_eq_true _ _).mp hr
  have hdata := (h.page _ pg hp).2.2 (p % pageCacheSize) (Nat.mod_lt _ (by decide))
  rw [CacheState.byteAt, hp, Option.map_some, Option.getD_some, hdata, Nat.div_add_mod']

end Coherent

namespace Store

end Store

end Uvfs.Vfs
