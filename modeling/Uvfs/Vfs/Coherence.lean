import Uvfs.Lib.Run
import Uvfs.Vfs.Page

/-!
# The page cache and the server's file

Only this kernel works on the file, the server keeps what it is sent, and every request succeeds.
The page cache is filled by `uvfs_readpage`, changed by buffered writes and written back by
`uvfs_writepage`.

* `Store` : the file at the server, with nothing but zeros behind its end; `serve` : how it answers.
* `CacheState`, `cacheStep` : the inode, the cached pages and the file, and what the kernel does.
* `partial_write_marks_garbage_uptodate` : a write to a part of a page that was never read.
* `Coherent` : every cached page is what the file holds there.
* `FillsPages` : a page is read before a part of it is written, and no page from 2 GiB on is read
  that is not behind the end of the file.
* `uptodate_pages_coherent` : in a run that meets it, every `Uptodate` page is coherent.
-/

namespace Uvfs.Vfs

open Transition

/-! ## The file at the server -/

/-- A file: its bytes and its size. -/
@[ext]
structure Store where
  /-- The byte at each position. -/
  bytes : Mem
  /-- The size. -/
  size : ℕ
  /-- Behind the end there is nothing, so a file that grows has zeros in the gap. -/
  tail : ∀ i, size ≤ i → bytes i = 0

namespace Store

/-- Store `count` bytes at `off`. -/
def write (st : Store) (off count : ℕ) (data : Mem) : Store where
  bytes := st.bytes.overlay off count data
  size := if count = 0 then st.size else max st.size (off + count)
  tail i hi := by
    have h : i < off ∨ off + count ≤ i := by
      split_ifs at hi with hc
      · omega
      · exact .inr (le_trans (le_max_right _ _) hi)
    rw [Mem.overlay_of_not_mem h]
    refine st.tail i ?_
    split_ifs at hi with hc
    · exact hi
    · exact le_trans (le_max_left _ _) hi

/-- Read `count` bytes at `off`: all of them unless the file ends before, and none at a position
that does not exist. -/
def read (st : Store) (off : ℤ) (count : ℕ) : FileReply :=
  if off < 0 then ⟨0, 0, fun _ => 0⟩
  else ⟨0, BitVec.ofNat 32 (min count (st.size - off.toNat)), fun i => st.bytes (off.toNat + i)⟩

/-- Writing what is there already changes nothing. -/
theorem write_same {st : Store} {off count : ℕ} {data : Mem} (hle : off + count ≤ st.size)
    (h : ∀ k < count, data k = st.bytes (off + k)) : st.write off count data = st := by
  refine Store.ext (funext fun i => ?_) ?_
  · change st.bytes.overlay off count data i = st.bytes i
    by_cases hi : off ≤ i ∧ i < off + count
    · rw [Mem.overlay_of_mem hi.1 hi.2, h _ (by omega)]
      congr 1
      omega
    · rw [Mem.overlay_of_not_mem (by omega)]
  · unfold write
    split_ifs
    · rfl
    · exact max_eq_left hle

end Store

/-- The server: there is memory for a transaction, a write is stored and a read is answered from the
store.  It reads each field with the type `protocol.h` gives it. -/
def serve (st : Store) : (q : DriverCall) → q.Answer × Store
  | .newTransaction => (true, st)
  | .makeRequest (.write r) =>
      (⟨0, r.count, fun _ => 0⟩, st.write r.offset.toNat r.count.toNat r.buff)
  | .makeRequest (.read r) => (st.read r.offset.toInt r.count.toInt.toNat, st)
  | .kfree => ((), st)

/-! ## The kernel -/

/-- One file in the kernel and at the server. -/
structure CacheState where
  /-- The inode. -/
  inode : Inode
  /-- The page cache of the file. -/
  pages : ℕ → Option Page
  /-- The file at the server. -/
  store : Store

/-- What the kernel does with the file. -/
inductive CacheAct
  /-- `uvfs_readpage`; `junk` is what a page holds that is grabbed for it. -/
  | readpage (index : ℕ) (junk : Mem)
  /-- A buffered write: `uvfs_write_begin`, the copy of `len` user bytes, `uvfs_write_end`. -/
  | write (pos len : ℕ) (user junk : Mem)
  /-- The same before Linux 2.6.32: `uvfs_prepare_write`, the copy, `uvfs_commit_write`. -/
  | commit (index offset upto : ℕ) (user junk : Mem)
  /-- `uvfs_writepage`. -/
  | writepage (index : ℕ)

namespace CacheState

variable (l : LongWidth) (c : Cred)

/-- The cached page, or a fresh one, which holds anything and is not `Uptodate`. -/
def grab (s : CacheState) (index : ℕ) (junk : Mem) : Page :=
  (s.pages index).getD ⟨index, junk, false, false, 0⟩

/-- Put a page into the cache. -/
def setPage (s : CacheState) (pg : Page) : CacheState :=
  { s with pages := Function.update s.pages pg.index (some pg) }

/-- `uvfs_readpage` on a page that starts below `s_maxbytes`. -/
def readpage (s : CacheState) (index : ℕ) (junk : Mem) : Option CacheState :=
  if index * pageCacheSize < sMaxbytes then
    let r := (uvfsReadpage l c s.inode (s.grab index junk)).run serve s.store
    some ({ s with store := r.2 }.setPage r.1.1)
  else none

/-- A complete buffered write through `uvfs_write_begin` and `uvfs_write_end`. -/
def bufferedWrite (s : CacheState) (pos len : ℕ) (user junk : Mem) : Option CacheState :=
  if 0 < len ∧ pos % pageCacheSize + len ≤ pageCacheSize ∧ pos + len ≤ sMaxbytes then
    match (uvfsWriteBegin l (fun index => some (s.grab index junk)) pos len).1 with
    | none => none
    | some pg =>
        let pg := { pg with data := pg.data.overlay (pos % pageCacheSize) len user }
        let r := (uvfsWriteEnd l c s.inode pg pos len len).run serve s.store
        some ({ s with inode := r.1.1, store := r.2 }.setPage r.1.2.1)
  else none

/-- A complete buffered write through `uvfs_prepare_write` and `uvfs_commit_write`. -/
def committedWrite (s : CacheState) (index offset upto : ℕ) (user junk : Mem) : Option CacheState :=
  if offset < upto ∧ Admitted index offset upto then
    let pg := s.grab index junk
    if uvfsPrepareWrite pg offset upto = 0 then
      let pg := { pg with data := pg.data.overlay offset (upto - offset) user }
      let r := (uvfsCommitWrite l c s.inode pg offset upto).run serve s.store
      some ({ s with inode := r.1.1, store := r.2 }.setPage r.1.2.1)
    else none
  else none

/-- `uvfs_writepage` on a cached page. -/
def writepage (s : CacheState) (index : ℕ) : Option CacheState :=
  (s.pages index).map fun pg =>
    let r := (uvfsWritepage l c s.inode pg).run serve s.store
    { s with store := r.2 }.setPage r.1.1

/-- The cache is empty. -/
def init (inode : Inode) (store : Store) : CacheState := ⟨inode, fun _ => none, store⟩

end CacheState

/-- One step. -/
def cacheStep (l : LongWidth) (c : Cred) (s : CacheState) : CacheAct → Option CacheState
  | .readpage index junk => s.readpage l c index junk
  | .write pos len user junk => s.bufferedWrite l c pos len user junk
  | .commit index offset upto user junk => s.committedWrite l c index offset upto user junk
  | .writepage index => s.writepage l c index

variable {l : LongWidth} {c : Cred} {s s' : CacheState} {a : CacheAct} {index : ℕ} {pg : Page}

/-! ## A page that was never read -/

/-- A file of ten bytes `7`. -/
def tenSevens : Store where
  bytes i := if i < 10 then 7 else 0
  size := 10
  tail i hi := if_neg (by omega)

/-- The inode of such a file. -/
def tenByteInode : Inode := { newInode ⟨0, 0, 0, 0, 0, 0, 0, 0⟩ with iSize := 10 }

/-- One byte is written at position 3 while nothing is cached.  The page becomes `Uptodate` with
what was in its memory, here the byte `9`, in all the other places: at position 0, where the file
has `7`, and behind the end of the file. -/
theorem partial_write_marks_garbage_uptodate : ∃ s pg,
    Reach (cacheStep .w64 ⟨0, 0⟩) (fun _ _ => True) (.init tenByteInode tenSevens) s ∧
    s.pages 0 = some pg ∧ pg.uptodate = true ∧ s.inode.iSize = 10 ∧
    (pg.data 0 = 9 ∧ s.store.bytes 0 = 7) ∧ pg.data 100 = 9 := by
  obtain ⟨s, hs, hp⟩ := Reach.of_check (cacheStep .w64 ⟨0, 0⟩) (fun _ _ => True)
    (.init tenByteInode tenSevens) [.write 3 1 (fun _ => 1) (fun _ => 9)]
    (fun s => s.inode.iSize = 10 ∧ s.store.bytes 0 = 7 ∧ (s.pages 0).any (fun pg =>
      decide (pg.uptodate = true ∧ pg.data 0 = 9 ∧ pg.data 100 = 9)) = true) (by decide +kernel)
  obtain ⟨hsize, hbyte, hpage⟩ := hp
  obtain ⟨pg, hpg, hdata⟩ := (Option.any_eq_true _ _).mp hpage
  obtain ⟨hu, h₀, h₁⟩ := of_decide_eq_true hdata
  exact ⟨s, pg, hs, hpg, hu, hsize, ⟨h₀, hbyte⟩, h₁⟩

/-! ## What the functions do with this server -/

@[simp] theorem run_newTransaction (st : Store) : newTransaction.run serve st = (true, st) := rfl

@[simp] theorem run_makeRequest_write (r : WriteRequest) (st : Store) :
    (makeRequest (.write r)).run serve st =
      (⟨0, r.count, fun _ => 0⟩, st.write r.offset.toNat r.count.toNat r.buff) := rfl

@[simp] theorem run_makeRequest_read (r : ReadRequest) (st : Store) :
    (makeRequest (.read r)).run serve st = (st.read r.offset.toInt r.count.toInt.toNat, st) := rfl

@[simp] theorem run_kfree (st : Store) : kfree.run serve st = ((), st) := rfl

@[simp] theorem run_uvfsWrite (inode : Inode) (buff : Mem) (off count : Word) (st : Store) :
    (uvfsWrite c inode buff off count).run serve st =
      (0, st.write off.toNat count.toNat buff) := by
  simp [uvfsWrite, writeRequest]

/-- `uvfs_commit_write` on a part of a page that the generic write path asks for. -/
theorem run_uvfsCommitWrite {offset upto : ℕ} (h : Admitted pg.index offset upto) (inode : Inode)
    (st : Store) : (uvfsCommitWrite l c inode pg offset upto).run serve st =
      ((if ((pg.index * pageCacheSize + upto : ℕ) : ℤ) > inode.iSize then
          { inode with iSize := (pg.index * pageCacheSize + upto : ℕ) } else inode,
          pg.setUptodate, 0),
        st.write (pg.index * pageCacheSize + offset) (upto - offset)
          fun i => pg.data (offset + i)) := by
  simp only [uvfsCommitWrite, Dialogue.run_bind, run_uvfsWrite, Dialogue.run_pure, h.commitOff_eq,
    h.commitCount_eq, h.commitPos_eq]
  push_cast
  rfl

/-- `uvfs_write_end` after a complete copy commits the write and unlocks the page. -/
theorem run_uvfsWriteEnd (inode : Inode) (pos len : ℕ) (st : Store) :
    (uvfsWriteEnd l c inode pg pos len len).run serve st =
      let r := (uvfsCommitWrite l c inode pg (pos % pageCacheSize)
        (pos % pageCacheSize + len)).run serve st
      ((r.1.1, r.1.2.1.unlock, len), r.2) := by
  simp only [uvfsWriteEnd, lt_irrefl, if_false, Dialogue.run_bind, Dialogue.run_pure]

theorem run_uvfsReadpage (inode : Inode) (st : Store) :
    (uvfsReadpage l c inode pg).run serve st =
      let reply := st.read (BitVec.ofNat 32 (pageStart l pg.index)).toInt pageCacheSize
      (({ pg with data := fillPage l pg.data reply }.setUptodate.unlock, 0), st) := by
  have herror : ∀ off count, ¬ (st.read off count).error.toInt < 0 := fun off count => by
    unfold Store.read
    split_ifs <;> exact (by decide : ¬ (0 : Word).toInt < 0)
  have hcount : (BitVec.ofNat 32 pageCacheSize).toInt.toNat = pageCacheSize := by decide
  simp [uvfsReadpage, herror, readRequest, hcount]

/-- A reply with at most a page of bytes fills the page: its bytes first, then zeros. -/
theorem fillPage_of_le {data : Mem} {reply : FileReply} {n k : ℕ} (hn : n ≤ pageCacheSize)
    (hreply : reply.bytesRead = BitVec.ofNat 32 n) (hk : k < pageCacheSize) :
    fillPage l data reply k = if k < n then reply.buff k else 0 := by
  have hlen : l.ofInt reply.bytesRead = n := by
    rw [hreply]
    exact LongWidth.ofInt_of_lt (lt_of_le_of_lt hn (by decide))
  rw [fillPage_apply hk, hlen]

/-- A page below 2 GiB, or behind the end of the file, is read as the file has it. -/
theorem fillPage_read {data : Mem} {st : Store} {k : ℕ} (hmax : index * pageCacheSize < sMaxbytes)
    (hstart : index * pageCacheSize < 2 ^ 31 ∨ st.size ≤ index * pageCacheSize)
    (hk : k < pageCacheSize) :
    fillPage l data (st.read (BitVec.ofNat 32 (pageStart l index)).toInt pageCacheSize) k =
      st.bytes (index * pageCacheSize + k) := by
  have hlt : index * pageCacheSize < 2 ^ 32 := by
    unfold sMaxbytes at hmax
    omega
  rw [pageStart_of_le hmax.le]
  by_cases hlow : index * pageCacheSize < 2 ^ 31
  · have hint : (BitVec.ofNat 32 (index * pageCacheSize)).toInt = index * pageCacheSize := by
      rw [(Width.toInt_ofNat_eq_iff hlt).mpr (by omega)]
      push_cast
      rfl
    have hnat : ((index : ℤ) * pageCacheSize).toNat = index * pageCacheSize := by
      rw [← Nat.cast_mul, Int.toNat_natCast]
    have hneg : ¬ ((index : ℤ) * pageCacheSize) < 0 := by
      rw [← Nat.cast_mul]
      exact not_lt.mpr (Int.natCast_nonneg _)
    simp only [hint, Store.read, hneg, if_false, hnat]
    rw [fillPage_of_le (min_le_left _ _) rfl hk]
    split_ifs with hkn
    · rfl
    · exact (st.tail _ (by omega)).symm
  · -- the `int` is negative, so nothing is read; nothing is there
    have hsize := hstart.resolve_left hlow
    have hneg : (BitVec.ofNat 32 (index * pageCacheSize)).toInt < 0 := by
      rw [BitVec.toInt_neg_iff, Width.toNat_ofNat_of_lt hlt]
      omega
    simp only [Store.read, hneg, if_true]
    rw [fillPage_of_le (n := 0) (Nat.zero_le _) rfl hk, if_neg (Nat.not_lt_zero k)]
    exact (st.tail _ (by omega)).symm

/-! ## Coherence -/

/-- The page is cached and `Uptodate`. -/
def CacheState.Read (s : CacheState) (index : ℕ) : Prop := (s.pages index).any Page.uptodate = true

instance (s : CacheState) (index : ℕ) : Decidable (s.Read index) :=
  inferInstanceAs (Decidable (_ = true))

/-- A page is read only below 2 GiB or behind the end of the file, where the `int` offset of the
request names its position or nothing; and a part of a page is written only when the page has been
read. -/
def FillsPages (s : CacheState) : CacheAct → Prop
  | .readpage index _ => index * pageCacheSize < 2 ^ 31 ∨ s.store.size ≤ index * pageCacheSize
  | .write pos len _ _ => s.Read (pos / pageCacheSize) ∨ len = pageCacheSize
  | .commit index offset upto _ _ => s.Read index ∨ offset = 0 ∧ upto = pageCacheSize
  | .writepage _ => True

instance (s : CacheState) : (a : CacheAct) → Decidable (FillsPages s a)
  | .readpage _ _ | .write _ _ _ _ | .commit _ _ _ _ _ => inferInstanceAs (Decidable (_ ∨ _))
  | .writepage _ => isTrue trivial

/-- Every cached page is what the file holds there, and the inode knows the file's size. -/
structure Coherent (s : CacheState) : Prop where
  size : s.inode.iSize = s.store.size
  max : s.store.size ≤ sMaxbytes
  page : ∀ index pg, s.pages index = some pg → pg.index = index ∧ pg.uptodate = true ∧
    ∀ k < pageCacheSize, pg.data k = s.store.bytes (index * pageCacheSize + k)

/-- `uvfs_writepage` on a page that is what the file holds there writes what is there already. -/
theorem run_uvfsWritepage {inode : Inode} {st : Store} (hsize : inode.iSize = st.size)
    (hmax : st.size ≤ sMaxbytes)
    (hdata : ∀ k < pageCacheSize, pg.data k = st.bytes (pg.index * pageCacheSize + k)) :
    (uvfsWritepage l c inode pg).run serve st = ((pg.setUptodate.unlock, 0), st) := by
  unfold sMaxbytes at hmax
  have hbytes : ∀ count : ℕ, count ≤ pageCacheSize → pg.index * pageCacheSize + count ≤ st.size →
      (writePageBytes l c inode pg (BitVec.ofNat 32 count)).run serve st =
        ((pg.setUptodate.unlock, 0), st) := by
    intro count hpage hle
    have hoff : (BitVec.ofNat 32 (pageStart l pg.index)).toNat = pg.index * pageCacheSize := by
      rw [pageStart_of_le (by unfold sMaxbytes; omega)]
      exact Width.toNat_ofNat_of_lt (by omega)
    have hcount : (BitVec.ofNat 32 count).toNat = count := Width.toNat_ofNat_of_lt (by omega)
    simp only [writePageBytes, Dialogue.run_bind, run_uvfsWrite, Dialogue.run_pure, hoff, hcount]
    rw [Store.write_same hle fun k hk => hdata k (lt_of_lt_of_le hk hpage)]
    rfl
  rw [uvfsWritepage_eq hsize hmax]
  split
  · rfl
  · refine hbytes _ (min_le_left _ _) ?_
    unfold bytesInPage pageCacheSize at *
    omega

namespace Coherent

theorem init {inode : Inode} {store : Store} (hsize : inode.iSize = store.size)
    (hmax : store.size ≤ sMaxbytes) : Coherent (.init inode store) where
  size := hsize
  max := hmax
  page _ _ h := by cases h

/-- The file changes, and the page where it does is put into the cache. -/
theorem setPage (h : Coherent s) (s₁ : CacheState) (hpages : s₁.pages = s.pages)
    (hsize : s₁.inode.iSize = s₁.store.size) (hmax : s₁.store.size ≤ sMaxbytes)
    (hu : pg.uptodate = true)
    (hdata : ∀ k < pageCacheSize, pg.data k = s₁.store.bytes (pg.index * pageCacheSize + k))
    (hother : ∀ index ≠ pg.index, ∀ k < pageCacheSize, s₁.store.bytes (index * pageCacheSize + k) =
      s.store.bytes (index * pageCacheSize + k)) : Coherent (s₁.setPage pg) := by
  refine ⟨hsize, hmax, fun index pg' hpg' => ?_⟩
  by_cases hi : index = pg.index
  · subst hi
    simp only [CacheState.setPage, Function.update_self, Option.some.injEq] at hpg'
    subst hpg'
    exact ⟨rfl, hu, hdata⟩
  · simp only [CacheState.setPage, Function.update_of_ne hi, hpages] at hpg'
    obtain ⟨heq, hu', hdata'⟩ := h.page index pg' hpg'
    exact ⟨heq, hu', fun k hk => (hdata' k hk).trans (hother index hi k hk).symm⟩

theorem grab_index (h : Coherent s) (index : ℕ) (junk : Mem) :
    (s.grab index junk).index = index := by
  cases hp : s.pages index with
  | none => simp [CacheState.grab, hp]
  | some pg => simpa [CacheState.grab, hp] using (h.page index pg hp).1

/-- A page that has been read is what the file holds there. -/
theorem grab_data (h : Coherent s) (hr : s.Read index) (junk : Mem) {k : ℕ}
    (hk : k < pageCacheSize) :
    (s.grab index junk).data k = s.store.bytes (index * pageCacheSize + k) := by
  obtain ⟨pg, hp, _⟩ := (Option.any_eq_true _ _).mp hr
  simpa [CacheState.grab, hp] using (h.page index pg hp).2.2 k hk

/-- The write of a part of a page that is coherent outside that part. -/
theorem commit (h : Coherent s) (pg : Page) {offset upto : ℕ} (had : Admitted pg.index offset upto)
    (hlt : offset < upto) (hout : ∀ k < pageCacheSize, k < offset ∨ upto ≤ k →
      pg.data k = s.store.bytes (pg.index * pageCacheSize + k)) {pg' : Page}
    (hindex : pg'.index = pg.index) (hdata : pg'.data = pg.data) (hu : pg'.uptodate = true) :
    Coherent (CacheState.setPage { s with
      inode := ((uvfsCommitWrite l c s.inode pg offset upto).run serve s.store).1.1
      store := ((uvfsCommitWrite l c s.inode pg offset upto).run serve s.store).2 } pg') := by
  have hsize := h.size
  have hmax := had.max
  have hpage := had.page
  rw [run_uvfsCommitWrite had]
  refine h.setPage _ rfl ?_ ?_ hu (fun k hk => ?_) fun index hi k hk => ?_
  · simp only [Store.write, if_neg (by omega : ¬ upto - offset = 0)]
    split_ifs with hgt
    · push_cast
      omega
    · push_cast at hgt ⊢
      omega
  · have := h.max
    simp only [Store.write, if_neg (by omega : ¬ upto - offset = 0)]
    omega
  · rw [hdata, hindex]
    simp only [Store.write]
    by_cases hin : offset ≤ k ∧ k < upto
    · rw [Mem.overlay_of_mem (by omega) (by omega)]
      congr 1
      omega
    · rw [Mem.overlay_of_not_mem (by omega)]
      exact hout k hk (by omega)
  · rw [hindex] at hi
    unfold Store.write
    simp only [pageCacheSize] at hpage hk ⊢
    exact Mem.overlay_of_not_mem (by omega)

theorem readpage (h : Coherent s) {junk : Mem}
    (hstart : index * pageCacheSize < 2 ^ 31 ∨ s.store.size ≤ index * pageCacheSize)
    (hstep : s.readpage l c index junk = some s') : Coherent s' := by
  unfold CacheState.readpage at hstep
  split_ifs at hstep with hmax
  rw [run_uvfsReadpage] at hstep
  cases hstep
  refine h.setPage s rfl h.size h.max rfl (fun k hk => ?_) fun _ _ _ _ => rfl
  simp only [Page.setUptodate, Page.unlock, h.grab_index]
  exact fillPage_read hmax hstart hk

/-- The user bytes are copied into a page that has been read, or they are the whole page. -/
theorem copied (h : Coherent s) {offset upto : ℕ} (user junk : Mem)
    (hr : s.Read index ∨ offset = 0 ∧ upto = pageCacheSize) (hle : offset ≤ upto) {k : ℕ}
    (hk : k < pageCacheSize) (hout : k < offset ∨ upto ≤ k) :
    (s.grab index junk).data.overlay offset (upto - offset) user k =
      s.store.bytes (index * pageCacheSize + k) := by
  rcases hr with hr | ⟨h₀, h₁⟩
  · rw [Mem.overlay_of_not_mem (by omega)]
    exact h.grab_data hr junk hk
  · omega

theorem committedWrite (h : Coherent s) {offset upto : ℕ} {user junk : Mem}
    (hr : s.Read index ∨ offset = 0 ∧ upto = pageCacheSize)
    (hstep : s.committedWrite l c index offset upto user junk = some s') : Coherent s' := by
  simp only [CacheState.committedWrite, uvfsPrepareWrite, if_true] at hstep
  split_ifs at hstep with had
  have hindex := h.grab_index index junk
  have had' : Admitted (s.grab index junk).index offset upto := hindex.symm ▸ had.2
  cases hstep
  refine h.commit (l := l) (c := c) { s.grab index junk with
    data := (s.grab index junk).data.overlay offset (upto - offset) user } had' had.1
    (fun k hk hout => ?_) rfl rfl rfl
  simp only [hindex]
  exact h.copied user junk hr had.1.le hk hout

theorem bufferedWrite (h : Coherent s) {pos len : ℕ} {user junk : Mem}
    (hr : s.Read (pos / pageCacheSize) ∨ len = pageCacheSize)
    (hstep : s.bufferedWrite l c pos len user junk = some s') : Coherent s' := by
  unfold CacheState.bufferedWrite at hstep
  split_ifs at hstep with hpos
  obtain ⟨hlen, hpage, hmax⟩ := hpos
  have hwrap : l.wrap (pos / pageCacheSize) = pos / pageCacheSize := wrap_index (by omega)
  have had : Admitted (pos / pageCacheSize) (pos % pageCacheSize) (pos % pageCacheSize + len) :=
    .of_write hpage hmax le_rfl
  have hindex := h.grab_index (pos / pageCacheSize) junk
  have had' := hindex.symm ▸ had
  have hr' : s.Read (pos / pageCacheSize) ∨
      pos % pageCacheSize = 0 ∧ pos % pageCacheSize + len = pageCacheSize :=
    hr.imp_right fun hlen => ⟨by omega, by omega⟩
  simp only [uvfsWriteBegin, hwrap, run_uvfsWriteEnd] at hstep
  cases hstep
  refine h.commit (l := l) (c := c) { s.grab (pos / pageCacheSize) junk with
    data := (s.grab (pos / pageCacheSize) junk).data.overlay (pos % pageCacheSize) len user }
    had' (by omega) (fun k hk hout => ?_) rfl rfl rfl
  have hcopied := h.copied user junk hr' (Nat.le_add_right _ _) hk hout
  simpa only [hindex, Nat.add_sub_cancel_left] using hcopied

theorem writepage (h : Coherent s) (hstep : s.writepage l c index = some s') : Coherent s' := by
  obtain ⟨pg, hp, rfl⟩ := Option.map_eq_some_iff.mp hstep
  obtain ⟨rfl, _, hdata⟩ := h.page index pg hp
  rw [run_uvfsWritepage h.size h.max hdata]
  exact h.setPage s rfl h.size h.max rfl hdata fun _ _ _ _ => rfl

/-- **One step** keeps the cache coherent. -/
theorem step (h : Coherent s) (hG : FillsPages s a) (hstep : cacheStep l c s a = some s') :
    Coherent s' := by
  cases a with
  | readpage index junk => exact h.readpage hG hstep
  | write pos len user junk => exact h.bufferedWrite hG hstep
  | commit index offset upto user junk => exact h.committedWrite hG hstep
  | writepage index => exact h.writepage hstep

end Coherent

/-- **Page-cache coherence**: from an empty cache and an inode that knows the file's size, in every
run in which a part of a page is written only when the page has been read, and a page is read only
below 2 GiB or behind the end of the file, every `Uptodate` page holds the file's bytes below
`i_size` and zeros from there on. -/
theorem uptodate_pages_coherent {inode : Inode} {store : Store} (hsize : inode.iSize = store.size)
    (hmax : store.size ≤ sMaxbytes)
    (h : Reach (cacheStep l c) FillsPages (.init inode store) s) (hp : s.pages index = some pg)
    (_hu : pg.uptodate = true) {k : ℕ} (hk : k < pageCacheSize) :
    (((index * pageCacheSize + k : ℕ) : ℤ) < s.inode.iSize →
      pg.data k = s.store.bytes (index * pageCacheSize + k)) ∧
    (s.inode.iSize ≤ ((index * pageCacheSize + k : ℕ) : ℤ) → pg.data k = 0) := by
  have hcoh : Coherent s := Reach.invariant (P := Coherent) (.init hsize hmax)
    (fun _ _ _ hc hG hstep => hc.step hG hstep) h
  have hdata := (hcoh.page index pg hp).2.2 k hk
  refine ⟨fun _ => hdata, fun hle => ?_⟩
  rw [hcoh.size] at hle
  rw [hdata, s.store.tail _ (Int.ofNat_le.mp hle)]

/-- The page is read, a byte is written into it, the next page is written as a whole, and the first
one is written back. -/
theorem uptodate_pages_coherent_two : ∃ s pg, Reach (cacheStep .w32 ⟨0, 0⟩) FillsPages
    (.init tenByteInode tenSevens) s ∧ s.pages 0 = some pg ∧ pg.uptodate = true ∧
    s.inode.iSize = 8192 ∧ pg.data 3 = s.store.bytes 3 := by
  obtain ⟨s, hs, hsize, hpage⟩ := Reach.of_check (cacheStep .w32 ⟨0, 0⟩) FillsPages
    (.init tenByteInode tenSevens)
    [.readpage 0 (fun _ => 9), .write 3 1 (fun _ => 1) (fun _ => 9),
      .write 4096 4096 (fun _ => 2) (fun _ => 9), .writepage 0]
    (fun s => s.inode.iSize = 8192 ∧ (s.pages 0).any Page.uptodate = true) (by decide +kernel)
  obtain ⟨pg, hp, hu⟩ := (Option.any_eq_true _ _).mp hpage
  have hcoh := uptodate_pages_coherent (by rfl) (by decide) hs hp hu (k := 3) (by decide)
  exact ⟨s, pg, hs, hp, hu, hsize, hcoh.1 (by rw [hsize]; decide)⟩

end Uvfs.Vfs
