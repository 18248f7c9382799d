import Uvfs.Driver.State
import Uvfs.Lib.Blind
import Uvfs.Vfs.Operations

/-!
# What an operation shows of its transaction

`kmalloc` returns memory with whatever it held before.  An operation builds its request in it,
`uvfsd_write` copies as many bytes over it as the server wrote, and the operation reads the struct
it expects, whether the reply reaches so far or not.

* `Reply` : a reply that `uvfsd_write` accepts; `Reply.memory` : the transaction after it.
* `Reply.Known` : the bytes that the server, the request or the driver has written.
* `SelfContained` : the result of an operation is the same whatever the memory held before.
* `Covers` : the reply and the request under it fill a struct; for each operation that reads one
  struct this is when it is self-contained.
-/

namespace Uvfs.Vfs

open Uvfs.Driver (Transaction)

/-! ## Replies -/

/-- The transaction from the start of its union on. -/
def flat (tr : Transaction) : Mem := fun i =>
  if i < sizeofU then tr.u i
  else if i < Transaction.offsetofInUse then tr.serial.byte (i - sizeofU)
  else if i < Transaction.offsetofAbort then tr.inUse.byte (i - Transaction.offsetofInUse)
  else if i < Transaction.offsetofAnswered then tr.abort.byte (i - Transaction.offsetofAbort)
  else if i < Transaction.offsetofBehind then tr.answered.byte (i - Transaction.offsetofAnswered)
  else tr.behind (i - Transaction.offsetofBehind)

/-- What `uvfsd_write` gets for a transaction, and accepts. -/
structure Reply where
  /-- The serial of the transaction. -/
  serial : Word
  /-- `count`. -/
  size : ℕ
  /-- `buff`. -/
  data : Mem
  /-- The memory behind the transaction. -/
  behind : Mem
  /-- The reply has a header. -/
  size_ge : sizeofGenericRep ≤ size
  /-- The header has the size. -/
  size_eq : (data.word offsetofSize).toInt = size
  /-- The header has the serial of the transaction. -/
  serial_eq : data.word offsetofSerial = serial

namespace Reply

/-- The transaction when `uvfs_make_request` returns: the request was built over `stale`, and the
reply was copied over the request.
Source: `driver.c`, `uvfs_new_transaction` and `uvfsd_write`. -/
def transaction (x : Reply) (b : Built) (stale : Mem) : Transaction :=
  { (Transaction.mk (b.store stale) x.serial 0 0 0 x.behind).copyFromUser x.size x.data with
    inUse := 0
    answered := 1 }

/-- What the operation reads. -/
def memory (x : Reply) (b : Built) (stale : Mem) : Mem := flat (x.transaction b stale)

/-- A byte that the server has written, or that is part of the request, or that does not lie in the
union. -/
def Known (x : Reply) (b : Built) (i : ℕ) : Prop :=
  i < x.size ∨ Struct.Filled 0 (requestLayout b.type) b.values i ∨ sizeofU ≤ i

instance (x : Reply) (b : Built) : DecidablePred (x.Known b) := fun _ =>
  inferInstanceAs (Decidable (_ ∨ _ ∨ _))

/-- What is known of the transaction. -/
def base (x : Reply) (b : Built) : Mem := x.memory b fun _ => 0

variable {x : Reply} {b : Built} {stale stale' : Mem} {i : ℕ}

/-- The part of the union that the server has written. -/
theorem memory_of_lt_size (h : i < x.size) (hu : i < sizeofU) :
    x.memory b stale i = x.data i := by
  rw [memory, flat, if_pos hu]
  exact (Mem.overlay_of_mem (Nat.zero_le _) (by omega)).trans (by rw [Nat.sub_zero])

/-- The part of the union that the server has not written. -/
theorem memory_of_size_le (h : x.size ≤ i) (hu : i < sizeofU) :
    x.memory b stale i = b.store stale i := by
  rw [memory, flat, if_pos hu]
  exact Mem.overlay_of_not_mem (by omega)

theorem memory_of_known (h : x.Known b i) : x.memory b stale i = x.memory b stale' i := by
  by_cases hu : i < sizeofU
  · by_cases hi : i < x.size
    · rw [memory_of_lt_size hi hu, memory_of_lt_size hi hu]
    · have hfilled : Struct.Filled 0 (requestLayout b.type) b.values i := by
        rcases h with h | h | h
        · exact absurd h hi
        · exact h
        · omega
      rw [memory_of_size_le (by omega) hu, memory_of_size_le (by omega) hu]
      exact Struct.store_congr_of_filled hfilled
  · rw [memory, memory, flat, flat, if_neg hu, if_neg hu]
    rfl

/-- **The memory of a reply**: what is known, and what was there before. -/
theorem memory_eq_patch : x.memory b stale = (x.base b).patch (x.Known b) stale := by
  funext i
  by_cases h : x.Known b i
  · rw [Mem.patch_of_known h]
    exact memory_of_known h
  · obtain ⟨hsize, hfilled, hu⟩ : ¬ i < x.size ∧
        ¬ Struct.Filled 0 (requestLayout b.type) b.values i ∧ ¬ sizeofU ≤ i := by
      simpa [Known, not_or] using h
    rw [Mem.patch_of_not_known h, memory_of_size_le (by omega) (by omega)]
    exact Struct.store_of_not_filled hfilled

end Reply

/-! ## Two runs -/

/-- Who calls, and what the kernel knows: everything that two runs have in common. -/
structure Kernel where
  /-- The hash function of the inode cache. -/
  hash : ℕ → ℕ → ℕ
  /-- The width of `long`. -/
  l : LongWidth
  /-- The caller. -/
  cred : Cred
  /-- The inode cache. -/
  cache : InodeCache

/-- The driver with a server that gives the replies in their order; the transaction with the number
`k` was `stale k` before.  There is no transaction for a request without a reply. -/
def Kernel.serve (ker : Kernel) (stale : ℕ → Mem) :
    ℕ × List Reply → (q : WireCall) → q.Answer × ℕ × List Reply
  | s, .newTransaction => (!s.2.isEmpty, s)
  | (k, []), .makeRequest _ => (fun _ => 0, k, [])
  | (k, x :: xs), .makeRequest r =>
      (x.memory (r.built ker.l ker.cred x.serial) (stale k), k + 1, xs)
  | s, .kfree => ((), s)

/-- **The two-run property**: the result is the same whatever the transactions held before. -/
def SelfContained {α : Type} (ker : Kernel) (replies : List Reply) (d : Wire α) : Prop :=
  ∀ stale stale', (d.run (ker.serve stale) (0, replies)).1 =
    (d.run (ker.serve stale') (0, replies)).1

variable {ker : Kernel} {x : Reply} {xs : List Reply} {r : VfsRequest}

theorem run_request_cons {α : Type} (stale : ℕ → Mem) (noMemory : α) (read : Mem → α) :
    ((Wire.request r noMemory read).run (ker.serve stale) (0, x :: xs)).1 =
      read (x.memory (r.built ker.l ker.cred x.serial) (stale 0)) := rfl

/-- A function that makes one request. -/
theorem selfContained_request {α : Type} {noMemory : α} {read : Mem → α} :
    SelfContained ker (x :: xs) (Wire.request r noMemory read) ↔
      Blind (x.Known (r.built ker.l ker.cred x.serial))
        (x.base (r.built ker.l ker.cred x.serial)) read := by
  simp only [SelfContained, Blind, run_request_cons, Reply.memory_eq_patch]
  constructor
  · intro h stale stale'
    exact h (fun _ => stale) fun _ => stale'
  · intro h stale stale'
    exact h (stale 0) (stale' 0)

/-- A function that does not get to its request. -/
theorem selfContained_pure {α : Type} {replies : List Reply} (a : α) :
    SelfContained ker replies (pure a) := fun _ _ => rfl

/-- A function that gets no reply. -/
theorem selfContained_nil {α : Type} (d : Wire α) : SelfContained ker [] d := by
  intro stale stale'
  suffices h : ∀ k, d.run (ker.serve stale) (k, []) = d.run (ker.serve stale') (k, []) by rw [h]
  induction d with
  | result a => exact fun k => rfl
  | send q f ih =>
      intro k
      cases q with
      | newTransaction => exact ih _ k
      | makeRequest r => exact ih _ k
      | kfree => exact ih _ k

/-! ## Structs -/

theorem byte_eq_of_word {m m' : Mem} (off : ℕ) {k : ℕ} (h : m.word off = m'.word off)
    (hk : k < 4) :
    m (off + k) = m' (off + k) := by
  have hbyte := congrArg (fun w => Word.byte w k) h
  simpa only [Mem.word, Word.byte_ofBytes _ hk] using hbyte

theorem word_congr {m m' : Mem} {off n : ℕ} (h : ∀ i < n, m i = m' i) (hoff : off + 4 ≤ n) :
    m.word off = m'.word off :=
  Word.ofBytes_congr fun k hk => h (off + k) (by omega)

theorem fhandleAt_congr {m m' : Mem} {off n : ℕ} (h : ∀ i < n, m i = m' i)
    (hoff : off + sizeofFhandle ≤ n) : fhandleAt m off = fhandleAt m' off := by
  unfold sizeofFhandle at hoff
  unfold fhandleAt
  simp (disch := omega) only [word_congr h]

theorem attrAt_congr {m m' : Mem} {off n : ℕ} (h : ∀ i < n, m i = m' i)
    (hoff : off + sizeofAttr ≤ n) : attrAt m off = attrAt m' off := by
  unfold sizeofAttr sizeofTimespec at hoff
  unfold attrAt
  simp (disch := omega) only [word_congr h]

/-- The server has written the error. -/
theorem replyError_of_known {b : Built} {m : Mem} (h : ∀ i, x.Known b i → m i = x.base b i) :
    replyError m = replyError x.data := by
  have hsize := x.size_ge
  have hsixteen : sizeofGenericRep = 16 := rfl
  have herror : offsetofError = 12 := rfl
  have hu := sizeofU_eq
  unfold replyError
  congr 1
  apply Word.ofBytes_congr
  intro k hk
  rw [h _ (.inl (by omega)), Reply.base, Reply.memory_of_lt_size (by omega) (by omega)]

/-- The reply and the request under it fill the first `n` bytes. -/
def Covers (ker : Kernel) (x : Reply) (r : VfsRequest) (n : ℕ) : Prop :=
  ∀ i < n, x.Known (r.built ker.l ker.cred x.serial) i

/-- In front of a name or a path a request has no gaps. -/
theorem filled_of_le {l : LongWidth} {cred : Cred} {serial : Word} (h : r.Accepted) {i j : ℕ}
    (hfilled : Struct.Filled 0 (requestLayout (r.built l cred serial).type)
      (r.built l cred serial).values i) (hi : i < 308) (hj : j ≤ i) :
    Struct.Filled 0 (requestLayout (r.built l cred serial).type)
      (r.built l cred serial).values j := by
  cases r with
  | symlink dir name path =>
      obtain ⟨hname, -⟩ := h
      simp [Struct.Filled, requestLayout, genericReqLayout, VfsRequest.built, symlinkRequest,
        header, sizeofFhandle, uvfsMaxNamelen, uvfsMaxPathlen] at hname hfilled ⊢
      omega
  | rename srcdir srcname dstdir dstname =>
      obtain ⟨hname, -⟩ := h
      simp [Struct.Filled, requestLayout, genericReqLayout, VfsRequest.built, renameRequest, header,
        sizeofFhandle, uvfsMaxNamelen] at hname hfilled ⊢
      omega
  | _ =>
      simp [Struct.Filled, requestLayout, genericReqLayout, VfsRequest.built, header,
        createRequest, lookupRequest, unlinkRequest, rmdirRequest, nameRequest, mkdirRequest,
        readdirRequest, setattrRequest, getattrRequest, readlinkRequest, handleRequest,
        statfsRequest, readSuperRequest, ReadRequest.built, WriteRequest.built, sizeofFhandle,
        sizeofTimespec] at hfilled ⊢
      omega

/-- The last byte of a struct is filled only when the whole struct is. -/
theorem covers_of_last (h : r.Accepted) {n : ℕ} (hn : n ≤ 308)
    (hlast : x.Known (r.built ker.l ker.cred x.serial) (n - 1)) : Covers ker x r n := by
  have hu := sizeofU_eq
  intro i hi
  rcases hlast with hlast | hlast | hlast
  · exact .inl (by omega)
  · exact .inr (.inl (filled_of_le h hlast (by omega) (by omega)))
  · omega

/-- A function that returns the error, and reads a struct of `n` bytes when there is none. -/
theorem selfContained_iff_covers {α : Type} {noMemory : α} {read : Mem → α} {n : ℕ}
    (hreads : ∀ m m' : Mem, (∀ i < n, m i = m' i) → read m = read m')
    (herror : ∀ m m' : Mem, replyError m < 0 → replyError m = replyError m' → read m = read m')
    (hshows : ∀ m m' : Mem, 0 ≤ replyError m → (∀ i, i ≠ n - 1 → m i = m' i) → read m = read m' →
      m (n - 1) = m' (n - 1))
    (hlast : x.Known (r.built ker.l ker.cred x.serial) (n - 1) → Covers ker x r n) :
    SelfContained ker (x :: xs) (Wire.request r noMemory read) ↔
      replyError x.data < 0 ∨ Covers ker x r n := by
  rw [selfContained_request]
  by_cases hnegative : replyError x.data < 0
  · refine iff_of_true ?_ (.inl hnegative)
    intro stale stale'
    have hknown : ∀ stale, replyError ((x.base (r.built ker.l ker.cred x.serial)).patch
        (x.Known (r.built ker.l ker.cred x.serial)) stale) = replyError x.data := fun stale =>
      replyError_of_known fun i hi => Mem.patch_of_known hi
    exact herror _ _ (by rw [hknown]; exact hnegative) ((hknown stale).trans (hknown stale').symm)
  · rw [or_iff_right hnegative]
    refine blind_iff_of_struct (fun m m' _ => hreads m m') ?_ hlast
    intro m m' hknown
    exact hshows m m' (by rw [replyError_of_known hknown]; omega)

/-! ## Inodes of a reply -/

/-- Whatever else is decided elsewhere may be part of the result. -/
theorem selfContained_forall {α β : Type} {noMemory : β → α} {read : β → Mem → α} :
    (∀ y, SelfContained ker (x :: xs) (Wire.request r (noMemory y) (read y))) ↔
      SelfContained ker (x :: xs) (Wire.request r noMemory fun m y => read y m) := by
  simp only [selfContained_request, Blind]
  constructor
  · intro h stale stale'
    funext y
    exact h y stale stale'
  · intro h y stale stale'
    exact congrFun (h stale stale') y

/-- The device numbers of the cached inodes. -/
def rdevs (c : InodeCache) : List Word := c.slots.map fun s => s.item.inode.iRdev

theorem rdevs_adjustLinks (c : InodeCache) (changes : List LinkChange) :
    rdevs (adjustLinks c changes) = rdevs c := by
  induction changes generalizing c with
  | nil => rfl
  | cons y changes ih =>
      refine (ih _).trans ?_
      simp only [rdevs, Table.modify, List.map_map]
      apply List.map_congr_left
      intro s _
      simp only [Function.comp_apply]
      split <;> rfl

section

variable {hash : ℕ → ℕ → ℕ} {l : LongWidth} {c : InodeCache} {sb : ℕ} {fsuid : Word}

/-- When there is memory there is an inode. -/
theorem igetCached_true_fst (fh : Fhandle) (attr : UvfsAttr) :
    ∃ id, (igetCached hash l c sb fsuid fh attr true).1 = some id := by
  unfold igetCached iget5Locked
  cases ilookup5 hash c sb fh.hashval fun i => uvfsCompareInode i fh with
  | none => exact ⟨_, rfl⟩
  | some s => exact ⟨_, rfl⟩

/-- The inode has the device number of the reply. -/
theorem devno_of_rdevs {fh : Fhandle} {attr attr' : UvfsAttr}
    (h : rdevs (igetCached hash l c sb fsuid fh attr true).2 =
      rdevs (igetCached hash l c sb fsuid fh attr' true).2) : attr.devno = attr'.devno := by
  unfold igetCached iget5Locked at h
  cases hfind : ilookup5 hash c sb fh.hashval fun i => uvfsCompareInode i fh with
  | none =>
      simp only [hfind, if_true, rdevs, Table.modify, Table.add, List.map_cons] at h
      exact (List.cons.inj h).1
  | some s =>
      simp only [hfind, rdevs, Table.modify, List.map_map] at h
      have hs := List.map_inj_left.mp h s (List.mem_of_find?_eq_some hfind)
      simp only [Function.comp_apply, if_true] at hs
      exact hs

variable {a b n : ℕ} {m m' : Mem}

/-- `uvfs_iget` reads a handle and attributes. -/
theorem igetCached_congr (ha : a + sizeofFhandle ≤ n) (hb : b + sizeofAttr ≤ n)
    (h : ∀ i < n, m i = m' i) (memory : Bool) :
    igetCached hash l c sb fsuid (fhandleAt m a) (attrAt m b) memory =
      igetCached hash l c sb fsuid (fhandleAt m' a) (attrAt m' b) memory := by
  rw [fhandleAt_congr h ha, attrAt_congr h hb]

/-- It shows the last byte of the attributes. -/
theorem igetCached_shows (ha : a + sizeofFhandle < n) (hb : b + sizeofAttr = n)
    (h : ∀ i, i ≠ n - 1 → m i = m' i)
    (hsame : rdevs (igetCached hash l c sb fsuid (fhandleAt m a) (attrAt m b) true).2 =
      rdevs (igetCached hash l c sb fsuid (fhandleAt m' a) (attrAt m' b) true).2) :
    m (n - 1) = m' (n - 1) := by
  have hbefore : ∀ i < n - 1, m i = m' i := fun i hi => h i (by omega)
  rw [fhandleAt_congr hbefore (by omega)] at hsame
  have hdevno := byte_eq_of_word (b + 52) (devno_of_rdevs hsame) (show 3 < 4 by decide)
  have hsize : sizeofAttr = 56 := rfl
  have hlast : b + 52 + 3 = n - 1 := by omega
  rwa [hlast] at hdevno

end

theorem replyError_congr {m m' : Mem} {n : ℕ} (h : ∀ i < n, m i = m' i)
    (hn : sizeofGenericRep ≤ n) : replyError m = replyError m' := by
  have hsixteen : sizeofGenericRep = 16 := rfl
  have herror : offsetofError = 12 := rfl
  exact congrArg BitVec.toInt (word_congr h (by omega))

/-- A function that returns the error, and gets an inode for the handle at `a` and the attributes at
`b` when there is none; the device numbers of the inodes can be told from its result. -/
theorem selfContained_iget {β : Type} {noMemory : Bool → β} {read : Bool → Mem → β}
    (view : β → List Word) (sb a b : ℕ) {n : ℕ} (hn : sizeofGenericRep < n)
    (ha : a + sizeofFhandle < n) (hb : b + sizeofAttr = n)
    (hreads : ∀ memory (m m' : Mem), (∀ i < n, m i = m' i) → read memory m = read memory m')
    (herror : ∀ memory (m m' : Mem), replyError m < 0 → replyError m = replyError m' →
      read memory m = read memory m')
    (hview : ∀ m : Mem, 0 ≤ replyError m → view (read true m) =
      rdevs (igetCached ker.hash ker.l ker.cache sb ker.cred.fsuid (fhandleAt m a) (attrAt m b)
        true).2)
    (hlast : x.Known (r.built ker.l ker.cred x.serial) (n - 1) → Covers ker x r n) :
    (∀ memory, SelfContained ker (x :: xs)
      (Wire.request r (noMemory memory) (read memory))) ↔
      replyError x.data < 0 ∨ Covers ker x r n := by
  rw [selfContained_forall]
  refine selfContained_iff_covers ?_ ?_ ?_ hlast
  · intro m m' h
    funext memory
    exact hreads memory m m' h
  · intro m m' hnegative hsame
    funext memory
    exact herror memory m m' hnegative hsame
  · intro m m' hnonneg h hsame
    have hbefore : ∀ i < n - 1, m i = m' i := fun i hi => h i (by omega)
    have hnonneg' : 0 ≤ replyError m' := replyError_congr hbefore (by omega) ▸ hnonneg
    have hview' := congrArg view (congrFun hsame true)
    rw [hview m hnonneg, hview m' hnonneg'] at hview'
    exact igetCached_shows ha hb h hview'

/-! ## Names -/

/-- Replies that are a handle and attributes after the header. -/
def HandleReply (k : RequestType) : Prop :=
  replyLayout k = genericRepLayout ++ [sizeofFhandle, sizeofAttr]

/-- `sizeof` such a reply. -/
def sizeofHandleReply : ℕ := sizeofGenericRep + sizeofFhandle + sizeofAttr

theorem HandleReply.offset_fh {k : RequestType} (hk : HandleReply k) : replyOffset k 4 = 16 := by
  rw [replyOffset, hk]
  rfl

theorem HandleReply.offset_attr {k : RequestType} (hk : HandleReply k) :
    replyOffset k 5 = 48 := by
  rw [replyOffset, hk]
  rfl

/-- `uvfs_create`, `uvfs_symlink` and `uvfs_mkdir` after their checks. -/
theorem selfContained_newEntry {dir : Slot ℕ CachedInode} {k : RequestType} (hk : HandleReply k)
    {link : InodeCache → InodeCache} (hlink : ∀ c, rdevs (link c) = rdevs c) {noMemory : NewEntry}
    (hlast : x.Known (r.built ker.l ker.cred x.serial) (sizeofHandleReply - 1) →
      Covers ker x r sizeofHandleReply) :
    (∀ memory, SelfContained ker (x :: xs) (Wire.request r noMemory
      (newEntry ker.hash ker.l ker.cred.fsuid ker.cache dir memory k link))) ↔
      replyError x.data < 0 ∨ Covers ker x r sizeofHandleReply := by
  refine selfContained_iget (fun e => rdevs e.cache) dir.item.sb 16 48 (by decide) (by decide)
    (by decide) ?_ ?_ ?_ hlast
  · intro memory m m' h
    have higet := @igetCached_congr ker.hash ker.l ker.cache dir.item.sb ker.cred.fsuid 16 48
      sizeofHandleReply m m' (by decide) (by decide) h memory
    rw [newEntry, newEntry, hk.offset_fh, hk.offset_attr, higet, replyError_congr h (by decide)]
  · intro memory m m' herror hsame
    rw [newEntry, newEntry, if_pos herror, if_pos (hsame ▸ herror), hsame]
  · intro m herror
    obtain ⟨id, hid⟩ := @igetCached_true_fst ker.hash ker.l ker.cache dir.item.sb ker.cred.fsuid
      (fhandleAt m 16) (attrAt m 48)
    rw [newEntry, if_neg (not_lt.mpr herror), hk.offset_fh, hk.offset_attr]
    rcases higet : igetCached ker.hash ker.l ker.cache dir.item.sb ker.cred.fsuid
      (fhandleAt m 16) (attrAt m 48) true with ⟨found, c'⟩
    rw [higet] at hid
    cases hid
    exact hlink c'

/-- The result of a request, with something more done to it. -/
theorem request_bind_pure {α β : Type} (noMemory : α) (read : Mem → α) (f : α → β) :
    (do return f (← Wire.request r noMemory read) : Wire β) =
      Wire.request r (f noMemory) fun m => f (read m) := by
  change Dialogue.send _ _ = Dialogue.send _ _
  congr 1
  funext transaction
  cases transaction with
  | false => rfl
  | true => rfl

/-- `uvfs_lookup` after its check. -/
theorem selfContained_lookup {dir : Slot ℕ CachedInode} {noMemory : LookupOutcome}
    (hlast : x.Known (r.built ker.l ker.cred x.serial) (sizeofHandleReply - 1) →
      Covers ker x r sizeofHandleReply) :
    (∀ memory, SelfContained ker (x :: xs) do
      return uvfsLookup ker.hash ker.l ker.cache dir.item.sb ker.cred.fsuid
        (← Wire.request r noMemory fun reply =>
          ⟨replyError reply, fhandleAt reply (replyOffset .lookup 4),
            attrAt reply (replyOffset .lookup 5)⟩) memory) ↔
      replyError x.data < 0 ∨ Covers ker x r sizeofHandleReply := by
  have hk : HandleReply .lookup := rfl
  simp only [request_bind_pure, hk.offset_fh, hk.offset_attr]
  refine selfContained_iget (fun e => rdevs e.2) dir.item.sb 16 48 (by decide) (by decide)
    (by decide) ?_ ?_ ?_ hlast
  · intro memory m m' h
    have higet := @igetCached_congr ker.hash ker.l ker.cache dir.item.sb ker.cred.fsuid 16 48
      sizeofHandleReply m m' (by decide) (by decide) h memory
    simp only [uvfsLookup, higet, replyError_congr h (show sizeofGenericRep ≤ _ by decide)]
  · intro memory m m' herror hsame
    simp only [uvfsLookup, ← hsame, if_pos herror]
  · intro m herror
    rw [uvfsLookup, if_neg (not_lt.mpr herror)]

/-! ## Superblocks -/

/-- `sizeof(uvfs_read_super_rep_s)`. -/
def sizeofReadSuperReply : ℕ := (replyLayout .readSuper).sum

/-- `uvfs_read_super` after its checks. -/
theorem selfContained_readSuper {sb : ℕ} {noMemory : ℤ × Option SuperBlock × InodeCache}
    (hlast : x.Known (r.built ker.l ker.cred x.serial) (sizeofReadSuperReply - 1) →
      Covers ker x r sizeofReadSuperReply) :
    (∀ memory, SelfContained ker (x :: xs) (Wire.request r noMemory
      (readSuperReply ker.hash ker.l ker.cred.fsuid ker.cache sb memory))) ↔
      replyError x.data < 0 ∨ Covers ker x r sizeofReadSuperReply := by
  have hfh : replyOffset .readSuper 7 = 28 := rfl
  have hattr : replyOffset .readSuper 8 = 60 := rfl
  refine selfContained_iget (fun e => rdevs e.2.2) sb 28 60 (by decide) (by decide) (by decide)
    ?_ ?_ ?_ hlast
  · intro memory m m' h
    have higet := @igetCached_congr ker.hash ker.l ker.cache sb ker.cred.fsuid 28 60
      sizeofReadSuperReply m m' (by decide) (by decide) h memory
    simp only [readSuperReply, hfh, hattr, higet,
      replyError_congr h (show sizeofGenericRep ≤ _ by decide),
      word_congr h (show replyOffset .readSuper 4 + 4 ≤ _ by decide),
      word_congr h (show replyOffset .readSuper 5 + 4 ≤ _ by decide),
      word_congr h (show replyOffset .readSuper 6 + 4 ≤ _ by decide)]
  · intro memory m m' herror hsame
    simp only [readSuperReply, ← hsame, if_pos herror]
  · intro m herror
    obtain ⟨id, hid⟩ := @igetCached_true_fst ker.hash ker.l ker.cache sb ker.cred.fsuid
      (fhandleAt m 28) (attrAt m 60)
    rw [readSuperReply, if_neg (not_lt.mpr herror), hfh, hattr]
    rcases higet : igetCached ker.hash ker.l ker.cache sb ker.cred.fsuid (fhandleAt m 28)
      (attrAt m 60) true with ⟨found, c'⟩
    rw [higet] at hid
    cases hid
    rfl

/-- `sizeof(uvfs_statfs_rep_s)`. -/
def sizeofStatfsReply : ℕ := (replyLayout .statfs).sum

/-- `uvfs_statfs`, which reads the whole reply whatever the error. -/
theorem selfContained_statfs {fh : Fhandle} :
    SelfContained ker (x :: xs) (uvfsStatfs fh) ↔
      Covers ker x (.statfs fh) sizeofStatfsReply := by
  rw [uvfsStatfs, selfContained_request]
  refine blind_iff_of_struct ?_ ?_ (covers_of_last (r := .statfs fh) trivial (by decide))
  · intro m m' _ h
    simp only [kstatfsOf, replyError_congr h (show sizeofGenericRep ≤ _ by decide),
      word_congr h (show replyOffset .statfs 4 + 4 ≤ _ by decide),
      word_congr h (show replyOffset .statfs 5 + 4 ≤ _ by decide),
      word_congr h (show replyOffset .statfs 6 + 4 ≤ _ by decide),
      word_congr h (show replyOffset .statfs 7 + 4 ≤ _ by decide),
      word_congr h (show replyOffset .statfs 8 + 4 ≤ _ by decide),
      word_congr h (show replyOffset .statfs 9 + 4 ≤ _ by decide),
      word_congr h (show replyOffset .statfs 10 + 4 ≤ _ by decide),
      word_congr h (show replyOffset .statfs 11 + 4 ≤ _ by decide)]
  · intro m m' _ _ hsame
    have hnamelen := congrArg Kstatfs.fNamelen (Option.some.inj (Prod.mk.inj hsame).2)
    exact byte_eq_of_word (replyOffset .statfs 11) (BitVec.toInt_inj.mp hnamelen)
      (show 3 < 4 by decide)

/-- `sizeof(uvfs_getattr_rep_s)`. -/
def sizeofGetattrReply : ℕ := (replyLayout .getattr).sum

/-- `uvfs_revalidate_inode`. -/
theorem selfContained_revalidateInode {inode : Inode} :
    SelfContained ker (x :: xs) (uvfsRevalidateInode ker.l ker.cred.fsuid inode) ↔
      replyError x.data ≠ 0 ∨ Covers ker x (.getattr inode.fh) sizeofGetattrReply := by
  rw [uvfsRevalidateInode, selfContained_request]
  by_cases herror : replyError x.data = 0
  · rw [or_iff_right (not_not.mpr herror)]
    refine blind_iff_of_struct ?_ ?_
      (covers_of_last (r := .getattr inode.fh) trivial (by decide))
    · intro m m' _ h
      rw [replyError_congr h (by decide), attrAt_congr h (by decide)]
    · intro m m' hknown h hsame
      have hbefore : ∀ i < sizeofGetattrReply - 1, m i = m' i := fun i hi => h i (by omega)
      have hm : replyError m = 0 := (replyError_of_known hknown).trans herror
      have hm' : replyError m' = 0 := (replyError_congr hbefore (by decide)).symm.trans hm
      rw [if_pos hm, if_pos hm'] at hsame
      have hrdev := congrArg Inode.iRdev (Prod.mk.inj hsame).2
      exact byte_eq_of_word (replyOffset .getattr 4 + 52) hrdev (show 3 < 4 by decide)
  · refine iff_of_true ?_ (.inl herror)
    refine blind_of_const (a := (replyError x.data, inode)) ?_
    intro m hknown
    rw [replyError_of_known hknown, if_neg herror]

/-! ## Pages -/

/-- The reply of a read, as `uvfs_readpage` finds it in the transaction. -/
def fileReplyAt (m : Mem) : FileReply :=
  ⟨m.word offsetofError, m.word (replyOffset .read 4), fun i => m (replyOffset .read 5 + i)⟩

/-- A driver that has this transaction. -/
def serveFile (m : Mem) : Unit → (q : DriverCall) → q.Answer × Unit
  | _, .newTransaction => (true, ())
  | _, .makeRequest _ => (fileReplyAt m, ())
  | _, .kfree => ((), ())

/-- What `uvfs_readpage` leaves: the bytes of the page, its flags and the returned value. -/
def pageResult (res : Page × ℤ) : List Byte × Bool × Bool × ℤ :=
  (res.1.data.toList pageCacheSize, res.1.uptodate, res.1.error, res.2)

/-- `uvfs_readpage` on the transaction. -/
def readpage (l : LongWidth) (cred : Cred) (inode : Inode) (pg : Page) :
    Wire (List Byte × Bool × Bool × ℤ) :=
  Wire.request (.readpage inode pg) (pageResult (pg, enomem)) fun m =>
    pageResult ((uvfsReadpage l cred inode pg).run (serveFile m) ()).1

section

variable {l : LongWidth} {cred : Cred} {inode : Inode} {pg : Page} {m m' : Mem}

theorem run_uvfsReadpage_serveFile : ((uvfsReadpage l cred inode pg).run (serveFile m) ()).1 =
    if replyError m < 0 then (pg.setError.unlock, replyError m)
    else ({ pg with data := fillPage l pg.data (fileReplyAt m) }.setUptodate.unlock, 0) := by
  change (Dialogue.run _ (if replyError m < 0 then _ else _) _).1 = _
  split
  · rfl
  · rfl

end

/-- How many bytes of a page come from the reply. -/
def filledBytes (l : LongWidth) (m : Mem) : ℕ :=
  min (l.ofInt (m.word (replyOffset .read 4))) pageCacheSize

/-- The request reaches over the header and the length of the reply. -/
theorem known_readpage {inode : Inode} {pg : Page} {i : ℕ} (hi : i < 60) :
    x.Known ((VfsRequest.readpage inode pg).built ker.l ker.cred x.serial) i := by
  refine .inr (.inl ?_)
  simp [Struct.Filled, requestLayout, genericReqLayout, VfsRequest.built, header,
    ReadRequest.built, sizeofFhandle]
  omega

section Pages

variable {l : LongWidth} {b : Built} {pg : Page} {m m' : Mem} {i : ℕ}

/-- A byte of the page after `uvfs_readpage`; the number of bytes that were read is known. -/
theorem fillPage_of_known (hlow : ∀ i < 60, x.Known b i)
    (hknown : ∀ i, x.Known b i → m i = x.base b i) (hi : i < pageCacheSize) :
    fillPage l pg.data (fileReplyAt m) i =
      if i < filledBytes l (x.base b) then m (replyOffset .read 5 + i) else 0 := by
  have hlen : m.word (replyOffset .read 4) = (x.base b).word (replyOffset .read 4) :=
    word_congr (n := 20) (fun i hi => hknown i (hlow i (by omega))) (by decide)
  simp only [fillPage_apply hi, fileReplyAt, hlen, filledBytes, lt_min_iff, hi, and_true]

/-- Two runs leave the same page when its bytes are the same. -/
theorem pageResult_eq_iff : pageResult
      ({ pg with data := fillPage l pg.data (fileReplyAt m) }.setUptodate.unlock, 0) =
    pageResult ({ pg with data := fillPage l pg.data (fileReplyAt m') }.setUptodate.unlock, 0) ↔
    ∀ i < pageCacheSize, fillPage l pg.data (fileReplyAt m) i =
      fillPage l pg.data (fileReplyAt m') i := by
  simp only [pageResult, Page.setUptodate, Page.unlock, Prod.mk.injEq, and_true, Mem.toList_eq_iff]

/-- The page is the same in all runs exactly when the bytes that come from the reply are known. -/
theorem blind_page_iff (hlow : ∀ i < 60, x.Known b i) :
    Blind (x.Known b) (x.base b) (fun m => pageResult
      ({ pg with data := fillPage l pg.data (fileReplyAt m) }.setUptodate.unlock, 0)) ↔
      ∀ i < filledBytes l (x.base b), x.Known b (replyOffset .read 5 + i) := by
  have hpatch : ∀ stale i, x.Known b i → (x.base b).patch (x.Known b) stale i = x.base b i :=
    fun _ _ hi => Mem.patch_of_known hi
  constructor
  · intro hblind i hi
    by_contra hunknown
    have hpage : i < pageCacheSize := (lt_min_iff.mp hi).2
    have hbyte := pageResult_eq_iff.mp (hblind (fun _ => 0) fun _ => 1) i hpage
    rw [fillPage_of_known hlow (hpatch _) hpage, fillPage_of_known hlow (hpatch _) hpage,
      if_pos hi, if_pos hi, Mem.patch_of_not_known hunknown, Mem.patch_of_not_known hunknown]
      at hbyte
    exact absurd hbyte (by decide)
  · intro hcover stale stale'
    rw [pageResult_eq_iff]
    intro i hi
    rw [fillPage_of_known hlow (hpatch _) hi, fillPage_of_known hlow (hpatch _) hi]
    split
    · rw [hpatch _ _ (hcover i ‹_›), hpatch _ _ (hcover i ‹_›)]
    · rfl

end Pages

/-- `uvfs_readpage`: the reply reaches as far as `bytes_read` says, or it is an error. -/
theorem selfContained_readpage {inode : Inode} {pg : Page} :
    SelfContained ker (x :: xs) (readpage ker.l ker.cred inode pg) ↔
      replyError x.data < 0 ∨
        ∀ i < filledBytes ker.l (x.base ((VfsRequest.readpage inode pg).built ker.l ker.cred
            x.serial)),
          x.Known ((VfsRequest.readpage inode pg).built ker.l ker.cred x.serial)
            (replyOffset .read 5 + i) := by
  rw [readpage, selfContained_request]
  simp only [run_uvfsReadpage_serveFile]
  by_cases herror : replyError x.data < 0
  · refine iff_of_true (blind_of_const (a := pageResult (pg.setError.unlock, replyError x.data)) ?_)
      (.inl herror)
    intro m hknown
    rw [replyError_of_known hknown, if_pos herror]
  · rw [or_iff_right herror, ← blind_page_iff fun i hi => known_readpage hi]
    apply blind_congr
    intro m m' hknown hknown'
    rw [replyError_of_known hknown, replyError_of_known hknown', if_neg herror, if_neg herror]

/-! ## Links -/

/-- The text of a link starts here. -/
def offsetofText : ℕ := replyOffset .readlink 5

/-- How many bytes there are from the start of the text to `in_use`. -/
def textRoom : ℕ := sizeofU + 4 - offsetofText

/-- `reply->len`. -/
def textLen (m : Mem) : ℤ := (m.word (replyOffset .readlink 4)).toInt

/-- The text with its terminating NUL in place. -/
def textOf (m : Mem) : Mem := fun i => terminate m (offsetofText + i)

/-- The text of a link ends at `i`: there the caller's buffer is full, or there is the NUL that
`reply->len` has put there, or one that is known. -/
def TextEnds (x : Reply) (b : Built) (buflen : Option ℕ) (i : ℕ) : Prop :=
  buflen = some i ∨ textLen (x.base b) = i ∨
    (x.Known b (offsetofText + i) ∧ x.base b (offsetofText + i) = 0)

/-- The text of a link is known to its end. -/
def TextKnown (x : Reply) (b : Built) (buflen : Option ℕ) : Prop :=
  ∃ i, TextEnds x b buflen i ∧ ∀ j < i, x.Known b (offsetofText + j)

theorem textOf_apply (m : Mem) (i : ℕ) :
    textOf m i = if (i : ℤ) = textLen m then 0 else m (offsetofText + i) := by
  simp only [textOf, terminate, offsetofText, textLen]
  congr 1
  simp only [eq_iff_iff]
  omega

/-- `in_use` is 0 when `uvfs_make_request` returns. -/
theorem base_inUse (b : Built) : x.base b (sizeofU + 4) = 0 := by
  have hunion : ¬ sizeofU + 4 < sizeofU := by omega
  have hserial : ¬ sizeofU + 4 < Transaction.offsetofInUse := Nat.lt_irrefl _
  have hinUse : sizeofU + 4 < Transaction.offsetofAbort := by decide
  rw [Reply.base, Reply.memory, flat, if_neg hunion, if_neg hserial, if_pos hinUse]
  rfl

section Text

variable {b : Built} {buflen : Option ℕ} {k : ℕ}

/-- The length lies in what is known. -/
theorem textLen_of_known (hlow : ∀ i < 20, x.Known b i) {m : Mem}
    (hknown : ∀ i, x.Known b i → m i = x.base b i) : textLen m = textLen (x.base b) :=
  congrArg BitVec.toInt (word_congr (fun i hi => hknown i (hlow i hi)) (by decide))

/-- A byte of the text, in all runs. -/
theorem textOf_patch (hlow : ∀ i < 20, x.Known b i) (stale : Mem) (i : ℕ) :
    textOf ((x.base b).patch (x.Known b) stale) i =
      if (i : ℤ) = textLen (x.base b) then 0
      else (x.base b).patch (x.Known b) stale (offsetofText + i) := by
  rw [textOf_apply, textLen_of_known hlow fun i hi => Mem.patch_of_known hi]

/-- A text that is not known to its end goes on to the first byte that is not known. -/
theorem exists_unknown_of_not_textKnown (h : ¬ TextKnown x b buflen) :
    ∃ a, ¬ x.Known b (offsetofText + a) ∧ (∀ j < a, x.Known b (offsetofText + j)) ∧
      (∀ i ≤ a, ¬ TextEnds x b buflen i) ∧ a < textRoom := by
  have hroom : offsetofText + textRoom = sizeofU + 4 := by decide
  have hexists : ∃ a, ¬ x.Known b (offsetofText + a) := by
    by_contra hall
    refine h ⟨textRoom, .inr (.inr ?_), fun j _ => not_not.mp fun hj => hall ⟨j, hj⟩⟩
    rw [hroom]
    exact ⟨.inr (.inr (Nat.le_add_right _ _)), base_inUse b⟩
  obtain ⟨a, ha, hbefore⟩ := Nat.findX hexists
  have hknown : ∀ j < a, x.Known b (offsetofText + j) := fun j hj => not_not.mp (hbefore j hj)
  have hu : offsetofText + a < sizeofU := not_le.mp fun hle => ha (.inr (.inr hle))
  refine ⟨a, ha, hknown, fun i hi hends => ?_, by omega⟩
  exact h ⟨i, hends, fun j hj => hknown j (by omega)⟩

/-- A text that is the same in all runs is known to its end. -/
theorem textKnown_of_blind (hk : buflen = some k ∨ buflen = none ∧ textRoom ≤ k)
    (hlow : ∀ i < 20, x.Known b i)
    (hblind : Blind (x.Known b) (x.base b) fun m => (cstring (textOf m) textRoom).take k) :
    TextKnown x b buflen := by
  by_contra hunknown
  obtain ⟨a, ha, hknown, hopen, haroom⟩ := exists_unknown_of_not_textKnown hunknown
  have hak : a < k := by
    by_contra hle
    rcases hk with hk | ⟨-, hk⟩
    · exact hopen k (by omega) (.inl hk)
    · omega
  have hplace : ∀ stale, ∀ j ≤ a, textOf ((x.base b).patch (x.Known b) stale) j =
      (x.base b).patch (x.Known b) stale (offsetofText + j) := by
    intro stale j hj
    rw [textOf_patch hlow, if_neg]
    exact fun heq => hopen j hj (.inr (.inl heq.symm))
  -- with a NUL there the text ends at this byte, with another one it goes on
  have hshort : ((cstring (textOf ((x.base b).patch (x.Known b) fun _ => 0)) textRoom).take
      k).length ≤ a := by
    refine le_trans (List.length_take_le' _ _) (length_cstring_le ?_)
    rw [hplace _ a le_rfl, Mem.patch_of_not_known ha]
  have hlong : a < ((cstring (textOf ((x.base b).patch (x.Known b) fun _ => 1)) textRoom).take
      k).length := by
    rw [List.length_take]
    refine lt_min hak (lt_length_cstring ?_ haroom)
    intro j hj
    rw [hplace _ j hj]
    rcases Nat.lt_or_eq_of_le hj with hlt | rfl
    · rw [Mem.patch_of_known (hknown j hlt)]
      exact fun hzero => hopen j hj (.inr (.inr ⟨hknown j hlt, hzero⟩))
    · rw [Mem.patch_of_not_known ha]
      decide
  have hsame := congrArg List.length (hblind (fun _ => 0) fun _ => 1)
  dsimp only at hsame
  omega

/-- A text that is known to its end is the same in all runs. -/
theorem blind_of_textKnown (hk : buflen = some k ∨ buflen = none ∧ textRoom ≤ k)
    (hlow : ∀ i < 20, x.Known b i) (hknown : TextKnown x b buflen) :
    Blind (x.Known b) (x.base b) fun m => (cstring (textOf m) textRoom).take k := by
  obtain ⟨i, hends, hbefore⟩ := hknown
  intro stale stale'
  apply take_cstring_congr (i := i)
  · intro j hj
    rw [textOf_patch hlow, textOf_patch hlow, Mem.patch_of_known (hbefore j hj),
      Mem.patch_of_known (hbefore j hj)]
  · rcases hends with hbuf | hend | ⟨hi, hzero⟩
    · refine .inl ?_
      rcases hk with hk | ⟨hk, -⟩
      · rw [hk] at hbuf
        exact (Option.some.inj hbuf).le
      · rw [hk] at hbuf
        cases hbuf
    · have hnul : ∀ stale, textOf ((x.base b).patch (x.Known b) stale) i = 0 := fun stale => by
        rw [textOf_patch hlow, if_pos hend.symm]
      exact .inr ⟨hnul stale, hnul stale'⟩
    · have hnul : ∀ stale, textOf ((x.base b).patch (x.Known b) stale) i = 0 := fun stale => by
        rw [textOf_patch hlow, Mem.patch_of_known hi, hzero, ite_self]
      exact .inr ⟨hnul stale, hnul stale'⟩

end Text

theorem known_readlink {fh : Fhandle} {i : ℕ} (hi : i < 20) :
    x.Known ((VfsRequest.readlink fh).built ker.l ker.cred x.serial) i := by
  refine .inr (.inl ?_)
  simp [Struct.Filled, requestLayout, genericReqLayout, VfsRequest.built, header, readlinkRequest,
    handleRequest, sizeofFhandle]
  omega

/-- A function that returns the error, and reads a link when there is none. -/
theorem blind_link_iff {α : Type} {b : Built} {read : Mem → α} (error : ℤ → α)
    (link : List Byte → α) (hlink : Function.Injective link) {buflen : Option ℕ} {k : ℕ}
    (hk : buflen = some k ∨ buflen = none ∧ textRoom ≤ k) (hlow : ∀ i < 20, x.Known b i)
    (hread : ∀ m, read m = if replyError m < 0 then error (replyError m)
      else link ((cstring (textOf m) textRoom).take k)) :
    Blind (x.Known b) (x.base b) read ↔ replyError x.data < 0 ∨ TextKnown x b buflen := by
  by_cases herror : replyError x.data < 0
  · refine iff_of_true (blind_of_const (a := error (replyError x.data)) ?_) (.inl herror)
    intro m hknown
    rw [hread, replyError_of_known hknown, if_pos herror]
  · have htext : TextKnown x b buflen ↔
        Blind (x.Known b) (x.base b) fun m => (cstring (textOf m) textRoom).take k :=
      ⟨blind_of_textKnown hk hlow, textKnown_of_blind hk hlow⟩
    rw [or_iff_right herror, htext]
    apply blind_congr
    intro m m' hknown hknown'
    rw [hread, hread, replyError_of_known hknown, replyError_of_known hknown', if_neg herror,
      if_neg herror]
    exact hlink.eq_iff

/-- `uvfs_readlink`. -/
theorem selfContained_readlink {fh : Fhandle} {buflen : ℕ} :
    SelfContained ker (x :: xs) (uvfsReadlink fh buflen) ↔ replyError x.data < 0 ∨
      TextKnown x ((VfsRequest.readlink fh).built ker.l ker.cred x.serial) (some buflen) := by
  rw [uvfsReadlink, selfContained_request]
  refine blind_link_iff (fun e => (e, [])) (fun link => (link.length, link)) ?_ (.inl rfl)
    (fun i hi => known_readlink hi) (fun m => rfl)
  intro link link' h
  exact (Prod.mk.inj h).2

/-- `uvfs_follow_link`. -/
theorem selfContained_followLink {fh : Fhandle} :
    SelfContained ker (x :: xs) (uvfsFollowLink fh) ↔ replyError x.data < 0 ∨
      TextKnown x ((VfsRequest.readlink fh).built ker.l ker.cred x.serial) none := by
  rw [uvfsFollowLink, selfContained_request]
  refine blind_link_iff .error .ok (fun _ _ => Except.ok.inj) (.inr ⟨rfl, le_rfl⟩)
    (fun i hi => known_readlink hi) ?_
  intro m
  have hwhole : (cstring (textOf m) textRoom).take textRoom = cstring (textOf m) textRoom := by
    apply List.take_of_length_le
    exact (List.takeWhile_sublist _).length_le.trans (Mem.length_toList _ _).le
  rw [hwhole]
  rfl

end Uvfs.Vfs
