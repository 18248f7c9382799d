import Uvfs.Lib.DirTree
import Uvfs.Vfs.Operations

/-!
# Link counts

The server holds a directory tree; the kernel holds a link count for each inode it has cached, which
the operations of `dir.c` change on their own after a successful reply.

* `TreeAnswers` : what a POSIX server may answer to a request, and what it does to its tree.
* `Op`, `LinkCall`, `LinkStep` : the operations that the VFS may call, each run against one answer.
* `Counted` : the counts of the cached inodes are those of the tree.
* `link_counts` : they stay so, as long as `uvfs_mkdir` gets an inode for each directory the server
  makes; `mkdir_without_memory` is a call that does not.
-/

namespace Uvfs.Vfs

/-! ## The server -/

/-- What identifies a file. -/
abbrev NodeId := Word × Word × Word

/-- The tree of a server. -/
abbrev ServerTree := DirTree NodeId (List Byte)

/-- The limit of POSIX for a link count, `LINK_MAX`.  One less than the largest `unsigned int`
suffices here. -/
def linkMax : ℕ := 2 ^ 32 - 2

/-- No link count is over the limit. -/
def Limited (t : ServerTree) : Prop := ∀ n, t.nlink n ≤ linkMax

/-- The handle and the attributes of the reply are those of the node. -/
structure Truthful (t : ServerTree) (k : RequestType) (m : Mem) (n : NodeId) : Prop where
  identity : (fhandleAt m (replyOffset k 4)).identity = n
  nlink : (attrAt m (replyOffset k 5)).iNlink.toNat = t.nlink n
  isDir : sIsdir ((attrAt m (replyOffset k 5)).iMode.setWidth 16) ↔ t.isDir n = true

/-- The request is for a new entry: its type, the directory, the name, and whether it is for a
directory. -/
inductive Makes : VfsRequest → RequestType → Inode → List Byte → Bool → Prop
  | create (dir : Inode) (name : List Byte) (mode : Word) :
      Makes (.create dir name mode) .create dir name false
  | symlink (dir : Inode) (name path : List Byte) :
      Makes (.symlink dir name path) .symlink dir name false
  | mkdir (dir : Inode) (name : List Byte) (mode : Word) :
      Makes (.mkdir dir name mode) .mkdir dir name true

/-- What a POSIX server with the tree `t` may answer, and its tree after that. -/
inductive TreeAnswers (t : ServerTree) : VfsRequest → Mem → ServerTree → Prop
  /-- It refuses the request. -/
  | refuse {r : VfsRequest} {m : Mem} (herror : replyError m < 0) : TreeAnswers t r m t
  /-- It looks up a name. -/
  | lookup {dir : Inode} {name : List Byte} {m : Mem} {n : NodeId} (herror : replyError m = 0)
      (he : ⟨dir.fh.identity, name, n⟩ ∈ t.entries) (htrue : Truthful t .lookup m n) :
      TreeAnswers t (.lookup dir name) m t
  /-- It makes a file, a symbolic link or a directory. -/
  | make {r : VfsRequest} {k : RequestType} {dir : Inode} {name : List Byte} {isDir : Bool}
      {m : Mem} {n : NodeId} (hmakes : Makes r k dir name isDir) (herror : replyError m = 0)
      (hdir : t.isDir dir.fh.identity = true) (halive : t.Alive dir.fh.identity)
      (hfree : ∀ e ∈ t.entries, e.parent = dir.fh.identity → e.name ≠ name) (hnew : ¬ t.Alive n)
      (htrue : Truthful (t.add ⟨dir.fh.identity, name, n⟩ isDir hdir halive hfree hnew) k m n)
      (hlimit : Limited (t.add ⟨dir.fh.identity, name, n⟩ isDir hdir halive hfree hnew)) :
      TreeAnswers t r m (t.add ⟨dir.fh.identity, name, n⟩ isDir hdir halive hfree hnew)
  /-- It removes a name of something that is no directory. -/
  | unlink {dir : Inode} {name : List Byte} {m : Mem} {n : NodeId} (herror : replyError m = 0)
      (he : ⟨dir.fh.identity, name, n⟩ ∈ t.entries) (hdir : t.isDir n = false)
      (hempty : ∀ e ∈ t.entries, e.parent ≠ n) :
      TreeAnswers t (.unlink dir name) m (t.remove ⟨dir.fh.identity, name, n⟩ hempty)
  /-- It removes an empty directory. -/
  | rmdir {dir : Inode} {name : List Byte} {m : Mem} {n : NodeId} (herror : replyError m = 0)
      (he : ⟨dir.fh.identity, name, n⟩ ∈ t.entries) (hdir : t.isDir n = true)
      (hempty : ∀ e ∈ t.entries, e.parent ≠ n) :
      TreeAnswers t (.rmdir dir name) m (t.remove ⟨dir.fh.identity, name, n⟩ hempty)
  /-- It moves an entry to a name that is free. -/
  | rename {srcdir dstdir : Inode} {srcname dstname : List Byte} {m : Mem} {n : NodeId}
      (herror : replyError m = 0) (he : ⟨srcdir.fh.identity, srcname, n⟩ ∈ t.entries)
      (hdir : t.isDir dstdir.fh.identity = true) (halive : t.Alive dstdir.fh.identity)
      (hfree : ∀ e ∈ t.entries, e.parent = dstdir.fh.identity → e.name ≠ dstname)
      (hlimit : Limited (t.move _ he dstdir.fh.identity dstname hdir halive hfree)) :
      TreeAnswers t (.rename srcdir srcname dstdir dstname) m
        (t.move _ he dstdir.fh.identity dstname hdir halive hfree)
  /-- It moves an entry over another, which is a directory exactly when the one that moves is, and
  which has no entries of its own. -/
  | renameOver {srcdir dstdir : Inode} {srcname dstname : List Byte} {m : Mem} {n n' : NodeId}
      (herror : replyError m = 0) (he' : ⟨dstdir.fh.identity, dstname, n'⟩ ∈ t.entries)
      (hkind : t.isDir n' = t.isDir n) (hempty : ∀ e ∈ t.entries, e.parent ≠ n')
      (he : ⟨srcdir.fh.identity, srcname, n⟩ ∈
        (t.remove ⟨dstdir.fh.identity, dstname, n'⟩ hempty).entries)
      (hdir : (t.remove ⟨dstdir.fh.identity, dstname, n'⟩ hempty).isDir dstdir.fh.identity = true)
      (halive : (t.remove ⟨dstdir.fh.identity, dstname, n'⟩ hempty).Alive dstdir.fh.identity)
      (hfree : ∀ e ∈ (t.remove ⟨dstdir.fh.identity, dstname, n'⟩ hempty).entries,
        e.parent = dstdir.fh.identity → e.name ≠ dstname)
      (hlimit : Limited ((t.remove ⟨dstdir.fh.identity, dstname, n'⟩ hempty).move _ he
        dstdir.fh.identity dstname hdir halive hfree)) :
      TreeAnswers t (.rename srcdir srcname dstdir dstname) m
        ((t.remove ⟨dstdir.fh.identity, dstname, n'⟩ hempty).move _ he dstdir.fh.identity dstname
          hdir halive hfree)

/-! ## The kernel -/

/-- An operation that the VFS calls, with the inodes of the dentries. -/
inductive Op
  | lookup (dir : Slot ℕ CachedInode) (name : List Byte)
  | create (dir : Slot ℕ CachedInode) (name : List Byte) (mode : Word)
  | symlink (dir : Slot ℕ CachedInode) (name path : List Byte)
  | mkdir (dir : Slot ℕ CachedInode) (name : List Byte) (mode : Word)
  | unlink (dir : Slot ℕ CachedInode) (name : List Byte) (entry : Slot ℕ CachedInode)
  | rmdir (dir : Slot ℕ CachedInode) (name : List Byte) (entry : Slot ℕ CachedInode)
  | rename (srcdir : Slot ℕ CachedInode) (srcname : List Byte) (src dstdir : Slot ℕ CachedInode)
      (dstname : List Byte) (dst : Option (Slot ℕ CachedInode))

/-- The file of a cached inode. -/
def nodeOf (s : Slot ℕ CachedInode) : NodeId := s.item.inode.fh.identity

/-- The inode is cached, and it is one of the superblock. -/
def Holds (sb : ℕ) (c : InodeCache) (s : Slot ℕ CachedInode) : Prop :=
  s ∈ c.slots ∧ s.item.sb = sb

/-- When the VFS calls an operation: the dentries say what the tree says; `may_delete` lets `unlink`
have no directory, `rmdir` nothing else, and `rename` no target of another kind than the source;
and `vfs_rename` has nothing to do for two names of one inode. -/
def Admits (sb : ℕ) (t : ServerTree) (c : InodeCache) : Op → Prop
  | .lookup dir _ | .create dir _ _ | .symlink dir _ _ | .mkdir dir _ _ => Holds sb c dir
  | .unlink dir name entry => Holds sb c dir ∧ Holds sb c entry ∧
      ⟨nodeOf dir, name, nodeOf entry⟩ ∈ t.entries ∧ ¬ sIsdir entry.item.inode.iMode
  | .rmdir dir name entry => Holds sb c dir ∧ Holds sb c entry ∧
      ⟨nodeOf dir, name, nodeOf entry⟩ ∈ t.entries ∧ sIsdir entry.item.inode.iMode
  | .rename srcdir srcname src dstdir dstname dst =>
      Holds sb c srcdir ∧ Holds sb c src ∧ Holds sb c dstdir ∧
      ⟨nodeOf srcdir, srcname, nodeOf src⟩ ∈ t.entries ∧
      match dst with
      | none => ∀ e ∈ t.entries, e.parent = nodeOf dstdir → e.name ≠ dstname
      | some dnode => Holds sb c dnode ∧ ⟨nodeOf dstdir, dstname, nodeOf dnode⟩ ∈ t.entries ∧
          dnode.id ≠ src.id ∧ (sIsdir dnode.item.inode.iMode ↔ sIsdir src.item.inode.iMode)

/-- What the operation changes when it succeeds. -/
def Op.changes : Op → List LinkChange
  | .lookup _ _ | .create _ _ _ | .symlink _ _ _ => []
  | .mkdir dir _ _ => mkdirChanges dir.id
  | .unlink _ _ entry => unlinkChanges entry.id
  | .rmdir dir _ entry => rmdirChanges dir.id entry.id
  | .rename srcdir _ src dstdir _ dst => renameChanges srcdir.id src dstdir.id dst

/-- An operation with all that is decided elsewhere: the caller, whether there is a transaction,
what the reply is, and whether an inode can be allocated. -/
structure LinkCall where
  /-- The operation. -/
  op : Op
  /-- `current_fsuid()`. -/
  fsuid : Word
  /-- `uvfs_new_transaction` has a transaction. -/
  transaction : Bool
  /-- The reply. -/
  reply : Mem
  /-- `iget5_locked` has memory for an inode. -/
  memory : Bool

/-- The function that the operation calls, up to the cache after it. -/
def LinkCall.program (hash : ℕ → ℕ → ℕ) (l : LongWidth) (c : InodeCache) (a : LinkCall) :
    Wire InodeCache := do
  match a.op with
  | .lookup dir name => return (← uvfsLookupName hash l a.fsuid c dir a.memory name).2
  | .create dir name mode => return (← uvfsCreate hash l a.fsuid c dir a.memory name mode).cache
  | .symlink dir name path => return (← uvfsSymlink hash l a.fsuid c dir a.memory name path).cache
  | .mkdir dir name mode => return (← uvfsMkdir hash l a.fsuid c dir a.memory name mode).cache
  | .unlink dir name entry => return (← uvfsUnlink c dir name entry.id).2
  | .rmdir dir name entry => return (← uvfsRmdir c dir name entry.id).2
  | .rename srcdir srcname src dstdir dstname dst =>
      return (← uvfsRename c srcdir srcname src dstdir dstname dst).2

/-- The cache after the call, and the requests that were made. -/
def LinkCall.run (hash : ℕ → ℕ → ℕ) (l : LongWidth) (c : InodeCache) (a : LinkCall) :
    InodeCache × List VfsRequest :=
  (a.program hash l c).run (Exchange.mk a.transaction fun _ => a.reply).serve []

/-- The server has answered the requests, the last one first, and has the tree `t'` now. -/
def Served (t : ServerTree) (m : Mem) : List VfsRequest → ServerTree → Prop
  | [], t' => t' = t
  | r :: rs, t' => ∃ t₁, Served t m rs t₁ ∧ TreeAnswers t₁ r m t'

/-- The tree of the server and the inodes of the kernel. -/
structure LinkState where
  /-- The tree. -/
  tree : ServerTree
  /-- The inode cache. -/
  cache : InodeCache

/-- What happens: a call, or the kernel drops an inode. -/
inductive LinkAct
  | call (a : LinkCall)
  | evict (id : ℕ)

/-- One step. -/
inductive LinkStep (hash : ℕ → ℕ → ℕ) (l : LongWidth) (sb : ℕ) :
    LinkState → LinkAct → LinkState → Prop
  | call {t t' : ServerTree} {c : InodeCache} {a : LinkCall} (hadmits : Admits sb t c a.op)
      (hserved : Served t a.reply (a.run hash l c).2 t') :
      LinkStep hash l sb ⟨t, c⟩ (.call a) ⟨t', (a.run hash l c).1⟩
  | evict {t : ServerTree} {c : InodeCache} (id : ℕ) :
      LinkStep hash l sb ⟨t, c⟩ (.evict id) ⟨t, c.remove id⟩

/-! ## Changes of link counts -/

/-- What a list of changes adds to the count of an inode. -/
def linkDiff (changes : List LinkChange) (id : ℕ) : ℤ :=
  (changes.map fun x => if x.inode = id then x.diff else 0).sum

@[simp] theorem linkDiff_nil (id : ℕ) : linkDiff [] id = 0 := rfl

@[simp] theorem linkDiff_cons (x : LinkChange) (changes : List LinkChange) (id : ℕ) :
    linkDiff (x :: changes) id = (if x.inode = id then x.diff else 0) + linkDiff changes id := rfl

variable {hash : ℕ → ℕ → ℕ} {l : LongWidth} {sb : ℕ} {c c' : InodeCache} {t t' : ServerTree}
  {s d : Slot ℕ CachedInode} {changes : List LinkChange}

theorem addNlink_zero (x : CachedInode) : x.addNlink 0 = x := by
  simp [CachedInode.addNlink]

theorem addNlink_addNlink (x : CachedInode) (j k : ℤ) :
    (x.addNlink j).addNlink k = x.addNlink (j + k) := by
  simp only [CachedInode.addNlink, BitVec.ofInt_add, BitVec.add_assoc]

@[simp] theorem adjustLinks_nil (c : InodeCache) : adjustLinks c [] = c := rfl

@[simp] theorem adjustLinks_cons (c : InodeCache) (x : LinkChange) (changes : List LinkChange) :
    adjustLinks c (x :: changes) =
      adjustLinks (c.modify x.inode (CachedInode.addNlink x.diff)) changes := rfl

/-- The inodes after some changes. -/
theorem mem_adjustLinks (h : s ∈ (adjustLinks c changes).slots) :
    ∃ s₀ ∈ c.slots, s = { s₀ with item := s₀.item.addNlink (linkDiff changes s₀.id) } := by
  induction changes generalizing c with
  | nil => exact ⟨s, h, by rw [linkDiff_nil, addNlink_zero]⟩
  | cons x changes ih =>
      rw [adjustLinks_cons] at h
      obtain ⟨s₁, hs₁, rfl⟩ := ih h
      obtain ⟨s₀, hs₀, rfl⟩ := Table.mem_modify.mp hs₁
      refine ⟨s₀, hs₀, ?_⟩
      by_cases hid : s₀.id = x.inode
      · simp [hid, addNlink_addNlink]
      · simp [hid, Ne.symm hid]

theorem canonical_adjustLinks (hc : Canonical hash c) :
    Canonical hash (adjustLinks c changes) := by
  induction changes generalizing c with
  | nil => exact hc
  | cons x changes ih => exact ih (hc.modify fun _ _ _ => rfl)

/-- No change takes a count below 0. -/
def NoUnderflow : InodeCache → List LinkChange → Prop
  | _, [] => True
  | c, x :: changes =>
      (∀ s ∈ c.slots, s.id = x.inode → 0 ≤ (s.item.inode.iNlink.toNat : ℤ) + x.diff) ∧
        NoUnderflow (adjustLinks c [x]) changes

/-- The values that a count takes fit an `unsigned int`. -/
def InRange (id : ℕ) : ℤ → List LinkChange → Prop
  | _, [] => True
  | n, x :: changes =>
      0 ≤ n + (if x.inode = id then x.diff else 0) ∧
        n + (if x.inode = id then x.diff else 0) < 2 ^ 32 ∧
        InRange id (n + if x.inode = id then x.diff else 0) changes

/-- An exact change of a count. -/
theorem toNat_addNlink {x : CachedInode} {k : ℤ} (h₀ : 0 ≤ (x.inode.iNlink.toNat : ℤ) + k)
    (h₁ : (x.inode.iNlink.toNat : ℤ) + k < 2 ^ 32) :
    ((x.addNlink k).inode.iNlink.toNat : ℤ) = x.inode.iNlink.toNat + k := by
  simp only [CachedInode.addNlink, BitVec.toNat_add, BitVec.toNat_ofInt]
  omega

/-- The counts are looked at one by one. -/
theorem noUnderflow_of_inRange
    (h : ∀ s ∈ c.slots, InRange s.id s.item.inode.iNlink.toNat changes) :
    NoUnderflow c changes := by
  induction changes generalizing c with
  | nil => trivial
  | cons x changes ih =>
      refine ⟨?_, ih ?_⟩
      · intro s hs hid
        have hrange := (h s hs).1
        rw [if_pos hid.symm] at hrange
        exact hrange
      · intro s hs
        obtain ⟨s₀, hs₀, rfl⟩ := Table.mem_modify.mp hs
        obtain ⟨h₀, h₁, hrange⟩ := h s₀ hs₀
        by_cases hid : s₀.id = x.inode
        · rw [if_pos hid.symm] at h₀ h₁ hrange
          rw [if_pos hid, toNat_addNlink h₀ h₁]
          exact hrange
        · rw [if_neg (Ne.symm hid), add_zero] at hrange
          rw [if_neg hid]
          exact hrange

/-! ## The counts of the tree -/

/-- The inode has the link count and the kind that its file has in the tree. -/
structure CountedAt (t : ServerTree) (i : Inode) : Prop where
  nlink : i.iNlink.toNat = t.nlink i.fh.identity
  isDir : sIsdir i.iMode ↔ t.isDir i.fh.identity = true

/-- The cached inodes of the files in the tree, and of some others, have the link counts of the
tree. -/
def CountedOn (P : NodeId → Prop) (sb : ℕ) (t : ServerTree) (c : InodeCache) : Prop :=
  ∀ s ∈ c.slots, s.item.sb = sb → P (nodeOf s) ∨ t.Alive (nodeOf s) → CountedAt t s.item.inode

/-- **The cached link counts**: 2 and the number of its subdirectories for a directory in the tree,
the number of its names for another file in the tree. -/
def Counted : ℕ → ServerTree → InodeCache → Prop := CountedOn fun _ => False

theorem CountedOn.mono {P Q : NodeId → Prop} (h : CountedOn P sb t c)
    (hQ : ∀ n, Q n → P n ∨ t.Alive n) : CountedOn Q sb t c := by
  intro s hs hsb hs'
  refine h s hs hsb ?_
  rcases hs' with hn | hn
  · exact hQ _ hn
  · exact .inr hn

/-- A change that keeps step with the tree. -/
theorem CountedAt.addNlink {x : CachedInode} {k : ℤ} (h : CountedAt t x.inode) (hlimit : Limited t')
    (hnlink : (t'.nlink x.inode.fh.identity : ℤ) = t.nlink x.inode.fh.identity + k)
    (hisDir : t'.isDir x.inode.fh.identity = t.isDir x.inode.fh.identity) :
    CountedAt t' (x.addNlink k).inode := by
  have hmax := hlimit x.inode.fh.identity
  unfold linkMax at hmax
  constructor
  · have hexact := @toNat_addNlink x k (by rw [h.nlink]; omega) (by rw [h.nlink]; omega)
    rw [h.nlink, ← hnlink] at hexact
    exact_mod_cast hexact
  · change sIsdir x.inode.iMode ↔ t'.isDir x.inode.fh.identity = true
    rw [hisDir]
    exact h.isDir

/-- Two cached inodes of one superblock are one exactly when their files are. -/
theorem id_eq_iff (hc : Canonical hash c) (hs : Holds sb c s) (hd : Holds sb c d) :
    s.id = d.id ↔ nodeOf s = nodeOf d := by
  constructor
  · intro hid
    rw [hc.eq_of_id hs.1 hd.1 hid]
  · intro hnode
    rw [hc.eq_of_key hs.1 hd.1 (Prod.ext (hs.2.trans hd.2.symm) hnode)]

variable {P : NodeId → Prop}

/-- For a cached inode the changes keep step with the tree. -/
structure KeepsStep (t t' : ServerTree) (changes : List LinkChange) (s : Slot ℕ CachedInode) :
    Prop where
  alive : t'.Alive (nodeOf s) → t.Alive (nodeOf s)
  isDir : t'.isDir (nodeOf s) = t.isDir (nodeOf s)
  nlink : (t'.nlink (nodeOf s) : ℤ) = t.nlink (nodeOf s) + linkDiff changes s.id

theorem KeepsStep.countedAt (hstep : KeepsStep t t' changes s) (h : CountedOn P sb t c)
    (hs : Holds sb c s) (hlimit : Limited t') (hn : P (nodeOf s) ∨ t'.Alive (nodeOf s)) :
    CountedAt t' (s.item.addNlink (linkDiff changes s.id)).inode :=
  (h s hs.1 hs.2 (hn.imp_right hstep.alive)).addNlink hlimit hstep.nlink hstep.isDir

/-- Changes that keep step for every inode. -/
theorem CountedOn.adjust (h : CountedOn P sb t c) (hlimit : Limited t')
    (hstep : ∀ s, Holds sb c s → KeepsStep t t' changes s) :
    CountedOn P sb t' (adjustLinks c changes) := by
  intro s hs hsb hn
  obtain ⟨s₀, hs₀, rfl⟩ := mem_adjustLinks hs
  exact (hstep s₀ ⟨hs₀, hsb⟩).countedAt h ⟨hs₀, hsb⟩ hlimit hn

theorem inRange_of_forall_ne {id : ℕ} {n : ℤ} (h₀ : 0 ≤ n) (h₁ : n < 2 ^ 32)
    (h : ∀ x ∈ changes, x.inode ≠ id) : InRange id n changes := by
  induction changes with
  | nil => trivial
  | cons x changes ih =>
      obtain ⟨hx, hchanges⟩ := List.forall_mem_cons.mp h
      rw [InRange, if_neg hx, add_zero]
      exact ⟨h₀, h₁, ih hchanges⟩

/-- Only files in the tree are changed, and their counts are those of the tree. -/
theorem CountedOn.noUnderflow (hc : Canonical hash c) (h : CountedOn P sb t c)
    (htouched : ∀ x ∈ changes, ∃ d, Holds sb c d ∧ t.Alive (nodeOf d) ∧ x.inode = d.id)
    (hrange : ∀ s, Holds sb c s → InRange s.id (t.nlink (nodeOf s)) changes) :
    NoUnderflow c changes := by
  apply noUnderflow_of_inRange
  intro s hs
  by_cases hx : ∃ x ∈ changes, x.inode = s.id
  · obtain ⟨x, hx, hid⟩ := hx
    obtain ⟨d, hd, halive, hid'⟩ := htouched x hx
    obtain rfl := hc.eq_of_id hs hd.1 (hid.symm.trans hid')
    rw [(h s hs hd.2 (.inr halive)).nlink]
    exact hrange s hd
  · exact inRange_of_forall_ne (by omega) (by omega) fun x hxs hid => hx ⟨x, hxs, hid⟩

/-! ## What a call does -/

/-- The request of the operation. -/
def Op.request : Op → VfsRequest
  | .lookup dir name => .lookup dir.item.inode name
  | .create dir name mode => .create dir.item.inode name mode
  | .symlink dir name path => .symlink dir.item.inode name path
  | .mkdir dir name mode => .mkdir dir.item.inode name mode
  | .unlink dir name _ => .unlink dir.item.inode name
  | .rmdir dir name _ => .rmdir dir.item.inode name
  | .rename srcdir srcname _ dstdir dstname _ =>
      .rename srcdir.item.inode srcname dstdir.item.inode dstname

/-- The call makes its request. -/
def LinkCall.Asks (a : LinkCall) : Prop := a.op.request.Accepted ∧ a.transaction = true

/-- The operations that get an inode for the handle of the reply. -/
def Op.brings : Op → Option (Slot ℕ CachedInode × RequestType)
  | .lookup dir _ => some (dir, .lookup)
  | .create dir _ _ => some (dir, .create)
  | .symlink dir _ _ => some (dir, .symlink)
  | .mkdir dir _ _ => some (dir, .mkdir)
  | .unlink _ _ _ | .rmdir _ _ _ | .rename _ _ _ _ _ _ => none

/-- What `uvfs_iget` does with the reply. -/
def LinkCall.iget (hash : ℕ → ℕ → ℕ) (l : LongWidth) (c : InodeCache) (a : LinkCall)
    (dir : Slot ℕ CachedInode) (k : RequestType) : Option ℕ × InodeCache :=
  igetCached hash l c dir.item.sb a.fsuid (fhandleAt a.reply (replyOffset k 4))
    (attrAt a.reply (replyOffset k 5)) a.memory

/-- The cache after a call that the server has answered with success. -/
def LinkCall.after (hash : ℕ → ℕ → ℕ) (l : LongWidth) (c : InodeCache) (a : LinkCall) :
    InodeCache :=
  match a.op.brings with
  | some (dir, k) =>
      match a.iget hash l c dir k with
      | (none, c) => c
      | (some _, c) => adjustLinks c a.op.changes
  | none => adjustLinks c a.op.changes

variable {a : LinkCall}

/-- The cache after the functions that make a new entry. -/
theorem cache_newEntry {dir : Slot ℕ CachedInode} {k : RequestType}
    (link : InodeCache → InodeCache) (herror : replyError a.reply = 0) :
    (newEntry hash l a.fsuid c dir a.memory k link a.reply).cache =
      match a.iget hash l c dir k with
      | (none, c) => c
      | (some _, c) => link c := by
  rw [newEntry, if_neg (by omega), LinkCall.iget]
  rcases igetCached hash l c dir.item.sb a.fsuid (fhandleAt a.reply (replyOffset k 4))
    (attrAt a.reply (replyOffset k 5)) a.memory with ⟨_ | id, c'⟩
  · rfl
  · rfl

section

-- a call is taken apart down to its request
attribute [local simp] LinkCall.run LinkCall.program Op.request uvfsLookupName uvfsLookupByName
  uvfsCreate uvfsSymlink uvfsMkdir uvfsUnlink uvfsRmdir uvfsRename

/-- A call that makes no request. -/
theorem run_of_not_asks (h : ¬ a.Asks) : a.run hash l c = (c, []) := by
  obtain ⟨op, fsuid, transaction, reply, memory⟩ := a
  cases op
  all_goals
    simp only [LinkCall.Asks, Op.request, VfsRequest.Accepted, not_and_or, not_le] at h
    simp only [LinkCall.run, LinkCall.program, uvfsLookupName, uvfsLookupByName, uvfsCreate,
      uvfsSymlink, uvfsMkdir, uvfsUnlink, uvfsRmdir, uvfsRename, Dialogue.run_bind,
      Dialogue.run_pure, Dialogue.run_ite, run_request]
    split_ifs <;> simp_all [uvfsLookup, enametoolong, enomem]

/-- A call makes one request. -/
theorem requests_of_asks (h : a.Asks) : (a.run hash l c).2 = [a.op.request] := by
  obtain ⟨haccepted, htransaction⟩ := h
  cases hop : a.op with
  | lookup dir name | create dir name mode | mkdir dir name mode | unlink dir name entry
  | rmdir dir name entry =>
      rw [hop] at haccepted
      simp [hop, not_lt.mpr haccepted, htransaction]
  | symlink dir name path | rename srcdir srcname src dstdir dstname dst =>
      rw [hop] at haccepted
      simp [hop, not_lt.mpr haccepted.1, not_lt.mpr haccepted.2, htransaction]

/-- A call whose request is refused. -/
theorem run_of_refused (h : a.Asks) (herror : replyError a.reply < 0) :
    a.run hash l c = (c, [a.op.request]) := by
  obtain ⟨op, fsuid, transaction, reply, memory⟩ := a
  obtain ⟨haccepted, rfl : transaction = true⟩ := h
  simp only at herror
  cases op with
  | lookup dir name => simp [uvfsLookup, herror, not_lt.mpr haccepted]
  | create dir name mode | mkdir dir name mode =>
      simp [newEntry, herror, not_lt.mpr haccepted]
  | symlink dir name path =>
      simp [newEntry, herror, not_lt.mpr haccepted.1, not_lt.mpr haccepted.2]
  | unlink dir name entry => simp [herror.ne, not_lt.mpr haccepted]
  | rmdir dir name entry => simp [herror.ne, not_lt.mpr haccepted, apply_ite Prod.snd]
  | rename srcdir srcname src dstdir dstname dst =>
      simp [herror.ne, not_lt.mpr haccepted.1, not_lt.mpr haccepted.2]

/-- A call whose request is granted. -/
theorem run_of_granted (h : a.Asks) (herror : replyError a.reply = 0) :
    a.run hash l c = (a.after hash l c, [a.op.request]) := by
  obtain ⟨haccepted, htransaction⟩ := h
  unfold LinkCall.after
  cases hop : a.op with
  | lookup dir name =>
      rw [hop] at haccepted
      simp only [LinkCall.run, LinkCall.program, hop, uvfsLookupName, uvfsLookupByName, uvfsLookup,
        not_lt.mpr haccepted, htransaction, herror, lt_irrefl, if_true, if_false,
        Dialogue.run_bind, Dialogue.run_pure, run_request, Op.request, Op.brings, Op.changes,
        LinkCall.iget, adjustLinks_nil]
      split <;> simp_all
  | create dir name mode | mkdir dir name mode =>
      rw [hop] at haccepted
      simp [hop, not_lt.mpr haccepted, htransaction, Op.brings, Op.changes, cache_newEntry, herror]
  | symlink dir name path =>
      rw [hop] at haccepted
      simp [hop, not_lt.mpr haccepted.1, not_lt.mpr haccepted.2, htransaction, Op.brings,
        Op.changes, cache_newEntry, herror]
  | unlink dir name entry | rmdir dir name entry =>
      rw [hop] at haccepted
      simp [hop, herror, not_lt.mpr haccepted, htransaction, Op.brings, Op.changes]
  | rename srcdir srcname src dstdir dstname dst =>
      rw [hop] at haccepted
      simp [hop, herror, not_lt.mpr haccepted.1, not_lt.mpr haccepted.2, htransaction, Op.brings,
        Op.changes]

end

/-! ## Removals and moves -/

/-- The changes for the removal of an entry. -/
def removeChanges (t : ServerTree) (dir entry : Slot ℕ CachedInode) : List LinkChange :=
  if t.isDir (nodeOf entry) then rmdirChanges dir.id entry.id else unlinkChanges entry.id

/-- A removal: the changes are those of the tree, and no count leaves its range. -/
theorem remove_counts {dir entry : Slot ℕ CachedInode} {name : List Byte} (hc : Canonical hash c)
    (hlimit : Limited t) (hdir : Holds sb c dir) (hentry : Holds sb c entry) (hs : Holds sb c s)
    (he : ⟨nodeOf dir, name, nodeOf entry⟩ ∈ t.entries)
    (hempty : ∀ e ∈ t.entries, e.parent ≠ nodeOf entry) :
    ((t.remove ⟨nodeOf dir, name, nodeOf entry⟩ hempty).nlink (nodeOf s) : ℤ) =
        t.nlink (nodeOf s) + linkDiff (removeChanges t dir entry) s.id ∧
      InRange s.id (t.nlink (nodeOf s)) (removeChanges t dir entry) := by
  have hnlink := t.nlink_remove he hempty (nodeOf s)
  have hmax := hlimit (nodeOf s)
  have hentry' := id_eq_iff hc hentry hs
  have hdir' := id_eq_iff hc hdir hs
  unfold linkMax at hmax
  cases hkind : t.isDir (nodeOf entry) with
  | false =>
      simp only [removeChanges, hkind, unlinkChanges, linkDiff_cons, linkDiff_nil, InRange, hentry',
        Bool.false_eq_true, and_false, and_true, if_false] at hnlink ⊢
      split_ifs at hnlink ⊢ <;> omega
  | true =>
      simp only [removeChanges, hkind, rmdirChanges, linkDiff_cons, linkDiff_nil, InRange, hentry',
        hdir', and_true, if_true] at hnlink ⊢
      split_ifs at hnlink ⊢ <;> omega

/-- A move: the changes are those of the tree, and no count leaves its range. -/
theorem move_counts {srcdir src dstdir : Slot ℕ CachedInode} {srcname dstname : List Byte}
    (hc : Canonical hash c) (hlimit : Limited t) (hsrcdir : Holds sb c srcdir)
    (hdstdir : Holds sb c dstdir) (hs : Holds sb c s)
    (he : ⟨nodeOf srcdir, srcname, nodeOf src⟩ ∈ t.entries)
    (hkind : sIsdir src.item.inode.iMode ↔ t.isDir (nodeOf src) = true)
    (hdir : t.isDir (nodeOf dstdir) = true) (halive : t.Alive (nodeOf dstdir))
    (hfree : ∀ e ∈ t.entries, e.parent = nodeOf dstdir → e.name ≠ dstname) :
    ((t.move _ he (nodeOf dstdir) dstname hdir halive hfree).nlink (nodeOf s) : ℤ) =
        t.nlink (nodeOf s) + linkDiff (renameChanges srcdir.id src dstdir.id none) s.id ∧
      InRange s.id (t.nlink (nodeOf s)) (renameChanges srcdir.id src dstdir.id none) := by
  have hnlink := t.nlink_move he hdir halive hfree (nodeOf s)
  have hmax := hlimit (nodeOf s)
  have hsrcdir' := id_eq_iff hc hsrcdir hs
  have hdstdir' := id_eq_iff hc hdstdir hs
  unfold linkMax at hmax
  cases hkind' : t.isDir (nodeOf src) with
  | false =>
      simp only [renameChanges, hkind, hkind', List.nil_append, linkDiff_nil, InRange,
        Bool.false_eq_true, and_false, and_true, if_false] at hnlink ⊢
      omega
  | true =>
      simp only [renameChanges, hkind, hkind', List.nil_append, linkDiff_cons, linkDiff_nil,
        InRange, hsrcdir', hdstdir', and_true, if_true] at hnlink ⊢
      split_ifs at hnlink ⊢ <;> omega

/-- A move over another entry. -/
theorem replace_counts {srcdir src dstdir dnode : Slot ℕ CachedInode}
    {srcname dstname : List Byte} (hc : Canonical hash c) (hlimit : Limited t)
    (hsrcdir : Holds sb c srcdir) (hdstdir : Holds sb c dstdir) (hdnode : Holds sb c dnode)
    (hs : Holds sb c s) (he' : ⟨nodeOf dstdir, dstname, nodeOf dnode⟩ ∈ t.entries)
    (hempty : ∀ e ∈ t.entries, e.parent ≠ nodeOf dnode)
    (he : ⟨nodeOf srcdir, srcname, nodeOf src⟩ ∈
      (t.remove ⟨nodeOf dstdir, dstname, nodeOf dnode⟩ hempty).entries)
    (hkind : sIsdir src.item.inode.iMode ↔ t.isDir (nodeOf src) = true)
    (hkind' : sIsdir dnode.item.inode.iMode ↔ t.isDir (nodeOf src) = true)
    (hsame : t.isDir (nodeOf dnode) = t.isDir (nodeOf src))
    (hdir : (t.remove ⟨nodeOf dstdir, dstname, nodeOf dnode⟩ hempty).isDir (nodeOf dstdir) = true)
    (halive : (t.remove ⟨nodeOf dstdir, dstname, nodeOf dnode⟩ hempty).Alive (nodeOf dstdir))
    (hfree : ∀ e ∈ (t.remove ⟨nodeOf dstdir, dstname, nodeOf dnode⟩ hempty).entries,
      e.parent = nodeOf dstdir → e.name ≠ dstname) :
    (((t.remove ⟨nodeOf dstdir, dstname, nodeOf dnode⟩ hempty).move _ he (nodeOf dstdir) dstname
        hdir halive hfree).nlink (nodeOf s) : ℤ) =
        t.nlink (nodeOf s) + linkDiff (renameChanges srcdir.id src dstdir.id (some dnode)) s.id ∧
      InRange s.id (t.nlink (nodeOf s)) (renameChanges srcdir.id src dstdir.id (some dnode)) := by
  have hremove := t.nlink_remove he' hempty (nodeOf s)
  have hnlink := DirTree.nlink_move he hdir halive hfree (nodeOf s)
  have hmax := hlimit (nodeOf s)
  have hsrcdir' := id_eq_iff hc hsrcdir hs
  have hdstdir' := id_eq_iff hc hdstdir hs
  have hdnode' := id_eq_iff hc hdnode hs
  have hisDir : (t.remove ⟨nodeOf dstdir, dstname, nodeOf dnode⟩ hempty).isDir = t.isDir := rfl
  unfold linkMax at hmax
  cases hsrc : t.isDir (nodeOf src) with
  | false =>
      simp only [renameChanges, hkind, hkind', hsame, hsrc, hisDir, List.append_nil, linkDiff_cons,
        linkDiff_nil, InRange, hdnode', Bool.false_eq_true, and_false, and_true, if_false]
        at hremove hnlink ⊢
      split_ifs at hremove hnlink ⊢ <;> omega
  | true =>
      simp only [renameChanges, hkind, hkind', hsame, hsrc, hisDir, List.cons_append,
        List.nil_append, linkDiff_cons, linkDiff_nil, InRange, hsrcdir', hdstdir', hdnode',
        and_true, if_true] at hremove hnlink ⊢
      split_ifs at hremove hnlink ⊢ <;> omega

/-- What a call that was granted keeps. -/
structure Kept (P : NodeId → Prop) (sb : ℕ) (c : InodeCache) (changes : List LinkChange)
    (t' : ServerTree) (c' : InodeCache) : Prop where
  limited : Limited t'
  noUnderflow : NoUnderflow c changes
  counted : CountedOn P sb t' c'

/-- Changes that were counted one by one. -/
theorem kept_adjustLinks (hc : Canonical hash c) (h : CountedOn P sb t c) (hlimit : Limited t')
    (halive : ∀ n, t'.Alive n → t.Alive n) (hisDir : t'.isDir = t.isDir)
    (htouched : ∀ x ∈ changes, ∃ d, Holds sb c d ∧ t.Alive (nodeOf d) ∧ x.inode = d.id)
    (hcounts : ∀ s, Holds sb c s →
      (t'.nlink (nodeOf s) : ℤ) = t.nlink (nodeOf s) + linkDiff changes s.id ∧
        InRange s.id (t.nlink (nodeOf s)) changes) :
    Kept P sb c changes t' (adjustLinks c changes) where
  limited := hlimit
  noUnderflow := h.noUnderflow hc htouched fun s hs => (hcounts s hs).2
  counted := h.adjust hlimit fun s hs =>
    ⟨halive (nodeOf s), congrFun hisDir (nodeOf s), (hcounts s hs).1⟩

/-- The removal of an entry. -/
theorem kept_remove {dir entry : Slot ℕ CachedInode} {name : List Byte} (hc : Canonical hash c)
    (h : CountedOn P sb t c) (hlimit : Limited t) (hdir : Holds sb c dir)
    (hentry : Holds sb c entry) (he : ⟨nodeOf dir, name, nodeOf entry⟩ ∈ t.entries)
    (hempty : ∀ e ∈ t.entries, e.parent ≠ nodeOf entry) :
    Kept P sb c (removeChanges t dir entry) (t.remove ⟨nodeOf dir, name, nodeOf entry⟩ hempty)
      (adjustLinks c (removeChanges t dir entry)) := by
  have hlimit' : Limited (t.remove ⟨nodeOf dir, name, nodeOf entry⟩ hempty) := by
    intro n
    have hnlink := t.nlink_remove he hempty n
    exact le_trans (by omega) (hlimit n)
  refine kept_adjustLinks hc h hlimit' (fun n => DirTree.alive_of_alive_remove) rfl ?_ ?_
  · intro x hx
    unfold removeChanges at hx
    have hparent : t.Alive (nodeOf dir) := t.parent_alive _ he
    split at hx
    · rcases List.mem_pair.mp hx with rfl | rfl
      · exact ⟨entry, hentry, DirTree.alive_child he, rfl⟩
      · exact ⟨dir, hdir, hparent, rfl⟩
    · rw [List.mem_singleton.mp hx]
      exact ⟨entry, hentry, DirTree.alive_child he, rfl⟩
  · intro s hs
    exact remove_counts hc hlimit hdir hentry hs he hempty

/-- The two names of an entry are one. -/
theorem child_eq {p n n' : NodeId} {k : List Byte} (h : ⟨p, k, n⟩ ∈ t.entries)
    (h' : ⟨p, k, n'⟩ ∈ t.entries) : n = n' :=
  congrArg DirEntry.child (t.name_unique _ h _ h' rfl rfl)

/-- `uvfs_unlink` and `uvfs_rmdir`. -/
theorem kept_unlink {dir entry : Slot ℕ CachedInode} {name : List Byte} {m : Mem}
    (hc : Canonical hash c) (h : CountedOn P sb t c) (hlimit : Limited t)
    (hadmits : Admits sb t c (.unlink dir name entry)) (herror : replyError m = 0)
    (hanswers : TreeAnswers t (.unlink dir.item.inode name) m t') :
    Kept P sb c (unlinkChanges entry.id) t' (adjustLinks c (unlinkChanges entry.id)) := by
  obtain ⟨hdir, hentry, he, -⟩ := hadmits
  cases hanswers with
  | refuse hrefused => omega
  | unlink _ he' hkind hempty =>
      obtain rfl := child_eq he he'
      have hkept := kept_remove hc h hlimit hdir hentry he hempty
      rwa [removeChanges, hkind, if_neg Bool.false_ne_true] at hkept
  | make hmakes => cases hmakes

@[inherit_doc kept_unlink]
theorem kept_rmdir {dir entry : Slot ℕ CachedInode} {name : List Byte} {m : Mem}
    (hc : Canonical hash c) (h : CountedOn P sb t c) (hlimit : Limited t)
    (hadmits : Admits sb t c (.rmdir dir name entry)) (herror : replyError m = 0)
    (hanswers : TreeAnswers t (.rmdir dir.item.inode name) m t') :
    Kept P sb c (rmdirChanges dir.id entry.id) t'
      (adjustLinks c (rmdirChanges dir.id entry.id)) := by
  obtain ⟨hdir, hentry, he, -⟩ := hadmits
  cases hanswers with
  | refuse hrefused => omega
  | rmdir _ he' hkind hempty =>
      obtain rfl := child_eq he he'
      have hkept := kept_remove hc h hlimit hdir hentry he hempty
      rwa [removeChanges, hkind, if_pos rfl] at hkept
  | make hmakes => cases hmakes

/-- `uvfs_rename`. -/
theorem kept_rename {srcdir src dstdir : Slot ℕ CachedInode} {srcname dstname : List Byte}
    {dst : Option (Slot ℕ CachedInode)} {m : Mem} (hc : Canonical hash c)
    (h : CountedOn P sb t c) (hlimit : Limited t)
    (hadmits : Admits sb t c (.rename srcdir srcname src dstdir dstname dst))
    (herror : replyError m = 0)
    (hanswers : TreeAnswers t (.rename srcdir.item.inode srcname dstdir.item.inode dstname) m t') :
    Kept P sb c (renameChanges srcdir.id src dstdir.id dst) t'
      (adjustLinks c (renameChanges srcdir.id src dstdir.id dst)) := by
  obtain ⟨hsrcdir, hsrc, hdstdir, he, hdst⟩ := hadmits
  have hkind := (h src hsrc.1 hsrc.2 (.inr (DirTree.alive_child he))).isDir
  have hparent : t.Alive (nodeOf srcdir) := t.parent_alive _ he
  cases hanswers with
  | refuse hrefused => omega
  | make hmakes => cases hmakes
  | rename _ he₁ hdir halive hfree hlimit' =>
      obtain rfl := child_eq he he₁
      cases dst with
      | some dnode => exact absurd rfl (hfree _ hdst.2.1 rfl)
      | none =>
          refine kept_adjustLinks hc h hlimit' (fun n => DirTree.alive_move.mp) rfl ?_ ?_
          · intro x hx
            simp only [renameChanges, List.nil_append] at hx
            split at hx
            · rcases List.mem_pair.mp hx with rfl | rfl
              · exact ⟨dstdir, hdstdir, halive, rfl⟩
              · exact ⟨srcdir, hsrcdir, hparent, rfl⟩
            · cases hx
          · intro s hs
            exact move_counts hc hlimit hsrcdir hdstdir hs he hkind hdir halive hfree
  | renameOver _ he' hsame hempty he₁ hdir halive hfree hlimit' =>
      obtain rfl := child_eq he (Finset.mem_of_mem_erase he₁)
      cases dst with
      | none => exact absurd rfl (hdst _ he' rfl)
      | some dnode =>
          obtain ⟨hdnode, he'', -, hkinds⟩ := hdst
          obtain rfl := child_eq he'' he'
          have halive' : t.Alive (nodeOf dstdir) := DirTree.alive_of_alive_remove halive
          refine kept_adjustLinks hc h hlimit'
            (fun n hn => DirTree.alive_of_alive_remove (DirTree.alive_move.mp hn)) rfl ?_ ?_
          · intro x hx
            have hx' : x ∈ ([⟨dnode.id, -2⟩, ⟨dstdir.id, -1⟩, ⟨dnode.id, -1⟩, ⟨dstdir.id, 1⟩,
                ⟨srcdir.id, -1⟩] : List LinkChange) := by
              simp only [renameChanges] at hx
              split_ifs at hx <;> simp at hx ⊢ <;> tauto
            simp only [List.mem_cons, List.not_mem_nil, or_false] at hx'
            rcases hx' with rfl | rfl | rfl | rfl | rfl
            · exact ⟨dnode, hdnode, DirTree.alive_child he', rfl⟩
            · exact ⟨dstdir, hdstdir, halive', rfl⟩
            · exact ⟨dnode, hdnode, DirTree.alive_child he', rfl⟩
            · exact ⟨dstdir, hdstdir, halive', rfl⟩
            · exact ⟨srcdir, hsrcdir, hparent, rfl⟩
          · intro s hs
            exact replace_counts hc hlimit hsrcdir hdstdir hdnode hs he' hempty he₁ hkind
              (hkinds.trans hkind) hsame hdir halive hfree

/-! ## Inodes of a reply -/

/-- An inode for a file whose reply tells the truth. -/
theorem CountedOn.iget {dir : Slot ℕ CachedInode} {k : RequestType} {id : ℕ} {n : NodeId}
    (hc : Canonical hash c) (h : CountedOn P sb t c) (hdir : Holds sb c dir)
    (higet : a.iget hash l c dir k = (some id, c')) (htrue : Truthful t' k a.reply n)
    (hlimit : Limited t')
    (hself : ∀ s ∈ c'.slots, s.item.key = (sb, n) → linkDiff changes s.id = 0)
    (hother : ∀ s, Holds sb c s → nodeOf s ≠ n → KeepsStep t t' changes s) :
    CountedOn P sb t' (adjustLinks c' changes) := by
  intro s hs hsb hn
  obtain ⟨s₀, hs₀, rfl⟩ := mem_adjustLinks hs
  have hmem := @mem_igetCached hash l c _ _ _ _ _ hc _ _ higet s₀
  rw [hdir.2, htrue.identity] at hmem
  by_cases hnode : nodeOf s₀ = n
  · have hkey : s₀.item.key = (sb, n) := Prod.ext hsb hnode
    have hattr := hmem.2 hkey hs₀
    simp only [hself s₀ hs₀ hkey, addNlink_zero]
    constructor
    · rw [show s₀.item.inode.iNlink = _ from congrArg Attributes.iNlink hattr]
      exact htrue.nlink.trans (congrArg t'.nlink hnode.symm)
    · rw [show s₀.item.inode.iMode = _ from congrArg Attributes.iMode hattr]
      exact htrue.isDir.trans (by rw [← hnode, nodeOf])
  · have hs₁ : s₀ ∈ c.slots := (hmem.1 fun hkey => hnode (Prod.mk.inj hkey).2).mp hs₀
    exact (hother s₀ ⟨hs₁, hsb⟩ hnode).countedAt h ⟨hs₁, hsb⟩ hlimit hn

theorem canonical_iget {dir : Slot ℕ CachedInode} {k : RequestType} (hc : Canonical hash c) :
    Canonical hash (a.iget hash l c dir k).2 :=
  (icacheStep_canonical (a := .iget dir.item.sb a.fsuid _ _ a.memory) hc rfl).1

/-- `uvfs_lookup`. -/
theorem kept_lookup {dir : Slot ℕ CachedInode} {name : List Byte} (hc : Canonical hash c)
    (h : CountedOn P sb t c) (hlimit : Limited t) (hop : a.op = .lookup dir name)
    (hadmits : Holds sb c dir) (herror : replyError a.reply = 0)
    (hanswers : TreeAnswers t (.lookup dir.item.inode name) a.reply t') :
    Kept P sb c [] t' (a.after hash l c) := by
  have hsame : t' = t ∧ ∃ n, Truthful t .lookup a.reply n := by
    cases hanswers with
    | refuse hrefused => omega
    | lookup _ _ htrue => exact ⟨rfl, _, htrue⟩
    | make hmakes => cases hmakes
  obtain ⟨rfl, n, htrue⟩ := hsame
  refine ⟨hlimit, trivial, ?_⟩
  simp only [LinkCall.after, hop, Op.brings, Op.changes]
  rcases higet : a.iget hash l c dir .lookup with ⟨_ | id, c'⟩
  · obtain ⟨-, -, rfl⟩ := (igetCached_eq_none_iff hc).mp higet
    exact h
  · exact h.iget hc hadmits higet htrue hlimit (fun _ _ _ => rfl)
      fun s _ _ => ⟨fun hn => hn, rfl, by rw [linkDiff_nil, add_zero]⟩

/-- A new directory for which there is no inode: the count of its parent is one short. -/
def OutOfMemory (c : InodeCache) (a : LinkCall) : Prop :=
  a.memory = false ∧ ∃ dir name mode, a.op = .mkdir dir name mode ∧ ∀ s ∈ c.slots,
    s.item.key ≠ (dir.item.sb, (fhandleAt a.reply (replyOffset .mkdir 4)).identity)

theorem outOfMemory_iff {dir : Slot ℕ CachedInode} {name : List Byte} {mode : Word}
    (hc : Canonical hash c) (hop : a.op = .mkdir dir name mode) :
    OutOfMemory c a ↔ (a.iget hash l c dir .mkdir).1 = none := by
  constructor
  · rintro ⟨hmemory, dir', name', mode', hop', hnew⟩
    cases hop.symm.trans hop'
    exact congrArg Prod.fst ((igetCached_eq_none_iff hc).mpr ⟨hmemory, hnew, rfl⟩)
  · intro hnone
    obtain ⟨hmemory, hnew, -⟩ := (igetCached_eq_none_iff hc).mp (Prod.ext hnone rfl)
    exact ⟨hmemory, dir, name, mode, hop, hnew⟩

/-! ## New entries -/

/-- The changes for a new entry: a new directory is a link to its parent. -/
def makeChanges (dir : ℕ) (isDir : Bool) : List LinkChange :=
  if isDir then mkdirChanges dir else []

theorem linkDiff_makeChanges (dir : ℕ) (isDir : Bool) (id : ℕ) :
    linkDiff (makeChanges dir isDir) id = if dir = id ∧ isDir = true then 1 else 0 := by
  cases isDir with
  | false => simp [makeChanges]
  | true => simp [makeChanges, mkdirChanges]

theorem noUnderflow_makeChanges (dir : ℕ) (isDir : Bool) :
    NoUnderflow c (makeChanges dir isDir) := by
  cases isDir with
  | false => trivial
  | true =>
      refine ⟨fun s _ _ => ?_, trivial⟩
      simp only
      omega

/-- The server has made the node `n` in a directory, and the reply says so. -/
structure Made (t t' : ServerTree) (dir n : NodeId) (isDir : Bool) (k : RequestType) (m : Mem) :
    Prop where
  alive : t.Alive dir
  new : ¬ t.Alive n
  aliveIff : ∀ n', n' ≠ n → (t'.Alive n' ↔ t.Alive n')
  sameKind : ∀ n', n' ≠ n → t'.isDir n' = t.isDir n'
  nlink : ∀ n', n' ≠ n → t'.nlink n' = t.nlink n' + if dir = n' ∧ isDir = true then 1 else 0
  truthful : Truthful t' k m n
  limited : Limited t'

/-- What the server does for a new entry. -/
theorem answers_make {r : VfsRequest} {k : RequestType} {dir : Inode} {name : List Byte}
    {isDir : Bool} {m : Mem} (hmakes : Makes r k dir name isDir) (herror : replyError m = 0)
    (hanswers : TreeAnswers t r m t') : ∃ n, Made t t' dir.fh.identity n isDir k m := by
  cases hanswers with
  | refuse hrefused => omega
  | make hmakes' _ hdir halive hfree hnew htrue hlimit =>
      cases hmakes <;> cases hmakes' <;> exact ⟨_, halive, hnew,
        fun _ hne => DirTree.alive_add_of_ne hne, fun _ hne => Function.update_of_ne hne ..,
        fun _ hne => DirTree.nlink_add_of_ne hne, htrue, hlimit⟩
  | lookup | unlink | rmdir | rename | renameOver => cases hmakes

namespace Made

variable {dir : Slot ℕ CachedInode} {n : NodeId} {isDir : Bool} {k : RequestType}

theorem dir_ne {dir : NodeId} {m : Mem} (h : Made t t' dir n isDir k m) : dir ≠ n := by
  rintro rfl
  exact h.new h.alive

theorem keepsStep {m : Mem} (h : Made t t' (nodeOf dir) n isDir k m) (hc : Canonical hash c)
    (hdir : Holds sb c dir) (hs : Holds sb c s) (hne : nodeOf s ≠ n) :
    KeepsStep t t' (makeChanges dir.id isDir) s where
  alive := (h.aliveIff _ hne).mp
  isDir := h.sameKind _ hne
  nlink := by
    rw [h.nlink _ hne, linkDiff_makeChanges]
    simp only [id_eq_iff hc hdir hs]
    push_cast
    rfl

/-- There is an inode for the new node. -/
theorem counted_of_some {id : ℕ} (hmade : Made t t' (nodeOf dir) n isDir k a.reply)
    (hc : Canonical hash c) (h : CountedOn P sb t c) (hdir : Holds sb c dir)
    (higet : a.iget hash l c dir k = (some id, c')) :
    CountedOn P sb t' (adjustLinks c' (makeChanges dir.id isDir)) := by
  refine h.iget hc hdir higet hmade.truthful hmade.limited ?_
    fun s hs hne => hmade.keepsStep hc hdir hs hne
  intro s hs hkey
  have hc' : Canonical hash c' := by
    have hcanonical := @canonical_iget hash l c a dir k hc
    rwa [higet] at hcanonical
  have hdir' : dir ∈ c'.slots := by
    refine ((mem_igetCached hc higet).1 ?_).mpr hdir.1
    rw [hmade.truthful.identity]
    exact fun heq => hmade.dir_ne (Prod.mk.inj heq).2
  have hid : dir.id ≠ s.id := by
    intro heq
    obtain rfl := hc'.eq_of_id hdir' hs heq
    exact hmade.dir_ne (Prod.mk.inj hkey).2
  rw [linkDiff_makeChanges, if_neg fun heq => hid heq.1]

/-- A new file without an inode changes nothing that is cached. -/
theorem counted_of_file {m : Mem} (hmade : Made t t' (nodeOf dir) n false k m)
    (hc : Canonical hash c) (h : CountedOn P sb t c) (hdir : Holds sb c dir)
    (hnone : ∀ s ∈ c.slots, s.item.key ≠ (sb, n)) : CountedOn P sb t' c := by
  intro s hs hsb hn
  have hne : nodeOf s ≠ n := fun heq => hnone s hs (Prod.ext hsb heq)
  have hcounted := (hmade.keepsStep hc hdir ⟨hs, hsb⟩ hne).countedAt h ⟨hs, hsb⟩ hmade.limited hn
  rwa [linkDiff_makeChanges, if_neg fun heq => Bool.false_ne_true heq.2, addNlink_zero] at hcounted

/-- A new directory without an inode: the count of its parent is one short. -/
theorem not_counted_of_dir {m : Mem} (hmade : Made t t' (nodeOf dir) n true k m)
    (h : CountedOn P sb t c) (hdir : Holds sb c dir) : ¬ CountedOn P sb t' c := by
  intro hcounted
  have halive : t'.Alive (nodeOf dir) := (hmade.aliveIff _ hmade.dir_ne).mpr hmade.alive
  have hold := (h dir hdir.1 hdir.2 (.inr hmade.alive)).nlink
  have hnow := (hcounted dir hdir.1 hdir.2 (.inr halive)).nlink
  have hone := hmade.nlink _ hmade.dir_ne
  rw [if_pos ⟨rfl, rfl⟩] at hone
  unfold nodeOf at hone
  omega

end Made

/-- `uvfs_create` and `uvfs_symlink`. -/
theorem kept_makeFile {dir : Slot ℕ CachedInode} {k : RequestType} {name : List Byte}
    (hc : Canonical hash c) (h : CountedOn P sb t c) (hbrings : a.op.brings = some (dir, k))
    (hchanges : a.op.changes = []) (hmakes : Makes a.op.request k dir.item.inode name false)
    (hdir : Holds sb c dir) (herror : replyError a.reply = 0)
    (hanswers : TreeAnswers t a.op.request a.reply t') :
    Kept P sb c a.op.changes t' (a.after hash l c) := by
  obtain ⟨n, hmade⟩ := answers_make hmakes herror hanswers
  rw [hchanges]
  refine ⟨hmade.limited, trivial, ?_⟩
  simp only [LinkCall.after, hbrings, hchanges]
  rcases higet : a.iget hash l c dir k with ⟨_ | id, c'⟩
  · obtain ⟨-, hnone, rfl⟩ := (igetCached_eq_none_iff hc).mp higet
    rw [hdir.2, hmade.truthful.identity] at hnone
    exact hmade.counted_of_file hc h hdir hnone
  · exact hmade.counted_of_some hc h hdir higet

/-- `uvfs_mkdir`: the counts go wrong exactly when there is no inode for the new directory. -/
theorem kept_mkdir {dir : Slot ℕ CachedInode} {name : List Byte} {mode : Word}
    (hc : Canonical hash c) (h : CountedOn P sb t c) (hop : a.op = .mkdir dir name mode)
    (hdir : Holds sb c dir) (herror : replyError a.reply = 0)
    (hanswers : TreeAnswers t (.mkdir dir.item.inode name mode) a.reply t') :
    Limited t' ∧ NoUnderflow c (makeChanges dir.id true) ∧
      (CountedOn P sb t' (a.after hash l c) ↔ ¬ OutOfMemory c a) := by
  obtain ⟨n, hmade⟩ := answers_make (.mkdir dir.item.inode name mode) herror hanswers
  refine ⟨hmade.limited, noUnderflow_makeChanges _ _, ?_⟩
  rw [outOfMemory_iff (l := l) hc hop]
  simp only [LinkCall.after, hop, Op.brings, Op.changes]
  rcases higet : a.iget hash l c dir .mkdir with ⟨_ | id, c'⟩
  · obtain ⟨-, -, rfl⟩ := (igetCached_eq_none_iff hc).mp higet
    exact iff_of_false (hmade.not_counted_of_dir h hdir) (not_not.mpr rfl)
  · exact iff_of_true (hmade.counted_of_some hc h hdir higet) (by simp)

/-! ## Runs -/

/-- Only `uvfs_mkdir` can run out of memory. -/
theorem Kept.of_ne_mkdir (h : Kept P sb c a.op.changes t' c')
    (hop : ∀ dir name mode, a.op ≠ .mkdir dir name mode) :
    Limited t' ∧ NoUnderflow c a.op.changes ∧ (CountedOn P sb t' c' ↔ ¬ OutOfMemory c a) := by
  refine ⟨h.limited, h.noUnderflow, iff_of_true h.counted ?_⟩
  rintro ⟨-, dir, name, mode, hop', -⟩
  exact hop dir name mode hop'

/-- A granted call keeps the limit, lets no count go below 0, and keeps the counts right unless
there was no inode for a new directory. -/
theorem granted_call (hc : Canonical hash c) (h : CountedOn P sb t c) (hlimit : Limited t)
    (hadmits : Admits sb t c a.op) (herror : replyError a.reply = 0)
    (hanswers : TreeAnswers t a.op.request a.reply t') :
    Limited t' ∧ NoUnderflow c a.op.changes ∧
      (CountedOn P sb t' (a.after hash l c) ↔ ¬ OutOfMemory c a) := by
  obtain ⟨op, fsuid, transaction, reply, memory⟩ := a
  cases op with
  | lookup dir name =>
      refine Kept.of_ne_mkdir ?_ (by simp)
      exact kept_lookup hc h hlimit rfl hadmits herror hanswers
  | create dir name mode =>
      refine Kept.of_ne_mkdir ?_ (by simp)
      exact kept_makeFile hc h rfl rfl (.create ..) hadmits herror hanswers
  | symlink dir name path =>
      refine Kept.of_ne_mkdir ?_ (by simp)
      exact kept_makeFile hc h rfl rfl (.symlink ..) hadmits herror hanswers
  | mkdir dir name mode => exact kept_mkdir hc h rfl hadmits herror hanswers
  | unlink dir name entry =>
      refine Kept.of_ne_mkdir ?_ (by simp)
      exact kept_unlink hc h hlimit hadmits herror hanswers
  | rmdir dir name entry =>
      refine Kept.of_ne_mkdir ?_ (by simp)
      exact kept_rmdir hc h hlimit hadmits herror hanswers
  | rename srcdir srcname src dstdir dstname dst =>
      refine Kept.of_ne_mkdir ?_ (by simp)
      exact kept_rename hc h hlimit hadmits herror hanswers

theorem canonical_after (hc : Canonical hash c) : Canonical hash (a.after hash l c) := by
  unfold LinkCall.after
  split
  · rename_i dir k hbrings
    have hcanonical := @canonical_iget hash l c a dir k hc
    split
    · rename_i c' higet
      rwa [higet] at hcanonical
    · rename_i id c' higet
      rw [higet] at hcanonical
      exact canonical_adjustLinks hcanonical
  · exact canonical_adjustLinks hc

theorem TreeAnswers.replyError_cases {r : VfsRequest} {m : Mem} (h : TreeAnswers t r m t') :
    replyError m < 0 ∧ t' = t ∨ replyError m = 0 := by
  cases h with
  | refuse herror => exact .inl ⟨herror, rfl⟩
  | lookup herror | unlink herror | rmdir herror | rename herror | renameOver herror =>
      exact .inr herror
  | make _ herror => exact .inr herror

/-- The server grants the request of the call. -/
def LinkCall.Granted (a : LinkCall) : Prop := a.Asks ∧ replyError a.reply = 0

variable {x x' : LinkState} {act : LinkAct}

/-- **What a call does**: nothing, or what the server has granted. -/
theorem linkStep_call_cases (h : LinkStep hash l sb x (.call a) x') :
    Admits sb x.tree x.cache a.op ∧ (¬ a.Granted ∧ x' = x ∨
      a.Granted ∧ TreeAnswers x.tree a.op.request a.reply x'.tree ∧
        x'.cache = a.after hash l x.cache) := by
  cases h with
  | @call t t' c _ hadmits hserved =>
      refine ⟨hadmits, ?_⟩
      by_cases hasks : a.Asks
      · rw [requests_of_asks hasks] at hserved
        obtain ⟨t₁, rfl, hanswers⟩ := hserved
        rcases hanswers.replyError_cases with ⟨herror, rfl⟩ | herror
        · rw [run_of_refused hasks herror]
          exact .inl ⟨fun hgranted => herror.ne hgranted.2, rfl⟩
        · rw [run_of_granted hasks herror]
          exact .inr ⟨⟨hasks, herror⟩, hanswers, rfl⟩
      · rw [run_of_not_asks hasks] at hserved ⊢
        exact .inl ⟨fun hgranted => hasks hgranted.1, by rw [hserved]⟩

/-- The step leaves a wrong count: the server has made a directory for which there is no inode. -/
def Miscounts (c : InodeCache) : LinkAct → Prop
  | .call a => a.Granted ∧ OutOfMemory c a
  | .evict _ => False

/-- What is kept from step to step. -/
structure LinkInv (hash : ℕ → ℕ → ℕ) (P : NodeId → Prop) (sb : ℕ) (x : LinkState) : Prop where
  canonical : Canonical hash x.cache
  limited : Limited x.tree
  counted : CountedOn P sb x.tree x.cache

/-- A step counts right exactly when it does not miscount. -/
theorem linkStep_inv_iff (h : LinkInv hash P sb x) (hstep : LinkStep hash l sb x act x') :
    Canonical hash x'.cache ∧ Limited x'.tree ∧
      (CountedOn P sb x'.tree x'.cache ↔ ¬ Miscounts x.cache act) := by
  cases act with
  | evict id =>
      cases hstep
      refine ⟨h.canonical.remove, h.limited, iff_of_true ?_ fun hn => hn⟩
      intro s hs hsb hn
      exact h.counted s (Table.mem_remove.mp hs).1 hsb hn
  | call a =>
      obtain ⟨hadmits, ⟨hgranted, rfl⟩ | ⟨hgranted, hanswers, hcache⟩⟩ := linkStep_call_cases hstep
      · exact ⟨h.canonical, h.limited, iff_of_true h.counted fun hn => hgranted hn.1⟩
      · obtain ⟨hlimit, -, hcounted⟩ :=
          granted_call (l := l) h.canonical h.counted h.limited hadmits hgranted.2 hanswers
        rw [hcache]
        refine ⟨canonical_after h.canonical, hlimit, hcounted.trans (not_congr ?_)⟩
        exact (and_iff_right hgranted).symm

/-- Runs in which no step miscounts. -/
abbrev LinkRun (hash : ℕ → ℕ → ℕ) (l : LongWidth) (sb : ℕ) : LinkState → LinkState → Prop :=
  Relation.ReflTransGen fun x x' => ∃ act, ¬ Miscounts x.cache act ∧ LinkStep hash l sb x act x'

/-- The invariant along a run. -/
theorem linkRun_inv (h : LinkInv hash P sb x) (hrun : LinkRun hash l sb x x') :
    LinkInv hash P sb x' := by
  induction hrun with
  | refl => exact h
  | tail _ hstep ih =>
      obtain ⟨act, hok, hstep⟩ := hstep
      obtain ⟨hcanonical, hlimit, hcounted⟩ := linkStep_inv_iff ih hstep
      exact ⟨hcanonical, hlimit, hcounted.mpr hok⟩

/-- **Link counts**: when the counts of the cached inodes are right at the start, they are right in
every state of every run in which each directory that the server makes gets its inode; what has been
removed since has the count 0; no call takes a count below 0; a call that the server refuses changes
nothing; and the first step that miscounts leaves a wrong count. -/
theorem link_counts {x₀ : LinkState} (hcanonical : Canonical hash x₀.cache)
    (hlimit : Limited x₀.tree) (hcounted : Counted sb x₀.tree x₀.cache)
    (hrun : LinkRun hash l sb x₀ x) :
    Counted sb x.tree x.cache ∧
      (∀ x', LinkRun hash l sb x x' → ∀ s ∈ x'.cache.slots, s.item.sb = sb →
        x.tree.Alive (nodeOf s) → ¬ x'.tree.Alive (nodeOf s) → s.item.inode.iNlink = 0) ∧
      ∀ a x', LinkStep hash l sb x (.call a) x' →
        (a.Granted → NoUnderflow x.cache a.op.changes) ∧
        (replyError a.reply < 0 → x' = x) ∧
        (Counted sb x'.tree x'.cache ↔ ¬ Miscounts x.cache (.call a)) := by
  have hinv : LinkInv hash (fun _ => False) sb x :=
    linkRun_inv ⟨hcanonical, hlimit, hcounted⟩ hrun
  refine ⟨hinv.counted, ?_, ?_⟩
  · intro x' hrun' s hs hsb halive hdead
    -- from here on the files that are in the tree now stay counted, also when they are removed
    have hinv' : LinkInv hash x.tree.Alive sb x' :=
      linkRun_inv ⟨hinv.canonical, hinv.limited, hinv.counted.mono fun _ hn => .inr hn⟩ hrun'
    have hnlink := (hinv'.counted s hs hsb (.inl halive)).nlink
    exact BitVec.eq_of_toNat_eq (hnlink.trans (DirTree.nlink_eq_zero hdead))
  · intro a x' hstep
    obtain ⟨hadmits, hcases⟩ := linkStep_call_cases hstep
    refine ⟨?_, ?_, (linkStep_inv_iff hinv hstep).2.2⟩
    · intro hgranted
      rcases hcases with ⟨hnot, -⟩ | ⟨-, hanswers, -⟩
      · exact absurd hgranted hnot
      · exact (granted_call (l := l) hinv.canonical hinv.counted hinv.limited hadmits hgranted.2
          hanswers).2.1
    · intro herror
      rcases hcases with ⟨-, hsame⟩ | ⟨hgranted, -⟩
      · exact hsame
      · exact absurd hgranted.2 herror.ne

/-- The cached inode of the directory with the given number, for the examples. -/
def dirSlot (k : ℕ) (nlink : Word) : Slot ℕ CachedInode where
  id := k
  bucket := k
  item :=
    { sb := 0
      inode := { newInode ⟨0, 0, 0, 0, 0, 0, k, 0⟩ with iMode := 0o040755, iNlink := nlink } }

/-- A root directory that holds `a` and `b`, and `d` in `a`. -/
def threeDirs : LinkState where
  tree :=
    { root := (0, 0, 0)
      isDir := fun _ => true
      entries := {⟨(0, 0, 0), [97], (0, 1, 0)⟩, ⟨(0, 0, 0), [98], (0, 2, 0)⟩,
        ⟨(0, 1, 0), [100], (0, 3, 0)⟩}
      name_unique := by decide
      parent_isDir := by decide
      parent_alive := by decide
      dir_unique := by decide
      root_isDir := by decide
      root_unnamed := by decide }
  cache := ⟨[dirSlot 0 4, dirSlot 1 3, dirSlot 2 2, dirSlot 3 2], 4⟩

/-- `rename("/a/d", "/b/d")`. -/
def renameAcross : LinkCall where
  op := .rename (dirSlot 1 3) [100] (dirSlot 3 2) (dirSlot 2 2) [100] none
  fsuid := 0
  transaction := true
  reply := fun _ => 0
  memory := true

theorem link_counts_rename : ∃ x, LinkRun (fun _ h => h) .w64 0 threeDirs x ∧
    Counted 0 x.tree x.cache ∧
    x.cache.slots.map (fun s => s.item.inode.iNlink) = [4, 2, 3, 2] := by
  have hlimit : ∀ t : ServerTree, t.entries.card = 3 → Limited t := by
    intro t ht n
    refine le_trans (t.nlink_le_card n) ?_
    rw [ht]
    decide
  have hcanonical : Canonical (fun _ h => h) threeDirs.cache := by
    constructor <;> decide
  have hcounted : Counted 0 threeDirs.tree threeDirs.cache := by
    intro s hs _ _
    fin_cases hs <;> constructor <;> decide
  have hanswers := @TreeAnswers.rename threeDirs.tree (dirSlot 1 3).item.inode
    (dirSlot 2 2).item.inode [100] [100] renameAcross.reply (0, 3, 0) (by decide) (by decide)
    (by decide) (by decide) (by decide) (hlimit _ (by decide))
  have hadmits : Admits 0 threeDirs.tree threeDirs.cache renameAcross.op :=
    ⟨⟨by simp [threeDirs], rfl⟩, ⟨by simp [threeDirs], rfl⟩, ⟨by simp [threeDirs], rfl⟩,
      by decide, by decide⟩
  have hstep := @LinkStep.call (fun _ h => h) .w64 0 threeDirs.tree _ threeDirs.cache renameAcross
    hadmits ⟨_, rfl, hanswers⟩
  have hok : ¬ Miscounts threeDirs.cache (.call renameAcross) := by
    rintro ⟨-, hmemory, -⟩
    exact absurd hmemory (by decide)
  have hrun : LinkRun (fun _ h => h) .w64 0 threeDirs _ := .single ⟨_, hok, hstep⟩
  exact ⟨_, hrun, (link_counts hcanonical (hlimit _ (by decide)) hcounted hrun).1, by decide⟩

/-- A root directory without entries. -/
def rootOnly : LinkState where
  tree :=
    { root := (0, 0, 0)
      isDir := fun _ => true
      entries := ∅
      name_unique := by decide
      parent_isDir := by decide
      parent_alive := by decide
      dir_unique := by decide
      root_isDir := by decide
      root_unnamed := by decide }
  cache := ⟨[dirSlot 0 2], 1⟩

/-- `mkdir("/a")`, which the server grants, without memory for the inode of `a`. -/
def mkdirGranted : LinkCall where
  op := .mkdir (dirSlot 0 2) [97] 0o755
  fsuid := 0
  transaction := true
  reply := fun i =>
    if i = 40 then 1 else if i = 48 then 0xed else if i = 49 then 0x41 else if i = 52 then 2 else 0
  memory := false

/-- The server has made `/a`, and the root directory still has the count 2. -/
theorem mkdir_without_memory : Canonical (fun _ h => h) rootOnly.cache ∧ Limited rootOnly.tree ∧
    Counted 0 rootOnly.tree rootOnly.cache ∧
    ∃ x, LinkStep (fun _ h => h) .w64 0 rootOnly (.call mkdirGranted) x ∧ mkdirGranted.Granted ∧
      ¬ Counted 0 x.tree x.cache := by
  have hlimit : ∀ t : ServerTree, t.entries.card ≤ 1 → Limited t := by
    intro t ht n
    refine le_trans (t.nlink_le_card n) (le_trans (Nat.add_le_add_left ht 2) (by decide))
  have hcounted : Counted 0 rootOnly.tree rootOnly.cache := by
    intro s hs _ _
    fin_cases hs
    constructor <;> decide
  have hanswers := @TreeAnswers.make rootOnly.tree _ _ _ _ _ mkdirGranted.reply (0, 1, 0)
    (.mkdir (dirSlot 0 2).item.inode [97] 0o755) (by decide) (by decide) (by decide) (by decide)
    (by decide) ⟨by decide, by decide, by decide⟩ (hlimit _ (by decide))
  have hadmits : Admits 0 rootOnly.tree rootOnly.cache mkdirGranted.op :=
    ⟨by simp [rootOnly], rfl⟩
  have hstep := @LinkStep.call (fun _ h => h) .w64 0 rootOnly.tree _ rootOnly.cache mkdirGranted
    hadmits ⟨_, rfl, hanswers⟩
  have hname : [97].length ≤ uvfsMaxNamelen := by decide
  refine ⟨by constructor <;> decide, hlimit _ (by decide), hcounted, _, hstep, ?_, ?_⟩
  · exact ⟨⟨hname, rfl⟩, by decide⟩
  · intro hwrong
    have hroot := (hwrong (dirSlot 0 2) (List.mem_singleton.mpr rfl) rfl (.inr (.inl rfl))).nlink
    exact absurd hroot (by decide)

end Uvfs.Vfs
