import Uvfs.Lib.Run
import Uvfs.Lib.Table
import Uvfs.Vfs.Page

/-!
# The inode cache

The kernel keeps the inodes of all superblocks in one hash table.  `uvfs_iget` and `uvfs_get_dentry`
look for the inode of a handle in it: they name the bucket by `fs_sfuid`, and the callback
`uvfs_compare_inode` compares three fields of the handle.  `iget5_locked` adds an inode when there
is none.

* `uvfsCompareInode`, `ilookup5`, `iget5Locked`.
* `igetCached`, `uvfsGetDentry`, `revalidateCached` : the functions of `super.c` on the cache.
* `IcacheAct`, `icacheStep` : a system in which these calls are made in any order, with any handles
  and replies, and inodes are evicted.
* `cache_canonical` : one inode for each handle.
* `fits_of_keepsType` : the operations of an inode fit its mode, as long as no reply changes the
  type of a cached inode; `refresh_keeps_file_operations` is such a reply.
-/

namespace Uvfs.Vfs

open Transition

/-! ## Searching -/

/-- What identifies a file: `na_aruid`, `fs_sfuid` and `fs_sbxid`. -/
def Fhandle.identity (fh : Fhandle) : Word × Word × Word := (fh.naAruid, fh.fsSfuid, fh.fsSbxid)

/-- `uvfs_compare_inode`.
Source: `super.c`, `uvfs_compare_inode`. -/
def uvfsCompareInode (inode : Inode) (other : Fhandle) : Bool :=
  inode.fh.naAruid = other.naAruid && inode.fh.fsSfuid = other.fsSfuid &&
    inode.fh.fsSbxid = other.fsSbxid

theorem uvfsCompareInode_iff {inode : Inode} {other : Fhandle} :
    uvfsCompareInode inode other = true ↔ inode.fh.identity = other.identity := by
  simp [uvfsCompareInode, Fhandle.identity, and_assoc]

/-- `(unsigned long) fh->no_fspid.fs_sfuid`. -/
def Fhandle.hashval (fh : Fhandle) : ℕ := fh.fsSfuid.toNat

/-- An inode in the cache, with its superblock. -/
structure CachedInode where
  /-- `i_sb`. -/
  sb : ℕ
  /-- The inode. -/
  inode : Inode
  deriving DecidableEq

/-- The hash table of inodes; an identity is the address of an inode. -/
abbrev InodeCache := Table ℕ CachedInode

section

variable (hash : ℕ → ℕ → ℕ) (l : LongWidth) (c : InodeCache)

/-- `ilookup5`: search the bucket that the superblock and the hash value name. -/
def ilookup5 (sb hashval : ℕ) (test : Inode → Bool) : Option (Slot ℕ CachedInode) :=
  c.find? (hash sb hashval) fun x => x.sb = sb && test x.inode

/-- `iget5_locked`: the inode, with its state if it was found and `none` if it is `I_NEW`, and the
cache after the call; `new` is the inode after the init callback, `memory` says whether one can be
allocated. -/
def iget5Locked (sb hashval : ℕ) (test : Inode → Bool) (new : Inode) (memory : Bool) :
    Option (ℕ × Option Inode) × InodeCache :=
  match ilookup5 hash c sb hashval test with
  | some s => (some (s.id, some s.item.inode), c)
  | none =>
      if memory then (some (c.next, none), c.add (hash sb hashval) ⟨sb, new⟩) else (none, c)

/-- `uvfs_iget` on the cache: the inode it returns and the cache after it.
Source: `super.c`, `uvfs_iget`. -/
def igetCached (sb : ℕ) (fsuid : Word) (fh : Fhandle) (attr : UvfsAttr) (memory : Bool) :
    Option ℕ × InodeCache :=
  match iget5Locked hash c sb fh.hashval (fun i => uvfsCompareInode i fh) (newInode fh) memory with
  | (none, c) => (none, c)
  | (some (id, found), c) =>
      (some id, c.modify id fun x => { x with inode := uvfsIget l fsuid fh attr found })

/-- `-EACCES`. -/
def eacces : ℤ := -13

/-- `-ECOMM`. -/
def ecomm : ℤ := -70

/-- `-ESTALE`. -/
def estale : ℤ := -116

/-- `uvfs_get_dentry`: the inode it finds an alias for, or its error.  `reply` is the answer to the
getattr request, `none` when there is no transaction.
Source: `super.c`, `uvfs_get_dentry`. -/
def uvfsGetDentry (sb : ℕ) (fsuid : Word) (fh : Fhandle) (reply : Option (ℤ × UvfsAttr))
    (memory : Bool) : Except ℤ ℕ × InodeCache :=
  match ilookup5 hash c sb fh.hashval (fun i => uvfsCompareInode i fh) with
  | some s => (.ok s.id, c)
  | none =>
      match reply with
      | none => (.error enomem, c)
      | some (error, attr) =>
          if error = 0 then
            match igetCached hash l c sb fsuid fh attr memory with
            | (some id, c) => (.ok id, c)
            | (none, c) => (.error eacces, c)
          else (.error (if error = ecomm then estale else error), c)

/-- `uvfs_revalidate_inode` on a cached inode.
Source: `super.c`, `uvfs_revalidate_inode`. -/
def revalidateCached (id : ℕ) (fsuid : Word) (reply : Option (ℤ × UvfsAttr)) :
    ℤ × InodeCache :=
  match reply with
  | none => (enomem, c)
  | some (error, attr) =>
      if error = 0 then
        (error, c.modify id fun x => { x with inode := (uvfsRefreshInode l fsuid x.inode attr).1 })
      else (error, c)

/-! ## The system -/

/-- The calls, with what the server and the allocator answer, and evictions. -/
inductive IcacheAct
  /-- `uvfs_iget`, from any of its callers. -/
  | iget (sb : ℕ) (fsuid : Word) (fh : Fhandle) (attr : UvfsAttr) (memory : Bool)
  /-- `uvfs_get_dentry`. -/
  | getDentry (sb : ℕ) (fsuid : Word) (fh : Fhandle) (reply : Option (ℤ × UvfsAttr))
      (memory : Bool)
  /-- `uvfs_revalidate_inode`. -/
  | revalidate (id : ℕ) (fsuid : Word) (reply : Option (ℤ × UvfsAttr))
  /-- The kernel drops an inode. -/
  | evict (id : ℕ)
  deriving DecidableEq

/-- One call. -/
def icacheStep (c : InodeCache) : IcacheAct → Option InodeCache
  | .iget sb fsuid fh attr memory => some (igetCached hash l c sb fsuid fh attr memory).2
  | .getDentry sb fsuid fh reply memory => some (uvfsGetDentry hash l c sb fsuid fh reply memory).2
  | .revalidate id fsuid reply => some (revalidateCached l c id fsuid reply).2
  | .evict id => some (c.remove id)

end

/-- The cache after any sequence of calls from an empty cache. -/
abbrev IcacheReach (hash : ℕ → ℕ → ℕ) (l : LongWidth) : InodeCache → Prop :=
  Reach (icacheStep hash l) (fun _ _ => True) .empty

/-! ## What a call does to the cache -/

/-- Superblock and identity. -/
def CachedInode.key (x : CachedInode) : ℕ × Word × Word × Word := (x.sb, x.inode.fh.identity)

/-- The bucket that `uvfs_iget` uses for a key. -/
def bucketOf (hash : ℕ → ℕ → ℕ) (k : ℕ × Word × Word × Word) : ℕ := hash k.1 k.2.2.1.toNat

/-- Every inode is in the bucket of its handle, and each handle has one inode. -/
abbrev Canonical (hash : ℕ → ℕ → ℕ) : InodeCache → Prop :=
  Table.Canonical CachedInode.key (bucketOf hash)

/-- The change that `uvfs_refresh_inode` makes. -/
def refreshed (l : LongWidth) (fsuid : Word) (attr : UvfsAttr) (x : CachedInode) : CachedInode :=
  { x with inode := (uvfsRefreshInode l fsuid x.inode attr).1 }

@[simp] theorem refreshed_key (l : LongWidth) (fsuid : Word) (attr : UvfsAttr) (x : CachedInode) :
    (refreshed l fsuid attr x).key = x.key := rfl

variable {hash : ℕ → ℕ → ℕ} {l : LongWidth} {c c' : InodeCache} {sb : ℕ} {fsuid : Word}
  {fh : Fhandle} {attr : UvfsAttr} {memory : Bool}

/-- What the test of a search accepts. -/
theorem accepts_iff (x : CachedInode) :
    (x.sb = sb && uvfsCompareInode x.inode fh) = true ↔ x.key = (sb, fh.identity) := by
  simp only [Bool.and_eq_true, decide_eq_true_eq, uvfsCompareInode_iff, CachedInode.key,
    Prod.mk.injEq]

/-- A search finds the inode of the handle. -/
theorem ilookup5_eq_some_iff (hc : Canonical hash c) {s : Slot ℕ CachedInode} :
    ilookup5 hash c sb fh.hashval (fun i => uvfsCompareInode i fh) = some s ↔
      s ∈ c.slots ∧ s.item.key = (sb, fh.identity) :=
  hc.find?_eq_some_iff accepts_iff

/-- A search finds nothing when the handle has no inode. -/
theorem ilookup5_eq_none_iff (hc : Canonical hash c) :
    ilookup5 hash c sb fh.hashval (fun i => uvfsCompareInode i fh) = none ↔
      ∀ s ∈ c.slots, s.item.key ≠ (sb, fh.identity) :=
  hc.find?_eq_none_iff accepts_iff

/-- `uvfs_iget` for a handle that has an inode. -/
theorem igetCached_of_mem (hc : Canonical hash c) {s : Slot ℕ CachedInode} (hs : s ∈ c.slots)
    (hkey : s.item.key = (sb, fh.identity)) :
    igetCached hash l c sb fsuid fh attr memory =
      (some s.id, c.modify s.id (refreshed l fsuid attr)) := by
  have hfind := (ilookup5_eq_some_iff hc).mpr ⟨hs, hkey⟩
  simp only [igetCached, iget5Locked, hfind]
  congr 1
  apply Table.modify_congr
  intro s' hs' hid
  obtain rfl := hc.eq_of_id hs' hs hid
  rfl

/-- `uvfs_iget` for a handle that has none. -/
theorem igetCached_of_not_mem (hc : Canonical hash c)
    (hnew : ∀ s ∈ c.slots, s.item.key ≠ (sb, fh.identity)) :
    igetCached hash l c sb fsuid fh attr memory =
      if memory then
        (some c.next, c.add (hash sb fh.hashval) ⟨sb, uvfsIget l fsuid fh attr none⟩)
      else (none, c) := by
  have hfind := (ilookup5_eq_none_iff hc).mpr hnew
  simp only [igetCached, iget5Locked, hfind]
  cases memory with
  | false => rfl
  | true => simp only [if_true, hc.modify_add]

/-- `uvfs_get_dentry` for a handle that has an inode: no request is made. -/
theorem uvfsGetDentry_of_mem (hc : Canonical hash c) {s : Slot ℕ CachedInode} (hs : s ∈ c.slots)
    (hkey : s.item.key = (sb, fh.identity)) (reply : Option (ℤ × UvfsAttr)) :
    uvfsGetDentry hash l c sb fsuid fh reply memory = (.ok s.id, c) := by
  have hfind := (ilookup5_eq_some_iff hc).mpr ⟨hs, hkey⟩
  simp only [uvfsGetDentry, hfind]

/-- Whether the handle has an inode. -/
theorem key_mem_or_not (c : InodeCache) (sb : ℕ) (fh : Fhandle) :
    (∃ s ∈ c.slots, s.item.key = (sb, fh.identity)) ∨
      ∀ s ∈ c.slots, s.item.key ≠ (sb, fh.identity) := by
  by_cases h : ∃ s ∈ c.slots, s.item.key = (sb, fh.identity)
  · exact .inl h
  · exact .inr fun s hs hkey => h ⟨s, hs, hkey⟩

/-- The cached inode that a call refreshes, and the attributes. -/
def IcacheAct.refreshes (hash : ℕ → ℕ → ℕ) (c : InodeCache) :
    IcacheAct → Option (Slot ℕ CachedInode × UvfsAttr)
  | .iget sb _ fh attr _ =>
      (ilookup5 hash c sb fh.hashval fun i => uvfsCompareInode i fh).map fun s => (s, attr)
  | .revalidate id _ (some (error, attr)) =>
      if error = 0 then (c.get? id).map fun s => (s, attr) else none
  | .revalidate _ _ none | .getDentry _ _ _ _ _ | .evict _ => none

/-- **What a call does**: it refreshes a cached inode, adds one for a handle that has none, drops
one, or leaves the cache alone. -/
theorem icacheStep_cases {a : IcacheAct} (hc : Canonical hash c)
    (h : icacheStep hash l c a = some c') :
    (∃ s fsuid attr, s ∈ c.slots ∧ a.refreshes hash c = some (s, attr) ∧
      c' = c.modify s.id (refreshed l fsuid attr)) ∨
    (a.refreshes hash c = none ∧
      ((∃ sb fsuid fh attr, (∀ s ∈ c.slots, s.item.key ≠ (sb, fh.identity)) ∧
          c' = c.add (hash sb fh.hashval) ⟨sb, uvfsIget l fsuid fh attr none⟩) ∨
        (∃ id, c' = c.remove id) ∨ c' = c)) := by
  cases a with
  | iget sb fsuid fh attr memory =>
      cases h
      rcases key_mem_or_not c sb fh with ⟨s, hs, hkey⟩ | hnew
      · have hfind := (ilookup5_eq_some_iff hc).mpr ⟨hs, hkey⟩
        exact .inl ⟨s, fsuid, attr, hs, by simp [IcacheAct.refreshes, hfind],
          by rw [igetCached_of_mem hc hs hkey]⟩
      · have hfind := (ilookup5_eq_none_iff hc).mpr hnew
        refine .inr ⟨by simp [IcacheAct.refreshes, hfind], ?_⟩
        rw [igetCached_of_not_mem hc hnew]
        cases memory with
        | true => exact .inl ⟨sb, fsuid, fh, attr, hnew, rfl⟩
        | false => exact .inr (.inr rfl)
  | getDentry sb fsuid fh reply memory =>
      cases h
      refine .inr ⟨rfl, ?_⟩
      rcases key_mem_or_not c sb fh with ⟨s, hs, hkey⟩ | hnew
      · exact .inr (.inr (by rw [uvfsGetDentry_of_mem hc hs hkey]))
      · simp only [uvfsGetDentry, (ilookup5_eq_none_iff hc).mpr hnew]
        rcases reply with _ | ⟨error, attr⟩
        · exact .inr (.inr rfl)
        · simp only [igetCached_of_not_mem hc hnew]
          by_cases herror : error = 0
          · cases memory with
            | true => exact .inl ⟨sb, fsuid, fh, attr, hnew, by simp [herror]⟩
            | false => exact .inr (.inr (by simp [herror]))
          · exact .inr (.inr (by simp [herror]))
  | revalidate id fsuid reply =>
      cases h
      rcases reply with _ | ⟨error, attr⟩
      · exact .inr ⟨rfl, .inr (.inr rfl)⟩
      · by_cases herror : error = 0
        · simp only [revalidateCached, IcacheAct.refreshes, herror, if_true]
          cases hget : c.get? id with
          | none =>
              refine .inr ⟨rfl, .inr (.inr ?_)⟩
              exact Table.modify_of_forall_ne (Table.get?_eq_none_iff.mp hget)
          | some s =>
              obtain ⟨hs, rfl⟩ := Table.mem_of_get?_eq_some hget
              exact .inl ⟨s, fsuid, attr, hs, rfl, rfl⟩
        · exact .inr ⟨by simp [IcacheAct.refreshes, herror],
            .inr (.inr (by simp [revalidateCached, herror]))⟩
  | evict id =>
      cases h
      exact .inr ⟨rfl, .inr (.inl ⟨id, rfl⟩)⟩

/-- A property of inodes that new inodes have and the refreshed one keeps. -/
theorem icacheStep_forall {P : Inode → Prop} {a : IcacheAct} (hc : Canonical hash c)
    (h : icacheStep hash l c a = some c') (hP : ∀ s ∈ c.slots, P s.item.inode)
    (hnew : ∀ fsuid fh attr, P (uvfsIget l fsuid fh attr none))
    (hrefresh : ∀ s attr fsuid, s ∈ c.slots → a.refreshes hash c = some (s, attr) →
      P (uvfsRefreshInode l fsuid s.item.inode attr).1) :
    ∀ s ∈ c'.slots, P s.item.inode := by
  intro s hs
  rcases icacheStep_cases hc h with ⟨s₁, fsuid, attr, hs₁, href, rfl⟩ |
    ⟨-, ⟨sb, fsuid, fh, attr, -, rfl⟩ | ⟨id, rfl⟩ | rfl⟩
  · obtain ⟨s₀, hs₀, rfl⟩ := Table.mem_modify.mp hs
    split
    · obtain rfl := hc.eq_of_id hs₀ hs₁ ‹_›
      exact hrefresh _ attr fsuid hs₁ href
    · exact hP s₀ hs₀
  · rcases hs with _ | ⟨_, hs⟩
    · exact hnew fsuid fh attr
    · exact hP s hs
  · exact hP s (Table.mem_remove.mp hs).1
  · exact hP s hs

/-! ## One inode for each handle -/

/-- A call keeps the cache canonical, and no inode changes its handle. -/
theorem icacheStep_canonical {a : IcacheAct} (hc : Canonical hash c)
    (h : icacheStep hash l c a = some c') :
    Canonical hash c' ∧ Table.Since CachedInode.key c c' := by
  rcases icacheStep_cases hc h with ⟨s, fsuid, attr, -, -, rfl⟩ |
    ⟨-, ⟨sb, fsuid, fh, attr, hnew, rfl⟩ | ⟨id, rfl⟩ | rfl⟩
  · exact ⟨hc.modify fun _ _ _ => rfl, .modify fun _ _ _ => rfl⟩
  · have hadd := @Table.Canonical.add _ _ _ CachedInode.key (bucketOf hash) c
      ⟨sb, uvfsIget l fsuid fh attr none⟩ hc hnew
    exact ⟨hadd, .add _⟩
  · exact ⟨hc.remove, .remove⟩
  · exact ⟨hc, .refl c'⟩

/-- The cache stays canonical in every run. -/
theorem reach_canonical {G : InodeCache → IcacheAct → Prop} (hc : Canonical hash c)
    (h : Reach (icacheStep hash l) G c c') :
    Canonical hash c' ∧ Table.Since CachedInode.key c c' := by
  induction h with
  | refl => exact ⟨hc, .refl c⟩
  | tail _ _ hs ih =>
      obtain ⟨hc', hsince⟩ := icacheStep_canonical ih.1 hs
      exact ⟨hc', ih.2.trans hsince⟩

theorem IcacheReach.canonical (h : IcacheReach hash l c) : Canonical hash c :=
  (reach_canonical .empty h).1

/-- `i_ino` is the file id of the handle. -/
theorem IcacheReach.iIno_eq (h : IcacheReach hash l c) :
    ∀ s ∈ c.slots, s.item.inode.iIno = s.item.inode.fh.hashval := by
  refine h.invariant_of (P := fun c => ∀ s ∈ c.slots, s.item.inode.iIno = s.item.inode.fh.hashval)
    (fun _ h => IcacheReach.canonical h) ?_ ?_
  · simp [Table.empty]
  · intro c a c' hc hino _ hs
    refine icacheStep_forall (P := fun i => i.iIno = i.fh.hashval) hc hs hino (fun _ _ _ => rfl) ?_
    intro s attr fsuid hs _
    exact hino s hs

/-- What a reply says about a file, as the inode keeps it. -/
structure Attributes where
  /-- `i_mode`. -/
  iMode : BitVec 16
  /-- `i_nlink`. -/
  iNlink : Word
  /-- `i_uid`. -/
  iUid : Word
  /-- `i_gid`. -/
  iGid : Word
  /-- `i_size`. -/
  iSize : ℤ
  /-- `i_atime`. -/
  iAtime : Timespec
  /-- `i_mtime`. -/
  iMtime : Timespec
  /-- `i_ctime`. -/
  iCtime : Timespec
  /-- `i_blocks`. -/
  iBlocks : ℕ
  /-- `i_rdev`. -/
  iRdev : Word
  /-- `attr_uid`. -/
  attrUid : Word
  deriving DecidableEq

/-- The attributes of an inode. -/
def Inode.attributes (i : Inode) : Attributes :=
  ⟨i.iMode, i.iNlink, i.iUid, i.iGid, i.iSize, i.iAtime, i.iMtime, i.iCtime, i.iBlocks, i.iRdev,
    i.attrUid⟩

/-- The attributes that a reply gives an inode for a caller. -/
def UvfsAttr.attributes (l : LongWidth) (fsuid : Word) (a : UvfsAttr) : Attributes where
  iMode := a.iMode.setWidth 16
  iNlink := a.iNlink
  iUid := a.iUid
  iGid := a.iGid
  iSize := a.iSize.toNat
  iAtime := timespec l a.iAtime
  iMtime := timespec l a.iMtime
  iCtime := timespec l a.iCtime
  iBlocks := a.iBlocks.toNat
  iRdev := a.devno
  attrUid := fsuid

/-- The two blocks of assignments agree. -/
@[simp] theorem uvfsIget_attributes (found : Option Inode) :
    (uvfsIget l fsuid fh attr found).attributes = attr.attributes l fsuid := by
  cases found with
  | none => rfl
  | some i => rfl

/-- The inode that `uvfs_iget` returns. -/
theorem igetCached_eq_some (hc : Canonical hash c) {id : ℕ} {c₁ : InodeCache}
    (h : igetCached hash l c sb fsuid fh attr memory = (some id, c₁)) :
    ∃ s, c₁.get? id = some s ∧ s.item.key = (sb, fh.identity) ∧
      s.item.inode.attributes = attr.attributes l fsuid := by
  have hc₁ : Canonical hash c₁ :=
    (icacheStep_canonical (a := .iget sb fsuid fh attr memory) hc
      (by rw [icacheStep, h])).1
  rcases key_mem_or_not c sb fh with ⟨s, hs, hkey⟩ | hnew
  · rw [igetCached_of_mem hc hs hkey] at h
    cases h
    refine ⟨⟨s.id, s.bucket, refreshed l fsuid attr s.item⟩, ?_, hkey, rfl⟩
    exact hc₁.get?_eq_some_iff.mpr ⟨Table.mem_modify.mpr ⟨s, hs, by simp⟩, rfl⟩
  · rw [igetCached_of_not_mem hc hnew] at h
    cases memory with
    | false => cases h
    | true =>
        cases h
        exact ⟨_, hc₁.get?_eq_some_iff.mpr ⟨List.mem_cons_self, rfl⟩, rfl, rfl⟩

/-- The number of the inode that `uvfs_iget` returns. -/
theorem igetCached_iIno (h : IcacheReach hash l c) {id : ℕ} {c₁ : InodeCache}
    (higet : igetCached hash l c sb fsuid fh attr memory = (some id, c₁))
    {s : Slot ℕ CachedInode} (hget : c₁.get? id = some s) : s.item.inode.iIno = fh.hashval := by
  have h₁ : IcacheReach hash l c₁ :=
    h.tail (a := .iget sb fsuid fh attr memory) trivial (by rw [icacheStep, higet])
  obtain ⟨s', hget', hkey, -⟩ := igetCached_eq_some (IcacheReach.canonical h) higet
  obtain rfl : s' = s := Option.some.inj (hget'.symm.trans hget)
  rw [IcacheReach.iIno_eq h₁ s' (Table.mem_of_get?_eq_some hget).1, Fhandle.hashval,
    Fhandle.hashval]
  exact congrArg (fun k : ℕ × Word × Word × Word => k.2.2.1.toNat) hkey

/-- `uvfs_iget` returns a cached inode exactly when the handle is its own. -/
theorem igetCached_fst_iff (hc : Canonical hash c) {s : Slot ℕ CachedInode} (hs : s ∈ c.slots) :
    (igetCached hash l c sb fsuid fh attr memory).1 = some s.id ↔
      s.item.key = (sb, fh.identity) := by
  constructor
  · intro h
    rcases key_mem_or_not c sb fh with ⟨s', hs', hkey⟩ | hnew
    · rw [igetCached_of_mem hc hs' hkey] at h
      obtain rfl := hc.eq_of_id hs' hs (Option.some.inj h)
      exact hkey
    · rw [igetCached_of_not_mem hc hnew] at h
      cases memory with
      | false => cases h
      | true => exact absurd (hc.fresh s hs) (Option.some.inj h ▸ lt_irrefl _)
  · intro hkey
    rw [igetCached_of_mem hc hs hkey]

/-- The cache after `uvfs_iget` has returned an inode: the other inodes are as before. -/
theorem mem_igetCached (hc : Canonical hash c) {id : ℕ} {c₁ : InodeCache}
    (h : igetCached hash l c sb fsuid fh attr memory = (some id, c₁)) {s : Slot ℕ CachedInode} :
    (s.item.key ≠ (sb, fh.identity) → (s ∈ c₁.slots ↔ s ∈ c.slots)) ∧
      (s.item.key = (sb, fh.identity) → s ∈ c₁.slots →
        s.item.inode.attributes = attr.attributes l fsuid) := by
  rcases key_mem_or_not c sb fh with ⟨s₁, hs₁, hkey₁⟩ | hnew
  · rw [igetCached_of_mem hc hs₁ hkey₁] at h
    cases h
    refine ⟨fun hkey => ⟨fun hs => ?_, fun hs => ?_⟩, fun hkey hs => ?_⟩
    · obtain ⟨s₀, hs₀, rfl⟩ := Table.mem_modify.mp hs
      by_cases hid : s₀.id = s₁.id
      · obtain rfl := hc.eq_of_id hs₀ hs₁ hid
        rw [if_pos rfl] at hkey
        exact absurd hkey₁ hkey
      · rw [if_neg hid]
        exact hs₀
    · have hne : s.id ≠ s₁.id := by
        intro hid
        exact hkey (hc.eq_of_id hs hs₁ hid ▸ hkey₁)
      exact Table.mem_modify.mpr ⟨s, hs, (if_neg hne).symm⟩
    · obtain ⟨s₀, hs₀, rfl⟩ := Table.mem_modify.mp hs
      by_cases hid : s₀.id = s₁.id
      · rw [if_pos hid]
        rfl
      · rw [if_neg hid] at hkey
        exact absurd (congrArg Slot.id (hc.eq_of_key hs₀ hs₁ (hkey.trans hkey₁.symm))) hid
  · rw [igetCached_of_not_mem hc hnew] at h
    cases memory with
    | false => cases h
    | true =>
        cases h
        refine ⟨fun hkey => ⟨fun hs => ?_, List.mem_cons_of_mem _⟩, fun hkey hs => ?_⟩
        · rcases hs with _ | ⟨_, hs⟩
          · exact absurd rfl hkey
          · exact hs
        · rcases hs with _ | ⟨_, hs⟩
          · rfl
          · exact absurd hkey (hnew s hs)

/-- When `uvfs_iget` fails there is no inode for the handle, and nothing changes. -/
theorem igetCached_eq_none_iff (hc : Canonical hash c) {c₁ : InodeCache} :
    igetCached hash l c sb fsuid fh attr memory = (none, c₁) ↔
      memory = false ∧ (∀ s ∈ c.slots, s.item.key ≠ (sb, fh.identity)) ∧ c₁ = c := by
  rcases key_mem_or_not c sb fh with ⟨s, hs, hkey⟩ | hnew
  · rw [igetCached_of_mem hc hs hkey]
    constructor
    · intro h
      cases h
    · rintro ⟨-, hnew, -⟩
      exact absurd hkey (hnew s hs)
  · rw [igetCached_of_not_mem hc hnew]
    cases memory with
    | false =>
        constructor
        · intro h
          cases h
          exact ⟨rfl, hnew, rfl⟩
        · rintro ⟨-, -, rfl⟩
          rfl
    | true => simp

/-- **One inode for each handle**: in every state of the cache no two inodes of a superblock have
the same identity; `uvfs_iget` returns an inode with the identity and the number of the handle and
with the attributes of the reply, whether it was new or not; and while that inode stays cached,
another call returns it exactly when its handle has the same identity. -/
theorem cache_canonical (h : IcacheReach hash l c) :
    (c.slots.map fun s => (s.item.sb, s.item.inode.fh.identity)).Nodup ∧
      ∀ sb fsuid fh attr memory id c₁,
        igetCached hash l c sb fsuid fh attr memory = (some id, c₁) →
        (∃ s, c₁.get? id = some s ∧ s.item.sb = sb ∧
          s.item.inode.fh.identity = fh.identity ∧ s.item.inode.iIno = fh.hashval ∧
          s.item.inode.attributes = attr.attributes l fsuid) ∧
        ∀ c₂, Reach (icacheStep hash l) (fun _ _ => True) c₁ c₂ → (c₂.get? id).isSome →
          ∀ sb' fsuid' fh' attr' memory',
            (igetCached hash l c₂ sb' fsuid' fh' attr' memory').1 = some id ↔
              sb' = sb ∧ fh'.identity = fh.identity := by
  have hc := IcacheReach.canonical h
  refine ⟨hc.keys, ?_⟩
  intro sb fsuid fh attr memory id c₁ higet
  have hstep : icacheStep hash l c (.iget sb fsuid fh attr memory) = some c₁ := by
    rw [icacheStep, higet]
  have h₁ : IcacheReach hash l c₁ := h.tail trivial hstep
  obtain ⟨s, hget, hkey, hattr⟩ := igetCached_eq_some hc higet
  obtain ⟨hs, hid⟩ := Table.mem_of_get?_eq_some hget
  obtain ⟨hsb, hident⟩ := Prod.mk.inj hkey
  refine ⟨⟨s, hget, hsb, hident, igetCached_iIno h higet hget, hattr⟩, ?_⟩
  intro c₂ hreach hcached sb' fsuid' fh' attr' memory'
  obtain ⟨hc₂, hsince⟩ := reach_canonical (IcacheReach.canonical h₁) hreach
  obtain ⟨s₂, hget₂⟩ := Option.isSome_iff_exists.mp hcached
  obtain ⟨hs₂, rfl⟩ := Table.mem_of_get?_eq_some hget₂
  -- the identity of an inode is given out once, so this is still the inode of the first call
  have hkey₂ : s₂.item.key = (sb, fh.identity) :=
    (hsince.key_eq (IcacheReach.canonical h₁) hs hs₂ hid.symm).trans hkey
  rw [igetCached_fst_iff hc₂ hs₂, hkey₂, Prod.mk.injEq]
  constructor
  · rintro ⟨hsb', hident'⟩
    exact ⟨hsb'.symm, hident'.symm⟩
  · rintro ⟨hsb', hident'⟩
    exact ⟨hsb'.symm, hident'.symm⟩

/-- The attributes of a file with the given mode, for the examples. -/
def attrOfMode (mode : Word) : UvfsAttr :=
  ⟨mode, 1, 0, 0, 0, ⟨0, 0⟩, ⟨0, 0⟩, ⟨0, 0⟩, 0, 0, 0⟩

/-- Two handles of one file, by way of two mounts, and a handle of another. -/
theorem cache_canonical_two : ∃ id c₁,
    igetCached (fun sb h => (sb + h) % 4) .w64 .empty 0 1 ⟨5, 0, 0, 1, 0, 3, 2, 0⟩
      (attrOfMode 0o100644) true = (some id, c₁) ∧
    (igetCached (fun sb h => (sb + h) % 4) .w64 c₁ 0 1 ⟨6, 0, 0, 1, 0, 3, 2, 0⟩
      (attrOfMode 0o100644) true).1 = some id ∧
    (igetCached (fun sb h => (sb + h) % 4) .w64 c₁ 0 1 ⟨5, 0, 0, 1, 0, 3, 6, 0⟩
      (attrOfMode 0o100644) true).1 ≠ some id := by
  have hcanon := @cache_canonical (fun sb h => (sb + h) % 4) .w64 .empty .refl
  have hsame :=
    (hcanon.2 0 1 ⟨5, 0, 0, 1, 0, 3, 2, 0⟩ (attrOfMode 0o100644) true _ _ rfl).2 _ .refl rfl
  refine ⟨_, _, rfl, (hsame 0 1 ⟨6, 0, 0, 1, 0, 3, 2, 0⟩ _ true).mpr ⟨rfl, rfl⟩, ?_⟩
  intro h
  exact absurd ((hsame 0 1 ⟨5, 0, 0, 1, 0, 3, 6, 0⟩ _ true).mp h).2 (by decide)

/-! ## Operations and types -/

/-- The tables of `operations.c` that `i_op` may point to. -/
inductive IOp
  | uvfsFileInodeOperations | uvfsDirInodeOperations | uvfsSymlinkInodeOperations | other
  deriving DecidableEq

/-- The tables that `i_fop` may point to. -/
inductive IFop
  | uvfsFileFileOperations | uvfsDirFileOperations | other
  deriving DecidableEq

/-- The tables that `a_ops` may point to. -/
inductive AOps
  | uvfsFileAops | other
  deriving DecidableEq

namespace InodeOperations

/-- `i_op`, as `uvfs_iget` assigns it. -/
def iOp : InodeOperations → IOp
  | .file => .uvfsFileInodeOperations
  | .dir => .uvfsDirInodeOperations
  | .symlink => .uvfsSymlinkInodeOperations
  | .special => .other

/-- `i_fop`, as `uvfs_iget` assigns it. -/
def iFop : InodeOperations → IFop
  | .file => .uvfsFileFileOperations
  | .dir => .uvfsDirFileOperations
  | .symlink | .special => .other

/-- `i_data.a_ops`, as `uvfs_iget` assigns it. -/
def aOps : InodeOperations → AOps
  | .file => .uvfsFileAops
  | .dir | .symlink | .special => .other

end InodeOperations

/-- `S_ISREG`. -/
def sIsreg (mode : BitVec 16) : Prop := mode &&& sIfmt = 0o100000

/-- `S_ISDIR`. -/
def sIsdir (mode : BitVec 16) : Prop := mode &&& sIfmt = 0o040000

/-- `S_ISLNK`. -/
def sIslnk (mode : BitVec 16) : Prop := mode &&& sIfmt = 0o120000

instance (mode : BitVec 16) : Decidable (sIsreg mode) := inferInstanceAs (Decidable (_ = _))
instance (mode : BitVec 16) : Decidable (sIsdir mode) := inferInstanceAs (Decidable (_ = _))
instance (mode : BitVec 16) : Decidable (sIslnk mode) := inferInstanceAs (Decidable (_ = _))

/-- The operations of an inode fit its mode. -/
structure Inode.Fits (i : Inode) : Prop where
  reg : sIsreg i.iMode → i.operations.iOp = .uvfsFileInodeOperations ∧
    i.operations.iFop = .uvfsFileFileOperations ∧ i.operations.aOps = .uvfsFileAops
  dir : sIsdir i.iMode → i.operations.iOp = .uvfsDirInodeOperations ∧
    i.operations.iFop = .uvfsDirFileOperations
  lnk : sIslnk i.iMode → i.operations.iOp = .uvfsSymlinkInodeOperations

theorem InodeOperations.iOp_injective : Function.Injective iOp := by
  intro o o' h
  cases o <;> cases o' <;> first | rfl | cases h

theorem inodeOperations_of_reg {mode : BitVec 16} (h : sIsreg mode) :
    inodeOperations mode = .file :=
  if_pos h

theorem inodeOperations_of_dir {mode : BitVec 16} (h : sIsdir mode) :
    inodeOperations mode = .dir := by
  unfold sIsdir at h
  simp [inodeOperations, h]

theorem inodeOperations_of_lnk {mode : BitVec 16} (h : sIslnk mode) :
    inodeOperations mode = .symlink := by
  unfold sIslnk at h
  simp [inodeOperations, h]

/-- The operations fit when they are those that `uvfs_iget` would choose now, or when it would
choose none. -/
theorem Inode.fits_iff {i : Inode} :
    i.Fits ↔ inodeOperations i.iMode = i.operations ∨ inodeOperations i.iMode = .special := by
  constructor
  · rintro ⟨hreg, hdir, hlnk⟩
    by_cases h₁ : sIsreg i.iMode
    · rw [inodeOperations_of_reg h₁]
      exact .inl (InodeOperations.iOp_injective (hreg h₁).1).symm
    by_cases h₂ : sIsdir i.iMode
    · rw [inodeOperations_of_dir h₂]
      exact .inl (InodeOperations.iOp_injective (hdir h₂).1).symm
    by_cases h₃ : sIslnk i.iMode
    · rw [inodeOperations_of_lnk h₃]
      exact .inl (InodeOperations.iOp_injective (hlnk h₃)).symm
    · exact .inr ((if_neg h₁).trans ((if_neg h₂).trans (if_neg h₃)))
  · intro h
    refine ⟨fun hreg => ?_, fun hdir => ?_, fun hlnk => ?_⟩
    · rw [inodeOperations_of_reg hreg] at h
      rw [← h.resolve_right (by decide)]
      exact ⟨rfl, rfl, rfl⟩
    · rw [inodeOperations_of_dir hdir] at h
      rw [← h.resolve_right (by decide)]
      exact ⟨rfl, rfl⟩
    · rw [inodeOperations_of_lnk hlnk] at h
      rw [← h.resolve_right (by decide)]
      rfl

/-- The call refreshes no cached inode with the mode of another type: the mode is one for which
`uvfs_iget` would choose the operations that the inode has, or none. -/
def KeepsType (hash : ℕ → ℕ → ℕ) (c : InodeCache) (a : IcacheAct) : Prop :=
  ∀ p ∈ a.refreshes hash c,
    inodeOperations (p.2.iMode.setWidth 16) = p.1.item.inode.operations ∨
      inodeOperations (p.2.iMode.setWidth 16) = .special

instance (hash : ℕ → ℕ → ℕ) (c : InodeCache) (a : IcacheAct) : Decidable (KeepsType hash c a) :=
  inferInstanceAs (Decidable (∀ p ∈ a.refreshes hash c, _))

/-- A handle that names a directory after its file was cached: the inode keeps the operations of a
file. -/
theorem refresh_keeps_file_operations :
    ∃ c, IcacheReach (fun _ h => h) .w64 c ∧ ∃ s ∈ c.slots, sIsdir s.item.inode.iMode ∧
      s.item.inode.operations.iOp = .uvfsFileInodeOperations ∧
      s.item.inode.operations.iFop = .uvfsFileFileOperations :=
  Reach.of_check _ _ _
    [.iget 0 1 ⟨0, 0, 0, 0, 0, 0, 7, 0⟩ (attrOfMode 0o100644) true,
      .iget 0 1 ⟨0, 0, 0, 0, 0, 0, 7, 0⟩ (attrOfMode 0o040755) true] _ (by decide)

/-- A step keeps the operations right exactly when no reply changes the type of a cached inode. -/
theorem icacheStep_fits_iff {a : IcacheAct} (hc : Canonical hash c)
    (hfits : ∀ s ∈ c.slots, s.item.inode.Fits) (h : icacheStep hash l c a = some c') :
    (∀ s ∈ c'.slots, s.item.inode.Fits) ↔ KeepsType hash c a := by
  constructor
  · intro hfits'
    rcases icacheStep_cases hc h with ⟨s, fsuid, attr, hs, href, rfl⟩ | ⟨href, -⟩
    · intro p hp
      rw [href] at hp
      cases hp
      have hmem : ⟨s.id, s.bucket, refreshed l fsuid attr s.item⟩ ∈
          (c.modify s.id (refreshed l fsuid attr)).slots :=
        Table.mem_modify.mpr ⟨s, hs, by simp⟩
      exact Inode.fits_iff.mp (hfits' _ hmem)
    · intro p hp
      rw [href] at hp
      cases hp
  · intro hkeep
    refine icacheStep_forall hc h hfits ?_ ?_
    · intro fsuid fh attr
      exact Inode.fits_iff.mpr (.inl rfl)
    · intro s attr fsuid _ href
      exact Inode.fits_iff.mpr (hkeep (s, attr) href)

/-- **The operations of an inode fit its type** in every state of a run whose replies change no
type; the first reply that does leaves an inode whose operations do not fit. -/
theorem fits_of_keepsType (h : Reach (icacheStep hash l) (KeepsType hash) .empty c) :
    (∀ s ∈ c.slots, s.item.inode.Fits) ∧
      ∀ a c', icacheStep hash l c a = some c' →
        ((∀ s ∈ c'.slots, s.item.inode.Fits) ↔ KeepsType hash c a) := by
  have hcanon : ∀ c, Reach (icacheStep hash l) (KeepsType hash) .empty c → Canonical hash c :=
    fun _ h => (reach_canonical .empty h).1
  have hfits : ∀ s ∈ c.slots, s.item.inode.Fits := by
    refine h.invariant_of (P := fun c => ∀ s ∈ c.slots, s.item.inode.Fits) hcanon ?_ ?_
    · simp [Table.empty]
    · intro c a c' hc hfits hkeep hs
      exact (icacheStep_fits_iff hc hfits hs).mpr hkeep
  exact ⟨hfits, fun a c' hs => icacheStep_fits_iff (hcanon c h) hfits hs⟩

/-- A file that is looked up twice. -/
theorem fits_of_keepsType_two : ∃ c, Reach (icacheStep (fun _ h => h) .w64) (KeepsType fun _ h => h)
    .empty c ∧ c.slots.length = 1 ∧ ∀ s ∈ c.slots, s.item.inode.Fits := by
  obtain ⟨c, hreach, hlength⟩ := Reach.of_check (icacheStep (fun _ h => h) .w64)
    (KeepsType fun _ h => h) .empty
    [.iget 0 1 ⟨0, 0, 0, 0, 0, 0, 7, 0⟩ (attrOfMode 0o100644) true,
      .iget 0 2 ⟨0, 0, 0, 0, 0, 0, 7, 0⟩ (attrOfMode 0o100600) true]
    (fun c => c.slots.length = 1) (by decide)
  exact ⟨c, hreach, hlength, (fits_of_keepsType hreach).1⟩

end Uvfs.Vfs
