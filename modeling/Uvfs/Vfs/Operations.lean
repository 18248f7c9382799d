import Uvfs.Vfs.Dentry
import Uvfs.Vfs.Request

/-!
# The operations

Each function of `dir.c`, `super.c` and `symlink.c` that talks to the server is a `Dialogue` with
the driver: it checks its arguments, gets a transaction, builds a request in it, waits, reads the
reply where the request was, and frees the transaction.  The answer to `uvfs_make_request` is the
memory of the transaction from the start of the union `u` on, so that what a function reads does
not depend on how much the server wrote.

* `WireCall`, `Wire` : the calls.
* `fhandleAt`, `attrAt`, `replyError` : reading a reply.
* `uvfsCreate`, `uvfsSymlink`, `uvfsMkdir`, `uvfsUnlink`, `uvfsRmdir`, `uvfsRename`,
  `uvfsLookupByName`, `uvfsReaddir`, `uvfsRevalidateInode`, `uvfsGetDentryWire`, `uvfsStatfs`,
  `uvfsReadSuper`, `uvfsReadlink`, `uvfsFollowLink`.
-/

namespace Uvfs.Vfs

/-! ## Calls and replies -/

/-- The calls into the driver. -/
inductive WireCall
  /-- `uvfs_new_transaction`. -/
  | newTransaction
  /-- `uvfs_make_request`, with the request that was built. -/
  | makeRequest (r : VfsRequest)
  /-- `kfree`. -/
  | kfree

/-- What a call returns: whether there is a transaction, its memory, nothing. -/
def WireCall.Answer : WireCall → Type
  | .newTransaction => Bool
  | .makeRequest _ => Mem
  | .kfree => Unit

/-- A function that talks to the server. -/
abbrev Wire := Dialogue WireCall WireCall.Answer

namespace Wire

/-- `uvfs_new_transaction`. -/
def newTransaction : Wire Bool := Dialogue.call WireCall.newTransaction

/-- `uvfs_make_request`. -/
def makeRequest (r : VfsRequest) : Wire Mem := Dialogue.call (WireCall.makeRequest r)

/-- `kfree(trans)`. -/
def kfree : Wire Unit := Dialogue.call WireCall.kfree

/-- What every function but `uvfs_readdir` does once: get a transaction, make a request, read the
reply and free the transaction; `noMemory` is the result when there is no transaction. -/
def request {α : Type} (r : VfsRequest) (noMemory : α) (read : Mem → α) : Wire α := do
  if ← newTransaction then
    let reply ← makeRequest r
    kfree
    return read reply
  else return noMemory

variable {σ : Type} (serve : σ → (q : WireCall) → q.Answer × σ) (s : σ)

@[simp] theorem run_newTransaction :
    newTransaction.run serve s = serve s .newTransaction := rfl

@[simp] theorem run_makeRequest (r : VfsRequest) :
    (makeRequest r).run serve s = serve s (.makeRequest r) := rfl

@[simp] theorem run_kfree : kfree.run serve s = serve s .kfree := rfl

variable {serve s} {s₁ : σ} {α : Type} {r : VfsRequest} {noMemory : α} {read : Mem → α}

/-- There is a transaction. -/
theorem run_request_true (h : serve s .newTransaction = (true, s₁)) :
    (request r noMemory read).run serve s =
      (read (serve s₁ (.makeRequest r)).1, (serve (serve s₁ (.makeRequest r)).2 .kfree).2) := by
  simp only [request, Dialogue.run_bind, run_newTransaction, h, if_true]
  rfl

/-- There is none. -/
theorem run_request_false (h : serve s .newTransaction = (false, s₁)) :
    (request r noMemory read).run serve s = (noMemory, s₁) := by
  simp only [request, Dialogue.run_bind, run_newTransaction, h, Bool.false_eq_true, if_false]
  rfl

end Wire

/-- The handle at an offset. -/
def fhandleAt (m : Mem) (off : ℕ) : Fhandle :=
  ⟨m.word off, m.word (off + 4), m.word (off + 8), m.word (off + 12), m.word (off + 16),
    m.word (off + 20), m.word (off + 24), m.word (off + 28)⟩

/-- The attributes at an offset. -/
def attrAt (m : Mem) (off : ℕ) : UvfsAttr :=
  ⟨m.word off, m.word (off + 4), m.word (off + 8), m.word (off + 12), m.word (off + 16),
    ⟨m.word (off + 20), m.word (off + 24)⟩, ⟨m.word (off + 28), m.word (off + 32)⟩,
    ⟨m.word (off + 36), m.word (off + 40)⟩, m.word (off + 44), m.word (off + 48),
    m.word (off + 52)⟩

/-- `reply->error`. -/
def replyError (m : Mem) : ℤ := (m.word offsetofError).toInt

/-- The offset of the member with the given number in a reply. -/
def replyOffset (k : RequestType) (i : ℕ) : ℕ := ((replyLayout k).take i).sum

/-- `-ENAMETOOLONG`. -/
def enametoolong : ℤ := -36

/-- `-EREMOTE`. -/
def eremote : ℤ := -66

/-- `-ENOTEMPTY`. -/
def enotempty : ℤ := -39

/-! ## Names -/

/-- A handle that no one reads. -/
def noHandle : Fhandle := ⟨0, 0, 0, 0, 0, 0, 0, 0⟩

/-- Attributes that no one reads. -/
def noAttr : UvfsAttr := ⟨0, 0, 0, 0, 0, ⟨0, 0⟩, ⟨0, 0⟩, ⟨0, 0⟩, 0, 0, 0⟩

/-- `uvfs_lookup_by_name`.  When it fails before the request it stores nothing, and its callers do
not read what it would have stored.
Source: `dir.c`, `uvfs_lookup_by_name`. -/
def uvfsLookupByName (dir : Inode) (name : List Byte) : Wire LookupOutcome :=
  if name.length > uvfsMaxNamelen then return ⟨enametoolong, noHandle, noAttr⟩
  else Wire.request (.lookup dir name) ⟨enomem, noHandle, noAttr⟩ fun reply =>
    ⟨replyError reply, fhandleAt reply (replyOffset .lookup 4),
      attrAt reply (replyOffset .lookup 5)⟩

section

variable (hash : ℕ → ℕ → ℕ) (l : LongWidth) (fsuid : Word) (cache : InodeCache)
  (dir : Slot ℕ CachedInode) (memory : Bool)

/-- `uvfs_lookup` with its request.
Source: `dir.c`, `uvfs_lookup`. -/
def uvfsLookupName (name : List Byte) : Wire (Option ℕ × InodeCache) := do
  let o ← uvfsLookupByName dir.item.inode name
  return uvfsLookup hash l cache dir.item.sb fsuid o memory

/-- What a function that makes a new entry leaves: its value, the inode of the entry and the
cache. -/
structure NewEntry where
  /-- The returned value. -/
  ret : ℤ
  /-- The inode that the dentry is instantiated with. -/
  inode : Option ℕ
  /-- The cache. -/
  cache : InodeCache

/-- What `uvfs_create`, `uvfs_symlink` and `uvfs_mkdir` make of the reply; `link` is what happens to
the directory after `d_instantiate`. -/
def newEntry (k : RequestType) (link : InodeCache → InodeCache) (reply : Mem) : NewEntry :=
  if replyError reply < 0 then ⟨replyError reply, none, cache⟩
  else
    match igetCached hash l cache dir.item.sb fsuid (fhandleAt reply (replyOffset k 4))
        (attrAt reply (replyOffset k 5)) memory with
    | (none, cache) => ⟨enomem, none, cache⟩
    | (some id, cache) => ⟨0, some id, link cache⟩

/-- `uvfs_create`.
Source: `dir.c`, `uvfs_create`. -/
def uvfsCreate (name : List Byte) (mode : Word) : Wire NewEntry :=
  if name.length > uvfsMaxNamelen then return ⟨enametoolong, none, cache⟩
  else
    Wire.request (.create dir.item.inode name mode) ⟨enomem, none, cache⟩
      (newEntry hash l fsuid cache dir memory .create id)

/-- `uvfs_symlink`.
Source: `dir.c`, `uvfs_symlink`. -/
def uvfsSymlink (name path : List Byte) : Wire NewEntry :=
  if name.length > uvfsMaxNamelen then return ⟨enametoolong, none, cache⟩
  else if path.length > uvfsMaxPathlen then return ⟨enametoolong, none, cache⟩
  else
    Wire.request (.symlink dir.item.inode name path) ⟨enomem, none, cache⟩
      (newEntry hash l fsuid cache dir memory .symlink id)

/-- `i_nlink` changed by a difference, in `unsigned int`. -/
def CachedInode.addNlink (k : ℤ) (x : CachedInode) : CachedInode :=
  { x with inode := { x.inode with iNlink := x.inode.iNlink + BitVec.ofInt 32 k } }

/-- A change of an `i_nlink`. -/
structure LinkChange where
  /-- The inode. -/
  inode : ℕ
  /-- What is added. -/
  diff : ℤ

/-- Changes of link counts, in their order. -/
def adjustLinks (cache : InodeCache) (changes : List LinkChange) : InodeCache :=
  changes.foldl (fun cache x => cache.modify x.inode (CachedInode.addNlink x.diff)) cache

/-- `dir->i_nlink++`.
Source: `dir.c`, `uvfs_mkdir`, line 361. -/
def mkdirChanges (dir : ℕ) : List LinkChange := [⟨dir, 1⟩]

/-- `uvfs_mkdir`: the new directory is a link to its parent.
Source: `dir.c`, `uvfs_mkdir`. -/
def uvfsMkdir (name : List Byte) (mode : Word) : Wire NewEntry :=
  if name.length > uvfsMaxNamelen then return ⟨enametoolong, none, cache⟩
  else
    Wire.request (.mkdir dir.item.inode name mode) ⟨enomem, none, cache⟩
      (newEntry hash l fsuid cache dir memory .mkdir fun cache =>
        adjustLinks cache (mkdirChanges dir.id))

/-- `entry->d_inode->i_nlink--`.
Source: `dir.c`, `uvfs_unlink`, line 221. -/
def unlinkChanges (inode : ℕ) : List LinkChange := [⟨inode, -1⟩]

/-- `uvfs_unlink`, for an entry with the given inode.
Source: `dir.c`, `uvfs_unlink`. -/
def uvfsUnlink (name : List Byte) (inode : ℕ) : Wire (ℤ × InodeCache) :=
  if name.length > uvfsMaxNamelen then return (enametoolong, cache)
  else Wire.request (.unlink dir.item.inode name) (enomem, cache) fun reply =>
    if replyError reply = 0 then (replyError reply, adjustLinks cache (unlinkChanges inode))
    else (replyError reply, cache)

/-- `entry->d_inode->i_nlink -= 2` and `dir->i_nlink--`.
Source: `dir.c`, `uvfs_rmdir`, lines 406–407. -/
def rmdirChanges (dir inode : ℕ) : List LinkChange := [⟨inode, -2⟩, ⟨dir, -1⟩]

/-- `uvfs_rmdir`.
Source: `dir.c`, `uvfs_rmdir`. -/
def uvfsRmdir (name : List Byte) (inode : ℕ) : Wire (ℤ × InodeCache) :=
  if name.length > uvfsMaxNamelen then return (enametoolong, cache)
  else Wire.request (.rmdir dir.item.inode name) (enomem, cache) fun reply =>
    if replyError reply = 0 then (replyError reply, adjustLinks cache (rmdirChanges dir.id inode))
    else if replyError reply = eremote then (enotempty, cache)
    else (replyError reply, cache)

/-- What `uvfs_rename` does to the link counts: first for an entry that was replaced, then for a
directory that moved.
Source: `dir.c`, `uvfs_rename`, lines 462–481. -/
def renameChanges (srcdir : ℕ) (src : Slot ℕ CachedInode) (dstdir : ℕ)
    (dst : Option (Slot ℕ CachedInode)) : List LinkChange :=
  (match dst with
    | none => []
    | some dnode =>
        if sIsdir dnode.item.inode.iMode then [⟨dnode.id, -2⟩, ⟨dstdir, -1⟩]
        else [⟨dnode.id, -1⟩]) ++
  if sIsdir src.item.inode.iMode then [⟨dstdir, 1⟩, ⟨srcdir, -1⟩] else []

/-- `uvfs_rename` of the entry of `src` in `dir`, over that of `dst` if there is one.
Source: `dir.c`, `uvfs_rename`. -/
def uvfsRename (srcname : List Byte) (src dstdir : Slot ℕ CachedInode) (dstname : List Byte)
    (dst : Option (Slot ℕ CachedInode)) : Wire (ℤ × InodeCache) :=
  if srcname.length > uvfsMaxNamelen ∨ dstname.length > uvfsMaxNamelen then
    return (enametoolong, cache)
  else
    Wire.request (.rename dir.item.inode srcname dstdir.item.inode dstname) (enomem, cache)
      fun reply =>
        if replyError reply = 0 then
          (replyError reply, adjustLinks cache (renameChanges dir.id src dstdir.id dst))
        else (replyError reply, cache)

end

/-! ## Directories -/

/-- What `uvfs_readdir` hands to `filldir`. -/
structure Dirent where
  /-- The bytes of the name; as many as `namlen` says. -/
  name : List Byte
  /-- `namlen`, an `int`. -/
  namlen : ℤ
  /-- The offset, a `loff_t`. -/
  offset : ℤ
  /-- The inode number, 64 bits. -/
  ino : BitVec 64
  deriving DecidableEq

/-- `filldir`: whether it refuses an entry after the ones it has taken. -/
abbrev Filldir := List Dirent → Dirent → Bool

/-- The memory around the start of the union: `before` is what lies in front of it, the nearest
byte first. -/
def around (before m : Mem) : ℤ → Byte
  | .ofNat i => m i
  | .negSucc i => before i

/-- The word at a position. -/
def wordAt (b : ℤ → Byte) (p : ℤ) : Word := Word.ofBytes fun k => b (p + k)

/-- The offset of the words of `uvfs_dirent_s`. -/
def offsetofLength : ℤ := 0

@[inherit_doc offsetofLength]
def offsetofIno : ℤ := 4

@[inherit_doc offsetofLength]
def offsetofIndex : ℤ := 8

/-- `sizeof(uvfs_dirent_s)`. -/
def sizeofDirent : ℤ := 12

/-- The arguments of `filldir` for the entry at `ent`. -/
def direntAt (b : ℤ → Byte) (ent fPos : ℤ) : Dirent where
  name := Mem.toList (fun i => b (ent + sizeofDirent + i))
    (wordAt b (ent + offsetofLength)).toInt.toNat
  namlen := (wordAt b (ent + offsetofLength)).toInt
  offset := fPos
  ino := (wordAt b (ent + offsetofIno)).signExtend 64

/-- `(ent + sizeof(*ent) + ent->length + 3) & ~3`; the union starts at a multiple of four. -/
def nextEnt (b : ℤ → Byte) (ent : ℤ) : ℤ :=
  (ent + sizeofDirent + (wordAt b (ent + offsetofLength)).toInt + 3) / 4 * 4

/-- `ent->index + 1`, in `int`. -/
def nextPos (b : ℤ → Byte) (ent : ℤ) : ℤ := (wordAt b (ent + offsetofIndex) + 1).toInt

/-- The `for` loop of `uvfs_readdir`: the entry that `filldir` refused if it went to `full`,
`f_pos` and what `filldir` has taken. -/
def walk (b : ℤ → Byte) (filldir : Filldir) :
    ℕ → ℤ → ℤ → List Dirent → Option Dirent × ℤ × List Dirent
  | 0, _, fPos, out => (none, fPos, out)
  | i + 1, ent, fPos, out =>
      if filldir out (direntAt b ent fPos) then (some (direntAt b ent fPos), fPos, out)
      else walk b filldir i (nextEnt b ent) (nextPos b ent) (out ++ [direntAt b ent fPos])

/-- What a call of `uvfs_readdir` leaves. -/
structure Listing where
  /-- The returned value, `none` when the fuel does not suffice. -/
  ret : Option ℤ
  /-- The server said that there are no more entries. -/
  ended : Bool
  /-- `f_pos`. -/
  fPos : ℤ
  /-- What `filldir` has taken. -/
  out : List Dirent
  /-- What `filldir` has refused. -/
  refused : Option Dirent
  deriving DecidableEq

/-- `reply->count`. -/
def replyCount (m : Mem) : ℤ := (m.word (replyOffset .readdir 4)).toInt

/-- `uvfs_readdir`, at most `fuel` rounds of its `while` loop.  When they do not suffice the function
has not returned, and `ret` is `none`.
Source: `dir.c`, `uvfs_readdir`. -/
def uvfsReaddir (dir : Inode) (before : Mem) (filldir : Filldir) :
    ℕ → ℤ → List Dirent → Wire Listing
  | 0, fPos, out => return ⟨none, false, fPos, out, none⟩
  | fuel + 1, fPos, out => do
      if ← Wire.newTransaction then
        let reply ← Wire.makeRequest (.readdir dir fPos)
        if replyError reply < 0 then
          Wire.kfree
          return ⟨some (replyError reply), false, fPos, out, none⟩
        else if replyCount reply = 0 then
          Wire.kfree
          return ⟨some 0, true, fPos, out, none⟩
        else
          match walk (around before reply) filldir (replyCount reply).toNat
              (replyOffset .readdir 5) fPos out with
          | (some x, fPos, out) =>
              Wire.kfree
              return ⟨some 0, false, fPos, out, some x⟩
          | (none, fPos, out) =>
              Wire.kfree
              uvfsReaddir dir before filldir fuel fPos out
      else return ⟨some enomem, false, fPos, out, none⟩

/-! ## Attributes and superblocks -/

/-- `uvfs_revalidate_inode` with its request.
Source: `super.c`, `uvfs_revalidate_inode`. -/
def uvfsRevalidateInode (l : LongWidth) (fsuid : Word) (inode : Inode) : Wire (ℤ × Inode) :=
  Wire.request (.getattr inode.fh) (enomem, inode) fun reply =>
    if replyError reply = 0 then
      (0, (uvfsRefreshInode l fsuid inode (attrAt reply (replyOffset .getattr 4))).1)
    else (replyError reply, inode)

/-- `uvfs_get_dentry` with its request: the inode it finds an alias for, or its error.  It searches
`cache` and makes a request when the inode is not there; `later` is the cache when the reply is.
Source: `super.c`, `uvfs_get_dentry`. -/
def uvfsGetDentryWire (hash : ℕ → ℕ → ℕ) (l : LongWidth) (fsuid : Word) (cache later : InodeCache)
    (sb : ℕ) (fh : Fhandle) (memory : Bool) : Wire (Except ℤ ℕ × InodeCache) :=
  match ilookup5 hash cache sb fh.hashval fun i => uvfsCompareInode i fh with
  | some s => return (.ok s.id, cache)
  | none =>
      Wire.request (.getattr fh) (.error enomem, later) fun reply =>
        if replyError reply = 0 then
          match igetCached hash l later sb fsuid fh (attrAt reply (replyOffset .getattr 4))
              memory with
          | (some id, cache) => (.ok id, cache)
          | (none, cache) => (.error eacces, cache)
        else (.error (if replyError reply = ecomm then estale else replyError reply), later)

/-- What a party answers to `UVFS_GETATTR`; nothing when there is no transaction. -/
def getattrAnswer {σ : Type} (serve : σ → (q : WireCall) → q.Answer × σ) (s : σ) (fh : Fhandle) :
    Option (ℤ × UvfsAttr) :=
  let transaction : Bool := (serve s .newTransaction).1
  if transaction then
    let reply : Mem := (serve (serve s .newTransaction).2 (.makeRequest (.getattr fh))).1
    some (replyError reply, attrAt reply (replyOffset .getattr 4))
  else none

/-- When nobody changes the cache in between, `uvfs_get_dentry` is what it is on the cache, with the
answer of the party. -/
theorem run_uvfsGetDentryWire {σ : Type} (serve : σ → (q : WireCall) → q.Answer × σ) (s : σ)
    (hash : ℕ → ℕ → ℕ) (l : LongWidth) (fsuid : Word) (cache : InodeCache) (sb : ℕ) (fh : Fhandle)
    (memory : Bool) :
    ((uvfsGetDentryWire hash l fsuid cache cache sb fh memory).run serve s).1 =
      uvfsGetDentry hash l cache sb fsuid fh (getattrAnswer serve s fh) memory := by
  unfold uvfsGetDentryWire uvfsGetDentry getattrAnswer
  cases ilookup5 hash cache sb fh.hashval fun i => uvfsCompareInode i fh with
  | some found => rfl
  | none =>
      rcases hnew : serve s .newTransaction with ⟨transaction, s₁⟩
      cases transaction with
      | true => rw [Wire.run_request_true hnew]; rfl
      | false => rw [Wire.run_request_false hnew]; rfl

/-- The fields of `struct kstatfs` that the module fills in. -/
structure Kstatfs where
  /-- `f_type`, a `long`. -/
  fType : ℤ
  /-- `f_bsize`, a `long`. -/
  fBsize : ℤ
  /-- `f_blocks`, 64 bits. -/
  fBlocks : BitVec 64
  /-- `f_bfree`. -/
  fBfree : BitVec 64
  /-- `f_bavail`. -/
  fBavail : BitVec 64
  /-- `f_files`. -/
  fFiles : BitVec 64
  /-- `f_ffree`. -/
  fFfree : BitVec 64
  /-- `f_namelen`, a `long`. -/
  fNamelen : ℤ
  deriving DecidableEq

/-- The fields of a statfs reply. -/
def kstatfsOf (reply : Mem) : Kstatfs where
  fType := (reply.word (replyOffset .statfs 4)).toInt
  fBsize := (reply.word (replyOffset .statfs 5)).toInt
  fBlocks := (reply.word (replyOffset .statfs 6)).signExtend 64
  fBfree := (reply.word (replyOffset .statfs 7)).signExtend 64
  fBavail := (reply.word (replyOffset .statfs 8)).signExtend 64
  fFiles := (reply.word (replyOffset .statfs 9)).signExtend 64
  fFfree := (reply.word (replyOffset .statfs 10)).signExtend 64
  fNamelen := (reply.word (replyOffset .statfs 11)).toInt

/-- `uvfs_statfs`: the returned value and what it stores.  The fields are stored whatever the
error.
Source: `super.c`, `uvfs_statfs`. -/
def uvfsStatfs (fh : Fhandle) : Wire (ℤ × Option Kstatfs) :=
  Wire.request (.statfs fh) (enomem, none) fun reply => (replyError reply, some (kstatfsOf reply))

/-- The superblock fields that `uvfs_read_super` takes from the reply. -/
structure SuperBlock where
  /-- `s_blocksize`, an `unsigned long`. -/
  sBlocksize : ℕ
  /-- `s_blocksize_bits`, an `unsigned char`. -/
  sBlocksizeBits : BitVec 8
  /-- `s_magic`, an `unsigned long`. -/
  sMagic : ℕ
  /-- The inode of `s_root`. -/
  sRoot : ℕ
  deriving DecidableEq

/-- `"store="`. -/
def storeOption : List Byte := [115, 116, 111, 114, 101, 61]

/-- `uvfs_parse_options`: what follows `store=`.
Source: `super.c`, `uvfs_parse_options`. -/
def uvfsParseOptions (options : List Byte) : Option (List Byte) :=
  if options.take 6 = storeOption then some (options.drop 6) else none

/-- What `uvfs_read_super` makes of the reply.
Source: `super.c`, `uvfs_read_super`, from `uvfs_make_request` on. -/
def readSuperReply (hash : ℕ → ℕ → ℕ) (l : LongWidth) (fsuid : Word) (cache : InodeCache) (sb : ℕ)
    (memory : Bool) (reply : Mem) : ℤ × Option SuperBlock × InodeCache :=
  if replyError reply < 0 then (replyError reply, none, cache)
  else
    match igetCached hash l cache sb fsuid (fhandleAt reply (replyOffset .readSuper 7))
        (attrAt reply (replyOffset .readSuper 8)) memory with
    | (none, cache) => (enomem, none, cache)
    | (some root, cache) =>
        (0, some
          { sBlocksize := (reply.word (replyOffset .readSuper 4)).toNat
            sBlocksizeBits := (reply.word (replyOffset .readSuper 5)).setWidth 8
            sMagic := (reply.word (replyOffset .readSuper 6)).toNat
            sRoot := root }, cache)

/-- `uvfs_read_super`: the returned value, the superblock and the inode cache; `data` are the mount
options, `none` for a null pointer.
Source: `super.c`, `uvfs_read_super`. -/
def uvfsReadSuper (hash : ℕ → ℕ → ℕ) (l : LongWidth) (fsuid : Word) (cache : InodeCache) (sb : ℕ)
    (memory : Bool) (data : Option (List Byte)) : Wire (ℤ × Option SuperBlock × InodeCache) :=
  match data.bind uvfsParseOptions with
  | none => return (einval, none, cache)
  | some arg =>
      if arg.length + 1 ≥ uvfsMaxPathlen then return (enametoolong, none, cache)
      else
        Wire.request (.readSuper arg) (enomem, none, cache)
          (readSuperReply hash l fsuid cache sb memory)

/-! ## Links -/

/-- `reply->buff[reply->len] = 0`; the byte may lie behind the union, or in front of it. -/
def terminate (m : Mem) : Mem :=
  let p : ℤ := (replyOffset .readlink 5 : ℕ) + (m.word (replyOffset .readlink 4)).toInt
  fun i => if (i : ℤ) = p then 0 else m i

/-- The string at an offset of the transaction.  `in_use` is clear when `uvfs_make_request` returns,
so it ends there at the latest. -/
def stringAt (m : Mem) (off : ℕ) : List Byte :=
  (Mem.toList (fun i => m (off + i)) (sizeofU + 4 - off)).takeWhile fun b => b ≠ 0

/-- `uvfs_readlink`: the returned value and the bytes that `vfs_readlink` copies to the caller.
Source: `symlink.c`, `uvfs_readlink`. -/
def uvfsReadlink (fh : Fhandle) (buflen : ℕ) : Wire (ℤ × List Byte) :=
  Wire.request (.readlink fh) (enomem, []) fun reply =>
    if replyError reply < 0 then (replyError reply, [])
    else
      let link := (stringAt (terminate reply) (replyOffset .readlink 5)).take buflen
      (link.length, link)

/-- `uvfs_follow_link`: the error, or the path that `vfs_follow_link` follows.
Source: `symlink.c`, `uvfs_follow_link`. -/
def uvfsFollowLink (fh : Fhandle) : Wire (Except ℤ (List Byte)) :=
  Wire.request (.readlink fh) (.error enomem) fun reply =>
    if replyError reply < 0 then .error (replyError reply)
    else .ok (stringAt (terminate reply) (replyOffset .readlink 5))

/-! ## One exchange -/

/-- A driver that has a transaction or not, and has the given memory in it after a request. -/
structure Exchange where
  /-- `uvfs_new_transaction` has a transaction. -/
  transaction : Bool
  /-- The transaction when `uvfs_make_request` returns. -/
  reply : VfsRequest → Mem

/-- The driver answers a call, and keeps the requests, the last one first. -/
def Exchange.serve (x : Exchange) :
    List VfsRequest → (q : WireCall) → q.Answer × List VfsRequest
  | rs, .newTransaction => (x.transaction, rs)
  | rs, .makeRequest r => (x.reply r, r :: rs)
  | rs, .kfree => ((), rs)

/-- A request in an exchange. -/
@[simp] theorem run_request {α : Type} (x : Exchange) (rs : List VfsRequest) (r : VfsRequest)
    (noMemory : α) (read : Mem → α) :
    (Wire.request r noMemory read).run x.serve rs =
      if x.transaction then (read (x.reply r), r :: rs) else (noMemory, rs) := by
  obtain ⟨transaction, reply⟩ := x
  cases transaction with
  | false => rfl
  | true => rfl

end Uvfs.Vfs
