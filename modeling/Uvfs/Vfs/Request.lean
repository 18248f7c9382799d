import Uvfs.Lib.Struct
import Uvfs.Vfs.Page

/-!
# The requests of the VFS operations

Each operation of `dir.c`, `file.c`, `symlink.c` and `super.c` builds its request in the union of a
transaction that `kmalloc` has just returned.  `protocol.h` gives each request a struct; the
operation assigns its members, and those that are arrays it fills as far as its data goes.  A
request is therefore a list of values, one for each member in declaration order, stored over
whatever the memory held.

* `Built` : a request as its values; `Built.store` puts them into the union.
* `createRequest`, `lookupRequest`, ... : what each operation builds.
* `VfsRequest` : an operation with its arguments, at the point where it makes its request;
  `VfsRequest.Accepted` are the checks it has made before, `VfsRequest.built` what it builds.
* `delivered u` : the bytes `uvfsd_read` copies to the server for a union `u`.
-/

namespace Uvfs.Vfs

/-! ## Handles and attributes as bytes -/

namespace Fhandle

/-- The handle as `protocol.h` lays it out. -/
def bytes (fh : Fhandle) : List Byte :=
  fh.noMntid.bytes ++ fh.noFlags.bytes ++ fh.naIpaddr.bytes ++ fh.naAruid.bytes ++
    fh.noSbxid.bytes ++ fh.fsSbxid.bytes ++ fh.fsSfuid.bytes ++ fh.noBlank2.bytes

/-- The handle at the start of a list of bytes. -/
def ofList (bs : List Byte) : Fhandle where
  noMntid := Word.ofList bs
  noFlags := Word.ofList (bs.drop 4)
  naIpaddr := Word.ofList (bs.drop 8)
  naAruid := Word.ofList (bs.drop 12)
  noSbxid := Word.ofList (bs.drop 16)
  fsSbxid := Word.ofList (bs.drop 20)
  fsSfuid := Word.ofList (bs.drop 24)
  noBlank2 := Word.ofList (bs.drop 28)

@[simp] theorem length_bytes (fh : Fhandle) : fh.bytes.length = sizeofFhandle := rfl

/-- A handle is found at the start of whatever begins with its bytes. -/
theorem ofList_of_prefix {fh : Fhandle} {bs : List Byte} (h : fh.bytes <+: bs) :
    ofList bs = fh := by
  obtain ⟨rest, rfl⟩ := h
  simp only [bytes, List.append_assoc, ofList, Word.ofList_bytes_append, Word.drop_bytes_append,
    List.drop_zero]

end Fhandle

/-- `uvfs_timespec_s` as bytes. -/
def UvfsTimespec.bytes (t : UvfsTimespec) : List Byte := t.tvSec.bytes ++ t.tvNsec.bytes

/-- The time at the start of a list of bytes. -/
def UvfsTimespec.ofList (bs : List Byte) : UvfsTimespec :=
  ⟨Word.ofList bs, Word.ofList (bs.drop 4)⟩

@[simp] theorem UvfsTimespec.length_bytes (t : UvfsTimespec) : t.bytes.length = sizeofTimespec :=
  rfl

theorem UvfsTimespec.ofList_of_prefix {t : UvfsTimespec} {bs : List Byte} (h : t.bytes <+: bs) :
    UvfsTimespec.ofList bs = t := by
  obtain ⟨rest, rfl⟩ := h
  simp only [bytes, List.append_assoc, ofList, Word.ofList_bytes_append, Word.drop_bytes_append,
    List.drop_zero]

/-! ## Building a request -/

/-- A request: its type and a value for each member of its struct. -/
structure Built where
  /-- The operation. -/
  type : RequestType
  /-- The values, in the order of the members. -/
  values : List (List Byte)

/-- The union of a transaction after the request has been built in it. -/
def Built.store (b : Built) (u : Mem) : Mem := Struct.store 0 (requestLayout b.type) b.values u

/-- `offsetof` the last member, the one whose length varies. -/
def offsetofLast (k : RequestType) : ℕ := (requestLayout k).dropLast.sum

/-- `request->type`, `request->serial` and `request->size`. -/
def header (k : RequestType) (serial size : Word) : List (List Byte) :=
  [Word.bytes (BitVec.ofNat 32 k.code), serial.bytes, size.bytes]

/-- `request->size = sizeof(*request)`. -/
def sizeofRequest (k : RequestType) : Word := BitVec.ofNat 32 (requestLayout k).sum

/-- `S_ISGID`. -/
def sIsgid : BitVec 16 := 0o002000

/-- `S_IFDIR`. -/
def sIfdir : BitVec 16 := 0o040000

/-- `(dir->i_mode & S_ISGID) ? dir->i_gid : current_fsgid()`. -/
def newGid (c : Cred) (dir : Inode) : Word :=
  if dir.iMode &&& sIsgid ≠ 0 then dir.iGid else c.fsgid

/-- The length of a name as the request carries it. -/
def namelen (name : List Byte) : Word := BitVec.ofNat 32 name.length

/-- The request of `uvfs_create`.
Source: `dir.c`, `uvfs_create`. -/
def createRequest (c : Cred) (dir : Inode) (name : List Byte) (mode serial : Word) : Built where
  type := .create
  values := header .create serial (BitVec.ofNat 32 (offsetofLast .create + name.length)) ++
    [c.fsuid.bytes, (newGid c dir).bytes, dir.fh.bytes, mode.bytes, (namelen name).bytes, name]

/-- The request of a family of operations on a name in a directory. -/
def nameRequest (k : RequestType) (c : Cred) (dir : Inode) (name : List Byte) (serial : Word) :
    Built where
  type := k
  values := header k serial (BitVec.ofNat 32 (offsetofLast k + name.length)) ++
    [c.fsuid.bytes, c.fsgid.bytes, dir.fh.bytes, (namelen name).bytes, name]

/-- The request of `uvfs_lookup_by_name`.
Source: `dir.c`, `uvfs_lookup_by_name`. -/
def lookupRequest : Cred → Inode → List Byte → Word → Built := nameRequest .lookup

/-- The request of `uvfs_unlink`.
Source: `dir.c`, `uvfs_unlink`. -/
def unlinkRequest : Cred → Inode → List Byte → Word → Built := nameRequest .unlink

/-- The request of `uvfs_rmdir`.
Source: `dir.c`, `uvfs_rmdir`. -/
def rmdirRequest : Cred → Inode → List Byte → Word → Built := nameRequest .rmdir

/-- The request of `uvfs_symlink`: both arrays are filled as far as the name and the path go, and
the size is that of the struct.
Source: `dir.c`, `uvfs_symlink`. -/
def symlinkRequest (c : Cred) (dir : Inode) (name path : List Byte) (serial : Word) : Built where
  type := .symlink
  values := header .symlink serial (sizeofRequest .symlink) ++
    [c.fsuid.bytes, (newGid c dir).bytes, dir.fh.bytes, name, (namelen name).bytes, path,
      (namelen path).bytes]

/-- `mode | S_IFDIR`, and `S_ISGID` when the directory has it. -/
def mkdirMode (dir : Inode) (mode : Word) : Word :=
  if dir.iMode &&& sIsgid ≠ 0 then mode ||| sIfdir.setWidth 32 ||| sIsgid.setWidth 32
  else mode ||| sIfdir.setWidth 32

/-- The request of `uvfs_mkdir`.
Source: `dir.c`, `uvfs_mkdir`. -/
def mkdirRequest (c : Cred) (dir : Inode) (name : List Byte) (mode serial : Word) : Built where
  type := .mkdir
  values := header .mkdir serial (BitVec.ofNat 32 (offsetofLast .mkdir + name.length)) ++
    [c.fsuid.bytes, (newGid c dir).bytes, (mkdirMode dir mode).bytes, dir.fh.bytes,
      (namelen name).bytes, name]

/-- The request of `uvfs_rename`, with the size of the struct.
Source: `dir.c`, `uvfs_rename`. -/
def renameRequest (c : Cred) (srcdir : Inode) (srcname : List Byte) (dstdir : Inode)
    (dstname : List Byte) (serial : Word) : Built where
  type := .rename
  values := header .rename serial (sizeofRequest .rename) ++
    [c.fsuid.bytes, c.fsgid.bytes, srcdir.fh.bytes, srcname, (namelen srcname).bytes,
      dstdir.fh.bytes, dstname, (namelen dstname).bytes]

/-- The request of one round of `uvfs_readdir`; `f_pos` is a `loff_t`.
Source: `dir.c`, `uvfs_readdir`. -/
def readdirRequest (c : Cred) (dir : Inode) (fPos : ℤ) (serial : Word) : Built where
  type := .readdir
  values := header .readdir serial (sizeofRequest .readdir) ++
    [c.fsuid.bytes, c.fsgid.bytes, dir.fh.bytes, Word.bytes (BitVec.ofInt 32 fPos)]

/-- The kernel's `struct iattr`, as far as `uvfs_setattr` reads it. -/
structure Iattr where
  /-- `ia_valid`. -/
  iaValid : Word
  /-- `ia_mode`, a `umode_t`. -/
  iaMode : BitVec 16
  /-- `ia_uid`. -/
  iaUid : Word
  /-- `ia_gid`. -/
  iaGid : Word
  /-- `ia_size`, a `loff_t`. -/
  iaSize : ℤ
  /-- `ia_atime`. -/
  iaAtime : Timespec
  /-- `ia_mtime`. -/
  iaMtime : Timespec
  /-- `ia_ctime`. -/
  iaCtime : Timespec
  deriving DecidableEq

/-- A time of the kernel as the request carries it. -/
def Timespec.toUvfs (t : Timespec) : UvfsTimespec :=
  ⟨BitVec.ofInt 32 t.tvSec, BitVec.ofInt 32 t.tvNsec⟩

/-- The request of `uvfs_setattr`.
Source: `file.c`, `uvfs_setattr`. -/
def setattrRequest (c : Cred) (inode : Inode) (attr : Iattr) (serial : Word) : Built where
  type := .setattr
  values := header .setattr serial (sizeofRequest .setattr) ++
    [c.fsuid.bytes, c.fsgid.bytes, inode.fh.bytes, attr.iaValid.bytes, attr.iaUid.bytes,
      attr.iaGid.bytes, Word.bytes (BitVec.ofInt 32 attr.iaSize), attr.iaAtime.toUvfs.bytes,
      attr.iaMtime.toUvfs.bytes, attr.iaCtime.toUvfs.bytes,
      Word.bytes (attr.iaMode.setWidth 32)]

/-- The request of a family of operations on a handle alone. -/
def handleRequest (k : RequestType) (c : Cred) (fh : Fhandle) (serial : Word) : Built where
  type := k
  values := header k serial (sizeofRequest k) ++ [c.fsuid.bytes, c.fsgid.bytes, fh.bytes]

/-- The request of `uvfs_revalidate_inode`, `uvfs_permission` and `uvfs_get_dentry`.
Source: `super.c`, `uvfs_revalidate_inode`. -/
def getattrRequest : Cred → Fhandle → Word → Built := handleRequest .getattr

/-- The request of `uvfs_readlink` and `uvfs_follow_link`.
Source: `symlink.c`, `uvfs_readlink`. -/
def readlinkRequest : Cred → Fhandle → Word → Built := handleRequest .readlink

/-- The request of `uvfs_statfs`, which names no user.
Source: `super.c`, `uvfs_statfs`. -/
def statfsRequest (fh : Fhandle) (serial : Word) : Built where
  type := .statfs
  values := header .statfs serial (sizeofRequest .statfs) ++ [fh.bytes]

/-- The request of `uvfs_read_super`: the argument goes with its terminating NUL.
Source: `super.c`, `uvfs_read_super`. -/
def readSuperRequest (c : Cred) (arg : List Byte) (serial : Word) : Built where
  type := .readSuper
  values := header .readSuper serial (BitVec.ofNat 32 (offsetofLast .readSuper + (arg.length + 1)))
    ++ [c.fsuid.bytes, c.fsgid.bytes, Word.bytes (BitVec.ofNat 32 (arg.length + 1)), arg ++ [0]]

/-- The request of `uvfs_write`, byte for byte.
Source: `file.c`, `uvfs_write`. -/
def WriteRequest.built (r : WriteRequest) (serial : Word) : Built where
  type := .write
  values := header .write serial r.size ++
    [r.cred.fsuid.bytes, r.cred.fsgid.bytes, r.fh.bytes, r.count.bytes, r.offset.bytes,
      r.buff.toList r.count.toNat]

/-- The request of `uvfs_readpage`, byte for byte.
Source: `file.c`, `uvfs_readpage`. -/
def ReadRequest.built (r : ReadRequest) (serial : Word) : Built where
  type := .read
  values := header .read serial r.size ++
    [r.cred.fsuid.bytes, r.cred.fsgid.bytes, r.fh.bytes, r.count.bytes, r.offset.bytes]

/-! ## All of them -/

/-- An operation with its arguments, where it makes its request. -/
inductive VfsRequest
  | create (dir : Inode) (name : List Byte) (mode : Word)
  | lookup (dir : Inode) (name : List Byte)
  | unlink (dir : Inode) (name : List Byte)
  | symlink (dir : Inode) (name path : List Byte)
  | mkdir (dir : Inode) (name : List Byte) (mode : Word)
  | rmdir (dir : Inode) (name : List Byte)
  | rename (srcdir : Inode) (srcname : List Byte) (dstdir : Inode) (dstname : List Byte)
  | readdir (dir : Inode) (fPos : ℤ)
  | setattr (inode : Inode) (attr : Iattr)
  | getattr (fh : Fhandle)
  | statfs (fh : Fhandle)
  | readSuper (arg : List Byte)
  | readlink (fh : Fhandle)
  | readpage (inode : Inode) (pg : Page)
  | write (inode : Inode) (buff : Mem) (offset count : Word)

namespace VfsRequest

/-- The checks of lengths that the operation has made; `uvfs_write` makes none, its callers stay
inside a page. -/
def Accepted : VfsRequest → Prop
  | .create _ name _ | .lookup _ name | .unlink _ name | .mkdir _ name _ | .rmdir _ name =>
      name.length ≤ uvfsMaxNamelen
  | .symlink _ name path => name.length ≤ uvfsMaxNamelen ∧ path.length ≤ uvfsMaxPathlen
  | .rename _ srcname _ dstname =>
      srcname.length ≤ uvfsMaxNamelen ∧ dstname.length ≤ uvfsMaxNamelen
  | .readSuper arg => arg.length + 1 < uvfsMaxPathlen
  | .write _ _ _ count => count.toNat ≤ pageCacheSize
  | .readdir _ _ | .setattr _ _ | .getattr _ | .statfs _ | .readlink _ | .readpage _ _ => True

/-- What the operation builds. -/
def built (l : LongWidth) (c : Cred) (serial : Word) : VfsRequest → Built
  | .create dir name mode => createRequest c dir name mode serial
  | .lookup dir name => lookupRequest c dir name serial
  | .unlink dir name => unlinkRequest c dir name serial
  | .symlink dir name path => symlinkRequest c dir name path serial
  | .mkdir dir name mode => mkdirRequest c dir name mode serial
  | .rmdir dir name => rmdirRequest c dir name serial
  | .rename srcdir srcname dstdir dstname =>
      renameRequest c srcdir srcname dstdir dstname serial
  | .readdir dir fPos => readdirRequest c dir fPos serial
  | .setattr inode attr => setattrRequest c inode attr serial
  | .getattr fh => getattrRequest c fh serial
  | .statfs fh => statfsRequest fh serial
  | .readSuper arg => readSuperRequest c arg serial
  | .readlink fh => readlinkRequest c fh serial
  | .readpage inode pg => (readRequest l c inode pg).built serial
  | .write inode buff offset count => (writeRequest c inode buff offset count).built serial

end VfsRequest

/-- What `uvfsd_read` copies to the server: the first `request->size` bytes of the union. -/
def delivered (u : Mem) : List Byte := u.toList (u.word offsetofSize).toInt.toNat

/-- The shutdown message, which `uvfsd_read` builds on its stack; `serial` is never assigned.
Source: `driver.c`, `uvfsd_read`, lines 159–164. -/
def shutdownRequest : Built where
  type := .shutdown
  values := [Word.bytes (BitVec.ofNat 32 (RequestType.code .shutdown)), [],
    (sizeofRequest .shutdown).bytes]

end Uvfs.Vfs
