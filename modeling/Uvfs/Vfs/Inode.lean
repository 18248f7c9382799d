import Uvfs.Lib.Width
import Uvfs.Protocol

/-!
# Inodes and their attributes

`super.c` copies the attributes a reply carries into the inode: into a new one in `uvfs_iget`, into
a cached one in `uvfs_refresh_inode`.  The reply has 32-bit unsigned fields; the inode has the
kernel's own types, of which `long` and `unsigned long` have 32 or 64 bits.

* `LongWidth` : the width of `long`, with the conversions the code makes.
* `UvfsAttr` : `uvfs_attr_s`; `Fhandle` : `uvfs_fhandle_s`; `Inode` : the inode.
* `uvfsRefreshInode`, `uvfsIget`.
-/

namespace Uvfs.Vfs

/-! ## Widths -/

/-- How wide `long` is. -/
inductive LongWidth
  | w32 | w64
  deriving DecidableEq, Repr

namespace LongWidth

/-- The number of bits of a `long`. -/
def bits : LongWidth → ℕ
  | .w32 => 32
  | .w64 => 64

/-- An `unsigned` as a `long`. -/
def ofUnsigned (l : LongWidth) (w : Word) : ℤ := (w.setWidth l.bits).toInt

/-- An `int` as an `unsigned long` (or `size_t`). -/
def ofInt (l : LongWidth) (w : Word) : ℕ := (w.signExtend l.bits).toNat

/-- A sum of `unsigned long`s. -/
def wrap (l : LongWidth) (n : ℕ) : ℕ := n % 2 ^ l.bits

/-- An `unsigned long` as a `loff_t`. -/
def toLoff (l : LongWidth) (n : ℕ) : ℤ := ((BitVec.ofNat l.bits n).setWidth 64).toInt

theorem wrap_of_lt {l : LongWidth} {n : ℕ} (h : n < 2 ^ 32) : l.wrap n = n := by
  cases l with
  | w32 => exact Nat.mod_eq_of_lt h
  | w64 => exact Nat.mod_eq_of_lt (lt_trans h (by norm_num [bits]))

theorem toLoff_of_lt {l : LongWidth} {n : ℕ} (h : n < 2 ^ 32) : l.toLoff n = n := by
  have hbits : n % 2 ^ l.bits = n := wrap_of_lt h
  simp only [toLoff, BitVec.toInt_eq_toNat_bmod, BitVec.toNat_setWidth, BitVec.toNat_ofNat, hbits]
  rw [Nat.mod_eq_of_lt (by omega), Int.bmod_eq_of_le (by omega) (by omega)]

theorem ofInt_of_lt {l : LongWidth} {n : ℕ} (h : n < 2 ^ 31) : l.ofInt (BitVec.ofNat 32 n) = n := by
  have hn : (BitVec.ofNat 32 n).toNat = n := Width.toNat_ofNat_of_lt (by omega)
  have hmsb : (BitVec.ofNat 32 n).msb = false := by
    rw [BitVec.msb_eq_false_iff_two_mul_lt, hn]
    omega
  rw [ofInt, BitVec.signExtend_eq_setWidth_of_msb_false hmsb, BitVec.toNat_setWidth, hn]
  exact wrap_of_lt (by omega)

end LongWidth

/-! ## Data -/

/-- `uvfs_timespec_s`. -/
structure UvfsTimespec where
  /-- `tv_sec`. -/
  tvSec : Word
  /-- `tv_nsec`. -/
  tvNsec : Word
  deriving DecidableEq

/-- `uvfs_attr_s`.
Source: `protocol.h`, `struct _uvfs_attr_s`. -/
structure UvfsAttr where
  /-- `i_mode`. -/
  iMode : Word
  /-- `i_nlink`. -/
  iNlink : Word
  /-- `i_uid`. -/
  iUid : Word
  /-- `i_gid`. -/
  iGid : Word
  /-- `i_size`. -/
  iSize : Word
  /-- `i_atime`. -/
  iAtime : UvfsTimespec
  /-- `i_mtime`. -/
  iMtime : UvfsTimespec
  /-- `i_ctime`. -/
  iCtime : UvfsTimespec
  /-- `i_blksize`. -/
  iBlksize : Word
  /-- `i_blocks`. -/
  iBlocks : Word
  /-- `devno`. -/
  devno : Word
  deriving DecidableEq

/-- `uvfs_fhandle_s`, with the inner structs spread out.
Source: `protocol.h`, `struct _uvfs_fhandle_s`. -/
structure Fhandle where
  /-- `no_mntid`. -/
  noMntid : Word
  /-- `no_flags`, four bytes. -/
  noFlags : Word
  /-- `no_narid.na_ipaddr`. -/
  naIpaddr : Word
  /-- `no_narid.na_aruid`. -/
  naAruid : Word
  /-- `no_sbxid`. -/
  noSbxid : Word
  /-- `no_fspid.fs_sbxid`. -/
  fsSbxid : Word
  /-- `no_fspid.fs_sfuid`. -/
  fsSfuid : Word
  /-- `no_blank2`. -/
  noBlank2 : Word
  deriving DecidableEq

/-- The kernel's `struct timespec`. -/
structure Timespec where
  /-- `tv_sec`, a `long`. -/
  tvSec : ℤ
  /-- `tv_nsec`, a `long`. -/
  tvNsec : ℤ
  deriving DecidableEq

/-- Which operations `uvfs_iget` gives an inode. -/
inductive InodeOperations
  | file | dir | symlink | special
  deriving DecidableEq, Repr

/-- The inode with its `uvfs_inode_info`, as far as the module reads or writes it. -/
structure Inode where
  /-- `UVFS_I(inode)->fh`. -/
  fh : Fhandle
  /-- `UVFS_I(inode)->attr_uid`: for whom the attributes were fetched last. -/
  attrUid : Word
  /-- `i_ino`, an `unsigned long`. -/
  iIno : ℕ
  /-- `i_mode`, a `umode_t`. -/
  iMode : BitVec 16
  /-- `i_nlink`. -/
  iNlink : Word
  /-- `i_uid`. -/
  iUid : Word
  /-- `i_gid`. -/
  iGid : Word
  /-- `i_size`, a `loff_t`. -/
  iSize : ℤ
  /-- `i_atime`. -/
  iAtime : Timespec
  /-- `i_mtime`. -/
  iMtime : Timespec
  /-- `i_ctime`. -/
  iCtime : Timespec
  /-- `i_blocks`. -/
  iBlocks : ℕ
  /-- `i_rdev`. -/
  iRdev : Word
  /-- `i_op`, `i_fop` and the address space operations. -/
  operations : InodeOperations
  deriving DecidableEq

/-! ## Attributes of a reply -/

/-- A time of a reply as the inode keeps it. -/
def timespec (l : LongWidth) (t : UvfsTimespec) : Timespec :=
  ⟨l.ofUnsigned t.tvSec, l.ofUnsigned t.tvNsec⟩

/-- The assignments of `uvfs_refresh_inode`.
Source: `super.c`, `uvfs_refresh_inode`, lines 227–244. -/
def setAttributes (l : LongWidth) (fsuid : Word) (i : Inode) (a : UvfsAttr) : Inode :=
  { i with
    iMode := a.iMode.setWidth 16
    iNlink := a.iNlink
    iUid := a.iUid
    iGid := a.iGid
    iSize := a.iSize.toNat
    iAtime := timespec l a.iAtime
    iMtime := timespec l a.iMtime
    iCtime := timespec l a.iCtime
    iBlocks := a.iBlocks.toNat
    iRdev := a.devno
    attrUid := fsuid }

/-- `uvfs_refresh_inode`: the inode after it, and whether the cached pages were invalidated.
Source: `super.c`, `uvfs_refresh_inode`. -/
def uvfsRefreshInode (l : LongWidth) (fsuid : Word) (i : Inode) (a : UvfsAttr) : Inode × Bool :=
  (setAttributes l fsuid i a,
    i.iSize ≠ a.iSize.toNat ∨ i.iMtime ≠ timespec l a.iMtime)

/-- `S_IFMT`. -/
def sIfmt : BitVec 16 := 0o170000

/-- The operations for a mode: `S_ISREG`, `S_ISDIR`, `S_ISLNK`, or none of them. -/
def inodeOperations (mode : BitVec 16) : InodeOperations :=
  if mode &&& sIfmt = 0o100000 then .file
  else if mode &&& sIfmt = 0o040000 then .dir
  else if mode &&& sIfmt = 0o120000 then .symlink
  else .special

/-- An inode that `iget5_locked` has just allocated for a handle. -/
def newInode (fh : Fhandle) : Inode :=
  ⟨fh, 0, 0, 0, 0, 0, 0, 0, ⟨0, 0⟩, ⟨0, 0⟩, ⟨0, 0⟩, 0, 0, .special⟩

/-- `uvfs_iget`: a new inode gets its number, its attributes and its operations; a cached one is
refreshed.
Source: `super.c`, `uvfs_iget`. -/
def uvfsIget (l : LongWidth) (fsuid : Word) (fh : Fhandle) (a : UvfsAttr) : Option Inode → Inode
  | none =>
      { newInode fh with
        iIno := fh.fsSfuid.toNat
        iMode := a.iMode.setWidth 16
        iNlink := a.iNlink
        iUid := a.iUid
        iGid := a.iGid
        iSize := a.iSize.toNat
        iAtime := timespec l a.iAtime
        iMtime := timespec l a.iMtime
        iCtime := timespec l a.iCtime
        iBlocks := a.iBlocks.toNat
        iRdev := a.devno
        attrUid := fsuid
        operations := inodeOperations (a.iMode.setWidth 16) }
  | some i => (uvfsRefreshInode l fsuid i a).1

@[simp] theorem uvfsRefreshInode_iSize (l : LongWidth) (fsuid : Word) (i : Inode) (a : UvfsAttr) :
    (uvfsRefreshInode l fsuid i a).1.iSize = a.iSize.toNat := rfl

@[simp] theorem uvfsIget_iSize (l : LongWidth) (fsuid : Word) (fh : Fhandle) (a : UvfsAttr)
    (cached : Option Inode) : (uvfsIget l fsuid fh a cached).iSize = a.iSize.toNat := by
  cases cached with
  | none => rfl
  | some i => rfl

end Uvfs.Vfs
