import Mathlib.Tactic
import Uvfs.Lib.Bytes

/-!
# The kernel–server protocol: message types, layouts and error numbers

`protocol.h` declares one request and one reply struct for each operation and puts them in the two
unions `uvfs_request_u` and `uvfs_reply_u`.  Every member is an `int`, an `unsigned`, one of the
small structs of these, or a `char` array whose length is a multiple of four, so there is no padding
and a struct's size is the sum of its members' sizes.

* `RequestType` : the operations `UVFS_WRITE` .. `UVFS_SHUTDOWN`, with their numbers.
* `requestLayout` / `replyLayout` : the member sizes of the two structs of each operation.
* `sizeofUvfsRequestU`, `sizeofUvfsReplyU`, `sizeofU` : the sizes of the unions; `sizeofU_eq` has
  the value.
* `opNames` : the table the status ioctl indexes with a request's type.

`PAGE_CACHE_SIZE` is 4096, the value `protocol.h` gives the server.
-/

namespace Uvfs

/-! ## Constants of `protocol.h` -/

/-- `PAGE_CACHE_SIZE`. -/
def pageCacheSize : ℕ := 4096

/-- `UVFS_MAX_NAMELEN`. -/
def uvfsMaxNamelen : ℕ := 256

/-- `UVFS_MAX_PATHLEN`. -/
def uvfsMaxPathlen : ℕ := 1024

/-- `UVFS_BUFFSIZE`. -/
def uvfsBuffsize : ℕ := 2048

/-- `UVFS_IOCTL_SHUTDOWN`. -/
def uvfsIoctlShutdown : ℕ := 42

/-- `UVFS_IOCTL_STATUS`. -/
def uvfsIoctlStatus : ℕ := 43

/-- `UVFS_IOCTL_MOUNT`. -/
def uvfsIoctlMount : ℕ := 45

/-! ## Error numbers

The values the kernel code returns or stores, already negated. -/

/-- `-EIO`. -/
def eio : ℤ := -5

/-- `-EFAULT`. -/
def efault : ℤ := -14

/-- `-EINVAL`. -/
def einval : ℤ := -22

/-- `-ERESTARTSYS`. -/
def erestartsys : ℤ := -512

/-! ## Message types -/

/-- The operations of the protocol. -/
inductive RequestType
  | write | read | create | lookup | unlink | symlink | mkdir | rmdir | rename | readdir
  | setattr | getattr | statfs | readSuper | readlink | shutdown
  deriving DecidableEq, Repr

/-- The value of `UVFS_WRITE`, `UVFS_READ`, ... -/
def RequestType.code : RequestType → ℕ
  | .write => 1
  | .read => 2
  | .create => 3
  | .lookup => 4
  | .unlink => 5
  | .symlink => 6
  | .mkdir => 7
  | .rmdir => 8
  | .rename => 9
  | .readdir => 10
  | .setattr => 11
  | .getattr => 12
  | .statfs => 13
  | .readSuper => 14
  | .readlink => 15
  | .shutdown => 16

/-- `Op_names`, indexed by the request type in the status ioctl. -/
def opNames : List String :=
  ["NULL", "write", "read", "create", "lookup", "unlink", "symlink", "mkdir", "rmdir", "rename",
    "readdir", "setattr", "getattr", "statfs", "read_super", "readlink", "shutdown", "LAST + 1"]

/-! ## Layouts -/

/-- `sizeof(uvfs_fhandle_s)`: mount id, flags, archive id (2 words), sandbox id, file id (2 words)
and a reserved word. -/
def sizeofFhandle : ℕ := 4 + 4 + 8 + 4 + 8 + 4

/-- `sizeof(uvfs_timespec_s)`. -/
def sizeofTimespec : ℕ := 4 + 4

/-- `sizeof(uvfs_attr_s)`: mode, link count, owner, group, size, three times, block size, blocks and
device number. -/
def sizeofAttr : ℕ := 4 + 4 + 4 + 4 + 4 + 3 * sizeofTimespec + 4 + 4 + 4

/-- `uvfs_generic_req_s`: `type`, `serial`, `size`. -/
def genericReqLayout : List ℕ := [4, 4, 4]

/-- `uvfs_generic_rep_s`: `type`, `serial`, `size`, `error`. -/
def genericRepLayout : List ℕ := [4, 4, 4, 4]

/-- Offset of `type` in every request and reply. -/
def offsetofType : ℕ := 0

/-- Offset of `serial` in every request and reply. -/
def offsetofSerial : ℕ := 4

/-- Offset of `size` in every request and reply. -/
def offsetofSize : ℕ := 8

/-- Offset of `error` in every reply. -/
def offsetofError : ℕ := 12

/-- The member sizes of the request struct of an operation, in declaration order. -/
def requestLayout : RequestType → List ℕ
  | .write => genericReqLayout ++ [4, 4, sizeofFhandle, 4, 4, pageCacheSize]
  | .read => genericReqLayout ++ [4, 4, sizeofFhandle, 4, 4]
  | .create => genericReqLayout ++ [4, 4, sizeofFhandle, 4, 4, uvfsMaxNamelen]
  | .lookup => genericReqLayout ++ [4, 4, sizeofFhandle, 4, uvfsMaxNamelen]
  | .unlink => genericReqLayout ++ [4, 4, sizeofFhandle, 4, uvfsMaxNamelen]
  | .symlink => genericReqLayout ++ [4, 4, sizeofFhandle, uvfsMaxNamelen, 4, uvfsMaxPathlen, 4]
  | .mkdir => genericReqLayout ++ [4, 4, 4, sizeofFhandle, 4, uvfsMaxNamelen]
  | .rmdir => genericReqLayout ++ [4, 4, sizeofFhandle, 4, uvfsMaxNamelen]
  | .rename => genericReqLayout ++
      [4, 4, sizeofFhandle, uvfsMaxNamelen, 4, sizeofFhandle, uvfsMaxNamelen, 4]
  | .readdir => genericReqLayout ++ [4, 4, sizeofFhandle, 4]
  | .setattr => genericReqLayout ++
      [4, 4, sizeofFhandle, 4, 4, 4, 4, sizeofTimespec, sizeofTimespec, sizeofTimespec, 4]
  | .getattr => genericReqLayout ++ [4, 4, sizeofFhandle]
  | .statfs => genericReqLayout ++ [sizeofFhandle]
  | .readSuper => genericReqLayout ++ [4, 4, 4, uvfsMaxPathlen]
  | .readlink => genericReqLayout ++ [4, 4, sizeofFhandle]
  | .shutdown => genericReqLayout

/-- The member sizes of the reply struct of an operation, in declaration order. -/
def replyLayout : RequestType → List ℕ
  | .write => genericRepLayout ++ [4]
  | .read => genericRepLayout ++ [4, pageCacheSize]
  | .create => genericRepLayout ++ [sizeofFhandle, sizeofAttr]
  | .lookup => genericRepLayout ++ [sizeofFhandle, sizeofAttr]
  | .unlink => genericRepLayout
  | .symlink => genericRepLayout ++ [sizeofFhandle, sizeofAttr]
  | .mkdir => genericRepLayout ++ [sizeofFhandle, sizeofAttr]
  | .rmdir => genericRepLayout
  | .rename => genericRepLayout
  | .readdir => genericRepLayout ++ [4, uvfsBuffsize]
  | .setattr => genericRepLayout
  | .getattr => genericRepLayout ++ [sizeofAttr]
  | .statfs => genericRepLayout ++ [4, 4, 4, 4, 4, 4, 4, 4]
  | .readSuper => genericRepLayout ++ [4, 4, 4, sizeofFhandle, sizeofAttr]
  | .readlink => genericRepLayout ++ [4, uvfsMaxPathlen]
  | .shutdown => genericRepLayout

/-- The operations in the order of their numbers. -/
def requestTypes : List RequestType :=
  [.write, .read, .create, .lookup, .unlink, .symlink, .mkdir, .rmdir, .rename, .readdir,
    .setattr, .getattr, .statfs, .readSuper, .readlink, .shutdown]

/-- `sizeof(uvfs_generic_rep_s)`, the smallest reply the driver takes. -/
def sizeofGenericRep : ℕ := genericRepLayout.sum

/-- `sizeof(uvfs_request_u)`: the largest request struct. -/
def sizeofUvfsRequestU : ℕ :=
  (requestTypes.map fun k => (requestLayout k).sum).foldl max genericReqLayout.sum

/-- `sizeof(uvfs_reply_u)`: the largest reply struct. -/
def sizeofUvfsReplyU : ℕ :=
  (requestTypes.map fun k => (replyLayout k).sum).foldl max genericRepLayout.sum

/-- The size of the union `u` of a transaction. -/
def sizeofU : ℕ := max sizeofUvfsRequestU sizeofUvfsReplyU

/-- The write request decides the size of the request union. -/
theorem sizeofUvfsRequestU_eq : sizeofUvfsRequestU = 4156 := by decide

/-- The union of a transaction is as large as a write request. -/
theorem sizeofU_eq : sizeofU = 4156 := by decide

/-- Every request struct fits the request union. -/
theorem requestLayout_sum_le (k : RequestType) : (requestLayout k).sum ≤ sizeofUvfsRequestU := by
  cases k <;> decide

end Uvfs
