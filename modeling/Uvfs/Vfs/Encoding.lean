import Uvfs.Vfs.Request

/-!
# What the server gets

`uvfsd_read` copies the first `request->size` bytes of the union to the server, which reads them by
the struct of the request's type.

* `Message`, `decode` : the server's reading of a message.
* `VfsRequest.message` : what an operation means to say.
* `requests_decode` : every request fits its struct and the server's buffer, and is read as it was
  meant.
* `ServerMessage` : everything `uvfsd_read` can deliver.
* `symlink_leaks_stale_memory` : a link whose name and path do not fill their arrays.
* `message_determined_iff` : which messages show nothing of the memory they were built in.
-/

namespace Uvfs.Vfs

/-! ## Reading a request -/

/-- A request as its struct shows it, without type, serial and size. -/
inductive Message
  | write (uid gid : Word) (fh : Fhandle) (count offset : Word) (buff : List Byte)
  | read (uid gid : Word) (fh : Fhandle) (count offset : Word)
  | create (uid gid : Word) (fh : Fhandle) (mode namelen : Word) (name : List Byte)
  | lookup (uid gid : Word) (fh : Fhandle) (namelen : Word) (name : List Byte)
  | unlink (uid gid : Word) (fh : Fhandle) (namelen : Word) (name : List Byte)
  | symlink (uid gid : Word) (fh : Fhandle) (namelen : Word) (name : List Byte) (symlen : Word)
      (sympath : List Byte)
  | mkdir (uid gid mode : Word) (fh : Fhandle) (namelen : Word) (name : List Byte)
  | rmdir (uid gid : Word) (fh : Fhandle) (namelen : Word) (name : List Byte)
  | rename (uid gid : Word) (fhOld : Fhandle) (oldNamelen : Word) (oldName : List Byte)
      (fhNew : Fhandle) (newNamelen : Word) (newName : List Byte)
  | readdir (uid gid : Word) (fh : Fhandle) (entryNo : Word)
  | setattr (uid gid : Word) (fh : Fhandle) (iaValid iaUid iaGid iaSize : Word)
      (iaAtime iaMtime iaCtime : UvfsTimespec) (iaMode : Word)
  | getattr (uid gid : Word) (fh : Fhandle)
  | statfs (fh : Fhandle)
  | readSuper (uid gid arglength : Word) (buff : List Byte)
  | readlink (uid gid : Word) (fh : Fhandle)
  | shutdown
  deriving DecidableEq

open Word (ofList)

/-- An array with the length that another member gives. -/
def counted (len array : List Byte) : List Byte := array.take (ofList len).toNat

/-- The request from the members of its struct. -/
def decodeMembers : RequestType → List (List Byte) → Option Message
  | .write, [_, _, _, uid, gid, fh, count, offset, buff] =>
      some (.write (ofList uid) (ofList gid) (.ofList fh) (ofList count) (ofList offset)
        (counted count buff))
  | .read, [_, _, _, uid, gid, fh, count, offset] =>
      some (.read (ofList uid) (ofList gid) (.ofList fh) (ofList count) (ofList offset))
  | .create, [_, _, _, uid, gid, fh, mode, len, name] =>
      some (.create (ofList uid) (ofList gid) (.ofList fh) (ofList mode) (ofList len)
        (counted len name))
  | .lookup, [_, _, _, uid, gid, fh, len, name] =>
      some (.lookup (ofList uid) (ofList gid) (.ofList fh) (ofList len) (counted len name))
  | .unlink, [_, _, _, uid, gid, fh, len, name] =>
      some (.unlink (ofList uid) (ofList gid) (.ofList fh) (ofList len) (counted len name))
  | .symlink, [_, _, _, uid, gid, fh, name, len, path, symlen] =>
      some (.symlink (ofList uid) (ofList gid) (.ofList fh) (ofList len) (counted len name)
        (ofList symlen) (counted symlen path))
  | .mkdir, [_, _, _, uid, gid, mode, fh, len, name] =>
      some (.mkdir (ofList uid) (ofList gid) (ofList mode) (.ofList fh) (ofList len)
        (counted len name))
  | .rmdir, [_, _, _, uid, gid, fh, len, name] =>
      some (.rmdir (ofList uid) (ofList gid) (.ofList fh) (ofList len) (counted len name))
  | .rename, [_, _, _, uid, gid, fhOld, oldName, oldLen, fhNew, newName, newLen] =>
      some (.rename (ofList uid) (ofList gid) (.ofList fhOld) (ofList oldLen)
        (counted oldLen oldName) (.ofList fhNew) (ofList newLen) (counted newLen newName))
  | .readdir, [_, _, _, uid, gid, fh, entryNo] =>
      some (.readdir (ofList uid) (ofList gid) (.ofList fh) (ofList entryNo))
  | .setattr, [_, _, _, uid, gid, fh, valid, iaUid, iaGid, size, atime, mtime, ctime, mode] =>
      some (.setattr (ofList uid) (ofList gid) (.ofList fh) (ofList valid) (ofList iaUid)
        (ofList iaGid) (ofList size) (.ofList atime) (.ofList mtime) (.ofList ctime) (ofList mode))
  | .getattr, [_, _, _, uid, gid, fh] => some (.getattr (ofList uid) (ofList gid) (.ofList fh))
  | .statfs, [_, _, _, fh] => some (.statfs (.ofList fh))
  | .readSuper, [_, _, _, uid, gid, len, buff] =>
      some (.readSuper (ofList uid) (ofList gid) (ofList len) (counted len buff))
  | .readlink, [_, _, _, uid, gid, fh] => some (.readlink (ofList uid) (ofList gid) (.ofList fh))
  | .shutdown, [_, _, _] => some .shutdown
  | _, _ => none

/-- The operation with a given number. -/
def RequestType.ofCode? (code : ℕ) : Option RequestType :=
  requestTypes.find? fun k => k.code = code

@[simp] theorem RequestType.ofCode?_code (k : RequestType) :
    RequestType.ofCode? (BitVec.ofNat 32 k.code).toNat = some k := by
  cases k <;> rfl

/-- The server's reading of a message: the serial and the request. -/
def decode (bs : List Byte) : Option (Word × Message) := do
  let k ← RequestType.ofCode? (ofList bs).toNat
  let message ← decodeMembers k (Struct.members (requestLayout k) bs)
  return (ofList (bs.drop offsetofSerial), message)

/-- An array is read as far as it was filled, when its length was stored beside it. -/
theorem counted_of_prefix {v len array : List Byte} {w : Word} (hv : v <+: array)
    (hlen : w.bytes <+: len) (hw : w.toNat = v.length) : counted len array = v := by
  rw [counted, Word.ofList_of_prefix hlen, hw]
  exact (List.prefix_iff_eq_take.mp hv).symm

theorem toNat_namelen_of_path {path : List Byte} (h : path.length ≤ uvfsMaxPathlen) :
    (namelen path).toNat = path.length :=
  Nat.mod_eq_of_lt (lt_of_le_of_lt h (by decide))

theorem toNat_namelen {name : List Byte} (h : name.length ≤ uvfsMaxNamelen) :
    (namelen name).toNat = name.length :=
  toNat_namelen_of_path (h.trans (by decide))

/-- The members of a request about a name in a directory. -/
theorem nameRequest_members {k : RequestType} {c : Cred} {dir : Inode} {name : List Byte}
    {serial : Word} {ms : List (List Byte)}
    (hms : List.Forall₂ (· <+: ·) (nameRequest k c dir name serial).values ms)
    (h : name.length ≤ uvfsMaxNamelen) :
    ∃ type ser size uid gid fh len array, ms = [type, ser, size, uid, gid, fh, len, array] ∧
      ofList uid = c.fsuid ∧ ofList gid = c.fsgid ∧ Fhandle.ofList fh = dir.fh ∧
      ofList len = namelen name ∧ counted len array = name := by
  simp only [nameRequest, header, List.cons_append, List.nil_append] at hms
  rcases hms with _ | ⟨-, _ | ⟨-, _ | ⟨-, _ | ⟨huid, _ | ⟨hgid, _ | ⟨hfh, _ | ⟨hlen,
    _ | ⟨hname, _ | _⟩⟩⟩⟩⟩⟩⟩⟩
  exact ⟨_, _, _, _, _, _, _, _, rfl, Word.ofList_of_prefix huid, Word.ofList_of_prefix hgid,
    Fhandle.ofList_of_prefix hfh, Word.ofList_of_prefix hlen, counted_of_prefix hname hlen
      (toNat_namelen h)⟩

/-- The members of a request about a handle alone. -/
theorem handleRequest_members {k : RequestType} {c : Cred} {h : Fhandle} {serial : Word}
    {ms : List (List Byte)}
    (hms : List.Forall₂ (· <+: ·) (handleRequest k c h serial).values ms) :
    ∃ type ser size uid gid fh, ms = [type, ser, size, uid, gid, fh] ∧
      ofList uid = c.fsuid ∧ ofList gid = c.fsgid ∧ Fhandle.ofList fh = h := by
  simp only [handleRequest, header, List.cons_append, List.nil_append] at hms
  rcases hms with _ | ⟨-, _ | ⟨-, _ | ⟨-, _ | ⟨huid, _ | ⟨hgid, _ | ⟨hfh, _ | _⟩⟩⟩⟩⟩⟩
  exact ⟨_, _, _, _, _, _, rfl, Word.ofList_of_prefix huid, Word.ofList_of_prefix hgid,
    Fhandle.ofList_of_prefix hfh⟩

/-! ## What an operation means to say -/

attribute [local simp] VfsRequest.built createRequest lookupRequest unlinkRequest rmdirRequest
  symlinkRequest mkdirRequest renameRequest readdirRequest setattrRequest getattrRequest
  readlinkRequest statfsRequest readSuperRequest nameRequest handleRequest WriteRequest.built
  ReadRequest.built readRequest writeRequest header

namespace VfsRequest

variable (l : LongWidth) (c : Cred)

/-- The request that the server should see.  Positions in a file are reduced to 32 bits, as the
struct has them. -/
def message : VfsRequest → Message
  | .create dir name mode =>
      .create c.fsuid (newGid c dir) dir.fh mode (namelen name) name
  | .lookup dir name => .lookup c.fsuid c.fsgid dir.fh (namelen name) name
  | .unlink dir name => .unlink c.fsuid c.fsgid dir.fh (namelen name) name
  | .symlink dir name path =>
      .symlink c.fsuid (newGid c dir) dir.fh (namelen name) name (namelen path) path
  | .mkdir dir name mode =>
      .mkdir c.fsuid (newGid c dir) (mkdirMode dir mode) dir.fh (namelen name) name
  | .rmdir dir name => .rmdir c.fsuid c.fsgid dir.fh (namelen name) name
  | .rename srcdir srcname dstdir dstname =>
      .rename c.fsuid c.fsgid srcdir.fh (namelen srcname) srcname dstdir.fh (namelen dstname)
        dstname
  | .readdir dir fPos => .readdir c.fsuid c.fsgid dir.fh (BitVec.ofInt 32 fPos)
  | .setattr inode attr =>
      .setattr c.fsuid c.fsgid inode.fh attr.iaValid attr.iaUid attr.iaGid
        (BitVec.ofInt 32 attr.iaSize) attr.iaAtime.toUvfs attr.iaMtime.toUvfs attr.iaCtime.toUvfs
        (attr.iaMode.setWidth 32)
  | .getattr fh => .getattr c.fsuid c.fsgid fh
  | .statfs fh => .statfs fh
  | .readSuper arg => .readSuper c.fsuid c.fsgid (BitVec.ofNat 32 (arg.length + 1)) (arg ++ [0])
  | .readlink fh => .readlink c.fsuid c.fsgid fh
  | .readpage inode pg =>
      .read c.fsuid c.fsgid inode.fh (BitVec.ofNat 32 pageCacheSize)
        (BitVec.ofNat 32 (pageStart l pg.index))
  | .write inode buff offset count =>
      .write c.fsuid c.fsgid inode.fh count offset (buff.toList count.toNat)

/-- How many bytes the request announces. -/
def size : VfsRequest → ℕ
  | .create _ name _ => offsetofLast .create + name.length
  | .lookup _ name => offsetofLast .lookup + name.length
  | .unlink _ name => offsetofLast .unlink + name.length
  | .symlink _ _ _ => (requestLayout .symlink).sum
  | .mkdir _ name _ => offsetofLast .mkdir + name.length
  | .rmdir _ name => offsetofLast .rmdir + name.length
  | .rename _ _ _ _ => (requestLayout .rename).sum
  | .readdir _ _ => (requestLayout .readdir).sum
  | .setattr _ _ => (requestLayout .setattr).sum
  | .getattr _ => (requestLayout .getattr).sum
  | .statfs _ => (requestLayout .statfs).sum
  | .readSuper arg => offsetofLast .readSuper + (arg.length + 1)
  | .readlink _ => (requestLayout .readlink).sum
  | .readpage _ _ => (requestLayout .read).sum
  | .write _ _ _ count => offsetofLast .write + count.toNat

variable {l : LongWidth} {c : Cred} {serial : Word} {r : VfsRequest} {u : Mem}

/-- Every copy into the request stays inside its array. -/
theorem fits (h : r.Accepted) :
    Struct.Fits (requestLayout (r.built l c serial).type) (r.built l c serial).values := by
  cases r <;> simp [Struct.Fits, requestLayout, genericReqLayout] <;> simp only [Accepted] at h <;>
    omega

/-- The values end where the announced bytes end. -/
theorem extent_eq_size (h : r.Accepted) :
    Struct.extent (requestLayout (r.built l c serial).type) (r.built l c serial).values =
      r.size := by
  rw [Struct.extent_of_fits (fits h)]
  cases r with
  | readSuper arg => exact congrArg (offsetofLast .readSuper + ·) List.length_append
  | write inode buff offset count =>
      exact congrArg (offsetofLast .write + ·) (Mem.length_toList _ _)
  | _ => rfl

/-- No request is longer than the union of requests. -/
theorem size_le (h : r.Accepted) : r.size ≤ sizeofUvfsRequestU := by
  rw [sizeofUvfsRequestU_eq]
  cases r <;>
    simp only [Accepted, size, offsetofLast, requestLayout, genericReqLayout, sizeofFhandle,
      sizeofTimespec, uvfsMaxNamelen, uvfsMaxPathlen, pageCacheSize, List.cons_append,
      List.nil_append, List.dropLast_cons_cons, List.dropLast_singleton, List.sum_cons,
      List.sum_nil] at h ⊢ <;> omega

/-- The layout and the values begin with the three words of the header. -/
theorem header_eq : ∃ ns vs, requestLayout (r.built l c serial).type = 4 :: 4 :: 4 :: ns ∧
    (r.built l c serial).values =
      Word.bytes (BitVec.ofNat 32 (r.built l c serial).type.code) :: serial.bytes ::
        Word.bytes (BitVec.ofNat 32 r.size) :: vs := by
  cases r with
  | write inode buff offset count =>
      have hsize : BitVec.ofNat 32 offsetofBuff + count =
          BitVec.ofNat 32 (offsetofLast .write + count.toNat) := by
        rw [BitVec.ofNat_add, BitVec.ofNat_toNat, BitVec.setWidth_eq]
        rfl
      exact ⟨_, _, rfl, by simp only [built, WriteRequest.built, header, writeRequest, hsize]; rfl⟩
  | _ => exact ⟨_, _, rfl, rfl⟩

/-- Each member of the request is read as it was meant, whatever follows it in its place. -/
theorem decodeMembers_eq {ms : List (List Byte)} (h : r.Accepted)
    (hms : List.Forall₂ (· <+: ·) (r.built l c serial).values ms) :
    decodeMembers (r.built l c serial).type ms = some (r.message l c) := by
  cases r with
  | create dir name mode =>
      rcases hms with _ | ⟨-, _ | ⟨-, _ | ⟨-, _ | ⟨huid, _ | ⟨hgid, _ | ⟨hfh, _ | ⟨hmode,
        _ | ⟨hlen, _ | ⟨hname, _ | _⟩⟩⟩⟩⟩⟩⟩⟩⟩
      refine congrArg some ?_
      simp only [message, Word.ofList_of_prefix huid, Word.ofList_of_prefix hgid,
        Fhandle.ofList_of_prefix hfh, Word.ofList_of_prefix hmode, Word.ofList_of_prefix hlen,
        counted_of_prefix hname hlen (toNat_namelen h)]
  | lookup dir name =>
      obtain ⟨_, _, _, _, _, _, _, _, rfl, huid, hgid, hfh, hlen, hname⟩ :=
        nameRequest_members hms h
      refine congrArg some ?_
      simp only [message, huid, hgid, hfh, hlen, hname]
  | unlink dir name =>
      obtain ⟨_, _, _, _, _, _, _, _, rfl, huid, hgid, hfh, hlen, hname⟩ :=
        nameRequest_members hms h
      refine congrArg some ?_
      simp only [message, huid, hgid, hfh, hlen, hname]
  | symlink dir name path =>
      rcases hms with _ | ⟨-, _ | ⟨-, _ | ⟨-, _ | ⟨huid, _ | ⟨hgid, _ | ⟨hfh, _ | ⟨hname,
        _ | ⟨hlen, _ | ⟨hpath, _ | ⟨hsymlen, _ | _⟩⟩⟩⟩⟩⟩⟩⟩⟩⟩
      refine congrArg some ?_
      simp only [message, Word.ofList_of_prefix huid, Word.ofList_of_prefix hgid,
        Fhandle.ofList_of_prefix hfh, Word.ofList_of_prefix hlen,
        counted_of_prefix hname hlen (toNat_namelen h.1), Word.ofList_of_prefix hsymlen,
        counted_of_prefix hpath hsymlen (toNat_namelen_of_path h.2)]
  | mkdir dir name mode =>
      rcases hms with _ | ⟨-, _ | ⟨-, _ | ⟨-, _ | ⟨huid, _ | ⟨hgid, _ | ⟨hmode, _ | ⟨hfh,
        _ | ⟨hlen, _ | ⟨hname, _ | _⟩⟩⟩⟩⟩⟩⟩⟩⟩
      refine congrArg some ?_
      simp only [message, Word.ofList_of_prefix huid, Word.ofList_of_prefix hgid,
        Word.ofList_of_prefix hmode, Fhandle.ofList_of_prefix hfh, Word.ofList_of_prefix hlen,
        counted_of_prefix hname hlen (toNat_namelen h)]
  | rmdir dir name =>
      obtain ⟨_, _, _, _, _, _, _, _, rfl, huid, hgid, hfh, hlen, hname⟩ :=
        nameRequest_members hms h
      refine congrArg some ?_
      simp only [message, huid, hgid, hfh, hlen, hname]
  | rename srcdir srcname dstdir dstname =>
      rcases hms with _ | ⟨-, _ | ⟨-, _ | ⟨-, _ | ⟨huid, _ | ⟨hgid, _ | ⟨hfhOld, _ | ⟨hold,
        _ | ⟨holdlen, _ | ⟨hfhNew, _ | ⟨hnew, _ | ⟨hnewlen, _ | _⟩⟩⟩⟩⟩⟩⟩⟩⟩⟩⟩
      refine congrArg some ?_
      simp only [message, Word.ofList_of_prefix huid, Word.ofList_of_prefix hgid,
        Fhandle.ofList_of_prefix hfhOld, Word.ofList_of_prefix holdlen,
        counted_of_prefix hold holdlen (toNat_namelen h.1), Fhandle.ofList_of_prefix hfhNew,
        Word.ofList_of_prefix hnewlen, counted_of_prefix hnew hnewlen (toNat_namelen h.2)]
  | readdir dir fPos =>
      rcases hms with _ | ⟨-, _ | ⟨-, _ | ⟨-, _ | ⟨huid, _ | ⟨hgid, _ | ⟨hfh, _ | ⟨hno,
        _ | _⟩⟩⟩⟩⟩⟩⟩
      refine congrArg some ?_
      simp only [message, Word.ofList_of_prefix huid, Word.ofList_of_prefix hgid,
        Fhandle.ofList_of_prefix hfh, Word.ofList_of_prefix hno]
  | setattr inode attr =>
      rcases hms with _ | ⟨-, _ | ⟨-, _ | ⟨-, _ | ⟨huid, _ | ⟨hgid, _ | ⟨hfh, _ | ⟨hvalid,
        _ | ⟨hiaUid, _ | ⟨hiaGid, _ | ⟨hsize, _ | ⟨hatime, _ | ⟨hmtime, _ | ⟨hctime, _ | ⟨hmode,
        _ | _⟩⟩⟩⟩⟩⟩⟩⟩⟩⟩⟩⟩⟩⟩
      refine congrArg some ?_
      simp only [message, Word.ofList_of_prefix huid, Word.ofList_of_prefix hgid,
        Fhandle.ofList_of_prefix hfh, Word.ofList_of_prefix hvalid, Word.ofList_of_prefix hiaUid,
        Word.ofList_of_prefix hiaGid, Word.ofList_of_prefix hsize,
        UvfsTimespec.ofList_of_prefix hatime, UvfsTimespec.ofList_of_prefix hmtime,
        UvfsTimespec.ofList_of_prefix hctime, Word.ofList_of_prefix hmode]
  | getattr fh =>
      obtain ⟨_, _, _, _, _, _, rfl, huid, hgid, hfh⟩ := handleRequest_members hms
      refine congrArg some ?_
      simp only [message, huid, hgid, hfh]
  | statfs fh =>
      rcases hms with _ | ⟨-, _ | ⟨-, _ | ⟨-, _ | ⟨hfh, _ | _⟩⟩⟩⟩
      refine congrArg some ?_
      simp only [message, Fhandle.ofList_of_prefix hfh]
  | readSuper arg =>
      rcases hms with _ | ⟨-, _ | ⟨-, _ | ⟨-, _ | ⟨huid, _ | ⟨hgid, _ | ⟨hlen, _ | ⟨hbuff,
        _ | _⟩⟩⟩⟩⟩⟩⟩
      have hlength :
          (BitVec.ofNat 32 (arg.length + 1)).toNat = (arg ++ [0] : List Byte).length := by
        rw [List.length_append]
        exact Nat.mod_eq_of_lt (lt_trans h (by decide))
      refine congrArg some ?_
      simp only [message, Word.ofList_of_prefix huid, Word.ofList_of_prefix hgid,
        Word.ofList_of_prefix hlen, counted_of_prefix hbuff hlen hlength]
  | readlink fh =>
      obtain ⟨_, _, _, _, _, _, rfl, huid, hgid, hfh⟩ := handleRequest_members hms
      refine congrArg some ?_
      simp only [message, huid, hgid, hfh]
  | readpage inode pg =>
      rcases hms with _ | ⟨-, _ | ⟨-, _ | ⟨-, _ | ⟨huid, _ | ⟨hgid, _ | ⟨hfh, _ | ⟨hcount,
        _ | ⟨hoffset, _ | _⟩⟩⟩⟩⟩⟩⟩⟩
      refine congrArg some ?_
      simp only [message, Word.ofList_of_prefix huid, Word.ofList_of_prefix hgid,
        Fhandle.ofList_of_prefix hfh, Word.ofList_of_prefix hcount, Word.ofList_of_prefix hoffset,
        readRequest]
  | write inode buff offset count =>
      rcases hms with _ | ⟨-, _ | ⟨-, _ | ⟨-, _ | ⟨huid, _ | ⟨hgid, _ | ⟨hfh, _ | ⟨hcount,
        _ | ⟨hoffset, _ | ⟨hbuff, _ | _⟩⟩⟩⟩⟩⟩⟩⟩⟩
      refine congrArg some ?_
      simp only [message, Word.ofList_of_prefix huid, Word.ofList_of_prefix hgid,
        Fhandle.ofList_of_prefix hfh, Word.ofList_of_prefix hcount, Word.ofList_of_prefix hoffset,
        counted_of_prefix hbuff hcount (Mem.length_toList _ _).symm, writeRequest]

/-- `request->type`, as the server reads it. -/
theorem word_type :
    ((r.built l c serial).store u).word offsetofType =
      BitVec.ofNat 32 (r.built l c serial).type.code := by
  obtain ⟨ns, vs, hlayout, hvalues⟩ := @header_eq l c serial r
  rw [Built.store, hlayout, hvalues]
  exact Struct.word_store le_rfl

/-- `request->serial`, as the server reads it. -/
theorem word_serial : ((r.built l c serial).store u).word offsetofSerial = serial := by
  obtain ⟨ns, vs, hlayout, hvalues⟩ := @header_eq l c serial r
  rw [Built.store, hlayout, hvalues, Struct.store]
  exact Struct.word_store le_rfl

/-- `request->size`, as `uvfsd_read` and the server read it. -/
theorem word_size :
    ((r.built l c serial).store u).word offsetofSize = BitVec.ofNat 32 r.size := by
  obtain ⟨ns, vs, hlayout, hvalues⟩ := @header_eq l c serial r
  rw [Built.store, hlayout, hvalues, Struct.store, Struct.store]
  exact Struct.word_store le_rfl

/-- `request->size` as a number. -/
theorem toInt_word_size (h : r.Accepted) :
    (((r.built l c serial).store u).word offsetofSize).toInt = r.size := by
  have hle := size_le h
  rw [sizeofUvfsRequestU_eq] at hle
  rw [word_size, BitVec.toInt_ofNat']
  rw [Int.bmod_eq_of_le] <;> omega

/-- `uvfsd_read` delivers as many bytes as the request announces. -/
theorem delivered_eq (h : r.Accepted) :
    delivered ((r.built l c serial).store u) = ((r.built l c serial).store u).toList r.size := by
  rw [delivered, toInt_word_size h]
  rfl

/-- Every request has its header. -/
theorem header_le_size : offsetofSize + 4 ≤ r.size := by
  cases r <;>
    simp only [offsetofSize, size, offsetofLast, requestLayout, genericReqLayout, sizeofFhandle,
      sizeofTimespec, List.cons_append, List.nil_append, List.dropLast_cons_cons,
      List.dropLast_singleton, List.sum_cons, List.sum_nil] <;> omega

/-- The server reads the request as it was meant. -/
theorem decode_delivered (h : r.Accepted) :
    decode (delivered ((r.built l c serial).store u)) = some (serial, r.message l c) := by
  have hsize : offsetofSize + 4 ≤ r.size := header_le_size
  have htype : ofList (delivered ((r.built l c serial).store u)) =
      BitVec.ofNat 32 (r.built l c serial).type.code := by
    rw [delivered_eq h, ← word_type (u := u)]
    exact @Word.ofList_drop_toList _ _ offsetofType (le_trans (by decide) hsize)
  have hserial : ofList ((delivered ((r.built l c serial).store u)).drop offsetofSerial) =
      serial := by
    rw [delivered_eq h, Word.ofList_drop_toList (le_trans (by decide) hsize), word_serial]
  have hms : List.Forall₂ (· <+: ·) (r.built l c serial).values
      (Struct.members (requestLayout (r.built l c serial).type)
        (delivered ((r.built l c serial).store u))) := by
    rw [delivered_eq h]
    refine @Struct.values_prefix_members 0 _ _ _ (fits h) _ ?_
    rw [extent_eq_size h, Nat.zero_add]
  rw [decode, htype, RequestType.ofCode?_code]
  simp only [Option.bind_eq_bind, Option.bind_some, decodeMembers_eq h hms, hserial]
  rfl

end VfsRequest

section

variable {l : LongWidth} {c : Cred} {serial : Word} {r : VfsRequest} {u : Mem}

/-- **Requests are read as they were meant**: every copy stays inside its array, the size is that of
a request, so that the copy of `uvfsd_read` stays inside a buffer that has passed its test of
`count`, and the server finds the serial and the request. -/
theorem requests_decode (h : r.Accepted) :
    Struct.Fits (requestLayout (r.built l c serial).type) (r.built l c serial).values ∧
      (((r.built l c serial).store u).word offsetofSize).toInt ≤ sizeofUvfsRequestU ∧
      (∀ count, sizeofUvfsRequestU ≤ count →
        (delivered ((r.built l c serial).store u)).length ≤ count) ∧
      decode (delivered ((r.built l c serial).store u)) = some (serial, r.message l c) := by
  have hsize := VfsRequest.size_le h
  refine ⟨VfsRequest.fits h, ?_, ?_, VfsRequest.decode_delivered h⟩
  · rw [VfsRequest.toInt_word_size h]
    exact_mod_cast hsize
  · intro count hcount
    rw [VfsRequest.delivered_eq h, Mem.length_toList]
    exact hsize.trans hcount

end

/-- A directory with the set-group-id bit, which belongs to group 3. -/
def setgidDir : Inode :=
  { newInode ⟨0, 0, 0, 0, 0, 0, 0, 0⟩ with iMode := 0o042755, iGid := 3 }

/-- The longest name. -/
theorem requests_decode_longest_name :
    (VfsRequest.lookup setgidDir (List.replicate 256 97)).Accepted ∧
      decode (delivered (((VfsRequest.lookup setgidDir (List.replicate 256 97)).built .w64 ⟨1, 2⟩
        7).store fun _ => 0)) =
        some (7, .lookup 1 2 setgidDir.fh 256 (List.replicate 256 97)) := by
  have h : (VfsRequest.lookup setgidDir (List.replicate 256 97)).Accepted :=
    (List.length_replicate ..).le
  refine ⟨h, ?_⟩
  rw [(requests_decode h).2.2.2, VfsRequest.message, namelen, List.length_replicate]
  rfl

/-- The group of the caller, 2, is not what a request says in a set-group-id directory. -/
theorem create_in_setgid_directory_sends_its_group :
    (VfsRequest.create setgidDir [97] 0).Accepted ∧
      decode (delivered (((VfsRequest.create setgidDir [97] 0).built .w64 ⟨1, 2⟩ 7).store
        fun _ => 0)) = some (7, .create 1 3 setgidDir.fh 0 1 [97]) := by
  have h : (VfsRequest.create setgidDir [97] 0).Accepted := by
    simp [VfsRequest.Accepted, uvfsMaxNamelen]
  exact ⟨h, VfsRequest.decode_delivered h⟩

/-! ## What a message shows of the memory it was built in -/

/-- Everything that `uvfsd_read` can deliver. -/
inductive ServerMessage
  /-- A request, in the union of its transaction. -/
  | request (r : VfsRequest)
  /-- The shutdown message, on the stack of `uvfsd_read`. -/
  | shutdown

namespace ServerMessage

variable (l : LongWidth) (c : Cred) (serial : Word)

/-- The checks that the operation has made. -/
def Accepted : ServerMessage → Prop
  | .request r => r.Accepted
  | .shutdown => True

/-- What is built. -/
def built : ServerMessage → Built
  | .request r => r.built l c serial
  | .shutdown => shutdownRequest

/-- The message that the server gets, when the memory it was built in held `stale` before. -/
def message (m : ServerMessage) (stale : Mem) : List Byte :=
  delivered ((m.built l c serial).store stale)

/-- A link whose name and path fill their arrays, a rename whose names do, or any request whose
size ends with its last value. -/
def Complete : ServerMessage → Prop
  | .request (.symlink _ name path) =>
      name.length = uvfsMaxNamelen ∧ path.length = uvfsMaxPathlen
  | .request (.rename _ srcname _ dstname) =>
      srcname.length = uvfsMaxNamelen ∧ dstname.length = uvfsMaxNamelen
  | .request _ => True
  | .shutdown => False

variable {l : LongWidth} {c : Cred} {serial : Word} {r : VfsRequest}

/-- The values fill every byte of a request exactly when it is complete.  Only a link and a rename
have arrays in front of their last member. -/
theorem filled_iff_complete (h : r.Accepted) :
    (∀ i < r.size, Struct.Filled 0 (requestLayout (r.built l c serial).type)
      (r.built l c serial).values i) ↔ Complete (.request r) := by
  cases r with
  | symlink dir name path =>
      obtain ⟨hname, hpath⟩ := h
      simp only [uvfsMaxNamelen, uvfsMaxPathlen] at hname hpath
      simp [Struct.Filled, requestLayout, genericReqLayout, VfsRequest.size, Complete,
        sizeofFhandle, uvfsMaxNamelen, uvfsMaxPathlen]
      constructor
      · intro hfill
        have hbehind := hfill (52 + name.length)
        have hbehindPath := hfill (312 + path.length)
        omega
      · intro hfull i hi
        omega
  | rename srcdir srcname dstdir dstname =>
      obtain ⟨hsrc, hdst⟩ := h
      unfold uvfsMaxNamelen at hsrc hdst
      simp [Struct.Filled, requestLayout, genericReqLayout, VfsRequest.size, Complete,
        sizeofFhandle, uvfsMaxNamelen]
      constructor
      · intro hfill
        have hbehindSrc := hfill (52 + srcname.length)
        have hbehindDst := hfill (344 + dstname.length)
        omega
      · intro hfull i hi
        omega
  | _ =>
      simp [Struct.Filled, requestLayout, genericReqLayout, VfsRequest.size, Complete,
        sizeofFhandle, sizeofTimespec, offsetofLast]
      try (intro i hi; omega)

/-- The shutdown message announces its header. -/
theorem delivered_shutdown (stale : Mem) :
    delivered (shutdownRequest.store stale) = (shutdownRequest.store stale).toList 12 := by
  have hsize : (shutdownRequest.store stale).word offsetofSize = sizeofRequest .shutdown :=
    Struct.word_store le_rfl
  rw [delivered, hsize]
  rfl

end ServerMessage

/-- A link to `x` named `a`: the rest of the two arrays shows what the memory held. -/
theorem symlink_leaks_stale_memory :
    (ServerMessage.request (.symlink setgidDir [97] [120])).Accepted ∧
      (ServerMessage.request (.symlink setgidDir [97] [120])).message .w64 ⟨1, 2⟩ 7 (fun _ => 0) ≠
        (ServerMessage.request (.symlink setgidDir [97] [120])).message .w64 ⟨1, 2⟩ 7
          (fun _ => 255) := by
  have h : (VfsRequest.symlink setgidDir [97] [120]).Accepted := by
    simp [VfsRequest.Accepted, uvfsMaxNamelen, uvfsMaxPathlen]
  refine ⟨h, ?_⟩
  intro heq
  simp only [ServerMessage.message, ServerMessage.built, VfsRequest.delivered_eq h] at heq
  have hbyte := Mem.toList_eq_iff.mp heq 100 (by decide)
  exact absurd hbyte (by decide)

/-- **Which messages show nothing of the memory they were built in**: the bytes the server gets are
the same whatever the transaction, or the stack, held before exactly when the message is
complete. -/
theorem message_determined_iff {l : LongWidth} {c : Cred} {serial : Word} {m : ServerMessage}
    (h : m.Accepted) :
    (∀ stale stale', m.message l c serial stale = m.message l c serial stale') ↔ m.Complete := by
  cases m with
  | request r =>
      simp only [ServerMessage.message, ServerMessage.built, VfsRequest.delivered_eq h]
      exact Struct.toList_store_congr_iff.trans (ServerMessage.filled_iff_complete h)
  | shutdown =>
      simp only [ServerMessage.message, ServerMessage.built, ServerMessage.delivered_shutdown]
      refine Struct.toList_store_congr_iff.trans ?_
      -- the four bytes of `serial` are never assigned
      constructor
      · intro hfill
        exact absurd (hfill 4 (by decide)) (by decide)
      · exact False.elim

/-- A lookup shows nothing. -/
theorem lookup_message_determined : (ServerMessage.request (.lookup setgidDir [97])).Accepted ∧
    ∀ stale stale', (ServerMessage.request (.lookup setgidDir [97])).message .w64 ⟨1, 2⟩ 7 stale =
      (ServerMessage.request (.lookup setgidDir [97])).message .w64 ⟨1, 2⟩ 7 stale' := by
  have h : (ServerMessage.request (.lookup setgidDir [97])).Accepted := by
    simp [ServerMessage.Accepted, VfsRequest.Accepted, uvfsMaxNamelen]
  exact ⟨h, (message_determined_iff h).mpr trivial⟩

end Uvfs.Vfs
