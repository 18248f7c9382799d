import Uvfs.Vfs.Operations

/-!
# Changing attributes and checking permissions

`uvfs_setattr` changes the inode first and asks the server afterwards; `uvfs_permission` decides by
the inode, or by a getattr reply when the inode was fetched for another user.

* `AttrKernel` : the functions of the kernel that `uvfs_setattr` calls.
* `uvfsSetattr`, `uvfsPermission`.
* `setattr_atomic_iff` : when a failed `uvfs_setattr` leaves everything as it was.
* `permission_eq_refreshed_iff` : when `uvfs_permission` decides as it would on a refreshed inode.
-/

namespace Uvfs.Vfs

/-! ## Changing attributes -/

/-- `ATTR_MODE`. -/
def AttrFlag.mode : Word := 1

/-- `ATTR_UID`. -/
def AttrFlag.uid : Word := 2

/-- `ATTR_GID`. -/
def AttrFlag.gid : Word := 4

/-- `ATTR_SIZE`. -/
def AttrFlag.size : Word := 8

/-- `ATTR_ATIME|ATTR_MTIME|ATTR_CTIME`. -/
def AttrFlag.times : Word := 16 ||| 32 ||| 64

/-- Mode, owner, group and size. -/
def Inode.stat (i : Inode) : BitVec 16 × Word × Word × ℤ := (i.iMode, i.iUid, i.iGid, i.iSize)

/-- The inode with the attributes that `ia_valid` names.  `S_ISGID` is kept for those who may set
it for the group. -/
def Inode.setFlagged (maySetgid : Word → Bool) (i : Inode) (a : Iattr) : Inode :=
  let gid := if a.iaValid &&& AttrFlag.gid ≠ 0 then a.iaGid else i.iGid
  { i with
    iSize := if a.iaValid &&& AttrFlag.size ≠ 0 then a.iaSize else i.iSize
    iUid := if a.iaValid &&& AttrFlag.uid ≠ 0 then a.iaUid else i.iUid
    iGid := gid
    iMode := if a.iaValid &&& AttrFlag.mode ≠ 0 then
      if maySetgid gid then a.iaMode else a.iaMode &&& ~~~sIsgid else i.iMode }

/-- The functions of the kernel that `uvfs_setattr` calls, for the current caller. -/
structure AttrKernel where
  /-- `inode_change_ok`: its value, and `ia_mode`, from which it may take `S_ISGID`. -/
  inodeChangeOk : Inode → Iattr → ℤ × BitVec 16
  /-- `in_group_p(gid) || capable(CAP_FSETID)`. -/
  maySetgid : Word → Bool
  /-- `inode_setattr`: its value, and the inode. -/
  inodeSetattr : Inode → Iattr → ℤ × Inode
  /-- It changes nothing when it fails: only the truncation can, which comes first. -/
  failed : ∀ i a, (inodeSetattr i a).1 ≠ 0 → (inodeSetattr i a).2.stat = i.stat
  /-- It stores what is flagged when it succeeds. -/
  stored : ∀ i a, (inodeSetattr i a).1 = 0 →
    (inodeSetattr i a).2.stat = (i.setFlagged maySetgid a).stat

/-- What a call of `uvfs_setattr` leaves. -/
structure SetattrOutcome where
  /-- The returned value. -/
  ret : ℤ
  /-- The inode. -/
  inode : Inode
  /-- `*attr`. -/
  attr : Iattr

/-- `attr->ia_valid &= ~(ATTR_ATIME|ATTR_MTIME|ATTR_CTIME)`. -/
def Iattr.withoutTimes (a : Iattr) : Iattr := { a with iaValid := a.iaValid &&& ~~~AttrFlag.times }

/-- `*attr` after `inode_change_ok`. -/
def AttrKernel.changed (k : AttrKernel) (inode : Inode) (attr : Iattr) : Iattr :=
  { attr with iaMode := (k.inodeChangeOk inode attr).2 }

/-- `uvfs_setattr`.  When `inode_setattr` fails, `ia_valid` has lost its bits for the times.
Source: `file.c`, `uvfs_setattr`. -/
def uvfsSetattr (k : AttrKernel) (inode : Inode) (attr : Iattr) : Wire SetattrOutcome :=
  let attr' := k.changed inode attr
  if (k.inodeChangeOk inode attr).1 < 0 then
    return ⟨(k.inodeChangeOk inode attr).1, inode, attr'⟩
  else
    let (error, inode') := k.inodeSetattr inode attr'.withoutTimes
    if error ≠ 0 then return ⟨einval, inode', attr'.withoutTimes⟩
    else
      Wire.request (.setattr inode' attr') ⟨enomem, inode', attr'⟩ fun reply =>
        ⟨replyError reply, inode', attr'⟩

/-- The attributes that are flagged are those that the inode has. -/
structure Iattr.ChangesNothing (maySetgid : Word → Bool) (i : Inode) (a : Iattr) : Prop where
  size : a.iaValid &&& AttrFlag.size ≠ 0 → a.iaSize = i.iSize
  uid : a.iaValid &&& AttrFlag.uid ≠ 0 → a.iaUid = i.iUid
  gid : a.iaValid &&& AttrFlag.gid ≠ 0 → a.iaGid = i.iGid
  mode : a.iaValid &&& AttrFlag.mode ≠ 0 →
    (if maySetgid i.iGid then a.iaMode else a.iaMode &&& ~~~sIsgid) = i.iMode

section

variable {maySetgid : Word → Bool} {k : AttrKernel} {inode : Inode} {attr : Iattr}

theorem stat_setFlagged_iff :
    (inode.setFlagged maySetgid attr).stat = inode.stat ↔
      attr.ChangesNothing maySetgid inode := by
  simp only [Inode.stat, Inode.setFlagged, Prod.mk.injEq, ite_eq_right_iff]
  -- the group decides about the mode, so it comes first
  have hgroup : (attr.iaValid &&& AttrFlag.gid ≠ 0 → attr.iaGid = inode.iGid) →
      (if attr.iaValid &&& AttrFlag.gid ≠ 0 then attr.iaGid else inode.iGid) = inode.iGid :=
    ite_eq_right_iff.mpr
  constructor
  · rintro ⟨hmode, huid, hgid, hsize⟩
    rw [hgroup hgid] at hmode
    exact ⟨hsize, huid, hgid, hmode⟩
  · rintro ⟨hsize, huid, hgid, hmode⟩
    rw [hgroup hgid]
    exact ⟨hmode, huid, hgid, hsize⟩

/-- The flags other than those of the times survive the mask. -/
theorem withoutTimes_and (flag : Word) (hflag : ~~~AttrFlag.times &&& flag = flag) (a : Iattr) :
    a.withoutTimes.iaValid &&& flag = a.iaValid &&& flag := by
  unfold Iattr.withoutTimes
  rw [BitVec.and_assoc, hflag]

theorem stat_setFlagged_withoutTimes :
    (inode.setFlagged maySetgid attr.withoutTimes).stat =
      (inode.setFlagged maySetgid attr).stat := by
  simp only [Inode.stat, Inode.setFlagged, withoutTimes_and AttrFlag.size (by decide),
    withoutTimes_and AttrFlag.uid (by decide), withoutTimes_and AttrFlag.gid (by decide),
    withoutTimes_and AttrFlag.mode (by decide)]
  rfl

theorem withoutTimes_eq_iff :
    attr.withoutTimes.iaValid = attr.iaValid ↔ attr.iaValid &&& AttrFlag.times = 0 := by
  unfold Iattr.withoutTimes
  constructor
  · intro h
    have hnone : ~~~AttrFlag.times &&& AttrFlag.times = 0#32 := by decide
    rw [← h, BitVec.and_assoc, hnone, BitVec.and_zero]
    rfl
  · intro h
    ext i hi
    have hbit : (attr.iaValid &&& AttrFlag.times)[i] = false := by simp [h]
    rw [BitVec.getElem_and] at hbit ⊢
    rw [BitVec.getElem_not]
    revert hbit
    cases attr.iaValid[i] <;> cases AttrFlag.times[i] <;> decide

/-- What `uvfs_setattr` leaves after a check that passed. -/
theorem run_uvfsSetattr (hok : 0 ≤ (k.inodeChangeOk inode attr).1) (x : Exchange)
    (rs : List VfsRequest) :
    let attr' := k.changed inode attr
    let set := k.inodeSetattr inode attr'.withoutTimes
    ((uvfsSetattr k inode attr).run x.serve rs).1 =
      if set.1 ≠ 0 then ⟨einval, set.2, attr'.withoutTimes⟩
      else if x.transaction then ⟨replyError (x.reply (.setattr set.2 attr')), set.2, attr'⟩
      else ⟨enomem, set.2, attr'⟩ := by
  intro attr' set
  unfold uvfsSetattr
  rw [if_neg (not_lt.mpr hok)]
  by_cases hset : set.1 ≠ 0
  · simp only [set, attr'] at hset ⊢
    rw [if_pos hset, if_pos hset]
    rfl
  · simp only [set, attr'] at hset ⊢
    rw [if_neg hset, if_neg hset, run_request]
    split
    · rfl
    · rfl

/-- A kernel in which every change is allowed and none fails. -/
def AttrKernel.permissive : AttrKernel where
  inodeChangeOk _ a := (0, a.iaMode)
  maySetgid _ := true
  inodeSetattr i a := (0, i.setFlagged (fun _ => true) a)
  failed _ _ h := absurd rfl h
  stored _ _ _ := rfl

/-- A driver that answers every request with an error. -/
def Exchange.refusing (error : Word) : Exchange :=
  ⟨true, fun _ => Mem.setWord (fun _ => 0) offsetofError error⟩

/-- A `chmod` that the server refuses stays in the inode. -/
theorem refused_chmod_stays :
    let inode := uvfsIget .w64 1 ⟨0, 0, 0, 1, 0, 3, 7, 0⟩ (attrOfMode 0o100644) none
    let attr : Iattr := ⟨AttrFlag.mode, 0o100600, 0, 0, 0, ⟨0, 0⟩, ⟨0, 0⟩, ⟨0, 0⟩⟩
    let r := ((uvfsSetattr .permissive inode attr).run (Exchange.refusing (-13)).serve []).1
    r.ret = -13 ∧ r.inode.stat ≠ inode.stat := by
  decide

/-- **When a failed `uvfs_setattr` changes nothing.**  For a change that `inode_change_ok` accepts:
if `inode_setattr` fails, exactly when no time was to be set; if it succeeds, exactly when the
server does not refuse the change after it has been made, or there was nothing to change. -/
theorem setattr_atomic_iff (hok : 0 ≤ (k.inodeChangeOk inode attr).1) (x : Exchange)
    (rs : List VfsRequest) :
    let r := ((uvfsSetattr k inode attr).run x.serve rs).1
    let attr' := k.changed inode attr
    let set := k.inodeSetattr inode attr'.withoutTimes
    (r.ret < 0 → r.inode.stat = inode.stat ∧ r.attr.iaValid = attr.iaValid) ↔
      (set.1 ≠ 0 ∧ attr.iaValid &&& AttrFlag.times = 0) ∨
      (set.1 = 0 ∧ ((x.transaction = true ∧ 0 ≤ replyError (x.reply (.setattr set.2 attr'))) ∨
        attr'.ChangesNothing k.maySetgid inode)) := by
  intro r attr' set
  have hr : r = _ := run_uvfsSetattr hok x rs
  by_cases hset : set.1 ≠ 0
  · rw [if_pos hset] at hr
    have hsame : set.2.stat = inode.stat := k.failed _ _ hset
    have hvalid : attr'.withoutTimes.iaValid = attr.iaValid ↔ attr.iaValid &&& AttrFlag.times = 0 :=
      @withoutTimes_eq_iff attr'
    rw [hr]
    constructor
    · intro h
      exact .inl ⟨hset, hvalid.mp (h (show einval < 0 by decide)).2⟩
    · rintro (⟨-, htimes⟩ | ⟨hzero, -⟩)
      · intro _
        exact ⟨hsame, hvalid.mpr htimes⟩
      · exact absurd hzero hset
  · rw [if_neg hset] at hr
    have hzero : set.1 = 0 := not_not.mp hset
    have hstored : set.2.stat = inode.stat ↔ attr'.ChangesNothing k.maySetgid inode := by
      rw [k.stored _ _ hzero, stat_setFlagged_withoutTimes, stat_setFlagged_iff]
    rw [hr]
    constructor
    · intro h
      refine .inr ⟨hzero, ?_⟩
      by_cases hanswered :
          x.transaction = true ∧ 0 ≤ replyError (x.reply (.setattr set.2 attr'))
      · exact .inl hanswered
      · refine .inr (hstored.mp ?_)
        by_cases htrans : x.transaction = true
        · rw [if_pos htrans] at h
          exact (h (not_le.mp fun hge => hanswered ⟨htrans, hge⟩)).1
        · rw [if_neg htrans] at h
          exact (h (show enomem < 0 by decide)).1
    · rintro (⟨hne, -⟩ | ⟨-, ⟨htrans, hge⟩ | hnothing⟩) hret
      · exact absurd hzero hne
      · rw [if_pos htrans] at hret
        exact absurd hge (not_le.mpr hret)
      · have hsame := hstored.mpr hnothing
        split
        · exact ⟨hsame, rfl⟩
        · exact ⟨hsame, rfl⟩

/-- A refused `chmod` to the mode that the file has. -/
theorem setattr_atomic_iff_refused :
    let inode := uvfsIget .w64 1 ⟨0, 0, 0, 1, 0, 3, 7, 0⟩ (attrOfMode 0o100644) none
    let attr : Iattr := ⟨AttrFlag.mode, 0o100644, 0, 0, 0, ⟨0, 0⟩, ⟨0, 0⟩, ⟨0, 0⟩⟩
    let r := ((uvfsSetattr .permissive inode attr).run (Exchange.refusing (-13)).serve []).1
    r.ret = -13 ∧ r.inode.stat = inode.stat := by
  intro inode attr r
  have hret : r.ret = -13 := by decide
  have hatomic := (@setattr_atomic_iff .permissive inode attr (by decide)
    (Exchange.refusing (-13)) []).mpr (.inr ⟨rfl, .inr ?_⟩)
  · exact ⟨hret, (hatomic (by rw [hret]; decide)).1⟩
  · refine ⟨?_, ?_, ?_, ?_⟩
    all_goals decide

end

/-! ## Checking permissions -/

/-- The bits of a mask: `MAY_EXEC`. -/
def mayExec : Word := 1

/-- `MAY_WRITE`. -/
def mayWrite : Word := 2

/-- `MAY_READ`. -/
def mayRead : Word := 4

/-- `S_IXUGO`. -/
def sIxugo : BitVec 16 := 0o111

/-- `-EROFS`. -/
def erofs : ℤ := -30

/-- Who asks. -/
structure Caller where
  /-- `current_fsuid()`. -/
  fsuid : Word
  /-- `in_group_p`. -/
  inGroupP : Word → Bool
  /-- `capable(CAP_DAC_OVERRIDE)`. -/
  dacOverride : Bool
  /-- `capable(CAP_DAC_READ_SEARCH)`. -/
  dacReadSearch : Bool

/-- What is known of the inode besides its attributes. -/
structure InodeFlags where
  /-- `IS_RDONLY(inode)`. -/
  isRdonly : Bool
  /-- `IS_IMMUTABLE(inode)`. -/
  isImmutable : Bool

namespace Caller

variable (who : Caller)

/-- The mode shifted to the bits of the class of the caller: owner, group or others. -/
def classMode (uid gid : Word) (mode : BitVec 16) : BitVec 16 :=
  if who.fsuid = uid then mode >>> 6 else if who.inGroupP gid then mode >>> 3 else mode

/-- The bits of the class grant the mask. -/
def Granted (uid gid : Word) (mode : BitVec 16) (mask : Word) : Prop :=
  (who.classMode uid gid mode).setWidth 32 &&& mask &&& (mayRead ||| mayWrite ||| mayExec) = mask

/-- A capability overrides the bits. -/
def Overrides (mode : BitVec 16) (mask : Word) : Prop :=
  ((mask &&& mayExec = 0 ∨ mode &&& sIxugo ≠ 0 ∨ sIsdir mode) ∧ who.dacOverride) ∨
    ((mask = mayRead ∨ (sIsdir mode ∧ mask &&& mayWrite = 0)) ∧ who.dacReadSearch)

instance (uid gid : Word) (mode : BitVec 16) (mask : Word) :
    Decidable (who.Granted uid gid mode mask) := inferInstanceAs (Decidable (_ = _))

instance (mode : BitVec 16) (mask : Word) : Decidable (who.Overrides mode mask) :=
  inferInstanceAs (Decidable (_ ∨ _))

/-- The end of `uvfs_permission`: the bits of the class, then the capabilities.
Source: `dir.c`, `uvfs_permission`, lines 684–710. -/
def decides (uid gid : Word) (mode : BitVec 16) (mask : Word) : ℤ :=
  if who.Granted uid gid mode mask then 0 else if who.Overrides mode mask then 0 else eacces

end Caller

/-- A type of file that a read-only file system protects. -/
def Protected (mode : BitVec 16) : Prop := sIsreg mode ∨ sIsdir mode ∨ sIslnk mode

instance (mode : BitVec 16) : Decidable (Protected mode) := inferInstanceAs (Decidable (_ ∨ _))

/-- `mask & (MAY_READ | MAY_WRITE | MAY_EXEC)`. -/
def permissionMask (mask : Word) : Word := mask &&& (mayRead ||| mayWrite ||| mayExec)

/-- `uvfs_permission`.
Source: `dir.c`, `uvfs_permission`. -/
def uvfsPermission (who : Caller) (flags : InodeFlags) (inode : Inode) (mask : Word) : Wire ℤ :=
  let mask := permissionMask mask
  if mask &&& mayWrite ≠ 0 ∧ flags.isRdonly ∧ Protected inode.iMode then return erofs
  else if mask &&& mayWrite ≠ 0 ∧ flags.isImmutable then return eacces
  else if who.fsuid ≠ inode.attrUid then
    Wire.request (.getattr inode.fh) enomem fun reply =>
      if replyError reply ≠ 0 then replyError reply
      else
        -- the mode is that of the reply, owner and group are those of the inode
        who.decides inode.iUid inode.iGid
          ((attrAt reply (replyOffset .getattr 4)).iMode.setWidth 16) mask
  else return who.decides inode.iUid inode.iGid inode.iMode mask

section

variable {who : Caller} {flags : InodeFlags} {inode : Inode} {mask : Word} {x : Exchange}
  {rs : List VfsRequest} {uid gid uid' gid' : Word} {type type' mode : BitVec 16}

/-- The decision, from the mode for the read-only test, the owner and group, and the mode for the
bits. -/
def Caller.verdict (who : Caller) (flags : InodeFlags) (type : BitVec 16) (uid gid : Word)
    (mode : BitVec 16) (mask : Word) : ℤ :=
  if mask &&& mayWrite ≠ 0 ∧ flags.isRdonly ∧ Protected type then erofs
  else if mask &&& mayWrite ≠ 0 ∧ flags.isImmutable then eacces
  else who.decides uid gid mode mask

/-- The decision on an inode that was fetched for another user. -/
theorem run_uvfsPermission_of_ne (hother : inode.attrUid ≠ who.fsuid)
    (htrans : x.transaction = true) (hreply : replyError (x.reply (.getattr inode.fh)) = 0) :
    ((uvfsPermission who flags inode mask).run x.serve rs).1 =
      who.verdict flags inode.iMode inode.iUid inode.iGid
        ((attrAt (x.reply (.getattr inode.fh)) (replyOffset .getattr 4)).iMode.setWidth 16)
        (permissionMask mask) := by
  unfold uvfsPermission Caller.verdict
  simp only [Dialogue.run_ite, run_request, Dialogue.run_pure, htrans, hreply, if_true, ne_eq,
    hother.symm, not_true_eq_false, not_false_eq_true, if_false]
  split_ifs
  · rfl
  · rfl
  · rfl

/-- The decision on an inode that was fetched for the caller. -/
theorem run_uvfsPermission_of_eq (hown : inode.attrUid = who.fsuid) :
    ((uvfsPermission who flags inode mask).run x.serve rs).1 =
      who.verdict flags inode.iMode inode.iUid inode.iGid inode.iMode (permissionMask mask) := by
  unfold uvfsPermission Caller.verdict
  simp only [Dialogue.run_ite, Dialogue.run_pure, hown, ne_eq, not_true_eq_false, if_false]
  split_ifs
  · rfl
  · rfl
  · rfl

theorem decides_eq_zero_iff :
    who.decides uid gid mode mask = 0 ↔
      who.Granted uid gid mode mask ∨ who.Overrides mode mask := by
  unfold Caller.decides
  split_ifs with hgranted hoverrides
  · simp [hgranted]
  · simp [hoverrides]
  · simp [hgranted, hoverrides, eacces]

theorem decides_cases :
    who.decides uid gid mode mask = 0 ∨ who.decides uid gid mode mask = eacces := by
  unfold Caller.decides
  split_ifs
  · exact .inl rfl
  · exact .inl rfl
  · exact .inr rfl

theorem decides_eq_iff :
    who.decides uid gid mode mask = who.decides uid' gid' mode mask ↔
      who.Overrides mode mask ∨
        (who.Granted uid gid mode mask ↔ who.Granted uid' gid' mode mask) := by
  have hzero : who.decides uid gid mode mask = who.decides uid' gid' mode mask ↔
      (who.decides uid gid mode mask = 0 ↔ who.decides uid' gid' mode mask = 0) := by
    rcases @decides_cases who mask uid gid mode with h | h <;>
    rcases @decides_cases who mask uid' gid' mode with h' | h' <;>
    simp [h, h', eacces]
  rw [hzero, decides_eq_zero_iff, decides_eq_zero_iff]
  by_cases hoverrides : who.Overrides mode mask
  · simp only [hoverrides, or_true, true_or]
  · simp only [hoverrides, or_false, false_or]

theorem decides_ne_erofs : who.decides uid gid mode mask ≠ erofs := by
  rcases @decides_cases who mask uid gid mode with h | h
  · rw [h]
    decide
  · rw [h]
    decide

/-- Two decisions by the same two tests, the first of which has a value of its own. -/
theorem layered_eq_iff {E E' W : Prop} [Decidable E] [Decidable E'] [Decidable W] {a b d d' : ℤ}
    (hb : b ≠ a) (hd : d ≠ a) (hd' : d' ≠ a) :
    ((if E then a else if W then b else d) = if E' then a else if W then b else d') ↔
      (E ↔ E') ∧ (E' ∨ W ∨ d = d') := by
  by_cases hE : E <;> by_cases hE' : E' <;> by_cases hW : W <;>
    simp [hE, hE', hW, hb, hd, hb.symm, hd'.symm]

/-- When two decisions with the same bits are the same. -/
theorem verdict_eq_iff :
    who.verdict flags type uid gid mode mask = who.verdict flags type' uid' gid' mode mask ↔
      (mask &&& mayWrite ≠ 0 ∧ flags.isRdonly → (Protected type ↔ Protected type')) ∧
      ((mask &&& mayWrite ≠ 0 ∧ flags.isRdonly ∧ Protected type') ∨
        (mask &&& mayWrite ≠ 0 ∧ flags.isImmutable) ∨ who.Overrides mode mask ∨
        (who.Granted uid gid mode mask ↔ who.Granted uid' gid' mode mask)) := by
  unfold Caller.verdict
  rw [layered_eq_iff (by decide) decides_ne_erofs decides_ne_erofs, decides_eq_iff]
  refine and_congr_left fun _ => ?_
  rw [← and_assoc, ← and_assoc, and_congr_right_iff]

/-- A getattr reply with a mode and an owner, zero elsewhere. -/
def getattrReply (a : UvfsAttr) : Mem :=
  (Mem.setWord (fun _ => 0) (replyOffset .getattr 4) a.iMode).setWord
    (replyOffset .getattr 4 + 8) a.iUid

/-- A file that has changed hands since root looked at it: its new owner is judged as one of the
others. -/
theorem new_owner_is_refused :
    let inode := uvfsIget .w64 0 ⟨0, 0, 0, 1, 0, 3, 7, 0⟩ { attrOfMode 0o100600 with iUid := 1000 }
      none
    let who : Caller := ⟨2000, fun _ => false, false, false⟩
    let x : Exchange := ⟨true, fun _ => getattrReply { attrOfMode 0o100600 with iUid := 2000 }⟩
    let attr := attrAt (x.reply (.getattr inode.fh)) (replyOffset .getattr 4)
    ((uvfsPermission who ⟨false, false⟩ inode mayRead).run x.serve []).1 = eacces ∧
      ((uvfsPermission who ⟨false, false⟩ (uvfsRefreshInode .w64 who.fsuid inode attr).1
        mayRead).run x.serve []).1 = 0 := by
  decide

/-- **When `uvfs_permission` has one view of the inode.**  For an inode that was fetched for another
user and a reply without an error, it decides as it would have after a refresh exactly when, on a
read-only file system, the cached mode and that of the reply are both of a protected type or
neither is, and, unless an earlier test or a capability decides, the class that the cached owner
and group give the caller is granted what the class by those of the reply is. -/
theorem permission_eq_refreshed_iff (l : LongWidth) (hother : inode.attrUid ≠ who.fsuid)
    (htrans : x.transaction = true) (hreply : replyError (x.reply (.getattr inode.fh)) = 0) :
    let attr := attrAt (x.reply (.getattr inode.fh)) (replyOffset .getattr 4)
    let mode := attr.iMode.setWidth 16
    let asked := permissionMask mask
    ((uvfsPermission who flags inode mask).run x.serve rs).1 =
        ((uvfsPermission who flags (uvfsRefreshInode l who.fsuid inode attr).1 mask).run
          x.serve rs).1 ↔
      (asked &&& mayWrite ≠ 0 ∧ flags.isRdonly → (Protected inode.iMode ↔ Protected mode)) ∧
      ((asked &&& mayWrite ≠ 0 ∧ flags.isRdonly ∧ Protected mode) ∨
        (asked &&& mayWrite ≠ 0 ∧ flags.isImmutable) ∨ who.Overrides mode asked ∨
        (who.Granted inode.iUid inode.iGid mode asked ↔
          who.Granted attr.iUid attr.iGid mode asked)) := by
  intro attr mode asked
  have hrefreshed : ((uvfsPermission who flags (uvfsRefreshInode l who.fsuid inode attr).1 mask).run
      x.serve rs).1 = who.verdict flags mode attr.iUid attr.iGid mode asked :=
    run_uvfsPermission_of_eq rfl
  rw [run_uvfsPermission_of_ne hother htrans hreply, hrefreshed]
  exact verdict_eq_iff

/-- The owner that both know. -/
theorem permission_eq_refreshed_iff_same_owner :
    let inode := uvfsIget .w64 0 ⟨0, 0, 0, 1, 0, 3, 7, 0⟩ { attrOfMode 0o100400 with iUid := 2000 }
      none
    let who : Caller := ⟨2000, fun _ => false, false, false⟩
    let x : Exchange := ⟨true, fun _ => getattrReply { attrOfMode 0o100600 with iUid := 2000 }⟩
    let attr := attrAt (x.reply (.getattr inode.fh)) (replyOffset .getattr 4)
    ((uvfsPermission who ⟨false, false⟩ inode mayWrite).run x.serve []).1 =
      ((uvfsPermission who ⟨false, false⟩ (uvfsRefreshInode .w64 who.fsuid inode attr).1
        mayWrite).run x.serve []).1 := by
  intro inode who x attr
  refine (@permission_eq_refreshed_iff who ⟨false, false⟩ inode mayWrite x [] .w64 (by decide) rfl
    (by decide)).mpr ⟨?_, .inr (.inr (.inr ?_))⟩
  · rintro ⟨-, hrdonly⟩
    cases hrdonly
  · decide

end

end Uvfs.Vfs
