import Uvfs.Lib.Width
import Uvfs.Vfs.Attributes
import Uvfs.Vfs.Encoding

/-!
# Attributes on the wire

`uvfs_setattr` puts the attributes into `unsigned` members of 32 bits, and `uvfs_refresh_inode`
takes them out of such members again, into the kernel's own types.  The server keeps what it is
sent.

* `AttrServer.serve` : the server, which reads the bytes of a request and answers with its
  attributes.
* `Iattr.Settable` : what the kernel lets through to `uvfs_setattr`.
* `Iattr.ShownBy` : an inode has the attributes that are flagged.
* `attributes_survive_iff` : when the inode has them after `uvfs_setattr` and a refresh.
-/

namespace Uvfs.Vfs

/-- `ATTR_ATIME`. -/
def AttrFlag.atime : Word := 16

/-- `ATTR_MTIME`. -/
def AttrFlag.mtime : Word := 32

/-- `ATTR_CTIME`. -/
def AttrFlag.ctime : Word := 64

/-! ## Times -/

namespace LongWidth

/-- A number that a `long` can hold. -/
def Holds (l : LongWidth) (i : ℤ) : Prop := -2 ^ (l.bits - 1) ≤ i ∧ i < 2 ^ (l.bits - 1)

instance (l : LongWidth) (i : ℤ) : Decidable (l.Holds i) := inferInstanceAs (Decidable (_ ∧ _))

/-- A `long` that is sent as an `unsigned` and taken back: a `long` of 32 bits keeps its bits, one
of 64 has to fit. -/
theorem ofUnsigned_ofInt_eq_iff {l : LongWidth} {i : ℤ} (h : l.Holds i) :
    l.ofUnsigned (BitVec.ofInt 32 i) = i ↔ l = .w32 ∨ 0 ≤ i ∧ i < 2 ^ 32 := by
  cases l with
  | w32 =>
      simp only [true_or, iff_true]
      rw [ofUnsigned, bits, BitVec.setWidth_eq]
      exact BitVec.toInt_ofInt_eq_self (by decide) h.1 h.2
  | w64 =>
      simp only [reduceCtorEq, false_or]
      exact Width.toInt_setWidth_ofInt_eq_iff (by decide) i

end LongWidth

/-- A time that the kernel admits. -/
structure Timespec.Admitted (l : LongWidth) (t : Timespec) : Prop where
  tvSec : l.Holds t.tvSec
  tvNsec : 0 ≤ t.tvNsec ∧ t.tvNsec < 10 ^ 9

/-- The seconds fit into the `unsigned` of the protocol. -/
def Timespec.Fits (t : Timespec) : Prop := 0 ≤ t.tvSec ∧ t.tvSec < 2 ^ 32

instance (t : Timespec) : Decidable t.Fits := inferInstanceAs (Decidable (_ ∧ _))

/-- A time that is sent and taken back. -/
theorem timespec_toUvfs_eq_iff {l : LongWidth} {t : Timespec} (h : t.Admitted l) :
    timespec l t.toUvfs = t ↔ l = .w32 ∨ t.Fits := by
  obtain ⟨hsec, hnsec₀, hnsec₁⟩ := h
  have hholds : l.Holds t.tvNsec := by
    unfold LongWidth.Holds
    cases l with
    | w32 => simp only [LongWidth.bits]; omega
    | w64 => simp only [LongWidth.bits]; omega
  have hnsec : l.ofUnsigned (BitVec.ofInt 32 t.tvNsec) = t.tvNsec :=
    (LongWidth.ofUnsigned_ofInt_eq_iff hholds).mpr (.inr ⟨hnsec₀, by omega⟩)
  unfold Timespec.Fits
  rw [← LongWidth.ofUnsigned_ofInt_eq_iff hsec]
  unfold timespec Timespec.toUvfs
  rw [hnsec]
  refine ⟨fun h => congrArg Timespec.tvSec h, fun h => ?_⟩
  rw [h]

namespace Iattr

/-- Every time that is flagged has a property. -/
structure EachTime (a : Iattr) (p : Timespec → Prop) : Prop where
  atime : a.iaValid &&& AttrFlag.atime ≠ 0 → p a.iaAtime
  mtime : a.iaValid &&& AttrFlag.mtime ≠ 0 → p a.iaMtime
  ctime : a.iaValid &&& AttrFlag.ctime ≠ 0 → p a.iaCtime

variable {a : Iattr} {p q r : Timespec → Prop}

theorem EachTime.imp₂ (hp : a.EachTime p) (hq : a.EachTime q) (h : ∀ t, p t → q t → r t) :
    a.EachTime r where
  atime hv := h _ (hp.atime hv) (hq.atime hv)
  mtime hv := h _ (hp.mtime hv) (hq.mtime hv)
  ctime hv := h _ (hp.ctime hv) (hq.ctime hv)

/-- The flagged times come back: always on 32 bits, and on 64 if their seconds fit. -/
theorem eachTime_survives_iff {l : LongWidth} (h : a.EachTime (Timespec.Admitted l)) :
    a.EachTime (fun t => timespec l t.toUvfs = t) ↔ l = .w32 ∨ a.EachTime Timespec.Fits := by
  refine ⟨fun hs => ?_, fun hf => ?_⟩
  · cases l with
    | w32 => exact .inl rfl
    | w64 =>
        refine .inr (h.imp₂ hs fun t hadm ht => ?_)
        exact ((timespec_toUvfs_eq_iff hadm).mp ht).resolve_left nofun
  · rcases hf with hl | hf
    · exact h.imp₂ h fun t hadm _ => (timespec_toUvfs_eq_iff hadm).mpr (.inl hl)
    · exact h.imp₂ hf fun t hadm ht => (timespec_toUvfs_eq_iff hadm).mpr (.inr ht)

end Iattr

/-! ## The server -/

/-- The attributes after a request: those that `ia_valid` names are stored as the request has
them. -/
def UvfsAttr.set (a : UvfsAttr) : Message → UvfsAttr
  | .setattr _ _ _ valid uid gid size atime mtime ctime mode =>
      { a with
        iMode := if valid &&& AttrFlag.mode ≠ 0 then mode else a.iMode
        iUid := if valid &&& AttrFlag.uid ≠ 0 then uid else a.iUid
        iGid := if valid &&& AttrFlag.gid ≠ 0 then gid else a.iGid
        iSize := if valid &&& AttrFlag.size ≠ 0 then size else a.iSize
        iAtime := if valid &&& AttrFlag.atime ≠ 0 then atime else a.iAtime
        iMtime := if valid &&& AttrFlag.mtime ≠ 0 then mtime else a.iMtime
        iCtime := if valid &&& AttrFlag.ctime ≠ 0 then ctime else a.iCtime }
  | _ => a

/-- A reply without error that carries the attributes. -/
def attrReply (a : UvfsAttr) : Mem :=
  Mem.ofWords [BitVec.ofNat 32 (RequestType.code .getattr), 0,
    BitVec.ofNat 32 (replyLayout .getattr).sum, 0, a.iMode, a.iNlink, a.iUid, a.iGid, a.iSize,
    a.iAtime.tvSec, a.iAtime.tvNsec, a.iMtime.tvSec, a.iMtime.tvNsec, a.iCtime.tvSec,
    a.iCtime.tvNsec, a.iBlksize, a.iBlocks, a.devno]

@[simp] theorem replyError_attrReply (a : UvfsAttr) : replyError (attrReply a) = 0 := by
  rw [replyError, attrReply, Mem.word_ofWords (by decide)]
  rfl

@[simp] theorem attrAt_attrReply (a : UvfsAttr) :
    attrAt (attrReply a) (replyOffset .getattr 4) = a := by
  have hoff : replyOffset .getattr 4 = 16 := by decide
  rw [hoff]
  simp [attrAt, attrReply, Mem.word_ofWords]

/-- How requests reach the server: the width of `long`, the caller, the serial, and what the memory
of a transaction held before. -/
structure AttrServer where
  /-- The width of `long` in the kernel. -/
  l : LongWidth
  /-- The caller. -/
  cred : Cred
  /-- The serial of a request. -/
  serial : Word
  /-- The memory in which a request is built. -/
  stale : Mem

namespace AttrServer

variable (x : AttrServer)

/-- The attributes after the bytes of a request have been read. -/
def after (a : UvfsAttr) (r : VfsRequest) : UvfsAttr :=
  match decode (delivered ((r.built x.l x.cred x.serial).store x.stale)) with
  | some (_, m) => a.set m
  | none => a

/-- The server: it stores what a request sets and answers with the attributes it has. -/
def serve (a : UvfsAttr) : (q : WireCall) → q.Answer × UvfsAttr
  | .newTransaction => (true, a)
  | .makeRequest r => (attrReply (x.after a r), x.after a r)
  | .kfree => ((), a)

@[simp] theorem run_request {α : Type} (a : UvfsAttr) (r : VfsRequest) (noMemory : α)
    (read : Mem → α) : (Wire.request r noMemory read).run x.serve a =
      (read (attrReply (x.after a r)), x.after a r) := rfl

/-- Every request is read as it was meant. -/
theorem after_eq {r : VfsRequest} (h : r.Accepted) (a : UvfsAttr) :
    x.after a r = a.set (r.message x.l x.cred) := by
  rw [after, VfsRequest.decode_delivered h]

end AttrServer

/-! ## There and back -/

namespace Iattr

/-- The attributes that reach `uvfs_setattr`'s request: `inode_setattr` has accepted the size, and
the times are those of the kernel. -/
structure Settable (l : LongWidth) (a : Iattr) : Prop where
  size : a.iaValid &&& AttrFlag.size ≠ 0 → 0 ≤ a.iaSize ∧ a.iaSize ≤ sMaxbytes
  times : a.EachTime (Timespec.Admitted l)

/-- The inode has the attributes that are flagged. -/
structure ShownBy (a : Iattr) (i : Inode) : Prop where
  mode : a.iaValid &&& AttrFlag.mode ≠ 0 → i.iMode = a.iaMode
  uid : a.iaValid &&& AttrFlag.uid ≠ 0 → i.iUid = a.iaUid
  gid : a.iaValid &&& AttrFlag.gid ≠ 0 → i.iGid = a.iaGid
  size : a.iaValid &&& AttrFlag.size ≠ 0 → i.iSize = a.iaSize
  atime : a.iaValid &&& AttrFlag.atime ≠ 0 → i.iAtime = a.iaAtime
  mtime : a.iaValid &&& AttrFlag.mtime ≠ 0 → i.iMtime = a.iaMtime
  ctime : a.iaValid &&& AttrFlag.ctime ≠ 0 → i.iCtime = a.iaCtime

end Iattr

section

variable {l : LongWidth} {c : Cred} {inode : Inode} {attr : Iattr} {x : AttrServer} {k : AttrKernel}

/-- A refresh from the attributes that the request has set: everything but the times is there. -/
theorem shownBy_refreshed_iff (h : attr.Settable l) (fsuid : Word) (i : Inode) (a : UvfsAttr) :
    attr.ShownBy (uvfsRefreshInode l fsuid i
      (a.set (VfsRequest.message l c (.setattr inode attr)))).1 ↔
      attr.EachTime fun t => timespec l t.toUvfs = t := by
  have hmode : (attr.iaMode.setWidth 32).setWidth 16 = attr.iaMode := by
    rw [BitVec.setWidth_setWidth_of_le _ (by decide), BitVec.setWidth_eq]
  have hsize : attr.iaValid &&& AttrFlag.size ≠ 0 →
      ((BitVec.ofInt 32 attr.iaSize).toNat : ℤ) = attr.iaSize := by
    intro hv
    obtain ⟨h₀, h₁⟩ := h.size hv
    refine Width.toNat_ofInt_of_lt h₀ (lt_of_le_of_lt h₁ ?_)
    decide
  -- a time of the inode is the one that was sent, taken back
  have htime : ∀ {flag : Word} {sent old : UvfsTimespec}, attr.iaValid &&& flag ≠ 0 →
      timespec l sent = timespec l (if attr.iaValid &&& flag ≠ 0 then sent else old) := by
    intro flag sent old hv
    rw [if_pos hv]
  constructor
  · intro hs
    exact ⟨fun hv => (htime hv).trans (hs.atime hv), fun hv => (htime hv).trans (hs.mtime hv),
      fun hv => (htime hv).trans (hs.ctime hv)⟩
  · intro ht
    refine ⟨fun hv => ?_, fun hv => ?_, fun hv => ?_, fun hv => ?_, fun hv => ?_, fun hv => ?_,
      fun hv => ?_⟩
    all_goals
      simp only [uvfsRefreshInode, setAttributes, UvfsAttr.set, VfsRequest.message, if_pos hv]
    · exact hmode
    · exact hsize hv
    · exact ht.atime hv
    · exact ht.mtime hv
    · exact ht.ctime hv

/-- `uvfs_setattr` with a change that the kernel accepts and the server stores. -/
theorem run_uvfsSetattr_stored (hok : 0 ≤ (k.inodeChangeOk inode attr).1)
    (hset : (k.inodeSetattr inode (k.changed inode attr).withoutTimes).1 = 0) (a : UvfsAttr) :
    let inode' := (k.inodeSetattr inode (k.changed inode attr).withoutTimes).2
    (uvfsSetattr k inode attr).run x.serve a = (⟨0, inode', k.changed inode attr⟩,
      a.set (VfsRequest.message x.l x.cred (.setattr inode' (k.changed inode attr)))) := by
  intro inode'
  have hreply := x.after_eq (r := .setattr inode' (k.changed inode attr)) trivial a
  unfold uvfsSetattr
  rw [if_neg (not_lt.mpr hok)]
  simp only [hset, ne_eq, not_true_eq_false, if_false, AttrServer.run_request, hreply,
    replyError_attrReply, inode']

/-- `uvfs_setattr`, and `uvfs_revalidate_inode` after it. -/
def setattrAndRevalidate (x : AttrServer) (k : AttrKernel) (inode : Inode) (attr : Iattr) :
    Wire (SetattrOutcome × Inode) := do
  let set ← uvfsSetattr k inode attr
  let (_, inode) ← uvfsRevalidateInode x.l x.cred.fsuid set.inode
  return (set, inode)

/-- What the two leave: the inode is refreshed from what the request has set. -/
theorem run_setattrAndRevalidate (hok : 0 ≤ (k.inodeChangeOk inode attr).1)
    (hset : (k.inodeSetattr inode (k.changed inode attr).withoutTimes).1 = 0) (a : UvfsAttr) :
    let inode' := (k.inodeSetattr inode (k.changed inode attr).withoutTimes).2
    ((setattrAndRevalidate x k inode attr).run x.serve a).1 = (⟨0, inode', k.changed inode attr⟩,
      (uvfsRefreshInode x.l x.cred.fsuid inode' (a.set (VfsRequest.message x.l x.cred
        (.setattr inode' (k.changed inode attr))))).1) := by
  have hrun := run_uvfsSetattr_stored (x := x) hok hset a
  have hget : ∀ a fh, x.after a (.getattr fh) = a := fun a fh =>
    x.after_eq (r := .getattr fh) trivial a
  simp only [setattrAndRevalidate, Dialogue.run_bind, hrun, uvfsRevalidateInode,
    AttrServer.run_request, hget, replyError_attrReply, attrAt_attrReply, if_true,
    Dialogue.run_pure]

/-- **Attributes survive the wire if the times fit.**  For every change that the kernel accepts and
the server stores: after `uvfs_setattr` and a refresh from the server's attributes the inode has the
mode, the owner, the group, the size and the times that are flagged if and only if `long` has 32
bits or the seconds of the flagged times lie between 0 and `2 ^ 32 - 1`. -/
theorem attributes_survive_iff (hok : 0 ≤ (k.inodeChangeOk inode attr).1)
    (hset : (k.inodeSetattr inode (k.changed inode attr).withoutTimes).1 = 0)
    (h : (k.changed inode attr).Settable x.l) (a : UvfsAttr) :
    let r := ((setattrAndRevalidate x k inode attr).run x.serve a).1
    r.1.attr.ShownBy r.2 ↔ x.l = .w32 ∨ r.1.attr.EachTime Timespec.Fits := by
  rw [run_setattrAndRevalidate hok hset]
  exact (shownBy_refreshed_iff h _ _ a).trans (Iattr.eachTime_survives_iff h.times)

end

/-- A caller with nothing in particular, on 64 bits. -/
def AttrServer.plain : AttrServer := ⟨.w64, ⟨0, 0⟩, 1, fun _ => 0⟩

/-- A truncation to the largest size, with a time behind 2038. -/
theorem attributes_survive_far_future :
    let inode := uvfsIget .w64 0 ⟨0, 0, 0, 1, 0, 3, 7, 0⟩ (attrOfMode 0o100644) none
    let attr : Iattr := ⟨AttrFlag.size ||| AttrFlag.mtime, 0, 0, 0, 0xFFFFFFFF, ⟨0, 0⟩,
      ⟨0xFFFFFFFF, 999999999⟩, ⟨0, 0⟩⟩
    let r := ((setattrAndRevalidate .plain .permissive inode attr).run AttrServer.plain.serve
      noAttr).1
    r.1.attr.ShownBy r.2 := by
  intro inode attr r
  have hsettable : (AttrKernel.permissive.changed inode attr).Settable .w64 := by
    refine ⟨fun _ => by decide, fun h => absurd h (by decide), fun _ => ?_,
      fun h => absurd h (by decide)⟩
    exact ⟨by decide, by decide⟩
  refine (@attributes_survive_iff inode attr .plain .permissive (by decide) rfl hsettable
    noAttr).mpr (.inr ⟨fun h => absurd h (by decide), fun _ => ?_, fun h => absurd h (by decide)⟩)
  decide

/-- The second before 1970: the file is dated 2106. -/
theorem old_time_comes_back_as_new :
    let inode := uvfsIget .w64 0 ⟨0, 0, 0, 1, 0, 3, 7, 0⟩ (attrOfMode 0o100644) none
    let attr : Iattr := ⟨AttrFlag.mtime, 0, 0, 0, 0, ⟨0, 0⟩, ⟨-1, 0⟩, ⟨0, 0⟩⟩
    let r := ((setattrAndRevalidate .plain .permissive inode attr).run AttrServer.plain.serve
      noAttr).1
    (AttrKernel.permissive.changed inode attr).Settable .w64 ∧ r.1.ret = 0 ∧
      r.1.attr.iaMtime = ⟨-1, 0⟩ ∧ r.2.iMtime = ⟨0xFFFFFFFF, 0⟩ ∧ ¬ r.1.attr.ShownBy r.2 := by
  intro inode attr r
  have hr : r = _ := @run_setattrAndRevalidate inode attr .plain .permissive (by decide) rfl noAttr
  have hmtime : r.2.iMtime = ⟨0xFFFFFFFF, 0⟩ := by
    rw [hr]
    decide
  refine ⟨⟨fun h => absurd h (by decide), fun h => absurd h (by decide), fun _ => ?_,
    fun h => absurd h (by decide)⟩, ?_, ?_, hmtime, fun h => ?_⟩
  · exact ⟨by decide, by decide⟩
  · rw [hr]
  · rw [hr]
    rfl
  · have hshown : r.2.iMtime = r.1.attr.iaMtime := h.mtime (by rw [hr]; decide)
    rw [hmtime, hr] at hshown
    exact absurd hshown (by decide)

end Uvfs.Vfs
