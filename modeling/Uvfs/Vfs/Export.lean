import Uvfs.Lib.Dialogue
import Uvfs.Vfs.Cache

/-!
# Handles for NFS

`uvfs_encode_fh` writes the identity of a file, and of its parent, into an array of words that goes
to an NFS client and comes back to `uvfs_fh_to_dentry` (kernels from 2.6.32 on) or `uvfs_decode_fh`
(older ones).

* `uvfsEncodeFh` : the words it writes, the length and the type.
* `fhToDentry`, `decodeFh` : the functions with the words they read; `uvfsFhToDentry`,
  `uvfsDecodeFh` : the handles they make of an array.
* `encode_fh_round_trip` : an encoded handle leads back to the inode.
-/

namespace Uvfs.Vfs

open Transition

/-- What `uvfs_encode_fh` leaves behind. -/
structure EncodedFh where
  /-- The returned type. -/
  type : ℤ
  /-- `*max_len` after the call. -/
  maxLen : ℤ
  /-- The assignments to `fh[..]`, in order. -/
  writes : List (ℕ × Word)
  deriving DecidableEq

/-- The array after the assignments. -/
def EncodedFh.store (e : EncodedFh) (fh : ℕ → Word) : ℕ → Word :=
  e.writes.foldl (fun fh w => Function.update fh w.1 w.2) fh

/-- `uvfs_encode_fh`, for a dentry with the given inode and parent.
Source: `super.c`, `uvfs_encode_fh`. -/
def uvfsEncodeFh (inode parent : Inode) (maxLen : ℤ) (connectable : Bool) : EncodedFh :=
  if maxLen < 3 ∨ (connectable ∧ maxLen < 5) then ⟨255, maxLen, []⟩
  else
    let own := [(0, inode.fh.naAruid), (1, inode.fh.fsSfuid), (2, inode.fh.fsSbxid)]
    if connectable ∧ ¬ sIsdir inode.iMode then
      ⟨2, 5, own ++ [(3, parent.fh.fsSfuid), (4, parent.fh.fsSbxid)]⟩
    else ⟨1, 3, own⟩

/-! ## Reading an array of words -/

/-- A handle that is cleared and then given three words. -/
def wireHandle (aruid sfuid sbxid : Word) : Fhandle := ⟨0, 0, 0, aruid, 0, sbxid, sfuid, 0⟩

/-- A function that reads words of an array. -/
abbrev WordReader := Dialogue ℕ fun _ => Word

namespace WordReader

/-- `fh[i]`. -/
def read (i : ℕ) : WordReader Word := Dialogue.call i

/-- An array answers. -/
def answer (fh : ℕ → Word) (_ : Unit) (i : ℕ) : Word × Unit := (fh i, ())

variable {α : Type}

/-- The result on an array. -/
def value (fh : ℕ → Word) (d : WordReader α) : α := (d.run (answer fh) ()).1

/-- The indexes that are read, in their order. -/
def visited (fh : ℕ → Word) (d : WordReader α) : List ℕ := d.calls (answer fh) ()

/-- Clear a handle and give it the words at three indexes. -/
def handle (aruid sfuid sbxid : ℕ) : WordReader Fhandle := do
  return wireHandle (← read aruid) (← read sfuid) (← read sbxid)

end WordReader

open WordReader (handle)

/-- The handle that `uvfs_fh_to_dentry` gives to `uvfs_get_dentry`, `none` when it returns `NULL`.
Source: `super.c`, `uvfs_fh_to_dentry`. -/
def fhToDentry (fhLen fhType : ℤ) : WordReader (Option Fhandle) := do
  if fhLen < 3 ∨ fhType > 2 then return none
  else return some (← handle 0 1 2)

/-- The handles that `uvfs_decode_fh` gives to `find_exported_dentry`, `none` when it does not call
it.  The case 2 falls through into the case 1.
Source: `super.c`, `uvfs_decode_fh`. -/
def decodeFh (_fhLen fhType : ℤ) : WordReader (Option (Fhandle × Option Fhandle)) := do
  if fhType = 2 then
    let parent ← handle 0 3 4
    return some (← handle 0 1 2, some parent)
  else if fhType = 1 then return some (← handle 0 1 2, none)
  else return none

/-- The handle that `uvfs_fh_to_dentry` makes of an array. -/
def fhToHandle (raw : ℕ → Word) (fhLen fhType : ℤ) : Option Fhandle :=
  (fhToDentry fhLen fhType).value raw

/-- `uvfs_fh_to_dentry`.
Source: `super.c`, `uvfs_fh_to_dentry`. -/
def uvfsFhToDentry (hash : ℕ → ℕ → ℕ) (l : LongWidth) (c : InodeCache) (sb : ℕ) (fsuid : Word)
    (raw : ℕ → Word) (fhLen fhType : ℤ) (reply : Option (ℤ × UvfsAttr)) (memory : Bool) :
    Option (Except ℤ ℕ) × InodeCache :=
  match fhToHandle raw fhLen fhType with
  | none => (none, c)
  | some handle =>
      let (result, c) := uvfsGetDentry hash l c sb fsuid handle reply memory
      (some result, c)

/-- The handles that `uvfs_decode_fh` makes of an array. -/
def uvfsDecodeFh (fh : ℕ → Word) (fhLen fhType : ℤ) : Option (Fhandle × Option Fhandle) :=
  (decodeFh fhLen fhType).value fh

section

variable {fh : ℕ → Word} {fhLen fhType : ℤ}

attribute [local simp] WordReader.value WordReader.handle WordReader.read WordReader.answer

/-- The handle of `uvfs_fh_to_dentry`, without the reads. -/
theorem value_fhToDentry : (fhToDentry fhLen fhType).value fh =
    if fhLen < 3 ∨ fhType > 2 then none else some (wireHandle (fh 0) (fh 1) (fh 2)) := by
  unfold fhToDentry
  split_ifs with h
  · simp
  · simp

/-- The handles of `uvfs_decode_fh`, without the reads. -/
theorem value_decodeFh : (decodeFh fhLen fhType).value fh =
    if fhType = 2 then
      some (wireHandle (fh 0) (fh 1) (fh 2), some (wireHandle (fh 0) (fh 3) (fh 4)))
    else if fhType = 1 then some (wireHandle (fh 0) (fh 1) (fh 2), none)
    else none := by
  unfold decodeFh
  split_ifs with h₂ h₁
  · simp
  · simp
  · simp

end

/-! ## Round trips -/

variable {hash : ℕ → ℕ → ℕ} {l : LongWidth} {c : InodeCache} {inode parent : Inode} {maxLen : ℤ}
  {connectable : Bool}

/-- The two outcomes of an encoding that does not fail. -/
theorem uvfsEncodeFh_cases (h : (uvfsEncodeFh inode parent maxLen connectable).type ≠ 255) :
    (5 ≤ maxLen ∧ uvfsEncodeFh inode parent maxLen connectable =
      ⟨2, 5, [(0, inode.fh.naAruid), (1, inode.fh.fsSfuid), (2, inode.fh.fsSbxid),
        (3, parent.fh.fsSfuid), (4, parent.fh.fsSbxid)]⟩) ∨
    (3 ≤ maxLen ∧ uvfsEncodeFh inode parent maxLen connectable =
      ⟨1, 3, [(0, inode.fh.naAruid), (1, inode.fh.fsSfuid), (2, inode.fh.fsSbxid)]⟩) := by
  unfold uvfsEncodeFh at h ⊢
  split_ifs at h ⊢ with hshort hparent
  · exact absurd rfl h
  · rw [not_or, not_and] at hshort
    exact .inl ⟨not_lt.mp (hshort.2 hparent.1), rfl⟩
  · rw [not_or] at hshort
    exact .inr ⟨not_lt.mp hshort.1, rfl⟩

/-- The words that are written. -/
theorem writes_uvfsEncodeFh (h : (uvfsEncodeFh inode parent maxLen connectable).type ≠ 255) :
    let e := uvfsEncodeFh inode parent maxLen connectable
    (∀ w ∈ e.writes, (w.1 : ℤ) < maxLen) ∧ e.maxLen = e.writes.length ∧
      (e.writes.map Prod.fst).Nodup := by
  intro e
  rcases uvfsEncodeFh_cases h with ⟨hlen, heq⟩ | ⟨hlen, heq⟩
  · simp [e, heq]
    omega
  · simp [e, heq]
    omega

/-- The first three words, whatever the outcome. -/
theorem store_uvfsEncodeFh (h : (uvfsEncodeFh inode parent maxLen connectable).type ≠ 255)
    (fh : ℕ → Word) :
    (uvfsEncodeFh inode parent maxLen connectable).store fh 0 = inode.fh.naAruid ∧
      (uvfsEncodeFh inode parent maxLen connectable).store fh 1 = inode.fh.fsSfuid ∧
      (uvfsEncodeFh inode parent maxLen connectable).store fh 2 = inode.fh.fsSbxid := by
  rcases uvfsEncodeFh_cases h with ⟨-, heq⟩ | ⟨-, heq⟩
  · simp [heq, EncodedFh.store]
  · simp [heq, EncodedFh.store]

/-- Both decoders make the same handle of an encoded one. -/
theorem decode_uvfsEncodeFh (h : (uvfsEncodeFh inode parent maxLen connectable).type ≠ 255)
    (fh : ℕ → Word) :
    let e := uvfsEncodeFh inode parent maxLen connectable
    fhToHandle (e.store fh) e.maxLen e.type =
        some (wireHandle inode.fh.naAruid inode.fh.fsSfuid inode.fh.fsSbxid) ∧
      (uvfsDecodeFh (e.store fh) e.maxLen e.type).map Prod.fst =
        some (wireHandle inode.fh.naAruid inode.fh.fsSfuid inode.fh.fsSbxid) := by
  intro e
  obtain ⟨h₀, h₁, h₂⟩ := store_uvfsEncodeFh h fh
  have htype : (e.type = 2 ∧ e.maxLen = 5) ∨ (e.type = 1 ∧ e.maxLen = 3) := by
    rcases uvfsEncodeFh_cases h with ⟨-, heq⟩ | ⟨-, heq⟩
    · exact .inl ⟨congrArg EncodedFh.type heq, congrArg EncodedFh.maxLen heq⟩
    · exact .inr ⟨congrArg EncodedFh.type heq, congrArg EncodedFh.maxLen heq⟩
  rcases htype with ⟨ht, hm⟩ | ⟨ht, hm⟩
  · simp [fhToHandle, uvfsDecodeFh, value_fhToDentry, value_decodeFh, ht, hm, e, h₀, h₁, h₂]
  · simp [fhToHandle, uvfsDecodeFh, value_fhToDentry, value_decodeFh, ht, hm, e, h₀, h₁, h₂]

/-- **An encoded handle leads back to the inode**: `uvfs_encode_fh` stays inside the array and
reports how many words it wrote; both decoders make a handle of them that `uvfs_compare_inode`
accepts for this inode and for no inode with another identity, and that names the bucket of the
inode; so `uvfs_get_dentry` finds the inode for as long as it is cached. -/
theorem encode_fh_round_trip {s : Slot ℕ CachedInode} (hc : IcacheReach hash l c)
    (hs : s ∈ c.slots) (fh : ℕ → Word)
    (hok : (uvfsEncodeFh s.item.inode parent maxLen connectable).type ≠ 255) :
    let e := uvfsEncodeFh s.item.inode parent maxLen connectable
    (∀ w ∈ e.writes, (w.1 : ℤ) < maxLen) ∧ e.maxLen = e.writes.length ∧
      (e.writes.map Prod.fst).Nodup ∧
      ∃ handle, fhToHandle (e.store fh) e.maxLen e.type = some handle ∧
        (uvfsDecodeFh (e.store fh) e.maxLen e.type).map Prod.fst = some handle ∧
        (∀ inode, uvfsCompareInode inode handle = true ↔
          inode.fh.identity = s.item.inode.fh.identity) ∧
        hash s.item.sb handle.hashval = s.bucket ∧
        ∀ c', Reach (icacheStep hash l) (fun _ _ => True) c c' → (c'.get? s.id).isSome →
          ∀ fsuid reply memory,
            uvfsGetDentry hash l c' s.item.sb fsuid handle reply memory = (.ok s.id, c') ∧
            uvfsFhToDentry hash l c' s.item.sb fsuid (e.store fh) e.maxLen e.type reply memory =
              (some (.ok s.id), c') := by
  intro e
  obtain ⟨hnew, hold⟩ := decode_uvfsEncodeFh hok fh
  have hcanon := IcacheReach.canonical hc
  obtain ⟨hbelow, hcount, hnodup⟩ := writes_uvfsEncodeFh hok
  refine ⟨hbelow, hcount, hnodup, _, hnew, hold, ?_, ?_, ?_⟩
  · intro inode
    exact uvfsCompareInode_iff
  · exact (hcanon.bucket s hs).symm
  · intro c' hreach hcached fsuid reply memory
    obtain ⟨hcanon', hsince⟩ := reach_canonical hcanon hreach
    obtain ⟨s', hget⟩ := Option.isSome_iff_exists.mp hcached
    obtain ⟨hs', hid⟩ := Table.mem_of_get?_eq_some hget
    have hkey : s'.item.key = s.item.key := hsince.key_eq hcanon hs hs' hid
    have hdentry := @uvfsGetDentry_of_mem hash l c' s.item.sb fsuid
      (wireHandle s.item.inode.fh.naAruid s.item.inode.fh.fsSfuid s.item.inode.fh.fsSbxid) memory
      hcanon' s' hs' hkey reply
    rw [hid] at hdentry
    refine ⟨hdentry, ?_⟩
    simp only [uvfsFhToDentry, hnew, e, hdentry]

/-- A connectable handle of a file. -/
theorem encode_fh_round_trip_five : ∃ c s, IcacheReach (fun _ h => h) .w64 c ∧ s ∈ c.slots ∧
    (uvfsEncodeFh s.item.inode (newInode ⟨0, 0, 0, 1, 0, 4, 2, 0⟩) 5 true).type = 2 ∧
    ∃ handle,
      uvfsGetDentry (fun _ h => h) .w64 c s.item.sb 1 handle none false = (.ok s.id, c) := by
  have hreach : IcacheReach (fun _ h => h) .w64
      (igetCached (fun _ h => h) .w64 .empty 0 1 ⟨5, 0, 0, 1, 0, 3, 7, 0⟩ (attrOfMode 0o100644)
        true).2 :=
    Reach.refl.tail (a := .iget 0 1 ⟨5, 0, 0, 1, 0, 3, 7, 0⟩ (attrOfMode 0o100644) true) trivial rfl
  refine ⟨_, _, hreach, List.mem_cons_self, by decide, ?_⟩
  obtain ⟨-, -, -, handle, -, -, -, -, hfind⟩ := @encode_fh_round_trip (fun _ h => h) .w64 _
    (newInode ⟨0, 0, 0, 1, 0, 4, 2, 0⟩) 5 true _ hreach List.mem_cons_self (fun _ => 0) (by decide)
  exact ⟨handle, (hfind _ .refl rfl 1 none false).1⟩

end Uvfs.Vfs
