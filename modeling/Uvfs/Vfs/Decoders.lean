import Uvfs.Vfs.Dentry
import Uvfs.Vfs.Export

/-!
# The two decoders of NFS handles

Kernels from 2.6.32 on call `uvfs_fh_to_dentry` and `uvfs_fh_to_parent`, older ones
`uvfs_decode_fh`, on an array of words that an NFS client sent, with its length and its type.  An
NFS client may send any words, any length and any type.

* `fhToParent` : `uvfs_fh_to_parent` with the words it reads.
* `decoders_agree_iff` : when they stay inside the array and make the same handles of it.
* `parent_round_trip` : what becomes of the handle of a parent directory.
* `lookup_and_decode` : a name lookup and a decoded handle in either order.
-/

namespace Uvfs.Vfs

open Transition

/-! ## The words that are read -/

open WordReader (handle)

/-- The handle that `uvfs_fh_to_parent` gives to `uvfs_get_dentry`, `none` when it returns `NULL`.
Source: `super.c`, `uvfs_fh_to_parent`. -/
def fhToParent (fhLen fhType : ℤ) : WordReader (Option Fhandle) := do
  if fhLen < 5 ∨ fhType ≠ 2 then return none
  else return some (← handle 0 3 4)

section

variable {fh : ℕ → Word} {fhLen fhType : ℤ}

attribute [local simp] WordReader.value WordReader.visited WordReader.handle WordReader.read
  WordReader.answer

/-- The handle of `uvfs_fh_to_parent`. -/
theorem value_fhToParent : (fhToParent fhLen fhType).value fh =
    if fhLen < 5 ∨ fhType ≠ 2 then none else some (wireHandle (fh 0) (fh 3) (fh 4)) := by
  unfold fhToParent
  split_ifs with h
  · simp
  · simp

theorem visited_fhToDentry : (fhToDentry fhLen fhType).visited fh =
    if fhLen < 3 ∨ fhType > 2 then [] else [0, 1, 2] := by
  unfold fhToDentry
  split_ifs with h
  · simp
  · simp

theorem visited_fhToParent : (fhToParent fhLen fhType).visited fh =
    if fhLen < 5 ∨ fhType ≠ 2 then [] else [0, 3, 4] := by
  unfold fhToParent
  split_ifs with h
  · simp
  · simp

theorem visited_decodeFh : (decodeFh fhLen fhType).visited fh =
    if fhType = 2 then [0, 3, 4, 0, 1, 2] else if fhType = 1 then [0, 1, 2] else [] := by
  unfold decodeFh
  split_ifs with h₂ h₁
  · simp
  · simp
  · simp

end

/-! ## Forged handles -/

/-- What one would ask of the decoders for an array of `fhLen` words; the words from `fhLen` on lie
behind the array. -/
structure DecodersAgree (fh : ℕ → Word) (fhLen fhType : ℤ) : Prop where
  /-- No function reads behind the array. -/
  decodeFh_inside : ∀ i ∈ (decodeFh fhLen fhType).visited fh, (i : ℤ) < fhLen
  fhToDentry_inside : ∀ i ∈ (fhToDentry fhLen fhType).visited fh, (i : ℤ) < fhLen
  fhToParent_inside : ∀ i ∈ (fhToParent fhLen fhType).visited fh, (i : ℤ) < fhLen
  /-- Both accept the array or both refuse it, with the same handle. -/
  child : ((decodeFh fhLen fhType).value fh).map Prod.fst = (fhToDentry fhLen fhType).value fh
  /-- Both have a parent or both have none, with the same handle. -/
  parent : ((decodeFh fhLen fhType).value fh).bind Prod.snd = (fhToParent fhLen fhType).value fh

variable {fh : ℕ → Word} {fhLen fhType : ℤ}

/-- A handle of type 2 with three words: `uvfs_decode_fh` reads two words behind it. -/
theorem decodeFh_reads_behind_array :
    ¬ DecodersAgree (fun i => BitVec.ofNat 32 (i + 1)) 3 2 := by
  intro h
  have hread : 3 ∈ (decodeFh 3 2).visited fun i => BitVec.ofNat 32 (i + 1) := by
    rw [visited_decodeFh]
    decide
  exact absurd (h.decodeFh_inside 3 hread) (by decide)

/-- The lengths that fit a type: `uvfs_decode_fh` takes them for granted, and `uvfs_fh_to_dentry`
takes for granted that a type below 1 does not occur. -/
def LengthFits (fhLen fhType : ℤ) : Prop :=
  (fhType = 2 → 5 ≤ fhLen) ∧ (fhType = 1 → 3 ≤ fhLen) ∧ (fhType < 1 → fhLen < 3)

theorem DecodersAgree.lengthFits (h : DecodersAgree fh fhLen fhType) :
    LengthFits fhLen fhType := by
  refine ⟨?_, ?_, ?_⟩
  · intro htype
    have hread : 4 ∈ (decodeFh fhLen fhType).visited fh := by simp [visited_decodeFh, htype]
    have hinside := h.decodeFh_inside 4 hread
    omega
  · intro htype
    have hread : 2 ∈ (decodeFh fhLen fhType).visited fh := by simp [visited_decodeFh, htype]
    have hinside := h.decodeFh_inside 2 hread
    omega
  · intro htype
    by_contra hlen
    have hchild := h.child
    rw [value_decodeFh, value_fhToDentry, if_neg (by omega), if_neg (by omega),
      if_neg (by omega)] at hchild
    cases hchild

theorem LengthFits.decodersAgree (h : LengthFits fhLen fhType) :
    DecodersAgree fh fhLen fhType := by
  obtain ⟨htwo, hone, hzero⟩ := h
  refine ⟨?_, ?_, ?_, ?_, ?_⟩
  · intro i hi
    rw [visited_decodeFh] at hi
    split_ifs at hi with h₂ h₁
    · have hlen := htwo h₂
      simp only [List.mem_cons, List.not_mem_nil, or_false] at hi
      omega
    · have hlen := hone h₁
      simp only [List.mem_cons, List.not_mem_nil, or_false] at hi
      omega
    · cases hi
  · intro i hi
    rw [visited_fhToDentry] at hi
    split_ifs at hi with hshort
    · cases hi
    · simp only [List.mem_cons, List.not_mem_nil, or_false] at hi
      omega
  · intro i hi
    rw [visited_fhToParent] at hi
    split_ifs at hi with hshort
    · cases hi
    · simp only [List.mem_cons, List.not_mem_nil, or_false] at hi
      omega
  · rw [value_decodeFh, value_fhToDentry]
    split_ifs
    all_goals first
      | rfl
      | omega
  · rw [value_decodeFh, value_fhToParent]
    split_ifs
    all_goals first
      | rfl
      | omega

/-- **The decoders agree** on an array of `fhLen` words, and stay inside it, exactly when a handle
of type 2 has five words, one of type 1 has three, and one of a type below 1 has fewer. -/
theorem decoders_agree_iff : DecodersAgree fh fhLen fhType ↔
    (fhType = 2 → 5 ≤ fhLen) ∧ (fhType = 1 → 3 ≤ fhLen) ∧ (fhType < 1 → fhLen < 3) :=
  ⟨DecodersAgree.lengthFits, LengthFits.decodersAgree⟩

/-! ## The parent -/

section

variable {inode parent : Inode} {maxLen : ℤ}

/-- A connectable handle of what is not a directory. -/
theorem uvfsEncodeFh_connectable (hdir : ¬ sIsdir inode.iMode) (hlen : 5 ≤ maxLen) :
    uvfsEncodeFh inode parent maxLen true =
      ⟨2, 5, [(0, inode.fh.naAruid), (1, inode.fh.fsSfuid), (2, inode.fh.fsSbxid),
        (3, parent.fh.fsSfuid), (4, parent.fh.fsSbxid)]⟩ := by
  unfold uvfsEncodeFh
  rw [if_neg (by omega), if_pos ⟨rfl, hdir⟩]
  rfl

/-- A file and its directory in different archives: the handle of the parent that comes back names
the archive of the file. -/
theorem parent_in_another_archive :
    let inode := uvfsIget .w64 0 ⟨0, 0, 0, 1, 0, 3, 7, 0⟩ (attrOfMode 0o100644) none
    let parent := uvfsIget .w64 0 ⟨0, 0, 0, 2, 0, 3, 5, 0⟩ (attrOfMode 0o040755) none
    let e := uvfsEncodeFh inode parent 5 true
    ¬ ∃ handle, (fhToParent e.maxLen e.type).value (e.store fun _ => 0) = some handle ∧
      uvfsCompareInode parent handle = true := by
  decide

/-- **What becomes of the handle of the parent**: a connectable encoding of what is not a directory
has type 2, and both decoders make the same handle for the parent of it.  There is one word for
the archive, which is that of the file, so `uvfs_compare_inode` accepts the handle for the parent
exactly when both are in one archive. -/
theorem parent_round_trip (hdir : ¬ sIsdir inode.iMode) (hlen : 5 ≤ maxLen) (fh : ℕ → Word) :
    let e := uvfsEncodeFh inode parent maxLen true
    e.type = 2 ∧ ∃ handle, (fhToParent e.maxLen e.type).value (e.store fh) = some handle ∧
      ((decodeFh e.maxLen e.type).value (e.store fh)).bind Prod.snd = some handle ∧
      (uvfsCompareInode parent handle = true ↔ parent.fh.naAruid = inode.fh.naAruid) := by
  intro e
  have he : e = _ := uvfsEncodeFh_connectable hdir hlen
  refine ⟨by rw [he], wireHandle inode.fh.naAruid parent.fh.fsSfuid parent.fh.fsSbxid, ?_, ?_, ?_⟩
  · rw [value_fhToParent, he]
    simp [EncodedFh.store]
  · rw [value_decodeFh, he]
    simp [EncodedFh.store]
  · rw [uvfsCompareInode_iff]
    simp [Fhandle.identity, wireHandle]

/-- A file and its directory in one archive. -/
theorem parent_round_trip_one_archive :
    let inode := uvfsIget .w64 0 ⟨0, 0, 0, 1, 0, 3, 7, 0⟩ (attrOfMode 0o100644) none
    let parent := uvfsIget .w64 0 ⟨0, 0, 0, 1, 0, 3, 5, 0⟩ (attrOfMode 0o040755) none
    let e := uvfsEncodeFh inode parent 5 true
    ∃ handle, (fhToParent e.maxLen e.type).value (e.store fun _ => 0) = some handle ∧
      uvfsCompareInode parent handle = true := by
  intro inode parent e
  obtain ⟨-, handle, hparent, -, hsame⟩ :=
    @parent_round_trip inode parent 5 (by decide) (by decide) fun _ => 0
  exact ⟨handle, hparent, hsame.mpr rfl⟩

end

/-! ## A lookup and a decoded handle -/

/-- The identity of a handle, all other words cleared: what comes back from an NFS client. -/
def Fhandle.onWire (fh : Fhandle) : Fhandle := wireHandle fh.naAruid fh.fsSfuid fh.fsSbxid

@[simp] theorem Fhandle.identity_onWire (fh : Fhandle) : fh.onWire.identity = fh.identity := rfl

@[simp] theorem Fhandle.hashval_onWire (fh : Fhandle) : fh.onWire.hashval = fh.hashval := rfl

/-- A handle comes back as it was when the words that NFS does not carry are zero. -/
theorem Fhandle.eq_onWire_iff {fh : Fhandle} : fh = fh.onWire ↔ fh.noMntid = 0 ∧ fh.noFlags = 0 ∧
    fh.naIpaddr = 0 ∧ fh.noSbxid = 0 ∧ fh.noBlank2 = 0 := by
  obtain ⟨mntid, flags, ipaddr, aruid, noSbxid, sbxid, sfuid, blank2⟩ := fh
  simp [onWire, wireHandle]

section

variable {hash : ℕ → ℕ → ℕ} {l : LongWidth} {sb : ℕ} {c : InodeCache} {H : Fhandle}
  {attr : UvfsAttr} {inode parent : Inode} {maxLen error : ℤ} {connectable : Bool}

/-- `uvfs_lookup` for a file that is not cached. -/
theorem uvfsLookup_of_not_mem (hc : Canonical hash c)
    (hnew : ∀ s ∈ c.slots, s.item.key ≠ (sb, H.identity)) (herror : 0 ≤ error) (u : Word) :
    uvfsLookup hash l c sb u ⟨error, H, attr⟩ true =
      (some c.next, c.add (hash sb H.hashval) ⟨sb, uvfsIget l u H attr none⟩) := by
  rw [uvfsLookup, if_neg (by simpa using herror), igetCached_of_not_mem hc hnew, if_pos rfl]

/-- `uvfs_get_dentry` for a file that is not cached. -/
theorem uvfsGetDentry_of_not_mem (hc : Canonical hash c)
    (hnew : ∀ s ∈ c.slots, s.item.key ≠ (sb, H.identity)) (u : Word) :
    uvfsGetDentry hash l c sb u H (some (0, attr)) true =
      (.ok c.next, c.add (hash sb H.hashval) ⟨sb, uvfsIget l u H attr none⟩) := by
  simp only [uvfsGetDentry, (ilookup5_eq_none_iff hc).mpr hnew, igetCached_of_not_mem hc hnew,
    if_true]

/-- `uvfs_fh_to_dentry` on an encoded handle. -/
theorem uvfsFhToDentry_encoded (hok : (uvfsEncodeFh inode parent maxLen connectable).type ≠ 255)
    (fh : ℕ → Word) (u : Word) (reply : Option (ℤ × UvfsAttr)) (c : InodeCache) :
    let e := uvfsEncodeFh inode parent maxLen connectable
    uvfsFhToDentry hash l c sb u (e.store fh) e.maxLen e.type reply true =
      (some (uvfsGetDentry hash l c sb u inode.fh.onWire reply true).1,
        (uvfsGetDentry hash l c sb u inode.fh.onWire reply true).2) := by
  intro e
  simp only [uvfsFhToDentry, (decode_uvfsEncodeFh hok fh).1, e]
  rfl

/-- The cache with a new inode for a handle that had none. -/
theorem canonical_added (hc : Canonical hash c)
    (hnew : ∀ s ∈ c.slots, s.item.key ≠ (sb, H.identity)) (u : Word) :
    Canonical hash (c.add (hash sb H.hashval) ⟨sb, uvfsIget l u H attr none⟩) :=
  @Table.Canonical.add _ _ _ CachedInode.key (bucketOf hash) c ⟨sb, uvfsIget l u H attr none⟩ hc
    hnew

/-- `uvfs_lookup` for a file that an NFS client has reached before: its inode is refreshed and
keeps its handle. -/
theorem uvfsLookup_of_decoded (hc : Canonical hash c)
    (hnew : ∀ s ∈ c.slots, s.item.key ≠ (sb, H.identity)) (herror : 0 ≤ error) (u u' : Word) :
    uvfsLookup hash l
        (c.add (hash sb H.hashval) ⟨sb, uvfsIget l u' H.onWire attr none⟩) sb u
        ⟨error, H, attr⟩ true =
      (some c.next, c.add (hash sb H.hashval)
        ⟨sb, { uvfsIget l u H attr none with fh := H.onWire }⟩) := by
  have hadded : Canonical hash
      (c.add (hash sb H.hashval) ⟨sb, uvfsIget l u' H.onWire attr none⟩) :=
    @canonical_added hash l sb c H.onWire attr hc hnew u'
  have hrefresh := @igetCached_of_mem hash l _ sb u H attr true hadded _ List.mem_cons_self rfl
  rw [uvfsLookup, if_neg (by simpa using herror), hrefresh, hc.modify_add]
  rfl

/-- A file with a mount id that an NFS client reaches before its name is looked up: the inode keeps
the handle without the mount id. -/
theorem decoded_first_loses_mount_id :
    let inode := uvfsIget .w64 1 ⟨5, 0, 0, 1, 0, 3, 7, 0⟩ (attrOfMode 0o100644) none
    let e := uvfsEncodeFh inode (newInode ⟨5, 0, 0, 1, 0, 3, 2, 0⟩) 3 false
    let decoded := uvfsFhToDentry (fun _ h => h) .w64 .empty 0 2 (e.store fun _ => 0) e.maxLen
      e.type (some (0, attrOfMode 0o100644)) true
    let found := uvfsLookup (fun _ h => h) .w64 decoded.2 0 1
      ⟨0, inode.fh, attrOfMode 0o100644⟩ true
    found.1 = some 0 ∧ ∀ s ∈ found.2.slots, s.item.inode.fh ≠ inode.fh := by
  decide

/-- **A lookup and a decoded handle in either order** find the same inode, with the same state but
for the handle: that of the lookup when the lookup is first, and its identity with all other words
cleared when the decoded handle is first.  So the order does not matter exactly when the other
words are zero. -/
theorem lookup_and_decode (hc : IcacheReach hash l c)
    (hnew : ∀ s ∈ c.slots, s.item.key ≠ (sb, inode.fh.identity))
    (hok : (uvfsEncodeFh inode parent maxLen connectable).type ≠ 255) (herror : 0 ≤ error)
    (fh : ℕ → Word) (u u' : Word) (attr : UvfsAttr) :
    let e := uvfsEncodeFh inode parent maxLen connectable
    let lookup := fun c => uvfsLookup hash l c sb u ⟨error, inode.fh, attr⟩ true
    let decode := fun c => uvfsFhToDentry hash l c sb u' (e.store fh) e.maxLen e.type
      (some (0, attr)) true
    let i := uvfsIget l u inode.fh attr none
    let added := fun i => c.add (hash sb inode.fh.hashval) ⟨sb, i⟩
    (lookup c).1 = some c.next ∧
      decode (lookup c).2 = (some (.ok c.next), added i) ∧
      (decode c).1 = some (.ok c.next) ∧
      lookup (decode c).2 = (some c.next, added { i with fh := inode.fh.onWire }) ∧
      ((decode (lookup c).2).2 = (lookup (decode c).2).2 ↔
        inode.fh.noMntid = 0 ∧ inode.fh.noFlags = 0 ∧ inode.fh.naIpaddr = 0 ∧
          inode.fh.noSbxid = 0 ∧ inode.fh.noBlank2 = 0) := by
  intro e lookup decode i added
  have hcanon := IcacheReach.canonical hc
  have hlookup : lookup c = (some c.next, added i) := uvfsLookup_of_not_mem hcanon hnew herror u
  have hdecode : decode c =
      (some (.ok c.next), added (uvfsIget l u' inode.fh.onWire attr none)) := by
    simp only [decode, e, uvfsFhToDentry_encoded hok fh,
      @uvfsGetDentry_of_not_mem hash l sb c inode.fh.onWire attr hcanon hnew u']
    rfl
  have hdecoded : decode (lookup c).2 = (some (.ok c.next), added i) := by
    have hfind := @uvfsGetDentry_of_mem hash l (added i) sb u' inode.fh.onWire true
      (canonical_added hcanon hnew u) _ List.mem_cons_self rfl (some (0, attr))
    simp only [hlookup, decode, e, uvfsFhToDentry_encoded hok fh, hfind]
  have hfound : lookup (decode c).2 = (some c.next, added { i with fh := inode.fh.onWire }) := by
    rw [hdecode]
    exact uvfsLookup_of_decoded hcanon hnew herror u u'
  refine ⟨by rw [hlookup], hdecoded, by rw [hdecode], hfound, ?_⟩
  rw [hdecoded, hfound, ← Fhandle.eq_onWire_iff]
  constructor
  · intro hsame
    exact Option.some.inj (congrArg (fun c => c.slots.head?.map fun s => s.item.inode.fh) hsame)
  · intro hwire
    rw [← hwire]
    rfl

/-- A file whose other words are zero. -/
theorem lookup_and_decode_zero :
    let inode := uvfsIget .w64 1 ⟨0, 0, 0, 1, 0, 3, 7, 0⟩ (attrOfMode 0o100644) none
    let e := uvfsEncodeFh inode inode 3 false
    let lookup := fun c => uvfsLookup (fun _ h => h) .w64 c 0 1
      ⟨0, inode.fh, attrOfMode 0o100644⟩ true
    let decode := fun c => uvfsFhToDentry (fun _ h => h) .w64 c 0 2 (e.store fun _ => 0) e.maxLen
      e.type (some (0, attrOfMode 0o100644)) true
    (decode (lookup .empty).2).2 = (lookup (decode .empty).2).2 := by
  intro inode e lookup decode
  have horders := @lookup_and_decode (fun _ h => h) .w64 0 .empty inode inode 3 0 false .refl
    (by simp [Table.empty]) (by decide) (by decide) (fun _ => 0) 1 2 (attrOfMode 0o100644)
  obtain ⟨-, -, -, -, hsame⟩ := horders
  exact hsame.mpr ⟨rfl, rfl, rfl, rfl, rfl⟩

end

end Uvfs.Vfs
