import Uvfs.Vfs.Cache

/-!
# Dentries

The kernel trusts a cached name only as far as `uvfs_dentry_revalidate` allows: it looks the name up
again and compares the handle of the reply with that of the inode.  `uvfs_lookup` makes the same
request for a name that is not cached, and searches the inode cache.

* `uvfsLookup` : the inode that `uvfs_lookup` gives to `d_splice_alias`.
* `uvfsDentryRevalidate` : what happens to the dentry.
* `revalidate_agrees_with_lookup` : the two paths agree.
-/

namespace Uvfs.Vfs

open Transition

/-- What `uvfs_lookup_by_name` returns and stores. -/
structure LookupOutcome where
  /-- The returned value. -/
  error : ℤ
  /-- `*fh`. -/
  fh : Fhandle
  /-- `*attr`. -/
  attr : UvfsAttr
  deriving DecidableEq

/-- `uvfs_lookup`, after `uvfs_lookup_by_name`: the inode for `d_splice_alias` and the cache.
Source: `dir.c`, `uvfs_lookup`. -/
def uvfsLookup (hash : ℕ → ℕ → ℕ) (l : LongWidth) (c : InodeCache) (sb : ℕ) (fsuid : Word)
    (o : LookupOutcome) (memory : Bool) : Option ℕ × InodeCache :=
  if o.error < 0 then (none, c) else igetCached hash l c sb fsuid o.fh o.attr memory

/-- What `uvfs_dentry_revalidate` returns and does. -/
structure Verdict where
  /-- The returned value. -/
  ret : ℤ
  /-- `shrink_dcache_parent` was called. -/
  shrunk : Bool
  /-- `d_drop` was called. -/
  dropped : Bool
  deriving DecidableEq

/-- The label `out`. -/
def Verdict.out : Verdict := ⟨1, false, false⟩

/-- The label `out_bad`. -/
def Verdict.outBad (inode : Option Inode) (haveSubmounts : Bool) : Verdict :=
  match inode with
  | some i =>
      if sIsdir i.iMode then if haveSubmounts then .out else ⟨0, true, true⟩ else ⟨0, false, true⟩
  | none => ⟨0, false, true⟩

/-- `uvfs_dentry_revalidate` for a dentry with the given inode, `none` for a negative one, where
`o` is the outcome of `uvfs_lookup_by_name`.
Source: `dir.c`, `uvfs_dentry_revalidate`. -/
def uvfsDentryRevalidate (inode : Option Inode) (o : LookupOutcome) (haveSubmounts : Bool) :
    Verdict :=
  match inode with
  | none => .outBad none haveSubmounts
  | some i =>
      if o.error ≠ 0 then
        if o.error = erestartsys then .out else .outBad (some i) haveSubmounts
      else if uvfsCompareInode i o.fh then .out else .outBad (some i) haveSubmounts

variable {hash : ℕ → ℕ → ℕ} {l : LongWidth} {c : InodeCache} {inode : Option Inode}
  {o : LookupOutcome} {haveSubmounts : Bool}

/-- The kernel keeps this dentry whatever the server says. -/
def Mounted (inode : Option Inode) (haveSubmounts : Bool) : Prop :=
  haveSubmounts = true ∧ ∃ i ∈ inode, sIsdir i.iMode

namespace Verdict

theorem outBad_of_mounted (h : Mounted inode haveSubmounts) :
    outBad inode haveSubmounts = .out := by
  obtain ⟨rfl, i, hi, hdir⟩ := h
  cases hi
  simp [outBad, hdir]

theorem outBad_of_not_mounted (h : ¬ Mounted inode haveSubmounts) :
    (outBad inode haveSubmounts).ret = 0 ∧ (outBad inode haveSubmounts).dropped = true := by
  cases inode with
  | none => exact ⟨rfl, rfl⟩
  | some i =>
      unfold outBad
      by_cases hdir : sIsdir i.iMode
      · have hsub : haveSubmounts = false := by
          by_contra hsub
          exact h ⟨by simpa using hsub, i, rfl, hdir⟩
        simp [hdir, hsub]
      · simp [hdir]

end Verdict

/-- The two ends of `uvfs_dentry_revalidate`. -/
theorem uvfsDentryRevalidate_cases :
    uvfsDentryRevalidate inode o haveSubmounts = .out ∨
      uvfsDentryRevalidate inode o haveSubmounts = .outBad inode haveSubmounts := by
  cases inode with
  | none => exact .inr rfl
  | some i =>
      by_cases herror : o.error = 0
      · cases hsame : uvfsCompareInode i o.fh with
        | true => exact .inl (by simp [uvfsDentryRevalidate, herror, hsame])
        | false => exact .inr (by simp [uvfsDentryRevalidate, herror, hsame])
      · by_cases hsignal : o.error = erestartsys
        · exact .inl (by simp [uvfsDentryRevalidate, hsignal, erestartsys])
        · exact .inr (by simp [uvfsDentryRevalidate, herror, hsignal])

theorem uvfsDentryRevalidate_of_mounted (h : Mounted inode haveSubmounts) :
    uvfsDentryRevalidate inode o haveSubmounts = .out := by
  rcases uvfsDentryRevalidate_cases with hout | hbad
  · exact hout
  · exact hbad.trans (Verdict.outBad_of_mounted h)

/-- A directory that is mounted on survives an error of the lookup. -/
theorem mounted_directory_survives_lookup_error : ∃ c, IcacheReach (fun _ h => h) .w64 c ∧
    ∃ s ∈ c.slots, (uvfsDentryRevalidate (some s.item.inode)
      ⟨-2, ⟨0, 0, 0, 0, 0, 0, 7, 0⟩, attrOfMode 0⟩ true).ret = 1 :=
  Reach.of_check _ _ _
    [.iget 0 1 ⟨0, 0, 0, 0, 0, 0, 7, 0⟩ (attrOfMode 0o040755) true] _ (by decide)

/-- **Revalidation agrees with a fresh lookup.**  For a dentry with a cached inode, unless it is a
directory that is mounted on: when the lookup succeeds, the dentry is kept exactly when
`uvfs_lookup` would get this inode from `uvfs_iget`, and when it fails the dentry is not kept unless
a signal interrupted it.  A dentry that is not kept has been dropped, a negative one never is kept,
and a directory that is mounted on is never dropped. -/
theorem revalidate_agrees_with_lookup {s : Slot ℕ CachedInode} (hc : IcacheReach hash l c)
    (hs : s ∈ c.slots) :
    (o.error = 0 → ¬ Mounted (some s.item.inode) haveSubmounts → ∀ fsuid memory,
      ((uvfsDentryRevalidate (some s.item.inode) o haveSubmounts).ret = 1 ↔
        (uvfsLookup hash l c s.item.sb fsuid o memory).1 = some s.id)) ∧
    (o.error < 0 → o.error ≠ erestartsys → ¬ Mounted (some s.item.inode) haveSubmounts →
      (uvfsDentryRevalidate (some s.item.inode) o haveSubmounts).ret = 0) ∧
    (∀ inode, (uvfsDentryRevalidate inode o haveSubmounts).ret = 0 →
      (uvfsDentryRevalidate inode o haveSubmounts).dropped = true) ∧
    (uvfsDentryRevalidate none o haveSubmounts).ret = 0 ∧
    (∀ inode, Mounted inode haveSubmounts →
      (uvfsDentryRevalidate inode o haveSubmounts).dropped = false) := by
  have hcanon := IcacheReach.canonical hc
  refine ⟨?_, ?_, ?_, rfl, ?_⟩
  · intro herr hnot fsuid memory
    have hlookup : (uvfsLookup hash l c s.item.sb fsuid o memory).1 = some s.id ↔
        uvfsCompareInode s.item.inode o.fh = true := by
      rw [uvfsLookup, if_neg (by omega), igetCached_fst_iff hcanon hs, uvfsCompareInode_iff]
      simp [CachedInode.key]
    rw [hlookup, uvfsDentryRevalidate, if_neg (by simpa using herr)]
    split
    · simp [Verdict.out, *]
    · simp [Verdict.outBad_of_not_mounted hnot, *]
  · intro herr hsignal hnot
    rw [uvfsDentryRevalidate, if_pos (by omega), if_neg hsignal]
    exact (Verdict.outBad_of_not_mounted hnot).1
  · intro inode hret
    by_cases hmounted : Mounted inode haveSubmounts
    · rw [uvfsDentryRevalidate_of_mounted hmounted] at hret
      exact absurd hret (by decide)
    · rcases uvfsDentryRevalidate_cases with h | h
      · rw [h] at hret
        exact absurd hret (by decide)
      · rw [h]
        exact (Verdict.outBad_of_not_mounted hmounted).2
  · intro inode hmounted
    rw [uvfsDentryRevalidate_of_mounted hmounted]
    rfl

/-- A file whose name is looked up again. -/
theorem revalidate_agrees_with_lookup_once : ∃ c s, IcacheReach (fun _ h => h) .w64 c ∧
    s ∈ c.slots ∧
    ((uvfsDentryRevalidate (some s.item.inode) ⟨0, ⟨5, 0, 0, 1, 0, 3, 7, 0⟩, attrOfMode 0o100644⟩
      true).ret = 1 ↔ (uvfsLookup (fun _ h => h) .w64 c s.item.sb 1
        ⟨0, ⟨5, 0, 0, 1, 0, 3, 7, 0⟩, attrOfMode 0o100644⟩ true).1 = some s.id) := by
  have hreach : IcacheReach (fun _ h => h) .w64
      (igetCached (fun _ h => h) .w64 .empty 0 1 ⟨5, 0, 0, 1, 0, 3, 7, 0⟩ (attrOfMode 0o100644)
        true).2 :=
    Reach.refl.tail (a := .iget 0 1 ⟨5, 0, 0, 1, 0, 3, 7, 0⟩ (attrOfMode 0o100644) true) trivial rfl
  refine ⟨_, _, hreach, List.mem_cons_self, ?_⟩
  refine (revalidate_agrees_with_lookup hreach List.mem_cons_self).1 rfl ?_ 1 true
  rintro ⟨-, i, hi, hdir⟩
  cases hi
  exact absurd hdir (by decide)

end Uvfs.Vfs
