import Uvfs.Vfs.Operations

/-!
# What `uvfs_lookup` reports

`uvfs_lookup` works out a return value for every way in which the lookup can fail, and then calls
`d_splice_alias` on all of them and returns its value instead.

* `DentryKernel` : `d_splice_alias`, with what the kernel documents of it.
* `uvfsLookupEntry` : the returned pointer and what becomes of the entry.
* `lookup_reports_iff` : for which outcomes the caller learns what happened.
-/

namespace Uvfs.Vfs

open Transition

/-- `-ENOENT`. -/
def enoent : ℤ := -2

/-- A returned dentry pointer. -/
inductive DentryPtr
  /-- `NULL`. -/
  | null
  /-- `ERR_PTR(e)`. -/
  | errPtr (e : ℤ)
  /-- Another dentry, which takes the place of the entry. -/
  | alias (dentry : ℕ)
  deriving DecidableEq

/-- What a name stands for after the call. -/
inductive EntryState
  /-- The entry was not added. -/
  | untouched
  /-- The name is known not to exist. -/
  | negative
  /-- The name stands for an inode. -/
  | bound (inode : ℕ)
  deriving DecidableEq

/-- `d_splice_alias`. -/
structure DentryKernel where
  /-- The returned pointer and what becomes of the entry, for an inode or a null pointer. -/
  dSpliceAlias : Option ℕ → DentryPtr × EntryState
  /-- Without an inode the entry is added as a negative one. -/
  splice_none : dSpliceAlias none = (.null, .negative)
  /-- With an inode the entry, or an alias in its place, is bound to it. -/
  splice_some : ∀ i, (dSpliceAlias (some i)).2 = .bound i
  /-- It does not fail. -/
  splice_ne_errPtr : ∀ i e, (dSpliceAlias (some i)).1 ≠ .errPtr e

/-- What a call of `uvfs_lookup` leaves. -/
structure LookupResult where
  /-- The returned value. -/
  ret : DentryPtr
  /-- What becomes of the entry. -/
  entry : EntryState
  /-- The cache. -/
  cache : InodeCache

section

variable (k : DentryKernel) (hash : ℕ → ℕ → ℕ) (l : LongWidth) (fsuid : Word) (cache : InodeCache)
  (dir : Slot ℕ CachedInode) (memory : Bool)

/-- `uvfs_lookup`, with the dentry.
Source: `dir.c`, `uvfs_lookup`. -/
def uvfsLookupEntry (name : List Byte) : Wire LookupResult := do
  let (inode, cache) ← uvfsLookupName hash l fsuid cache dir memory name
  -- `retval` is `NULL`, `ERR_PTR(err)` or `ERR_PTR(-ENOMEM)` here, and is overwritten
  let (retval, entry) := k.dSpliceAlias inode
  return ⟨retval, entry, cache⟩

end

/-- The caller learns the outcome: `error` is that of `uvfs_lookup_by_name`, `inode` what
`uvfs_iget` returns for the handle of the reply. -/
structure LookupResult.Reports (r : LookupResult) (error : ℤ) (inode : Option ℕ) : Prop where
  failed : error < 0 → error ≠ enoent → r.ret = .errPtr error ∧ r.entry = .untouched
  noInode : 0 ≤ error → inode = none → r.ret = .errPtr enomem ∧ r.entry = .untouched
  noEntry : error = enoent → r.ret = .null ∧ r.entry = .negative
  negative : r.entry = .negative → error = enoent
  found : 0 ≤ error → ∀ i, inode = some i → r.entry = .bound i ∧ ∀ e, r.ret ≠ .errPtr e

section

variable {k : DentryKernel} {hash : ℕ → ℕ → ℕ} {l : LongWidth} {fsuid : Word} {cache : InodeCache}
  {dir : Slot ℕ CachedInode} {memory : Bool} {name : List Byte} {x : Exchange}
  {rs : List VfsRequest}

/-- The tail of `uvfs_lookup` for an outcome. -/
theorem run_uvfsLookupEntry :
    ((uvfsLookupEntry k hash l fsuid cache dir memory name).run x.serve rs).1 =
      let o := ((uvfsLookupByName dir.item.inode name).run x.serve rs).1
      let found := uvfsLookup hash l cache dir.item.sb fsuid o memory
      ⟨(k.dSpliceAlias found.1).1, (k.dSpliceAlias found.1).2, found.2⟩ := by
  simp only [uvfsLookupEntry, uvfsLookupName, Dialogue.run_bind, Dialogue.run_pure]

/-- The outcome is reported when the server says that there is no such entry, or when there is an
inode. -/
theorem reports_iff_outcome {o : LookupOutcome} :
    let inode := (igetCached hash l cache dir.item.sb fsuid o.fh o.attr memory).1
    let found := uvfsLookup hash l cache dir.item.sb fsuid o memory
    LookupResult.Reports ⟨(k.dSpliceAlias found.1).1, (k.dSpliceAlias found.1).2, found.2⟩ o.error
        inode ↔
      o.error = enoent ∨ (0 ≤ o.error ∧ inode.isSome) := by
  intro inode found
  by_cases herror : o.error < 0
  · have hfound : found = (none, cache) := if_pos herror
    rw [hfound, k.splice_none]
    constructor
    · intro h
      exact .inl (h.negative rfl)
    · rintro (hnoent | ⟨hge, -⟩)
      · exact ⟨fun _ hne => absurd hnoent hne, fun hge => absurd herror (not_lt.mpr hge),
          fun _ => ⟨rfl, rfl⟩, fun _ => hnoent, fun hge => absurd herror (not_lt.mpr hge)⟩
      · exact absurd herror (not_lt.mpr hge)
  · have hge : 0 ≤ o.error := not_lt.mp herror
    have hne : o.error ≠ enoent := fun h => herror (by rw [h]; decide)
    have hfound : found.1 = inode := congrArg Prod.fst (if_neg herror)
    rw [hfound]
    cases hinode : inode with
    | none =>
        rw [k.splice_none]
        constructor
        · intro h
          exact absurd (h.negative rfl) hne
        · rintro (h | ⟨-, h⟩)
          · exact absurd h hne
          · cases h
    | some i =>
        constructor
        · intro _
          exact .inr ⟨hge, rfl⟩
        · intro _
          refine ⟨fun h => absurd h herror, fun _ h => (by cases h), fun h => absurd h hne, ?_, ?_⟩
          · intro h
            rw [k.splice_some] at h
            cases h
          · intro _ i' hi
            cases hi
            exact ⟨k.splice_some i, k.splice_ne_errPtr i⟩

/-- A kernel in which no inode has an alias. -/
def DentryKernel.noAliases : DentryKernel where
  dSpliceAlias
    | none => (.null, .negative)
    | some i => (.null, .bound i)
  splice_none := rfl
  splice_some _ := rfl
  splice_ne_errPtr _ _ h := nomatch h

/-- A lookup that the server refuses with `-EACCES`: the entry becomes a negative one, and the
caller is told nothing. -/
theorem refused_lookup_becomes_negative :
    let dir : Slot ℕ CachedInode :=
      ⟨0, 2, ⟨0, uvfsIget .w64 1 ⟨0, 0, 0, 1, 0, 3, 2, 0⟩ (attrOfMode 0o040755) none⟩⟩
    let x : Exchange := ⟨true, fun _ => Mem.setWord (fun _ => 0) offsetofError (-13)⟩
    let r := ((uvfsLookupEntry .noAliases (fun _ h => h) .w64 1 .empty dir true [97]).run
      x.serve []).1
    (((uvfsLookupByName dir.item.inode [97]).run x.serve []).1.error = -13 ∧ r.ret = .null ∧
        r.entry = .negative) ∧
      ¬ r.Reports (-13) none := by
  intro dir x r
  have hr : ((uvfsLookupByName dir.item.inode [97]).run x.serve []).1.error = -13 ∧
      r.ret = .null ∧ r.entry = .negative := by decide
  refine ⟨hr, fun h => ?_⟩
  exact absurd (h.negative hr.2.2) (by decide)

/-- The outcome of the request, for a name that is not too long. -/
theorem run_uvfsLookupByName (hname : name.length ≤ uvfsMaxNamelen)
    (htrans : x.transaction = true) :
    ((uvfsLookupByName dir.item.inode name).run x.serve rs).1 =
      let reply := x.reply (.lookup dir.item.inode name)
      ⟨replyError reply, fhandleAt reply (replyOffset .lookup 4),
        attrAt reply (replyOffset .lookup 5)⟩ := by
  rw [uvfsLookupByName, if_neg (not_lt.mpr hname), run_request, if_pos htrans]

/-- `uvfs_iget` has an inode when the handle has one already or there is memory. -/
theorem isSome_igetCached_iff (hc : Canonical hash cache) {sb : ℕ} {fh : Fhandle}
    {attr : UvfsAttr} :
    (igetCached hash l cache sb fsuid fh attr memory).1.isSome ↔
      memory = true ∨ ∃ s ∈ cache.slots, s.item.key = (sb, fh.identity) := by
  rcases key_mem_or_not cache sb fh with ⟨s, hs, hkey⟩ | hnew
  · rw [igetCached_of_mem hc hs hkey]
    exact ⟨fun _ => .inr ⟨s, hs, hkey⟩, fun _ => rfl⟩
  · have hnone : ¬ ∃ s ∈ cache.slots, s.item.key = (sb, fh.identity) := by
      rintro ⟨s, hs, hkey⟩
      exact hnew s hs hkey
    rw [igetCached_of_not_mem hc hnew]
    cases memory with
    | true => simp
    | false => simpa using hnone

/-- **What `uvfs_lookup` reports**: the caller learns the outcome exactly when a request was made
and the server answered that there is no such entry, or that there is one and `uvfs_iget` had an
inode for it or memory for a new one. -/
theorem lookup_reports_iff (hc : IcacheReach hash l cache) :
    let o := ((uvfsLookupByName dir.item.inode name).run x.serve rs).1
    let inode := (igetCached hash l cache dir.item.sb fsuid o.fh o.attr memory).1
    let reply := x.reply (.lookup dir.item.inode name)
    ((uvfsLookupEntry k hash l fsuid cache dir memory name).run x.serve rs).1.Reports o.error
        inode ↔
      name.length ≤ uvfsMaxNamelen ∧ x.transaction = true ∧
        (replyError reply = enoent ∨ (0 ≤ replyError reply ∧ (memory = true ∨
          ∃ s ∈ cache.slots, s.item.key =
            (dir.item.sb, (fhandleAt reply (replyOffset .lookup 4)).identity)))) := by
  intro o inode reply
  rw [run_uvfsLookupEntry]
  refine reports_iff_outcome.trans ?_
  by_cases hname : name.length ≤ uvfsMaxNamelen
  · by_cases htrans : x.transaction = true
    · have ho : o = ⟨replyError reply, fhandleAt reply (replyOffset .lookup 4),
          attrAt reply (replyOffset .lookup 5)⟩ := run_uvfsLookupByName hname htrans
      rw [isSome_igetCached_iff (IcacheReach.canonical hc)]
      change o.error = enoent ∨ (0 ≤ o.error ∧ (memory = true ∨
        ∃ s ∈ cache.slots, s.item.key = (dir.item.sb, o.fh.identity))) ↔ _
      rw [ho]
      exact ⟨fun h => ⟨hname, htrans, h⟩, fun h => h.2.2⟩
    · have ho : o.error = enomem := by
        simp only [o, uvfsLookupByName, if_neg (not_lt.mpr hname), run_request, if_neg htrans]
      constructor
      · rintro (h | ⟨h, -⟩)
        · exact absurd (ho.symm.trans h) (by decide)
        · exact absurd (ho ▸ h) (by decide)
      · rintro ⟨-, h, -⟩
        exact absurd h htrans
  · have ho : o.error = enametoolong := by
      simp only [o, uvfsLookupByName, if_pos (not_le.mp hname), Dialogue.run_pure]
    constructor
    · rintro (h | ⟨h, -⟩)
      · exact absurd (ho.symm.trans h) (by decide)
      · exact absurd (ho ▸ h) (by decide)
    · rintro ⟨h, -⟩
      exact absurd h hname

/-- A name that the server does not know. -/
theorem lookup_reports_iff_noent :
    let dir : Slot ℕ CachedInode :=
      ⟨0, 2, ⟨0, uvfsIget .w64 1 ⟨0, 0, 0, 1, 0, 3, 2, 0⟩ (attrOfMode 0o040755) none⟩⟩
    let x : Exchange := ⟨true, fun _ => Mem.setWord (fun _ => 0) offsetofError (-2)⟩
    let r := ((uvfsLookupEntry .noAliases (fun _ h => h) .w64 1 .empty dir true [97]).run
      x.serve []).1
    r.ret = .null ∧ r.entry = .negative := by
  intro dir x r
  have hreports := (@lookup_reports_iff .noAliases (fun _ h => h) .w64 1 .empty dir true [97] x []
    .refl).mpr ⟨by decide, rfl, .inl (by decide)⟩
  exact hreports.noEntry (by decide)

end

end Uvfs.Vfs
