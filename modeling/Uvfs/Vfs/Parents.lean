import Uvfs.Vfs.Export
import Uvfs.Vfs.Names

/-!
# Going up

An NFS server gets a handle from a client and must find the place of its directory in the tree.  The
kernel gets an inode for it from `uvfs_fh_to_dentry`, and then calls `uvfs_get_parent` again and
again until it is at the root.  `uvfs_get_parent` looks up `..`, and takes the inode of the reply
from the inode cache.

The inode cache ties the two directions together: as each node has one inode, going up from a
directory and walking down again leads to the inode one has started from, as long as the calls
succeed and nobody else takes a step in between.

* `uvfsGetParent`, `climb` : one step up, and many.
* `exported_directory_reconnects` : up to the root, and down again.
-/

namespace Uvfs.Vfs

open Transition

/-- `..`. -/
def dotdot : List Byte := [46, 46]

/-- `uvfs_get_parent`: the inode it finds an alias for, or its error.
Source: `super.c`, `uvfs_get_parent`. -/
def uvfsGetParent (hash : ℕ → ℕ → ℕ) (l : LongWidth) (fsuid : Word) (cache : InodeCache)
    (child : Slot ℕ CachedInode) (memory : Bool) : Wire (Except ℤ ℕ × InodeCache) := do
  let o ← uvfsLookupByName child.item.inode dotdot
  if o.error ≠ 0 then return (.error o.error, cache)
  else
    match igetCached hash l cache child.item.sb fsuid o.fh o.attr memory with
    | (none, cache) => return (.error eacces, cache)
    | (some id, cache) => return (.ok id, cache)

/-- The kernel goes up `k` times; `none` when a call fails. -/
def climb (hash : ℕ → ℕ → ℕ) (l : LongWidth) (fsuid : Word) (x : Exchange) :
    ℕ → InodeCache → ℕ → Option (ℕ × InodeCache)
  | 0, c, id => some (id, c)
  | k + 1, c, id => (c.get? id).bind fun child =>
      match ((uvfsGetParent hash l fsuid c child true).run x.serve []).1 with
      | (.ok id, c) => climb hash l fsuid x k c id
      | (.error _, _) => none

/-- The server knows the parent of each directory but the root. -/
def AnswersDotdot (t : ServerTree) (x : Exchange) : Prop :=
  ∀ e ∈ t.entries, t.isDir e.child = true → ∀ dir : Inode, dir.fh.identity = e.child →
    (lookupOutcome x dir dotdot).error = 0 ∧ (lookupOutcome x dir dotdot).fh.identity = e.parent

variable {hash : ℕ → ℕ → ℕ} {l : LongWidth} {sb : ℕ} {c : InodeCache} {id : ℕ} {n m : NodeId}
  {t : ServerTree} {x : Exchange} {fsuid : Word}

/-- What holds of the cache after a call: it is canonical, and the inodes are where they were. -/
structure Keeps (hash : ℕ → ℕ → ℕ) (c c' : InodeCache) : Prop where
  canonical : Canonical hash c'
  sits : ∀ sb id n, Sits sb c id n → Sits sb c' id n

theorem Keeps.trans {c₁ c₂ c₃ : InodeCache} (h : Keeps hash c₁ c₂) (h' : Keeps hash c₂ c₃) :
    Keeps hash c₁ c₃ :=
  ⟨h'.canonical, fun sb id n hs => h'.sits sb id n (h.sits sb id n hs)⟩

/-- `uvfs_iget` with memory has the inode of the handle. -/
theorem exists_igetCached (hc : Canonical hash c) (sb : ℕ) (fsuid : Word) (fh : Fhandle)
    (attr : UvfsAttr) : ∃ id c', igetCached hash l c sb fsuid fh attr true = (some id, c') ∧
      Keeps hash c c' ∧ Sits sb c' id fh.identity := by
  obtain ⟨id, hid⟩ : ∃ id, (igetCached hash l c sb fsuid fh attr true).1 = some id :=
    Option.isSome_iff_exists.mp ((isSome_igetCached_iff hc).mpr (.inl rfl))
  obtain ⟨d, hd, hkey, _⟩ := igetCached_eq_some hc (Prod.ext hid rfl)
  obtain ⟨hmem, hid'⟩ := Table.mem_of_get?_eq_some hd
  refine ⟨id, _, Prod.ext hid rfl, ⟨?_, fun _ _ _ hs => hs.iget hc sb fsuid fh attr true⟩,
    d, hmem, hid', hkey⟩
  exact (icacheStep_canonical (a := .iget sb fsuid fh attr true) hc rfl).1

/-- `uvfs_get_dentry` with an answer has the inode of the handle. -/
theorem exists_uvfsGetDentry (hc : Canonical hash c) (sb : ℕ) (fsuid : Word) (fh : Fhandle)
    (attr : UvfsAttr) :
    ∃ id c', uvfsGetDentry hash l c sb fsuid fh (some (0, attr)) true = (.ok id, c') ∧
      Keeps hash c c' ∧ Sits sb c' id fh.identity := by
  rcases key_mem_or_not c sb fh with ⟨d, hd, hkey⟩ | hnew
  · exact ⟨d.id, c, uvfsGetDentry_of_mem hc hd hkey _, ⟨hc, fun _ _ _ hs => hs⟩, d, hd, rfl, hkey⟩
  · obtain ⟨id, c', hget, hkeeps, hsits⟩ := exists_igetCached (l := l) hc sb fsuid fh attr
    refine ⟨id, c', ?_, hkeeps, hsits⟩
    rw [uvfsGetDentry, (ilookup5_eq_none_iff hc).mpr hnew]
    simp only [if_true, hget]

/-- One step up. -/
theorem exists_uvfsGetParent (hc : Canonical hash c) (fsuid : Word) {child : Slot ℕ CachedInode}
    (herror : (lookupOutcome x child.item.inode dotdot).error = 0) :
    ∃ id c', ((uvfsGetParent hash l fsuid c child true).run x.serve []).1 = (.ok id, c') ∧
      Keeps hash c c' ∧
      Sits child.item.sb c' id (lookupOutcome x child.item.inode dotdot).fh.identity := by
  obtain ⟨id, c', hget, hkeeps, hsits⟩ := exists_igetCached (l := l) hc child.item.sb fsuid
    (lookupOutcome x child.item.inode dotdot).fh (lookupOutcome x child.item.inode dotdot).attr
  refine ⟨id, c', ?_, hkeeps, hsits⟩
  unfold lookupOutcome at herror hget
  simp only [uvfsGetParent, Dialogue.run_bind, herror, ne_eq, not_true_eq_false, if_false, hget,
    Dialogue.run_pure]

/-- **Up to the root**: as many steps as the path has names. -/
theorem exists_climb (fsuid : Word) (hx : AnswersDotdot t x) {path : List (List Byte)}
    (hc : Canonical hash c) (hpath : t.Leads t.root path m) (hdir : t.isDir m = true)
    (hid : Sits sb c id m) :
    ∃ id' c', climb hash l fsuid x path.length c id = some (id', c') ∧ Keeps hash c c' ∧
      Sits sb c' id' t.root := by
  induction path using List.reverseRecOn generalizing c id m with
  | nil =>
      cases hpath
      exact ⟨id, c, rfl, ⟨hc, fun _ _ _ hs => hs⟩, hid⟩
  | append_singleton path name ih =>
      obtain ⟨n, hn, hentry⟩ := hpath.of_snoc
      obtain ⟨d, hd, rfl, hkey⟩ := hid
      have hget : c.get? d.id = some d := hc.get?_eq_some_iff.mpr ⟨hd, rfl⟩
      have hsb : d.item.sb = sb := congrArg Prod.fst hkey
      obtain ⟨herror, hparent⟩ := hx _ hentry hdir d.item.inode (congrArg Prod.snd hkey)
      obtain ⟨id₁, c₁, hrun, hkeeps₁, hsits₁⟩ := exists_uvfsGetParent (l := l) hc fsuid
        herror
      rw [hparent, hsb] at hsits₁
      obtain ⟨id', c', hclimb, hkeeps, hsits⟩ := ih hkeeps₁.canonical hn
        (t.parent_isDir _ hentry) hsits₁
      refine ⟨id', c', ?_, hkeeps₁.trans hkeeps, hsits⟩
      rw [List.length_append, List.length_singleton, climb, hget, Option.bind_some, hrun]
      exact hclimb

/-- **An exported directory finds its place.**  After any run that is truthful, whatever inodes and
names are cached: for the words of a handle that `uvfs_encode_fh` has made for a directory,
`uvfs_fh_to_dentry` gets an inode, `uvfs_get_parent` leads from it to the inode of the root in as
many steps as the path of the directory has names, and the walk down that path ends at the inode
that `uvfs_fh_to_dentry` has given.  Meanwhile there is memory for transactions and inodes, the
getattr is answered without an error, lookups are answered as the tree is and no signal interrupts
them, nothing is mounted below a stale name, and nobody else takes a step. -/
theorem exported_directory_reconnects (hc : IcacheReach hash l c) {tree : ServerTree}
    {s : NameState} (h : Reach (nameStep hash l) (Truthfully sb) (.init c tree) s) {x y : Exchange}
    (hx : Exact s.tree x) (hy : AnswersDotdot s.tree y) {sub : ℕ → List Byte → Bool}
    (hsub : MountsRight sb sub s) {path : List (List Byte)}
    (hpath : s.tree.Leads s.tree.root path m) (hdir : s.tree.isDir m = true) {raw : ℕ → Word}
    (hraw : (raw 0, raw 1, raw 2) = m) {fhLen fhType : ℤ} (hlen : 3 ≤ fhLen) (htype : fhType ≤ 2)
    (attr : UvfsAttr) (fsuid : Word) (p : ℕ) :
    ∃ id c₁ root c₂,
      uvfsFhToDentry hash l s.cache sb fsuid raw fhLen fhType (some (0, attr)) true =
        (some (.ok id), c₁) ∧
      climb hash l fsuid y path.length c₁ id = some (root, c₂) ∧ Sits sb c₂ root s.tree.root ∧
      ((NameState.setWalk { s with cache := c₂ } p (.reached root path)).follow hash l p x fsuid sub
        (2 * path.length)).walks p = .reached id [] := by
  have hheld : NameState.Held hash sb s :=
    Reach.invariant (P := NameState.Held hash sb) (.init (IcacheReach.canonical hc) tree)
      (fun _ _ _ hheld hG hstep => (hheld.step hG hstep).1) h
  obtain ⟨id, c₁, hget, hkeeps₁, hid⟩ := exists_uvfsGetDentry (l := l) hheld.canonical sb fsuid
    (wireHandle (raw 0) (raw 1) (raw 2)) attr
  have hm : (wireHandle (raw 0) (raw 1) (raw 2)).identity = m := hraw
  rw [hm] at hid
  obtain ⟨root, c₂, hclimb, hkeeps₂, hroot⟩ := exists_climb (l := l) fsuid hy hkeeps₁.canonical
    hpath hdir hid
  refine ⟨id, c₁, root, c₂, ?_, hclimb, hroot, ?_⟩
  · have hhandle : fhToHandle raw fhLen fhType = some (wireHandle (raw 0) (raw 1) (raw 2)) :=
      value_fhToDentry.trans (if_neg (by omega))
    simp only [uvfsFhToDentry, hhandle, hget]
  · -- down again, from a state that holds the root as well
    have hkeeps := hkeeps₁.trans hkeeps₂
    set s₂ := NameState.setWalk { s with cache := c₂ } p (.reached root path) with hs₂
    have hheld₂ : NameState.Held hash sb s₂ := by
      refine hheld.of_holds hkeeps.canonical (fun id n _ hs => hkeeps.sits sb id n hs)
        fun i hi => ?_
      rcases NameState.holds_setWalk hi with hold | ⟨_, hw⟩
      · exact .inl hold
      · cases hw
        exact .inr ⟨_, hroot⟩
    have hw₂ : s₂.walks p = .reached root path := Function.update_self p _ _
    have hsub₂ : MountsRight sb sub s₂ := fun dir name i hyes hi => by
      obtain ⟨n, m, hn, hm, hentry⟩ := hsub dir name i hyes hi
      exact ⟨n, m, hkeeps.sits sb dir n hn, hkeeps.sits sb i m hm, hentry⟩
    obtain ⟨hend, hkept⟩ := hheld₂.follow_keeps (l := l) p fsuid hx hsub₂ (2 * path.length)
    rcases hheld₂.follow (l := l) fsuid hx hsub₂ hw₂ hroot le_rfl with
      ⟨id', m', hw', hm', hleads⟩ | ⟨_, hno⟩
    · obtain rfl : m' = m := hleads.unique hpath
      rw [hw', hm'.id_eq hend.canonical (hkept id m' (hkeeps₂.sits sb id m' hid))]
    · exact absurd hpath (hno m)

/-- The server of the tree with one directory answers for `..`. -/
def oneDirDotdot : Exchange := ⟨true, fun _ i => if i = 40 then 1 else 0⟩

theorem answersDotdot_oneDir : AnswersDotdot oneDirTree oneDirDotdot := by
  intro e he _ dir _
  obtain rfl : e = ⟨(0, 1, 0), [97], (0, 7, 0)⟩ := Finset.mem_singleton.mp he
  rw [lookupOutcome, uvfsLookupByName, if_neg (by decide), run_request]
  simp only [oneDirDotdot, if_true]
  decide

/-- The words of the handle of the directory. -/
def oneDirWords : ℕ → Word := fun i => if i = 1 then 7 else 0

/-- The handle of the directory comes back while the kernel has a wrong inode for its name. -/
theorem exported_directory_reconnects_one : ∃ s id c₁ root c₂,
    Reach (nameStep (fun _ h => h) .w64) (Truthfully 0) (.init rootCache oneDirTree) s ∧
    s.dcache 0 [97] = some (some 0) ∧
    uvfsFhToDentry (fun _ h => h) .w64 s.cache 0 0 oneDirWords 3 1
      (some (0, attrOfMode 0o040755)) true = (some (.ok id), c₁) ∧
    climb (fun _ h => h) .w64 0 oneDirDotdot 1 c₁ id = some (root, c₂) ∧
    ((NameState.setWalk { s with cache := c₂ } 1 (.reached root [[97]])).follow (fun _ h => h) .w64
      1 oneDirExchange 0 (fun _ _ => false) 2).walks 1 = .reached id [] := by
  have hroot : Sits 0 rootCache 0 (0, 1, 0) := ⟨_, List.mem_cons_self, rfl, rfl⟩
  have hreach : Follows (nameStep (fun _ h => h) .w64) (Truthfully 0)
      (.init rootCache oneDirTree) staleName _ :=
    ⟨fun id hid => by cases hid; exact ⟨_, hroot⟩, _, rfl, ⟨_, hroot⟩, _, rfl, rfl⟩
  have hpath : oneDirTree.Leads oneDirTree.root [[97]] (0, 7, 0) :=
    ⟨(0, 7, 0), Finset.mem_singleton_self _, rfl⟩
  obtain ⟨id, c₁, root, c₂, hget, hclimb, _, hdown⟩ := exported_directory_reconnects
    rootCache_reach hreach.reach exact_oneDir answersDotdot_oneDir .of_none hpath rfl
    (by decide : (oneDirWords 0, oneDirWords 1, oneDirWords 2) = (0, 7, 0)) (le_refl 3)
    (by decide : (1 : ℤ) ≤ 2) (attrOfMode 0o040755) 0 1
  exact ⟨_, id, c₁, root, c₂, hreach.reach, rfl, hget, hclimb, hdown⟩

end Uvfs.Vfs
