import Uvfs.Lib.Fair
import Uvfs.Vfs.Links
import Uvfs.Vfs.Lookup

/-!
# Walking down a path

The kernel follows a path name by name, and it keeps the names it has looked up.  On a hit it asks
`uvfs_dentry_revalidate` whether it may trust the name, and drops it when it may not; for a name
that it does not have it calls `uvfs_lookup`.  Meanwhile other processes walk, make and remove
entries, the kernel drops names and inodes, and the server's tree changes.

Whatever the cached names say, a walk goes only where the server's names lead: a name is kept only
when its inode has the handle of the reply, and otherwise the inode is the one that the inode cache
has for that handle.

There are two branches of `uvfs_dentry_revalidate` that keep a name without this check: when a
signal has interrupted the lookup, and when something is mounted below a directory whose name is
stale.  Neither happens in the runs here.

* `NameState`, `NameAct`, `nameStep` : the processes, the two caches, and the tree.
* `Truthfully` : the guard.  Replies tell the truth about the tree of that moment, no lookup is
  interrupted, no stale name has something mounted below it, and an inode is not evicted while a
  name or a process holds it.
* `walk_follows_server` : where a walk ends, in any interleaving.
* `MountsRight` : nothing is mounted below a stale name.
* `undisturbed_walk_exact` : a walk that nobody disturbs ends, and ends where the tree says,
  whatever names are cached.
-/

namespace Uvfs.Vfs

open Transition

/-! ## The system -/

/-- A process that follows a path. -/
inductive Walk
  | idle
  /-- It has come to an inode, and these names are left. -/
  | reached (dir : ℕ) (rest : List (List Byte))
  /-- There is no such file. -/
  | failed

/-- The caches of a kernel, the tree of the server and the processes. -/
structure NameState where
  /-- The inodes. -/
  cache : InodeCache
  /-- The names in each directory: `some none` is a negative one. -/
  dcache : ℕ → List Byte → Option (Option ℕ)
  /-- The tree of the server. -/
  tree : ServerTree
  /-- The processes. -/
  walks : ℕ → Walk

/-- What happens. -/
inductive NameAct
  /-- Process `p` starts from a directory. -/
  | begin (p dir : ℕ) (path : List (List Byte))
  /-- Process `p` goes on with the next name; `x` is what becomes of its request, `memory` says
  whether an inode can be allocated. -/
  | walk (p : ℕ) (x : Exchange) (fsuid : Word) (memory haveSubmounts : Bool)
  /-- Some other call adds a name: `d_instantiate`, `d_move`. -/
  | instantiate (dir : ℕ) (name : List Byte) (inode : Option ℕ)
  /-- The kernel drops a name. -/
  | drop (dir : ℕ) (name : List Byte)
  /-- Some other call works on the inodes, or the kernel drops one. -/
  | icache (a : IcacheAct)
  /-- The tree changes. -/
  | serve (tree : ServerTree)

/-- What `uvfs_lookup_by_name` returns and stores. -/
def lookupOutcome (x : Exchange) (dir : Inode) (name : List Byte) : LookupOutcome :=
  ((uvfsLookupByName dir name).run x.serve []).1

namespace NameState

/-- Process `p` goes to another place. -/
def setWalk (s : NameState) (p : ℕ) (w : Walk) : NameState :=
  { s with walks := Function.update s.walks p w }

/-- A name is added, replaced or dropped. -/
def setDentry (s : NameState) (dir : ℕ) (name : List Byte) (dentry : Option (Option ℕ)) :
    NameState :=
  { s with dcache := Function.update s.dcache dir (Function.update (s.dcache dir) name dentry) }

/-- The inode with an identity. -/
def inodeOf (s : NameState) (id : ℕ) : Option Inode := (s.cache.get? id).map fun d => d.item.inode

/-- The kernel has the name: `uvfs_dentry_revalidate`.  A name that is kept is followed, one that is
not is dropped. -/
def hit (s : NameState) (p dir : ℕ) (name : List Byte) (rest : List (List Byte))
    (dentry : Option ℕ) (o : LookupOutcome) (haveSubmounts : Bool) : NameState :=
  if (uvfsDentryRevalidate (dentry.bind s.inodeOf) o haveSubmounts).ret = 1 then
    match dentry with
    | some id => s.setWalk p (.reached id rest)
    | none => s.setWalk p .failed
  else s.setDentry dir name none

/-- The kernel does not have the name: `uvfs_lookup`, whose `d_splice_alias` adds the name with the
inode, or as a negative one. -/
def miss (hash : ℕ → ℕ → ℕ) (l : LongWidth) (s : NameState) (p : ℕ) (dir : Slot ℕ CachedInode)
    (name : List Byte) (rest : List (List Byte)) (fsuid : Word) (o : LookupOutcome)
    (memory : Bool) : NameState :=
  let r := uvfsLookup hash l s.cache dir.item.sb fsuid o memory
  { s with
    cache := r.2
    dcache := (s.setDentry dir.id name (some r.1)).dcache
    walks := Function.update s.walks p (match r.1 with
      | some id => .reached id rest
      | none => .failed) }

/-- Process `p` goes on with the next name.
Source: `dir.c`, `uvfs_dentry_revalidate` and `uvfs_lookup`, as the kernel calls them. -/
def walk (hash : ℕ → ℕ → ℕ) (l : LongWidth) (s : NameState) (p : ℕ) (x : Exchange) (fsuid : Word)
    (memory haveSubmounts : Bool) : Option NameState :=
  match s.walks p with
  | .reached dir (name :: rest) => (s.cache.get? dir).map fun d =>
      let o := lookupOutcome x d.item.inode name
      match s.dcache dir name with
      | some dentry => s.hit p dir name rest dentry o haveSubmounts
      | none => s.miss hash l p d name rest fsuid o memory
  | _ => none

/-- A kernel with no names and no processes. -/
def init (cache : InodeCache) (tree : ServerTree) : NameState :=
  ⟨cache, fun _ _ => none, tree, fun _ => .idle⟩

end NameState

/-- One step. -/
def nameStep (hash : ℕ → ℕ → ℕ) (l : LongWidth) (s : NameState) : NameAct → Option NameState
  | .begin p dir path => some (s.setWalk p (.reached dir path))
  | .walk p x fsuid memory haveSubmounts => s.walk hash l p x fsuid memory haveSubmounts
  | .instantiate dir name inode => some (s.setDentry dir name (some inode))
  | .drop dir name => some (s.setDentry dir name none)
  | .icache a => (icacheStep hash l s.cache a).map fun c => { s with cache := c }
  | .serve tree => some { s with tree := tree }

/-! ## What is held -/

/-- The inode `id` of the superblock is that of the node `n`. -/
def Sits (sb : ℕ) (c : InodeCache) (id : ℕ) (n : NodeId) : Prop :=
  ∃ d ∈ c.slots, d.id = id ∧ d.item.key = (sb, n)

/-- A name or a process holds the inode. -/
def NameState.Holds (s : NameState) (id : ℕ) : Prop :=
  (∃ dir name, s.dcache dir name = some (some id)) ∨ ∃ p rest, s.walks p = .reached id rest

/-- The cached inode is that of the reply. -/
def NameState.Agrees (s : NameState) (id : ℕ) (o : LookupOutcome) : Prop :=
  o.error = 0 ∧ ∀ i ∈ s.inodeOf id, i.fh.identity = o.fh.identity

/-- The reply is true of the tree: what it finds is there.  A lookup may fail at any time, but no
signal interrupts it. -/
def LookupOutcome.TrueOf (t : ServerTree) (n : NodeId) (name : List Byte) (o : LookupOutcome) :
    Prop :=
  o.error ≠ erestartsys ∧ (0 ≤ o.error → ⟨n, name, o.fh.identity⟩ ∈ t.entries)

/-- A walk starts, and a name is added, with an inode of the superblock; the replies are true, and
no signal interrupts a lookup; a name below which something is mounted is not stale; an inode is
evicted only when nothing holds it. -/
def Truthfully (sb : ℕ) (s : NameState) : NameAct → Prop
  | .begin _ dir _ => ∃ n, Sits sb s.cache dir n
  | .walk p x _ _ haveSubmounts => ∀ d ∈ s.cache.slots, ∀ name rest,
      s.walks p = .reached d.id (name :: rest) →
        (lookupOutcome x d.item.inode name).TrueOf s.tree d.item.inode.fh.identity name ∧
        (haveSubmounts = true → ∀ id, s.dcache d.id name = some (some id) →
          s.Agrees id (lookupOutcome x d.item.inode name))
  | .instantiate _ _ inode => ∀ id ∈ inode, ∃ n, Sits sb s.cache id n
  | .icache (.evict id) => ¬ s.Holds id
  | .drop _ _ | .icache _ | .serve _ => True

variable {hash : ℕ → ℕ → ℕ} {l : LongWidth} {sb : ℕ} {s s' : NameState} {c c' : InodeCache}
  {id p : ℕ} {n m : NodeId}

namespace Sits

/-- An inode is that of one node. -/
theorem unique (hc : Canonical hash c) (h : Sits sb c id n) (h' : Sits sb c id m) : n = m := by
  obtain ⟨d, hd, hid, hkey⟩ := h
  obtain ⟨d', hd', hid', hkey'⟩ := h'
  obtain rfl := hc.eq_of_id hd hd' (hid.trans hid'.symm)
  exact congrArg Prod.snd (hkey.symm.trans hkey')

/-- A node has one inode. -/
theorem id_eq (hc : Canonical hash c) {id' : ℕ} (h : Sits sb c id n) (h' : Sits sb c id' n) :
    id = id' := by
  obtain ⟨d, hd, rfl, hkey⟩ := h
  obtain ⟨d', hd', rfl, hkey'⟩ := h'
  exact congrArg Slot.id (hc.eq_of_key hd hd' (hkey.trans hkey'.symm))

theorem add (h : Sits sb c id n) (b : ℕ) (x : CachedInode) : Sits sb (c.add b x) id n := by
  obtain ⟨d, hd, hid, hkey⟩ := h
  exact ⟨d, List.mem_cons_of_mem _ hd, hid, hkey⟩

theorem modify (h : Sits sb c id n) (i : ℕ) {f : CachedInode → CachedInode}
    (hf : ∀ x, (f x).key = x.key) : Sits sb (c.modify i f) id n := by
  obtain ⟨d, hd, hid, hkey⟩ := h
  refine ⟨_, Table.mem_modify.mpr ⟨d, hd, rfl⟩, Table.id_modified.trans hid, ?_⟩
  rw [Table.key_modified fun _ => hf d.item]
  exact hkey

theorem remove (h : Sits sb c id n) {i : ℕ} (hi : id ≠ i) : Sits sb (c.remove i) id n := by
  obtain ⟨d, hd, hid, hkey⟩ := h
  exact ⟨d, Table.mem_remove.mpr ⟨hd, hid.trans_ne hi⟩, hid, hkey⟩

/-- `uvfs_iget` leaves the other inodes where they are. -/
theorem iget (hc : Canonical hash c) (h : Sits sb c id n) (sb' : ℕ) (fsuid : Word) (fh : Fhandle)
    (attr : UvfsAttr) (memory : Bool) :
    Sits sb (igetCached hash l c sb' fsuid fh attr memory).2 id n := by
  rcases key_mem_or_not c sb' fh with ⟨d, hd, hkey⟩ | hnew
  · rw [igetCached_of_mem hc hd hkey]
    exact h.modify _ fun _ => rfl
  · rw [igetCached_of_not_mem hc hnew]
    split
    · exact h.add _ _
    · exact h

/-- Only an eviction takes an inode away. -/
theorem icacheStep (hc : Canonical hash c) (h : Sits sb c id n) {a : IcacheAct}
    (ha : ∀ i, a = .evict i → id ≠ i) (hstep : icacheStep hash l c a = some c') :
    Sits sb c' id n := by
  cases a with
  | iget sb' fsuid fh attr memory =>
      cases hstep
      exact h.iget hc sb' fsuid fh attr memory
  | getDentry sb' fsuid fh reply memory =>
      cases hstep
      unfold uvfsGetDentry
      split
      · exact h
      · cases reply with
        | none => exact h
        | some reply =>
            have hget := h.iget (l := l) hc sb' fsuid fh reply.2 memory
            by_cases herror : reply.1 = 0
            · simp only [herror, if_true]
              split <;> simpa [*] using hget
            · simpa only [herror, if_false] using h
  | revalidate i fsuid reply =>
      cases hstep
      simp only [revalidateCached]
      split
      · exact h
      · split_ifs
        · exact h.modify _ fun _ => rfl
        · exact h
  | evict i =>
      cases hstep
      exact h.remove (ha i rfl)

end Sits

namespace NameState

/-- The inodes that are held are in the cache. -/
structure Held (hash : ℕ → ℕ → ℕ) (sb : ℕ) (s : NameState) : Prop where
  canonical : Canonical hash s.cache
  sits : ∀ id, s.Holds id → ∃ n, Sits sb s.cache id n

/-- The cache may change as long as what is held stays, and what is new is there. -/
theorem Held.of_holds (h : Held hash sb s) (hc : Canonical hash s'.cache)
    (hkeep : ∀ id n, s.Holds id → Sits sb s.cache id n → Sits sb s'.cache id n)
    (hnew : ∀ id, s'.Holds id → s.Holds id ∨ ∃ n, Sits sb s'.cache id n) : Held hash sb s' := by
  refine ⟨hc, fun id hid => ?_⟩
  rcases hnew id hid with hold | hsits
  · obtain ⟨n, hn⟩ := h.sits id hold
    exact ⟨n, hkeep id n hold hn⟩
  · exact hsits

theorem holds_setWalk {w : Walk} (h : (s.setWalk p w).Holds id) :
    s.Holds id ∨ ∃ rest, w = .reached id rest := by
  rcases h with ⟨dir, name, hd⟩ | ⟨q, rest, hq⟩
  · exact .inl (.inl ⟨dir, name, hd⟩)
  · by_cases hqp : q = p
    · subst hqp
      simp only [setWalk, Function.update_self] at hq
      exact .inr ⟨rest, hq⟩
    · simp only [setWalk, Function.update_of_ne hqp] at hq
      exact .inl (.inr ⟨q, rest, hq⟩)

/-- The names after one was added, replaced or dropped. -/
theorem dcache_setDentry {dir : ℕ} {name : List Byte} {dentry : Option (Option ℕ)} {dir' : ℕ}
    {name' : List Byte} (h : (s.setDentry dir name dentry).dcache dir' name' = some (some id)) :
    s.dcache dir' name' = some (some id) ∨
      (dir' = dir ∧ name' = name ∧ dentry = some (some id)) := by
  by_cases hdir : dir' = dir
  · subst hdir
    by_cases hname : name' = name
    · subst hname
      simp only [setDentry, Function.update_self] at h
      exact .inr ⟨rfl, rfl, h⟩
    · simp only [setDentry, Function.update_self, Function.update_of_ne hname] at h
      exact .inl h
  · simp only [setDentry, Function.update_of_ne hdir] at h
    exact .inl h

theorem holds_setDentry {dir : ℕ} {name : List Byte} {dentry : Option (Option ℕ)}
    (h : (s.setDentry dir name dentry).Holds id) : s.Holds id ∨ dentry = some (some id) := by
  rcases h with ⟨dir', name', hd⟩ | ⟨q, rest, hq⟩
  · exact (dcache_setDentry hd).imp (fun hd => .inl ⟨dir', name', hd⟩) fun hd => hd.2.2
  · exact .inl (.inr ⟨q, rest, hq⟩)

end NameState

/-! ## One step of a walk -/

/-- A name that is kept has the inode of the reply. -/
theorem identity_of_kept {inode : Option Inode} {o : LookupOutcome} {haveSubmounts : Bool}
    (h : (uvfsDentryRevalidate inode o haveSubmounts).ret = 1) (hsignal : o.error ≠ erestartsys)
    (hsub : haveSubmounts = true → ∀ i ∈ inode, o.error = 0 ∧ i.fh.identity = o.fh.identity) :
    o.error = 0 ∧ ∃ i ∈ inode, i.fh.identity = o.fh.identity := by
  by_cases hmounted : Mounted inode haveSubmounts
  · obtain ⟨hyes, i, hi, _⟩ := hmounted
    exact ⟨(hsub hyes i hi).1, i, hi, (hsub hyes i hi).2⟩
  · have hbad : ¬ (Verdict.outBad inode haveSubmounts).ret = 1 := fun hi => by
      rw [(Verdict.outBad_of_not_mounted hmounted).1] at hi
      cases hi
    cases inode with
    | none => exact absurd h hbad
    | some i =>
        unfold uvfsDentryRevalidate at h
        dsimp only at h
        split_ifs at h with herror hsame
        · exact absurd h hbad
        · exact ⟨not_not.mp herror, i, rfl, uvfsCompareInode_iff.mp hsame⟩
        · exact absurd h hbad

/-- `uvfs_lookup` keeps the inodes where they are, and what it finds is the inode of the reply. -/
theorem uvfsLookup_spec (hc : Canonical hash c) (sb : ℕ) (fsuid : Word) (o : LookupOutcome)
    (memory : Bool) :
    Canonical hash (uvfsLookup hash l c sb fsuid o memory).2 ∧
      (∀ sb' id n, Sits sb' c id n →
        Sits sb' (uvfsLookup hash l c sb fsuid o memory).2 id n) ∧
      (∀ id, (uvfsLookup hash l c sb fsuid o memory).1 = some id →
        0 ≤ o.error ∧ Sits sb (uvfsLookup hash l c sb fsuid o memory).2 id o.fh.identity) ∧
      ((uvfsLookup hash l c sb fsuid o memory).1 = none → o.error < 0 ∨ memory = false) := by
  unfold uvfsLookup
  split_ifs with herror
  · exact ⟨hc, fun _ _ _ h => h, fun _ h => h.elim, fun _ => .inl herror⟩
  · have hc' : Canonical hash (igetCached hash l c sb fsuid o.fh o.attr memory).2 :=
      (icacheStep_canonical (a := .iget sb fsuid o.fh o.attr memory) hc rfl).1
    refine ⟨hc', fun sb' id n h => h.iget hc sb fsuid o.fh o.attr memory, fun id hid => ?_,
      fun hnone => ?_⟩
    · obtain ⟨d, hd, hkey, -⟩ := igetCached_eq_some (l := l) (c := c) hc
        (Prod.ext hid rfl)
      obtain ⟨hmem, hid'⟩ := Table.mem_of_get?_eq_some hd
      exact ⟨not_lt.mp herror, d, hmem, hid', hkey⟩
    · exact .inr ((igetCached_eq_none_iff hc).mp (Prod.ext hnone rfl)).1

namespace NameState

/-- What a step of process `p` does to the state, where `o` is the outcome of its lookup of `name`
in the directory `dir`: a name that was not to be trusted is gone, or the walk has failed, or it has
come to the inode of the reply. -/
structure Moved (sb : ℕ) (s s' : NameState) (p dir : ℕ) (name : List Byte)
    (rest : List (List Byte)) (o : LookupOutcome) (memory : Bool) : Prop where
  tree : s'.tree = s.tree
  others : ∀ q, q ≠ p → s'.walks q = s.walks q
  keeps : ∀ id n, Sits sb s.cache id n → Sits sb s'.cache id n
  names : ∀ dir' name' id, s'.dcache dir' name' = some (some id) →
    s.dcache dir' name' = some (some id) ∨
      (dir' = dir ∧ name' = name ∧ Sits sb s'.cache id o.fh.identity ∧ 0 ≤ o.error)
  goes : (s'.walks p = s.walks p ∧ s.dcache dir name ≠ none ∧ s'.dcache dir name = none) ∨
    (s'.walks p = .failed ∧ (o.error < 0 ∨ memory = false)) ∨
    ∃ id, s'.walks p = .reached id rest ∧ Sits sb s'.cache id o.fh.identity ∧ 0 ≤ o.error

variable {dir : ℕ} {name : List Byte} {rest : List (List Byte)} {o : LookupOutcome} {memory : Bool}

theorem Held.hit (h : Held hash sb s) (p : ℕ) (rest : List (List Byte)) (memory : Bool)
    {dentry : Option ℕ} {haveSubmounts : Bool} (hsignal : o.error ≠ erestartsys)
    (hd : s.dcache dir name = some dentry)
    (hsub : haveSubmounts = true → ∀ id, s.dcache dir name = some (some id) → s.Agrees id o) :
    Held hash sb (s.hit p dir name rest dentry o haveSubmounts) ∧
      Moved sb s (s.hit p dir name rest dentry o haveSubmounts) p dir name rest o memory := by
  unfold NameState.hit
  split_ifs with hret
  · -- the name is kept, so it has an inode and that is the one of the reply
    obtain ⟨herror, i, hi, hsame⟩ := identity_of_kept hret hsignal fun hyes i hi => by
      obtain ⟨id, rfl, hget⟩ := Option.bind_eq_some_iff.mp hi
      exact ⟨(hsub hyes id hd).1, (hsub hyes id hd).2 i hget⟩
    obtain ⟨id, rfl, hget⟩ := Option.bind_eq_some_iff.mp hi
    obtain ⟨d, hd', rfl⟩ := Option.map_eq_some_iff.mp hget
    obtain ⟨hmem, rfl⟩ := Table.mem_of_get?_eq_some hd'
    obtain ⟨n, d', hmem', hid', hkey'⟩ := h.sits d.id (.inl ⟨dir, name, hd⟩)
    obtain rfl := h.canonical.eq_of_id hmem' hmem hid'
    have hkey : d'.item.key = (sb, o.fh.identity) := by
      have hsb : d'.item.sb = sb := congrArg Prod.fst hkey'
      rw [CachedInode.key, hsb, hsame]
    have hsits : Sits sb s.cache d'.id o.fh.identity := ⟨d', hmem, rfl, hkey⟩
    refine ⟨h.of_holds h.canonical (fun _ _ _ hs => hs) fun id hid => ?_, rfl,
      fun q hq => Function.update_of_ne hq _ _, fun _ _ hs => hs, fun _ _ _ hn => .inl hn,
      .inr (.inr ⟨d'.id, ?_⟩)⟩
    · rcases holds_setWalk hid with hold | ⟨_, hw⟩
      · exact .inl hold
      · cases hw
        exact .inr ⟨_, hsits⟩
    · exact ⟨Function.update_self p _ _, hsits, herror.ge⟩
  · refine ⟨h.of_holds h.canonical (fun _ _ _ hs => hs) fun id hid => ?_, rfl, fun _ _ => rfl,
      fun _ _ hs => hs, fun _ _ id hn => ?_, .inl ⟨rfl, ?_, ?_⟩⟩
    · rcases holds_setDentry hid with hold | hnone
      · exact .inl hold
      · cases hnone
    · rcases dcache_setDentry hn with hold | ⟨_, _, hnone⟩
      · exact .inl hold
      · cases hnone
    · rw [hd]
      exact Option.some_ne_none _
    · simp [setDentry]

theorem Held.miss (h : Held hash sb s) (p : ℕ) {d : Slot ℕ CachedInode} (hsb : d.item.sb = sb)
    (name : List Byte) (rest : List (List Byte)) (fsuid : Word) (o : LookupOutcome)
    (memory : Bool) :
    Held hash sb (s.miss hash l p d name rest fsuid o memory) ∧
      Moved sb s (s.miss hash l p d name rest fsuid o memory) p d.id name rest o memory := by
  obtain ⟨hc, hkeep, hfound, hnone⟩ := uvfsLookup_spec (l := l) h.canonical d.item.sb fsuid o memory
  rw [hsb] at hc hkeep hfound hnone
  unfold NameState.miss
  rw [hsb]
  dsimp only
  refine ⟨h.of_holds hc (fun id n _ hs => hkeep sb id n hs) fun id hid => ?_, rfl,
    fun q hq => Function.update_of_ne hq _ _, fun id n hs => hkeep sb id n hs,
    fun _ _ id hn => ?_, .inr ?_⟩
  · have hid' : ((s.setDentry d.id name
        (some (uvfsLookup hash l s.cache sb fsuid o memory).1)).setWalk p
          (match (uvfsLookup hash l s.cache sb fsuid o memory).1 with
            | some id => .reached id rest
            | none => .failed)).Holds id := hid
    rcases holds_setWalk hid' with hold | ⟨rest', hw⟩
    · rcases holds_setDentry hold with hold | hsome
      · exact .inl hold
      · exact .inr ⟨_, (hfound id (Option.some.inj hsome)).2⟩
    · split at hw
      · cases hw
        exact .inr ⟨_, (hfound id ‹_›).2⟩
      · cases hw
  · rcases dcache_setDentry hn with hold | ⟨hdir, hname, hsome⟩
    · exact .inl hold
    · obtain ⟨herror, hsits⟩ := hfound id (Option.some.inj hsome)
      exact .inr ⟨hdir, hname, hsits, herror⟩
  · cases hr : (uvfsLookup hash l s.cache sb fsuid o memory).1 with
    | none => exact .inl ⟨by simp, hnone hr⟩
    | some id =>
        obtain ⟨herror, hsits⟩ := hfound id hr
        exact .inr ⟨id, by simp, hsits, herror⟩

/-- **One step of a walk.** -/
theorem Held.walk (h : Held hash sb s) {x : Exchange} {fsuid : Word} {haveSubmounts : Bool}
    (hG : Truthfully sb s (.walk p x fsuid memory haveSubmounts))
    (hstep : s.walk hash l p x fsuid memory haveSubmounts = some s') :
    Held hash sb s' ∧ ∃ d ∈ s.cache.slots, ∃ name rest, s.walks p = .reached d.id (name :: rest) ∧
      d.item.sb = sb ∧
      Moved sb s s' p d.id name rest (lookupOutcome x d.item.inode name) memory := by
  unfold NameState.walk at hstep
  split at hstep
  · rename_i dir name rest hw
    obtain ⟨d, hget, rfl⟩ := Option.map_eq_some_iff.mp hstep
    obtain ⟨hd, rfl⟩ := Table.mem_of_get?_eq_some hget
    obtain ⟨⟨hsignal, -⟩, hsub⟩ := hG d hd name rest hw
    obtain ⟨n, d', hd', hid', hkey'⟩ := h.sits d.id (.inr ⟨p, _, hw⟩)
    obtain rfl := h.canonical.eq_of_id hd' hd hid'
    have hsb : d'.item.sb = sb := congrArg Prod.fst hkey'
    cases hdc : s.dcache d'.id name with
    | some dentry =>
        obtain ⟨hheld, hmoved⟩ := h.hit p rest memory hsignal hdc hsub
        exact ⟨hheld, d', hd, name, rest, hw, hsb, hmoved⟩
    | none =>
        obtain ⟨hheld, hmoved⟩ := h.miss (l := l) p hsb name rest fsuid
          (lookupOutcome x d'.item.inode name) memory
        exact ⟨hheld, d', hd, name, rest, hw, hsb, hmoved⟩
  · cases hstep

/-! ## Whole runs -/

theorem Held.init (hc : Canonical hash c) (tree : ServerTree) : Held hash sb (init c tree) := by
  refine ⟨hc, ?_⟩
  rintro id (⟨_, _, hd⟩ | ⟨_, _, hw⟩)
  · cases hd
  · cases hw

/-- A step keeps what is held. -/
theorem Held.step (h : Held hash sb s) {a : NameAct} (hG : Truthfully sb s a)
    (hstep : nameStep hash l s a = some s') :
    Held hash sb s' ∧ ∀ id n, s.Holds id → Sits sb s.cache id n → Sits sb s'.cache id n := by
  cases a with
  | begin q dir path =>
      cases hstep
      refine ⟨h.of_holds h.canonical (fun _ _ _ hs => hs) fun id hid => ?_, fun _ _ _ hs => hs⟩
      rcases holds_setWalk hid with hold | ⟨_, hw⟩
      · exact .inl hold
      · cases hw
        exact .inr hG
  | walk q x fsuid memory haveSubmounts =>
      obtain ⟨hheld, _, _, _, _, _, _, hmoved⟩ := h.walk hG hstep
      exact ⟨hheld, fun id n _ => hmoved.keeps id n⟩
  | instantiate dir name inode =>
      cases hstep
      refine ⟨h.of_holds h.canonical (fun _ _ _ hs => hs) fun id hid => ?_, fun _ _ _ hs => hs⟩
      rcases holds_setDentry hid with hold | hsome
      · exact .inl hold
      · exact .inr (hG id (Option.some.inj hsome))
  | drop dir name =>
      cases hstep
      refine ⟨h.of_holds h.canonical (fun _ _ _ hs => hs) fun id hid => ?_, fun _ _ _ hs => hs⟩
      rcases holds_setDentry hid with hold | hnone
      · exact .inl hold
      · cases hnone
  | icache a =>
      obtain ⟨c', hc', rfl⟩ := Option.map_eq_some_iff.mp hstep
      have hkeep : ∀ id n, s.Holds id → Sits sb s.cache id n → Sits sb c' id n :=
        fun id n hold hs => hs.icacheStep h.canonical (fun i hi heq => by
          subst hi heq
          exact hG hold) hc'
      exact ⟨h.of_holds (icacheStep_canonical h.canonical hc').1 hkeep fun _ hid => .inl hid, hkeep⟩
  | serve tree =>
      cases hstep
      exact ⟨⟨h.canonical, h.sits⟩, fun _ _ _ hs => hs⟩

/-- A walk is where it was unless it is its own turn. -/
theorem walks_of_other {a : NameAct} (h : Held hash sb s) (hG : Truthfully sb s a)
    (hstep : nameStep hash l s a = some s') (hbegin : ∀ dir path, a ≠ .begin p dir path)
    (hwalk : ∀ x fsuid memory sub, a ≠ .walk p x fsuid memory sub) : s'.walks p = s.walks p := by
  cases a with
  | begin q dir path =>
      cases hstep
      have hq : p ≠ q := fun hq => hbegin dir path (hq ▸ rfl)
      exact Function.update_of_ne hq _ _
  | walk q x fsuid memory sub =>
      obtain ⟨_, _, _, _, _, _, _, hmoved⟩ := h.walk hG hstep
      exact hmoved.others p fun hq => hwalk x fsuid memory sub (hq ▸ rfl)
  | instantiate dir name inode =>
      cases hstep
      rfl
  | drop dir name =>
      cases hstep
      rfl
  | icache a =>
      obtain ⟨c', _, rfl⟩ := Option.map_eq_some_iff.mp hstep
      rfl
  | serve tree =>
      cases hstep
      rfl

theorem Held.state {ρ : Execution (nameStep hash l) (Truthfully sb)}
    (h : Held hash sb (ρ.state 0)) (j : ℕ) : Held hash sb (ρ.state j) := by
  induction j with
  | zero => exact h
  | succ j ih => exact (ih.step (ρ.guard j) (ρ.next j)).1

/-- **How far a walk has come**: the names that it has done were followed in the trees of the
server, and it is at the inode of the node they lead to. -/
theorem Held.followed {ρ : Execution (nameStep hash l) (Truthfully sb)}
    (h : Held hash sb (ρ.state 0)) {i dir : ℕ} {path : List (List Byte)}
    (hbegin : ρ.act i = .begin p dir path) (hn : Sits sb (ρ.state i).cache dir n) {j : ℕ}
    (hij : i < j) (honly : ∀ k, i < k → k < j → ∀ dir' path', ρ.act k ≠ .begin p dir' path')
    {id : ℕ} {rest : List (List Byte)} (hw : (ρ.state j).walks p = .reached id rest) :
    ∃ done m, path = done ++ rest ∧ Sits sb (ρ.state j).cache id m ∧
      DirTree.Followed (fun k => (ρ.state k).tree) (i + 1) n j done m := by
  induction j, hij using Nat.le_induction generalizing id rest with
  | base =>
      have hnext := ρ.next i
      rw [hbegin] at hnext
      have hstate := Option.some.inj hnext
      rw [← hstate] at hw ⊢
      simp only [setWalk, Function.update_self, Walk.reached.injEq] at hw
      obtain ⟨rfl, rfl⟩ := hw
      exact ⟨[], n, rfl, hn, .start⟩
  | succ j hij ih =>
      have hheld := h.state j
      have ih := @ih fun k hik hkj => honly k hik (by omega)
      by_cases hturn : ∃ x fsuid memory sub, ρ.act j = .walk p x fsuid memory sub
      · -- its own turn
        obtain ⟨x, fsuid, memory, sub, hact⟩ := hturn
        have hG := ρ.guard j
        have hnext := ρ.next j
        rw [hact] at hG hnext
        obtain ⟨_, d, hd, name, rest', hwalk, hsb, hmoved⟩ := hheld.walk hG hnext
        obtain ⟨done, m, rfl, hm, hdone⟩ := ih hwalk
        rcases hmoved.goes with ⟨hsame, _⟩ | ⟨hfailed, _⟩ | ⟨id', hgo, hid', herror⟩
        · rw [hsame, hwalk] at hw
          cases hw
          exact ⟨done, m, rfl, hmoved.keeps _ _ hm, hdone.wait⟩
        · rw [hfailed] at hw
          cases hw
        · rw [hgo] at hw
          cases hw
          have hkey : d.item.inode.fh.identity = m := by
            have hsits : Sits sb (ρ.state j).cache d.id d.item.inode.fh.identity :=
              ⟨d, hd, rfl, by rw [CachedInode.key, hsb]⟩
            exact hsits.unique hheld.canonical hm
          have hentry := (hG d hd name rest hwalk).1.2 herror
          rw [hkey] at hentry
          exact ⟨done ++ [name], _, by simp, hid', hdone.enter hentry⟩
      · -- somebody else's turn
        have hother := walks_of_other (p := p) hheld (ρ.guard j) (ρ.next j)
          (honly j hij (Nat.lt_succ_self j)) fun x fsuid memory sub hact =>
            hturn ⟨x, fsuid, memory, sub, hact⟩
        rw [hother] at hw
        obtain ⟨done, m, hpath, hm, hdone⟩ := ih hw
        exact ⟨done, m, hpath, (hheld.step (ρ.guard j) (ρ.next j)).2 id m (.inr ⟨p, rest, hw⟩) hm,
          hdone.wait⟩

end NameState

/-- The server answers every lookup, and as its tree is: a signal does not interrupt it, and what it
does not find is not there. -/
def Exact (t : ServerTree) (x : Exchange) : Prop :=
  ∀ dir name, ((lookupOutcome x dir name).error = 0 ∧
      ⟨dir.fh.identity, name, (lookupOutcome x dir name).fh.identity⟩ ∈ t.entries) ∨
    ((lookupOutcome x dir name).error < 0 ∧ (lookupOutcome x dir name).error ≠ erestartsys ∧
      ∀ m, ⟨dir.fh.identity, name, m⟩ ∉ t.entries)

/-- Where `have_submounts` finds something below a name, the name is that of the tree. -/
def MountsRight (sb : ℕ) (sub : ℕ → List Byte → Bool) (s : NameState) : Prop :=
  ∀ dir name id, sub dir name = true → s.dcache dir name = some (some id) →
    ∃ n m, Sits sb s.cache dir n ∧ Sits sb s.cache id m ∧ ⟨n, name, m⟩ ∈ s.tree.entries

/-- Nothing is mounted. -/
theorem MountsRight.of_none : MountsRight sb (fun _ _ => false) s :=
  fun _ _ _ hno => Bool.noConfusion hno

/-- `have_submounts` for the name that process `p` is at. -/
def NameState.haveSubmounts (s : NameState) (sub : ℕ → List Byte → Bool) (p : ℕ) : Bool :=
  match s.walks p with
  | .reached dir (name :: _) => sub dir name
  | _ => false

theorem Exact.trueOf {t : ServerTree} {x : Exchange} (hx : Exact t x) (dir : Inode)
    (name : List Byte) : (lookupOutcome x dir name).TrueOf t dir.fh.identity name := by
  rcases hx dir name with ⟨herror, hentry⟩ | ⟨herror, hsignal, _⟩
  · exact ⟨by rw [herror]; decide, fun _ => hentry⟩
  · exact ⟨hsignal, fun h => absurd herror (not_lt.mpr h)⟩

/-- Nothing is mounted. -/
theorem Exact.truthfully {t : ServerTree} {x : Exchange} (hx : Exact t x) (htree : s.tree = t)
    (p : ℕ) (fsuid : Word) (memory : Bool) : Truthfully sb s (.walk p x fsuid memory false) := by
  subst htree
  exact fun d _ name _ _ => ⟨hx.trueOf d.item.inode name, fun hyes => by cases hyes⟩

/-- What is mounted is mounted below names that are right. -/
theorem Exact.truthfully_of_mountsRight {x : Exchange} (hx : Exact s.tree x)
    (h : NameState.Held hash sb s) {sub : ℕ → List Byte → Bool} (hsub : MountsRight sb sub s)
    (p : ℕ) (fsuid : Word) (memory : Bool) :
    Truthfully sb s (.walk p x fsuid memory (s.haveSubmounts sub p)) := by
  intro d hd name rest hw
  refine ⟨hx.trueOf d.item.inode name, fun hyes id hid => ?_⟩
  rw [NameState.haveSubmounts, hw] at hyes
  obtain ⟨n, m, hn, hm, hentry⟩ := hsub d.id name id hyes hid
  obtain ⟨d', hd', hid', hkey'⟩ := hn
  obtain rfl := h.canonical.eq_of_id hd' hd hid'
  obtain rfl : d'.item.inode.fh.identity = n := congrArg Prod.snd hkey'
  rcases hx d'.item.inode name with ⟨herror, hfound⟩ | ⟨_, _, hno⟩
  · refine ⟨herror, fun i hi => ?_⟩
    obtain rfl : m = (lookupOutcome x d'.item.inode name).fh.identity :=
      congrArg DirEntry.child (s.tree.name_unique _ hentry _ hfound rfl rfl)
    obtain ⟨d₁, hget, rfl⟩ := Option.map_eq_some_iff.mp hi
    obtain ⟨hd₁, rfl⟩ := Table.mem_of_get?_eq_some hget
    obtain ⟨d₂, hd₂, hid₂, hkey₂⟩ := hm
    obtain rfl := h.canonical.eq_of_id hd₂ hd₁ hid₂
    exact congrArg Prod.snd hkey₂
  · exact absurd hentry (hno m)

/-- **A walk goes where the server's names lead.**  In every run of a kernel, with any number of
processes, other calls and changes of the server's tree in between, whatever names and inodes have
been cached, in which no signal interrupts a lookup and nothing is mounted below a name that is
stale: when the walk that process `p` began at the time `i` has come to its end, each name of the
path was, one after the other, in the tree of the server at some moment since then, and the
inode it has come to is that of the last node.  So if the tree has not changed since then, it is the
inode of the node that the path leads to. -/
theorem walk_follows_server (hc : IcacheReach hash l c) {tree : ServerTree}
    {ρ : Execution (nameStep hash l) (Truthfully sb)} (hinit : ρ.state 0 = .init c tree)
    {i dir : ℕ} {path : List (List Byte)} (hbegin : ρ.act i = .begin p dir path) {j : ℕ}
    (hij : i < j) (honly : ∀ k, i < k → k < j → ∀ dir' path', ρ.act k ≠ .begin p dir' path')
    {id : ℕ} (hw : (ρ.state j).walks p = .reached id []) :
    ∃ n m, Sits sb (ρ.state i).cache dir n ∧ Sits sb (ρ.state j).cache id m ∧
      DirTree.Followed (fun k => (ρ.state k).tree) (i + 1) n j path m ∧
      ∀ t, (∀ k, i < k → k < j → (ρ.state k).tree = t) → t.Leads n path m := by
  have hheld : NameState.Held hash sb (ρ.state 0) := by
    rw [hinit]
    exact .init (IcacheReach.canonical hc) tree
  have hG := ρ.guard i
  rw [hbegin] at hG
  obtain ⟨n, hn⟩ := hG
  obtain ⟨done, m, hpath, hm, hdone⟩ := hheld.followed hbegin hn hij honly hw
  rw [List.append_nil] at hpath
  subst hpath
  exact ⟨n, m, hn, hm, hdone, fun t hsame => hdone.leads fun k hik hkj => hsame k hik hkj⟩

/-- A root directory with one directory `a` in it. -/
def oneDirTree : ServerTree where
  root := (0, 1, 0)
  isDir n := n = (0, 1, 0) ∨ n = (0, 7, 0)
  entries := {⟨(0, 1, 0), [97], (0, 7, 0)⟩}
  name_unique := by decide
  parent_isDir := by decide
  parent_alive := by decide
  dir_unique := by decide
  root_isDir := by decide
  root_unnamed := by decide

/-- The server of this tree: it finds the directory, and for all else answers `-ENOENT`. -/
def oneDirExchange : Exchange where
  transaction := true
  reply
    | .lookup dir name =>
        if dir.fh.identity = (0, 1, 0) ∧ name = [97] then fun i => if i = 40 then 7 else 0
        else fun i => if i = 12 then 0xfe else 0xff
    | _ => fun _ => 0

theorem exact_oneDir : Exact oneDirTree oneDirExchange := by
  intro dir name
  unfold lookupOutcome uvfsLookupByName
  split_ifs with hlen
  · refine .inr ⟨by decide, by decide, fun m hm => ?_⟩
    simp only [oneDirTree, Finset.mem_singleton, DirEntry.mk.injEq] at hm
    rw [hm.2.1] at hlen
    exact absurd hlen (by decide)
  · simp only [run_request, oneDirExchange, if_true]
    split_ifs with hfound
    · obtain ⟨hdir, rfl⟩ := hfound
      refine .inl ⟨by decide, ?_⟩
      rw [hdir]
      decide
    · refine .inr ⟨by decide, by decide, fun m hm => ?_⟩
      simp only [oneDirTree, Finset.mem_singleton, DirEntry.mk.injEq] at hm
      exact hfound ⟨hm.1, hm.2.1⟩

/-- The inode of the root directory. -/
def rootCache : InodeCache :=
  (igetCached (fun _ h => h) .w64 .empty 0 0 ⟨0, 0, 0, 0, 0, 0, 1, 0⟩ (attrOfMode 0o040755) true).2

theorem rootCache_reach : IcacheReach (fun _ h => h) .w64 rootCache :=
  Reach.refl.tail (a := .iget 0 0 ⟨0, 0, 0, 0, 0, 0, 1, 0⟩ (attrOfMode 0o040755) true) trivial rfl

/-- The name `a` stands for the root itself when process 0 looks it up. -/
def staleName : List NameAct := [.instantiate 0 [97] (some 0), .begin 0 0 [[97]]]

/-- The wrong name is dropped, and the directory is found. -/
theorem walk_follows_server_stale :
    ∃ ρ : Execution (nameStep (fun _ h => h) .w64) (Truthfully 0),
      ρ.state 0 = .init rootCache oneDirTree ∧ (ρ.state 2).dcache 0 [97] = some (some 0) ∧
      (ρ.state 4).walks 0 = .reached 1 [] ∧
      ∃ m, Sits 0 (ρ.state 4).cache 1 m ∧ oneDirTree.Leads (0, 1, 0) [[97]] m := by
  have hroot : Sits 0 rootCache 0 (0, 1, 0) := ⟨_, List.mem_cons_self, rfl, rfl⟩
  let ρ : Execution (nameStep (fun _ h => h) .w64) (Truthfully 0) := Execution.ofList
    (staleName ++ [.walk 0 oneDirExchange 0 true false, .walk 0 oneDirExchange 0 true false])
    (.serve oneDirTree) (.init rootCache oneDirTree) (fun _ => rfl) (fun _ => trivial)
    (fun n hn => by
      match n, hn with
      | 0, _ => exact ⟨fun id hid => by cases hid; exact ⟨_, hroot⟩, rfl⟩
      | 1, _ => exact ⟨⟨_, hroot⟩, rfl⟩
      | 2, _ => exact ⟨exact_oneDir.truthfully rfl 0 0 true, rfl⟩
      | 3, _ => exact ⟨exact_oneDir.truthfully rfl 0 0 true, rfl⟩)
  obtain ⟨n, m, hn, hm, _, hleads⟩ := walk_follows_server rootCache_reach
    (show ρ.state 0 = _ from rfl) (show ρ.act 1 = .begin 0 0 [[97]] from rfl) (show 1 < 4 by decide)
    (fun k hk hk' dir path => by
      obtain rfl | rfl : k = 2 ∨ k = 3 := by omega
      · exact NameAct.noConfusion
      · exact NameAct.noConfusion) (show (ρ.state 4).walks 0 = .reached 1 [] from rfl)
  refine ⟨ρ, rfl, rfl, rfl, m, hm, ?_⟩
  obtain rfl := hroot.unique (IcacheReach.canonical rootCache_reach) hn
  refine hleads oneDirTree fun k hk hk' => ?_
  obtain rfl | rfl : k = 2 ∨ k = 3 := by omega
  · rfl
  · rfl

/-! ## A walk that nobody disturbs -/

namespace NameState

/-- Process `p` takes its steps, `k` at most, and nobody else takes one; inodes can be allocated,
and `sub` says below which names something is mounted. -/
def follow (hash : ℕ → ℕ → ℕ) (l : LongWidth) (p : ℕ) (x : Exchange) (fsuid : Word)
    (sub : ℕ → List Byte → Bool) : ℕ → NameState → NameState
  | 0, s => s
  | k + 1, s =>
      match s.walk hash l p x fsuid true (s.haveSubmounts sub p) with
      | some s' => follow hash l p x fsuid sub k s'
      | none => s

/-- The walk has ended, and as the tree says: at the inode of the node that the path leads to, or in
a failure when it leads nowhere. -/
def Right (sb : ℕ) (t : ServerTree) (s : NameState) (p : ℕ) (n : NodeId)
    (path : List (List Byte)) : Prop :=
  (∃ id m, s.walks p = .reached id [] ∧ Sits sb s.cache id m ∧ t.Leads n path m) ∨
    (s.walks p = .failed ∧ ∀ m, ¬ t.Leads n path m)

variable {x : Exchange} {fsuid : Word} {dir : ℕ} {name : List Byte} {path rest : List (List Byte)}
  {t : ServerTree} {sub : ℕ → List Byte → Bool}

theorem follow_of_ended (h : ∀ b, s.walk hash l p x fsuid true b = none) (k : ℕ) :
    s.follow hash l p x fsuid sub k = s := by
  cases k with
  | zero => rfl
  | succ k => simp only [follow, h]

/-- The next name is in the tree. -/
theorem Right.enter (h : Right sb t s p m rest) (hentry : ⟨n, name, m⟩ ∈ t.entries) :
    Right sb t s p n (name :: rest) := by
  rcases h with ⟨id, m', hw, hm, hleads⟩ | ⟨hw, hno⟩
  · exact .inl ⟨id, m', hw, hm, m, hentry, hleads⟩
  · refine .inr ⟨hw, ?_⟩
    rintro m' ⟨c, hc, hleads⟩
    obtain rfl : m = c := congrArg DirEntry.child (t.name_unique _ hentry _ hc rfl rfl)
    exact hno m' hleads

/-- A name that the walk adds is that of the tree. -/
theorem Moved.mountsRight {s' : NameState} {o : LookupOutcome} {memory : Bool}
    (h : Moved sb s s' p dir name rest o memory) (hsub : MountsRight sb sub s)
    (hn : Sits sb s.cache dir n)
    (hentry : 0 ≤ o.error → ⟨n, name, o.fh.identity⟩ ∈ s.tree.entries) :
    MountsRight sb sub s' := by
  intro dir' name' id hyes hid
  rw [h.tree]
  rcases h.names dir' name' id hid with hold | ⟨rfl, rfl, hsits, herror⟩
  · obtain ⟨n', m, hn', hm, hentry'⟩ := hsub dir' name' id hyes hold
    exact ⟨n', m, h.keeps _ _ hn', h.keeps _ _ hm, hentry'⟩
  · exact ⟨n, _, h.keeps _ _ hn, hsits, hentry herror⟩

/-- A walk that can go on takes a step, which is one of the three. -/
theorem Held.exists_walk (h : Held hash sb s) (fsuid : Word) (hx : Exact s.tree x)
    (hsub : MountsRight sb sub s) (hw : s.walks p = .reached dir (name :: rest))
    (hn : Sits sb s.cache dir n) :
    ∃ s', s.walk hash l p x fsuid true (s.haveSubmounts sub p) = some s' ∧ Held hash sb s' ∧
      s'.tree = s.tree ∧ Sits sb s'.cache dir n ∧ MountsRight sb sub s' ∧
      ((s'.walks p = s.walks p ∧ s.dcache dir name ≠ none ∧ s'.dcache dir name = none) ∨
        (s'.walks p = .failed ∧ ∀ m, ⟨n, name, m⟩ ∉ s.tree.entries) ∨
        ∃ id m, s'.walks p = .reached id rest ∧ Sits sb s'.cache id m ∧
          ⟨n, name, m⟩ ∈ s.tree.entries) := by
  obtain ⟨d, hd, rfl, hkey⟩ := hn
  have hget : s.cache.get? d.id = some d := h.canonical.get?_eq_some_iff.mpr ⟨hd, rfl⟩
  have hidentity : d.item.inode.fh.identity = n := congrArg Prod.snd hkey
  obtain ⟨s', hs'⟩ : ∃ s', s.walk hash l p x fsuid true (s.haveSubmounts sub p) = some s' := by
    simp only [NameState.walk, hw, hget, Option.map_some]
    exact ⟨_, rfl⟩
  have hG := hx.truthfully_of_mountsRight h hsub p fsuid true
  obtain ⟨hheld, d', hd', name', rest', hw', _, hmoved⟩ := h.walk hG hs'
  rw [hw] at hw'
  simp only [Walk.reached.injEq, List.cons.injEq] at hw'
  obtain ⟨hid, rfl, rfl⟩ := hw'
  obtain rfl := h.canonical.eq_of_id hd hd' hid
  have hright : MountsRight sb sub s' := hmoved.mountsRight hsub ⟨d, hd, rfl, hkey⟩ fun herror =>
    hidentity ▸ (hG d hd name rest hw).1.2 herror
  refine ⟨s', hs', hheld, hmoved.tree, hmoved.keeps _ _ ⟨d, hd, rfl, hkey⟩, hright, ?_⟩
  rw [← hidentity]
  rcases hmoved.goes with hdropped | ⟨hfailed, hwhy⟩ | ⟨id, hgo, hsits, herror⟩
  · exact .inl hdropped
  · rcases hx d.item.inode name with ⟨herror, _⟩ | ⟨_, _, hno⟩
    · exact absurd hwhy (by simp [herror])
    · exact .inr (.inl ⟨hfailed, hno⟩)
  · rcases hx d.item.inode name with ⟨_, hentry⟩ | ⟨hneg, _⟩
    · exact .inr (.inr ⟨id, _, hgo, hsits, hentry⟩)
    · exact absurd hneg (not_lt.mpr herror)

/-- A walk that nobody disturbs takes no inode away. -/
theorem Held.follow_keeps (h : Held hash sb s) (p : ℕ) (fsuid : Word) (hx : Exact s.tree x)
    (hsub : MountsRight sb sub s) (k : ℕ) :
    Held hash sb (s.follow hash l p x fsuid sub k) ∧
      ∀ id n, Sits sb s.cache id n → Sits sb (s.follow hash l p x fsuid sub k).cache id n := by
  induction k generalizing s with
  | zero => exact ⟨h, fun _ _ hs => hs⟩
  | succ k ih =>
      rw [NameState.follow]
      cases hs' : s.walk hash l p x fsuid true (s.haveSubmounts sub p) with
      | none => exact ⟨h, fun _ _ hs => hs⟩
      | some s' =>
          have hG := hx.truthfully_of_mountsRight h hsub p fsuid true
          obtain ⟨hheld, d, hd, name, rest, hw, hsb, hmoved⟩ := h.walk hG hs'
          have hright : MountsRight sb sub s' :=
            hmoved.mountsRight hsub ⟨d, hd, rfl, by rw [CachedInode.key, hsb]⟩
              (hG d hd name rest hw).1.2
          obtain ⟨hend, hkeep⟩ := ih hheld (hmoved.tree ▸ hx) hright
          exact ⟨hend, fun id n hs => hkeep id n (hmoved.keeps id n hs)⟩

/-- A walk that nobody disturbs takes at most two steps for each name. -/
theorem Held.follow (h : Held hash sb s) (fsuid : Word) (hx : Exact s.tree x)
    (hsub : MountsRight sb sub s) (hw : s.walks p = .reached dir path) (hn : Sits sb s.cache dir n)
    {k : ℕ} (hk : 2 * path.length ≤ k) :
    Right sb s.tree (s.follow hash l p x fsuid sub k) p n path := by
  induction path generalizing s dir n k with
  | nil =>
      rw [follow_of_ended (by simp [NameState.walk, hw])]
      exact .inl ⟨dir, n, hw, hn, rfl⟩
  | cons name rest ih =>
      -- what follows a step that has dealt with the name
      have hdone : ∀ s₁ k₁, Held hash sb s₁ → s₁.tree = s.tree → MountsRight sb sub s₁ →
          2 * rest.length ≤ k₁ →
          ((s₁.walks p = .failed ∧ ∀ m, ⟨n, name, m⟩ ∉ s.tree.entries) ∨
            ∃ id m, s₁.walks p = .reached id rest ∧ Sits sb s₁.cache id m ∧
              ⟨n, name, m⟩ ∈ s.tree.entries) →
          Right sb s.tree (s₁.follow hash l p x fsuid sub k₁) p n (name :: rest) := by
        intro s₁ k₁ h₁ htree hsub₁ hk₁ hcase
        rcases hcase with ⟨hfailed, hno⟩ | ⟨id, m, hgo, hm, hentry⟩
        · rw [follow_of_ended (by simp [NameState.walk, hfailed])]
          exact .inr ⟨hfailed, fun m ⟨c, hc, _⟩ => hno c hc⟩
        · have hright := ih h₁ (htree ▸ hx) hsub₁ hgo hm hk₁
          rw [htree] at hright
          exact hright.enter hentry
      rw [List.length_cons] at hk
      obtain ⟨k, rfl⟩ : ∃ k', k = k' + 2 := ⟨k - 2, by omega⟩
      obtain ⟨s₁, hs₁, h₁, htree₁, hn₁, hsub₁, hdropped | hcase⟩ :=
        h.exists_walk (l := l) fsuid hx hsub hw hn
      · -- the name was dropped, so the second step is a lookup
        obtain ⟨hsame, _, hgone⟩ := hdropped
        rw [hw] at hsame
        obtain ⟨s₂, hs₂, h₂, htree₂, _, hsub₂, ⟨_, hthere, _⟩ | hcase⟩ :=
          h₁.exists_walk (l := l) fsuid (htree₁ ▸ hx) hsub₁ hsame hn₁
        · exact absurd hgone hthere
        · rw [htree₁] at hcase
          simp only [NameState.follow, hs₁, hs₂]
          exact hdone s₂ k h₂ (htree₂.trans htree₁) hsub₂ (by omega) hcase
      · simp only [NameState.follow, hs₁]
        exact hdone s₁ (k + 1) h₁ htree₁ hsub₁ (by omega) hcase

end NameState

/-- **The cached names make no difference.**  After any run as above, whatever names the kernel has
cached: when the server answers and no signal interrupts it, inodes can be allocated, nothing is
mounted below a stale name, and nobody disturbs the walk, it ends after at most two steps for each
name, at the inode of the node that the path leads to, or in a failure exactly when the path leads
nowhere in the server's tree. -/
theorem undisturbed_walk_exact (hc : IcacheReach hash l c) {tree : ServerTree}
    (h : Reach (nameStep hash l) (Truthfully sb) (.init c tree) s) {x : Exchange}
    (hx : Exact s.tree x) {sub : ℕ → List Byte → Bool} (hsub : MountsRight sb sub s) {dir : ℕ}
    {path : List (List Byte)} (hw : s.walks p = .reached dir path) (hn : Sits sb s.cache dir n)
    {k : ℕ} (hk : 2 * path.length ≤ k) (fsuid : Word) :
    NameState.Right sb s.tree (s.follow hash l p x fsuid sub k) p n path := by
  have hheld : NameState.Held hash sb s :=
    Reach.invariant (P := NameState.Held hash sb) (.init (IcacheReach.canonical hc) tree)
      (fun _ _ _ hheld hG hstep => (hheld.step hG hstep).1) h
  exact hheld.follow fsuid hx hsub hw hn hk

/-- Two steps for the one name of the path. -/
theorem undisturbed_walk_exact_stale : ∃ s, Reach (nameStep (fun _ h => h) .w64) (Truthfully 0)
      (.init rootCache oneDirTree) s ∧ s.dcache 0 [97] = some (some 0) ∧
    NameState.Right 0 oneDirTree
      (s.follow (fun _ h => h) .w64 0 oneDirExchange 0 (fun _ _ => false) 2) 0 (0, 1, 0)
      [[97]] := by
  have hroot : Sits 0 rootCache 0 (0, 1, 0) := ⟨_, List.mem_cons_self, rfl, rfl⟩
  have hreach : Follows (nameStep (fun _ h => h) .w64) (Truthfully 0)
      (.init rootCache oneDirTree) staleName _ :=
    ⟨fun id hid => by cases hid; exact ⟨_, hroot⟩, _, rfl, ⟨_, hroot⟩, _, rfl, rfl⟩
  exact ⟨_, hreach.reach, rfl, undisturbed_walk_exact (p := 0) rootCache_reach hreach.reach
    exact_oneDir .of_none rfl hroot (by decide) 0⟩

end Uvfs.Vfs
