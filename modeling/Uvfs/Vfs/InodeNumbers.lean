import Uvfs.Lib.Width
import Uvfs.Vfs.Cache
import Uvfs.Vfs.Readdir

/-!
# Inode numbers

The number of a file reaches the user in two ways: `uvfs_readdir` hands `ent->ino` to `filldir`, and
`stat` shows `i_ino`, which `uvfs_iget` takes from the handle.  Both are the 32 bits of `fs_sfuid`;
`protocol.h` declares them as an `int` in the entry and as `unsigned` in the handle.

* `mem_dirents` : what `filldir` gets belongs to an entry.
* `readdir_ino_eq_stat_iff` : when the two numbers agree.
-/

namespace Uvfs.Vfs

/-- What `filldir` gets belongs to an entry, whose number is widened as an `int`. -/
theorem mem_dirents {fPos : ℤ} {es : List Entry} {x : Dirent} (hx : x ∈ dirents fPos es) :
    ∃ e ∈ es, x.name = e.name ∧ x.ino = e.ino.signExtend 64 := by
  induction es generalizing fPos with
  | nil => cases hx
  | cons e es ih =>
      rw [dirents] at hx
      rcases List.mem_cons.mp hx with rfl | hx
      · exact ⟨e, List.mem_cons_self, rfl, rfl⟩
      · obtain ⟨e', he', hrest⟩ := ih hx
        exact ⟨e', List.mem_cons_of_mem e he', hrest⟩

/-- The number of an entry and the number of an inode, of the same 32 bits. -/
theorem signExtend_eq_hashval_iff (fh : Fhandle) :
    fh.fsSfuid.signExtend 64 = BitVec.ofNat 64 fh.hashval ↔ fh.fsSfuid.toNat < 2 ^ 31 := by
  have hwiden : BitVec.ofNat 64 fh.hashval = fh.fsSfuid.setWidth 64 :=
    (BitVec.ofNat_toNat 64 fh.fsSfuid)
  rw [hwiden, Width.signExtend_eq_setWidth_iff (by decide)]
  omega

section

variable {σ : Type} {serve : σ → (q : WireCall) → q.Answer × σ} {d : Directory} {dir : Inode}
  {before : Mem} {fuel : ℕ} {hash : ℕ → ℕ → ℕ} {l : LongWidth} {c : InodeCache}

/-- **`readdir` and `stat` agree on the lower half of the numbers.**  The server puts the `fs_sfuid`
of each file into its entry.  Whatever calls of `uvfs_readdir` are made and whatever the inode cache
has been through: what `filldir` gets, taken or refused, belongs to an entry, and its number is the
`i_ino` of the inode that `uvfs_iget` returns for the file if and only if the `fs_sfuid` is below
`2 ^ 31`. -/
theorem readdir_ino_eq_stat_iff (hserve : ServesDirectory d dir serve)
    (hfuel : d.entries.length < fuel) (calls : List Filldir) (s : σ) {handle : Entry → Fhandle}
    (hino : ∀ e ∈ d.entries, e.ino = (handle e).fsSfuid) (hcache : IcacheReach hash l c) :
    let r := readdirScan serve dir before fuel calls 0 s
    ∀ x, x ∈ r.out ∨ x ∈ r.refused → ∃ e ∈ d.entries, x.name = e.name ∧
      ∀ sb fsuid attr memory id c₁ slot,
        igetCached hash l c sb fsuid (handle e) attr memory = (some id, c₁) →
        c₁.get? id = some slot →
        (x.ino = BitVec.ofNat 64 slot.item.inode.iIno ↔ (handle e).fsSfuid.toNat < 2 ^ 31) := by
  intro r x hx
  have hdelivers : Delivers r calls (dirents 0 d.entries) :=
    (Stands.start d).delivers hserve hfuel calls s
  have hmem : x ∈ dirents 0 d.entries := by
    rcases hx with hx | hx
    · exact hdelivers.isPrefix.subset hx
    · exact hdelivers.refused x hx
  obtain ⟨e, he, hname, hxino⟩ := mem_dirents hmem
  refine ⟨e, he, hname, ?_⟩
  intro sb fsuid attr memory id c₁ slot higet hget
  rw [hxino, hino e he, igetCached_iIno hcache higet hget]
  exact signExtend_eq_hashval_iff (handle e)

end

/-- A directory with the entry `a`. -/
def oneEntry (ino : Word) : Directory where
  entries := [⟨[97], ino, 0⟩]
  sorted := List.pairwise_singleton _ _
  index_le e he := by
    rw [List.mem_singleton.mp he]
    exact Nat.zero_le _

/-- The entry of `oneEntry`, once. -/
def oneEntryReply (ino : Word) (p : ℤ) : Mem :=
  if p ≤ 0 then Mem.ofWords [10, 0, 36, 0, 1, 1, ino, 0, 97] else Mem.ofWords [10, 0, 20, 0, 0]

theorem oneEntryReply_answers (ino : Word) (p : ℤ) :
    Answers (oneEntry ino) p (oneEntryReply ino p) := by
  unfold oneEntryReply
  by_cases h : p ≤ 0
  · rw [if_pos h]
    have hsince : (oneEntry ino).since p = [⟨[97], ino, 0⟩] := by
      simp [Directory.since, oneEntry, h]
    have hsize : ([(⟨[97], ino, 0⟩ : Entry)].map recordSize).sum = 16 := by simp [recordSize]
    refine ⟨Mem.word_ofWords (by decide), .inr ⟨[⟨[97], ino, 0⟩], List.cons_ne_nil _ _, ?_, ?_,
      ?_, ?_⟩⟩
    · rw [hsince]
    · exact Mem.word_ofWords (by decide)
    · rw [hsize]
      decide
    · refine ⟨?_, ?_, ?_, rfl, trivial⟩
      all_goals exact Mem.word_ofWords (by decide)
  · rw [if_neg h]
    refine ⟨Mem.word_ofWords (by decide), .inl ⟨?_, Mem.word_ofWords (by decide)⟩⟩
    simp [Directory.since, oneEntry, h]

/-- A server for `oneEntry`. -/
def oneEntryServer (ino : Word) : Unit → (q : WireCall) → q.Answer × Unit
  | _, .newTransaction => (true, ())
  | _, .makeRequest (.readdir _ fPos) => (oneEntryReply ino (BitVec.ofInt 32 fPos).toInt, ())
  | _, .makeRequest _ => (fun _ => 0, ())
  | _, .kfree => ((), ())

theorem oneEntryServer_serves (ino : Word) (dir : Inode) :
    ServesDirectory (oneEntry ino) dir (oneEntryServer ino) :=
  ⟨fun _ => rfl, fun _ _ => oneEntryReply_answers _ _⟩

/-- The entry as a call of `uvfs_readdir` hands it over. -/
theorem scan_oneEntry (ino : Word) (dir : Inode) :
    (readdirScan (oneEntryServer ino) dir (fun _ => 0) 2 [fun _ _ => false] 0 ()).out =
      [⟨[97], 1, 0, ino.signExtend 64⟩] := by
  have hdelivers := @Stands.delivers _ _ _ _ (fun _ => 0) _ _ 2 (oneEntryServer_serves ino dir)
    (Stands.start (oneEntry ino)) (Nat.lt_succ_self 1) [fun _ _ => false] ()
  exact hdelivers.all (hdelivers.ends ⟨_, List.mem_singleton_self _, fun _ _ => rfl⟩)

/-- The file with the `fs_sfuid` 7. -/
theorem readdir_ino_eq_stat_seven :
    let r := readdirScan (oneEntryServer 7) (newInode ⟨0, 0, 0, 1, 0, 3, 1, 0⟩) (fun _ => 0) 2
      [fun _ _ => false] 0 ()
    ∃ x ∈ r.out, ∃ id c₁ slot, igetCached (fun _ h => h) .w64 .empty 0 1 ⟨0, 0, 0, 1, 0, 3, 7, 0⟩
      (attrOfMode 0o100644) true = (some id, c₁) ∧ c₁.get? id = some slot ∧
      x.ino = BitVec.ofNat 64 slot.item.inode.iIno := by
  intro r
  have hx : ⟨[97], 1, 0, 7⟩ ∈ r.out := by
    rw [scan_oneEntry]
    exact List.mem_singleton_self _
  have hagree := @readdir_ino_eq_stat_iff _ _ _ _ (fun _ => 0) 2 (fun _ h => h) .w64 .empty
    (oneEntryServer_serves 7 (newInode ⟨0, 0, 0, 1, 0, 3, 1, 0⟩)) (Nat.lt_succ_self 1)
    [fun _ _ => false] () (fun e => ⟨0, 0, 0, 1, 0, 3, e.ino, 0⟩) (fun _ _ => rfl) .refl
  obtain ⟨e, he, -, hstat⟩ := hagree _ (.inl hx)
  obtain rfl := List.mem_singleton.mp he
  refine ⟨_, hx, _, _, _, rfl, rfl, (hstat 0 1 (attrOfMode 0o100644) true _ _ _ rfl rfl).mpr ?_⟩
  decide

/-- The file with the `fs_sfuid` `0x80000000`. -/
theorem readdir_ino_sign_extended :
    let r := readdirScan (oneEntryServer 0x80000000) (newInode ⟨0, 0, 0, 1, 0, 3, 1, 0⟩)
      (fun _ => 0) 2 [fun _ _ => false] 0 ()
    ∃ x ∈ r.out, ∃ id c₁ slot,
      igetCached (fun _ h => h) .w64 .empty 0 1 ⟨0, 0, 0, 1, 0, 3, 0x80000000, 0⟩
        (attrOfMode 0o100644) true = (some id, c₁) ∧ c₁.get? id = some slot ∧
      x.ino = 0xFFFFFFFF80000000 ∧ slot.item.inode.iIno = 0x80000000 ∧
      x.ino ≠ BitVec.ofNat 64 slot.item.inode.iIno := by
  intro r
  have hx : ⟨[97], 1, 0, 0xFFFFFFFF80000000⟩ ∈ r.out := by
    rw [scan_oneEntry]
    exact List.mem_singleton_self _
  exact ⟨_, hx, _, _, _, rfl, rfl, rfl, rfl, by decide⟩

end Uvfs.Vfs
