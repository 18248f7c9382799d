import Uvfs.Vfs.Stale

/-!
# Which operations show only their reply

`uvfs_readdir` makes a request for each round of its loop, and what it reads of a reply is decided
by what it has read of it before: the length of an entry says where the next one is, and `filldir`
says whether there is a next one.

* `WalkKnown` : the loop over the entries reads only known bytes.
* `DirKnown` : so do all rounds of `uvfs_readdir`.
* `ReplyOp` : the operations that read a reply; `ReplyOp.SelfContained` : their results are the same
  whatever the transactions held before.
* `self_contained_iff` : this is so exactly when what the operation reads is known.
-/

namespace Uvfs.Vfs

/-! ## Entries -/

section Entries

variable (K : ℤ → Prop) (b : ℤ → Byte) (filldir : Filldir) (P : ℤ → List Dirent → Prop)

/-- The word at a position is known. -/
def WordKnown (p : ℤ) : Prop := ∀ k < 4, K (p + (k : ℕ))

/-- What `filldir` gets of the entry at `ent` is known. -/
def DirentKnown (ent : ℤ) : Prop :=
  WordKnown K (ent + offsetofLength) ∧ WordKnown K (ent + offsetofIno) ∧
    ∀ k < (wordAt b (ent + offsetofLength)).toInt.toNat, K (ent + sizeofDirent + (k : ℕ))

/-- The `for` loop of `uvfs_readdir` reads only known bytes, and when `filldir` takes all entries
then `P` holds behind them. -/
def WalkKnown : ℕ → ℤ → ℤ → List Dirent → Prop
  | 0, _, fPos, out => P fPos out
  | i + 1, ent, fPos, out => DirentKnown K b ent ∧
      (filldir out (direntAt b ent fPos) = false → WordKnown K (ent + offsetofIndex) ∧
        WalkKnown i (nextEnt b ent) (nextPos b ent) (out ++ [direntAt b ent fPos]))

end Entries

/-- Memories that agree where `K` holds, and nowhere else. -/
structure AgreeOn {ι : Type} (K : ℤ → Prop) (b : ℤ → Byte) (mem : ι → ℤ → Byte) : Prop where
  known : ∀ s p, K p → mem s p = b p
  free : ∀ p, (∀ s s', mem s p = mem s' p) → K p

theorem wordAt_congr {b b' : ℤ → Byte} {p : ℤ} (h : ∀ k < 4, b (p + (k : ℕ)) = b' (p + (k : ℕ))) :
    wordAt b p = wordAt b' p :=
  Word.ofBytes_congr h

namespace AgreeOn

variable {ι : Type} {K : ℤ → Prop} {b : ℤ → Byte} {mem : ι → ℤ → Byte} {p ent fPos : ℤ} {s : ι}

theorem wordAt_eq (h : AgreeOn K b mem) (hp : WordKnown K p) : wordAt (mem s) p = wordAt b p :=
  wordAt_congr fun k hk => h.known s _ (hp k hk)

/-- Two memories have the same word exactly where the word is known. -/
theorem wordKnown (h : AgreeOn K b mem)
    (hsame : ∀ s s', wordAt (mem s) p = wordAt (mem s') p) : WordKnown K p := by
  intro k hk
  apply h.free
  intro s s'
  have hbyte := congrArg (fun w => Word.byte w k) (hsame s s')
  simpa only [wordAt, Word.byte_ofBytes _ hk] using hbyte

theorem direntAt_eq (h : AgreeOn K b mem) (hent : DirentKnown K b ent) :
    direntAt (mem s) ent fPos = direntAt b ent fPos := by
  obtain ⟨hlength, hino, hname⟩ := hent
  unfold direntAt
  rw [h.wordAt_eq hlength, h.wordAt_eq hino]
  congr 1
  rw [Mem.toList_eq_iff]
  intro k hk
  exact h.known s _ (hname k hk)

theorem direntKnown (h : AgreeOn K b mem)
    (hsame : ∀ s s', direntAt (mem s) ent fPos = direntAt (mem s') ent fPos) :
    DirentKnown K b ent := by
  have hlength : WordKnown K (ent + offsetofLength) := h.wordKnown fun s s' =>
    BitVec.toInt_inj.mp (congrArg Dirent.namlen (hsame s s'))
  refine ⟨hlength, h.wordKnown fun s s' => ?_, ?_⟩
  · have hino := congrArg (fun d => d.ino.toInt) (hsame s s')
    simp only [direntAt, BitVec.toInt_signExtend_of_le (show 32 ≤ 64 by decide)] at hino
    exact BitVec.toInt_inj.mp hino
  · intro k hk
    apply h.free
    intro s s'
    have hname := congrArg Dirent.name (hsame s s')
    simp only [direntAt, h.wordAt_eq hlength, Mem.toList_eq_iff] at hname
    exact hname k hk

theorem nextEnt_eq (h : AgreeOn K b mem) (hent : DirentKnown K b ent) :
    nextEnt (mem s) ent = nextEnt b ent := by
  rw [nextEnt, nextEnt, h.wordAt_eq hent.1]

theorem nextPos_eq (h : AgreeOn K b mem) (hindex : WordKnown K (ent + offsetofIndex)) :
    nextPos (mem s) ent = nextPos b ent := by
  rw [nextPos, nextPos, h.wordAt_eq hindex]

theorem wordKnown_index (h : AgreeOn K b mem)
    (hsame : ∀ s s', nextPos (mem s) ent = nextPos (mem s') ent) :
    WordKnown K (ent + offsetofIndex) :=
  h.wordKnown fun s s' => (BitVec.add_left_inj 1).mp (BitVec.toInt_inj.mp (hsame s s'))

end AgreeOn

/-! ## The loop over the entries -/

/-- What `uvfs_readdir` does after the loop: it returns when `filldir` has refused an entry, else it
goes on. -/
def afterWalk (next : ℤ → List Dirent → Listing) :
    Option Dirent × ℤ × List Dirent → Listing
  | (some x, fPos, out) => ⟨some 0, false, fPos, out, some x⟩
  | (none, fPos, out) => next fPos out

/-- Nothing that `filldir` has taken is taken back. -/
def Extends (next : ℤ → List Dirent → Listing) : Prop :=
  ∀ fPos out, out <+: (next fPos out).out

section Walk

variable {next next' : ℤ → List Dirent → Listing} {b b' : ℤ → Byte} {filldir : Filldir} {i : ℕ}
  {ent ent' fPos fPos' : ℤ} {out : List Dirent}

theorem afterWalk_refused (h : filldir out (direntAt b ent fPos) = true) :
    afterWalk next (walk b filldir (i + 1) ent fPos out) =
      ⟨some 0, false, fPos, out, some (direntAt b ent fPos)⟩ := by
  rw [walk, if_pos h]
  rfl

theorem afterWalk_taken (h : filldir out (direntAt b ent fPos) = false) :
    afterWalk next (walk b filldir (i + 1) ent fPos out) =
      afterWalk next (walk b filldir i (nextEnt b ent) (nextPos b ent)
        (out ++ [direntAt b ent fPos])) := by
  rw [walk, if_neg (Bool.eq_false_iff.mp h)]

theorem prefix_afterWalk (h : Extends next) :
    out <+: (afterWalk next (walk b filldir i ent fPos out)).out := by
  induction i generalizing ent fPos out with
  | zero => exact h fPos out
  | succ i ih =>
      cases hd : filldir out (direntAt b ent fPos) with
      | true => rw [afterWalk_refused hd]
      | false =>
          rw [afterWalk_taken hd]
          exact (List.prefix_append _ _).trans ih

/-- An entry that is taken shows. -/
theorem prefix_afterWalk_taken (h : Extends next) (hd : filldir out (direntAt b ent fPos) = false) :
    out ++ [direntAt b ent fPos] <+:
      (afterWalk next (walk b filldir (i + 1) ent fPos out)).out := by
  rw [afterWalk_taken hd]
  exact prefix_afterWalk h

/-- An entry that is taken in one run is taken in the other. -/
theorem not_refused_of_taken (h : Extends next) (hd : filldir out (direntAt b ent fPos) = false)
    (hsame : afterWalk next (walk b filldir (i + 1) ent fPos out) =
      afterWalk next' (walk b' filldir (i + 1) ent' fPos' out)) :
    filldir out (direntAt b' ent' fPos') = false := by
  rw [Bool.eq_false_iff]
  intro hd'
  have hlen := (prefix_afterWalk_taken (i := i) h hd).length_le
  rw [hsame, afterWalk_refused hd', List.length_append, List.length_singleton] at hlen
  exact Nat.not_succ_le_self _ hlen

/-- **Two runs with the same result** have handed the same entry to `filldir`. -/
theorem direntAt_eq_of_afterWalk (h : Extends next) (h' : Extends next')
    (hsame : afterWalk next (walk b filldir (i + 1) ent fPos out) =
      afterWalk next' (walk b' filldir (i + 1) ent' fPos' out)) :
    direntAt b ent fPos = direntAt b' ent' fPos' := by
  cases hd : filldir out (direntAt b ent fPos) with
  | false =>
      have hd' := not_refused_of_taken h hd hsame
      have hprefix := prefix_afterWalk_taken (i := i) h hd
      rw [hsame] at hprefix
      have hequal := List.prefix_of_prefix_length_le hprefix (prefix_afterWalk_taken h' hd')
        (by simp)
      simpa using hequal.eq_of_length (by simp)
  | true =>
      cases hd' : filldir out (direntAt b' ent' fPos') with
      | false => rw [not_refused_of_taken h' hd' hsame.symm] at hd; cases hd
      | true =>
          rw [afterWalk_refused hd, afterWalk_refused hd'] at hsame
          exact Option.some.inj (congrArg Listing.refused hsame)

/-- They were at the same position. -/
theorem fPos_eq_of_afterWalk (h : Extends next) (h' : Extends next')
    (hpos : ∀ fPos fPos' out, next fPos out = next' fPos' out → fPos = fPos')
    (hsame : afterWalk next (walk b filldir i ent fPos out) =
      afterWalk next' (walk b' filldir i ent' fPos' out)) : fPos = fPos' := by
  cases i with
  | zero => exact hpos fPos fPos' out hsame
  | succ i => exact congrArg Dirent.offset (direntAt_eq_of_afterWalk h h' hsame)

end Walk

/-- **The loop over the entries**: its result and what follows are the same in all runs exactly when
it reads only known bytes, and what follows is the same. -/
theorem AgreeOn.afterWalk_iff {ι : Type} {K : ℤ → Prop} {b : ℤ → Byte} {mem : ι → ℤ → Byte}
    (hagree : AgreeOn K b mem) {next : ι → ℤ → List Dirent → Listing}
    (hext : ∀ s, Extends (next s))
    (hpos : ∀ s s' fPos fPos' out, next s fPos out = next s' fPos' out → fPos = fPos')
    {filldir : Filldir} {i : ℕ} {ent fPos : ℤ} {out : List Dirent} :
    (∀ s s', afterWalk (next s) (walk (mem s) filldir i ent fPos out) =
      afterWalk (next s') (walk (mem s') filldir i ent fPos out)) ↔
      WalkKnown K b filldir (fun fPos out => ∀ s s', next s fPos out = next s' fPos out)
        i ent fPos out := by
  induction i generalizing ent fPos out with
  | zero => exact Iff.rfl
  | succ i ih =>
      unfold WalkKnown
      constructor
      · intro hsame
        have hent : DirentKnown K b ent := hagree.direntKnown fun s s' =>
          direntAt_eq_of_afterWalk (hext s) (hext s') (hsame s s')
        refine ⟨hent, fun hd => ?_⟩
        have htaken : ∀ s, filldir out (direntAt (mem s) ent fPos) = false := fun s => by
          rw [hagree.direntAt_eq hent, hd]
        simp only [afterWalk_taken (htaken _), hagree.direntAt_eq hent, hagree.nextEnt_eq hent]
          at hsame
        have hindex : WordKnown K (ent + offsetofIndex) := hagree.wordKnown_index fun s s' =>
          fPos_eq_of_afterWalk (hext s) (hext s') (hpos s s') (hsame s s')
        simp only [hagree.nextPos_eq hindex] at hsame
        exact ⟨hindex, ih.mp hsame⟩
      · rintro ⟨hent, hrest⟩ s s'
        cases hd : filldir out (direntAt b ent fPos) with
        | true =>
            have hrefused : ∀ s, filldir out (direntAt (mem s) ent fPos) = true := fun s => by
              rw [hagree.direntAt_eq hent, hd]
            rw [afterWalk_refused (hrefused s), afterWalk_refused (hrefused s'),
              hagree.direntAt_eq hent, hagree.direntAt_eq hent]
        | false =>
            have htaken : ∀ s, filldir out (direntAt (mem s) ent fPos) = false := fun s => by
              rw [hagree.direntAt_eq hent, hd]
            obtain ⟨hindex, hwalk⟩ := hrest hd
            rw [afterWalk_taken (htaken s), afterWalk_taken (htaken s')]
            simp only [hagree.direntAt_eq hent, hagree.nextEnt_eq hent, hagree.nextPos_eq hindex]
            exact ih.mpr hwalk s s'

/-! ## The rounds -/

section Rounds

variable (ker : Kernel) (dir : Inode) (before : Mem) (filldir : Filldir)

/-- `uvfs_readdir` against the replies, from the transaction with the number `k` on. -/
def readdirFrom (stale : ℕ → Mem) : ℕ → List Reply → ℤ → List Dirent → Listing
  | _, [], fPos, out => ⟨some enomem, false, fPos, out, none⟩
  | k, x :: xs, fPos, out =>
      let reply := x.memory ((VfsRequest.readdir dir fPos).built ker.l ker.cred x.serial) (stale k)
      if replyError reply < 0 then ⟨some (replyError reply), false, fPos, out, none⟩
      else if replyCount reply = 0 then ⟨some 0, true, fPos, out, none⟩
      else afterWalk (readdirFrom stale (k + 1) xs)
        (walk (around before reply) filldir (replyCount reply).toNat (replyOffset .readdir 5)
          fPos out)

/-- What is known around the start of the union. -/
def knownAround (K : ℕ → Prop) : ℤ → Prop
  | .ofNat i => K i
  | .negSucc _ => True

/-- In every round `uvfs_readdir` gets an error, or no entries, or reads only known bytes of the
entries. -/
def DirKnown : List Reply → ℤ → List Dirent → Prop
  | [], _, _ => True
  | x :: xs, fPos, out =>
      let b := (VfsRequest.readdir dir fPos).built ker.l ker.cred x.serial
      replyError x.data < 0 ∨ replyCount (x.base b) = 0 ∨
        WalkKnown (knownAround (x.Known b)) (around before (x.base b)) filldir (DirKnown xs)
          (replyCount (x.base b)).toNat (replyOffset .readdir 5) fPos out

variable {ker dir before filldir} {stale stale' : ℕ → Mem} {x : Reply} {xs replies : List Reply}
  {fPos fPos' : ℤ} {out : List Dirent} {k i fuel : ℕ}

/-- With as many rounds as there are replies the loop ends. -/
theorem run_uvfsReaddir_serve (hfuel : replies.length < fuel) :
    ((uvfsReaddir dir before filldir fuel fPos out).run (ker.serve stale) (k, replies)).1 =
      readdirFrom ker dir before filldir stale k replies fPos out := by
  induction replies generalizing fuel k fPos out with
  | nil =>
      obtain ⟨fuel, rfl⟩ := Nat.exists_eq_succ_of_ne_zero (Nat.ne_of_gt hfuel)
      rfl
  | cons x xs ih =>
      obtain ⟨fuel, rfl⟩ := Nat.exists_eq_succ_of_ne_zero (Nat.ne_of_gt (Nat.zero_lt_of_lt hfuel))
      have hxs : xs.length < fuel := Nat.lt_of_succ_lt_succ hfuel
      obtain ⟨reply, hreply⟩ : ∃ reply, reply = x.memory
        ((VfsRequest.readdir dir fPos).built ker.l ker.cred x.serial) (stale k) := ⟨_, rfl⟩
      have hserve : ker.serve stale (k, x :: xs) (.makeRequest (.readdir dir fPos)) =
        (reply, k + 1, xs) := by rw [hreply]; rfl
      have hnew : ker.serve stale (k, x :: xs) .newTransaction = (true, k, x :: xs) := rfl
      simp only [uvfsReaddir, readdirFrom, Dialogue.run_bind, Wire.run_newTransaction,
        Wire.run_makeRequest, hnew, if_true, hserve, ← hreply, Dialogue.run_ite]
      split
      · rfl
      · split
        · rfl
        · rcases walk (around before reply) filldir (replyCount reply).toNat
            (replyOffset .readdir 5) fPos out with ⟨_ | refused, fPos, out⟩
          · exact ih hxs
          · rfl

theorem known_readdir (hi : i < 56) :
    x.Known ((VfsRequest.readdir dir fPos).built ker.l ker.cred x.serial) i := by
  refine .inr (.inl ?_)
  simp [Struct.Filled, requestLayout, genericReqLayout, VfsRequest.built, header, readdirRequest,
    sizeofFhandle]
  omega

theorem replyCount_memory (stale : Mem) :
    replyCount (x.memory ((VfsRequest.readdir dir fPos).built ker.l ker.cred x.serial) stale) =
      replyCount (x.base ((VfsRequest.readdir dir fPos).built ker.l ker.cred x.serial)) :=
  congrArg BitVec.toInt (word_congr (n := 20) (fun _ hi =>
    Reply.memory_of_known (known_readdir (by omega))) (by decide))

theorem replyError_memory {b : Built} (stale : Mem) :
    replyError (x.memory b stale) = replyError x.data :=
  replyError_of_known fun _ hi => Reply.memory_of_known hi

/-- The count does not reach to `entry_no`. -/
theorem replyCount_base_fPos (fPos fPos' : ℤ) :
    replyCount (x.base ((VfsRequest.readdir dir fPos).built ker.l ker.cred x.serial)) =
      replyCount (x.base ((VfsRequest.readdir dir fPos').built ker.l ker.cred x.serial)) := by
  refine congrArg BitVec.toInt (word_congr (n := 20) ?_ (by decide))
  intro i hi
  have hu := sizeofU_eq
  by_cases hsize : i < x.size
  · rw [Reply.base, Reply.base, Reply.memory_of_lt_size hsize (by omega),
      Reply.memory_of_lt_size hsize (by omega)]
  · rw [Reply.base, Reply.base, Reply.memory_of_size_le (by omega) (by omega),
      Reply.memory_of_size_le (by omega) (by omega)]
    -- the header, `uid` and `gid` of the request
    have hfront : i < 0 + (genericReqLayout ++ [4, 4]).sum := by simpa [genericReqLayout] using hi
    exact (@Struct.store_append_of_lt 0 i [sizeofFhandle, 4] _ _ (genericReqLayout ++ [4, 4])
      (header .readdir x.serial (sizeofRequest .readdir) ++
        [ker.cred.fsuid.bytes, ker.cred.fsgid.bytes]) rfl hfront).trans
      (Struct.store_append_of_lt rfl hfront).symm

theorem extends_readdirFrom (stale : ℕ → Mem) (k : ℕ) (replies : List Reply) :
    Extends (readdirFrom ker dir before filldir stale k replies) := by
  induction replies generalizing k with
  | nil => exact fun fPos out => List.prefix_rfl
  | cons x xs ih =>
      intro fPos out
      simp only [readdirFrom]
      split
      · exact List.prefix_rfl
      · split
        · exact List.prefix_rfl
        · exact prefix_afterWalk (ih (k + 1))

/-- **The position shows**: two runs with the same result were at the same `f_pos`. -/
theorem fPos_eq_of_readdirFrom
    (hsame : readdirFrom ker dir before filldir stale k replies fPos out =
      readdirFrom ker dir before filldir stale' k replies fPos' out) : fPos = fPos' := by
  induction replies generalizing k fPos fPos' out with
  | nil => exact congrArg Listing.fPos hsame
  | cons x xs ih =>
      simp only [readdirFrom, replyError_memory, replyCount_memory,
        replyCount_base_fPos fPos fPos'] at hsame
      split at hsame
      · exact congrArg Listing.fPos hsame
      · split at hsame
        · exact congrArg Listing.fPos hsame
        · exact fPos_eq_of_afterWalk (extends_readdirFrom _ _ _) (extends_readdirFrom _ _ _)
            (fun _ _ _ h => ih h) hsame

/-- The bytes of a reply around the start of the union, in all runs. -/
theorem agreeOn_around {b : Built} :
    AgreeOn (knownAround (x.Known b)) (around before (x.base b))
      fun stale : ℕ → Mem => around before (x.memory b (stale k)) where
  known stale p hp := by
    cases p with
    | ofNat i => exact Reply.memory_of_known hp
    | negSucc i => rfl
  free p hsame := by
    cases p with
    | ofNat i =>
        by_contra hi
        have hbyte : x.memory b (fun _ => 0) i = x.memory b (fun _ => 1) i :=
          hsame (fun _ _ => 0) fun _ _ => 1
        rw [Reply.memory_eq_patch, Reply.memory_eq_patch, Mem.patch_of_not_known hi,
          Mem.patch_of_not_known hi] at hbyte
        exact absurd hbyte (by decide)
    | negSucc i => trivial

/-- **`uvfs_readdir`**: all runs have the same result exactly when every round reads only known
bytes. -/
theorem readdirFrom_iff :
    (∀ stale stale', readdirFrom ker dir before filldir stale k replies fPos out =
      readdirFrom ker dir before filldir stale' k replies fPos out) ↔
      DirKnown ker dir before filldir replies fPos out := by
  induction replies generalizing k fPos out with
  | nil => exact iff_of_true (fun _ _ => rfl) trivial
  | cons x xs ih =>
      simp only [readdirFrom, DirKnown, replyError_memory, replyCount_memory]
      split
      · exact iff_of_true (fun _ _ => rfl) (.inl ‹_›)
      · rw [or_iff_right ‹_›]
        split
        · exact iff_of_true (fun _ _ => rfl) (.inl ‹_›)
        · rw [or_iff_right ‹_›, agreeOn_around.afterWalk_iff
            (fun stale => extends_readdirFrom stale (k + 1) xs)
            fun _ _ _ _ _ h => fPos_eq_of_readdirFrom h]
          simp only [ih]

theorem selfContained_readdir :
    SelfContained ker replies (uvfsReaddir dir before filldir (replies.length + 1) fPos []) ↔
      DirKnown ker dir before filldir replies fPos [] := by
  simp only [SelfContained, run_uvfsReaddir_serve (Nat.lt_succ_self _)]
  exact readdirFrom_iff

end Rounds

/-! ## The operations -/

/-- The operations that read a reply, with their arguments.  For `uvfs_readdir` there is also the
memory in front of the union, for an entry whose length is negative. -/
inductive ReplyOp
  /-- `uvfs_lookup`. -/
  | lookup (dir : Slot ℕ CachedInode) (name : List Byte)
  /-- `uvfs_create`. -/
  | create (dir : Slot ℕ CachedInode) (name : List Byte) (mode : Word)
  /-- `uvfs_mkdir`. -/
  | mkdir (dir : Slot ℕ CachedInode) (name : List Byte) (mode : Word)
  /-- `uvfs_symlink`. -/
  | symlink (dir : Slot ℕ CachedInode) (name path : List Byte)
  /-- `uvfs_readdir`. -/
  | readdir (dir : Inode) (before : Mem) (filldir : Filldir) (fPos : ℤ)
  /-- `uvfs_readlink`. -/
  | readlink (fh : Fhandle) (buflen : ℕ)
  /-- `uvfs_follow_link`. -/
  | followLink (fh : Fhandle)
  /-- `uvfs_readpage`. -/
  | readpage (inode : Inode) (pg : Page)
  /-- `uvfs_revalidate_inode`. -/
  | revalidateInode (inode : Inode)
  /-- `uvfs_statfs`. -/
  | statfs (fh : Fhandle)
  /-- `uvfs_read_super`. -/
  | readSuper (sb : ℕ) (data : Option (List Byte))

/-- `P` holds of the reply to a request, if the request is made. -/
def AtReply (replies : List Reply) (r : VfsRequest) (P : Reply → Prop) : Prop :=
  r.Accepted → ∀ x ∈ replies.head?, P x

namespace ReplyOp

/-- **The two-run property of an operation**, whether `iget5_locked` finds memory or not. -/
def IsSelfContained (ker : Kernel) (replies : List Reply) : ReplyOp → Prop
  | lookup dir name => ∀ memory, SelfContained ker replies
      (uvfsLookupName ker.hash ker.l ker.cred.fsuid ker.cache dir memory name)
  | create dir name mode => ∀ memory, SelfContained ker replies
      (uvfsCreate ker.hash ker.l ker.cred.fsuid ker.cache dir memory name mode)
  | mkdir dir name mode => ∀ memory, SelfContained ker replies
      (uvfsMkdir ker.hash ker.l ker.cred.fsuid ker.cache dir memory name mode)
  | symlink dir name path => ∀ memory, SelfContained ker replies
      (uvfsSymlink ker.hash ker.l ker.cred.fsuid ker.cache dir memory name path)
  | readdir dir before filldir fPos => SelfContained ker replies
      (uvfsReaddir dir before filldir (replies.length + 1) fPos [])
  | readlink fh buflen => SelfContained ker replies (uvfsReadlink fh buflen)
  | followLink fh => SelfContained ker replies (uvfsFollowLink fh)
  | readpage inode pg => SelfContained ker replies (Vfs.readpage ker.l ker.cred inode pg)
  | revalidateInode inode => SelfContained ker replies
      (uvfsRevalidateInode ker.l ker.cred.fsuid inode)
  | statfs fh => SelfContained ker replies (uvfsStatfs fh)
  | readSuper sb data => ∀ memory, SelfContained ker replies
      (uvfsReadSuper ker.hash ker.l ker.cred.fsuid ker.cache sb memory data)

/-- The reply to `r` is an error, or it and the request under it fill the first `n` bytes. -/
def CoversStruct (ker : Kernel) (replies : List Reply) (r : VfsRequest) (n : ℕ) : Prop :=
  AtReply replies r fun x => replyError x.data < 0 ∨ Covers ker x r n

/-- The reply to a `UVFS_READLINK` is an error, or its text is known to the end. -/
def CoversText (ker : Kernel) (replies : List Reply) (fh : Fhandle) (buflen : Option ℕ) : Prop :=
  AtReply replies (.readlink fh) fun x => replyError x.data < 0 ∨
    TextKnown x ((VfsRequest.readlink fh).built ker.l ker.cred x.serial) buflen

/-- What the operation reads of its replies is known. -/
def ReadsKnown (ker : Kernel) (replies : List Reply) : ReplyOp → Prop
  | lookup dir name => CoversStruct ker replies (.lookup dir.item.inode name) sizeofHandleReply
  | create dir name mode =>
      CoversStruct ker replies (.create dir.item.inode name mode) sizeofHandleReply
  | mkdir dir name mode =>
      CoversStruct ker replies (.mkdir dir.item.inode name mode) sizeofHandleReply
  | symlink dir name path =>
      CoversStruct ker replies (.symlink dir.item.inode name path) sizeofHandleReply
  | readdir dir before filldir fPos => DirKnown ker dir before filldir replies fPos []
  | readlink fh buflen => CoversText ker replies fh (some buflen)
  | followLink fh => CoversText ker replies fh none
  | readpage inode pg => AtReply replies (.readpage inode pg) fun x => replyError x.data < 0 ∨
      let b := (VfsRequest.readpage inode pg).built ker.l ker.cred x.serial
      ∀ i < filledBytes ker.l (x.base b), x.Known b (replyOffset .read 5 + i)
  | revalidateInode inode => AtReply replies (.getattr inode.fh) fun x =>
      replyError x.data ≠ 0 ∨ Covers ker x (.getattr inode.fh) sizeofGetattrReply
  | statfs fh => AtReply replies (.statfs fh) fun x => Covers ker x (.statfs fh) sizeofStatfsReply
  | readSuper _ data => ∀ arg ∈ data.bind uvfsParseOptions,
      CoversStruct ker replies (.readSuper arg) sizeofReadSuperReply

end ReplyOp

section

variable {ker : Kernel} {replies : List Reply} {dir : Slot ℕ CachedInode} {name path : List Byte}
  {mode : Word}

theorem isSelfContained_nil (op : ReplyOp) : op.IsSelfContained ker [] := by
  cases op
  all_goals first
    | exact selfContained_nil _
    | exact fun memory => selfContained_nil _

/-- An operation that makes one request after its checks. -/
theorem isSelfContained_iff_atReply (op : ReplyOp) (r : VfsRequest) {P : Reply → Prop}
    (hrefused : ¬ r.Accepted → op.IsSelfContained ker replies)
    (hcons : r.Accepted → ∀ x xs, op.IsSelfContained ker (x :: xs) ↔ P x) :
    op.IsSelfContained ker replies ↔ AtReply replies r P := by
  by_cases h : r.Accepted
  · cases replies with
    | nil => exact iff_of_true (isSelfContained_nil op) fun _ x hx => by cases hx
    | cons x xs =>
        rw [hcons h x xs, AtReply]
        simp [h]
  · exact iff_of_true (hrefused h) fun h' => absurd h' h

theorem isSelfContained_lookup : (ReplyOp.lookup dir name).IsSelfContained ker replies ↔
    (ReplyOp.lookup dir name).ReadsKnown ker replies := by
  refine isSelfContained_iff_atReply _ (.lookup dir.item.inode name) ?_ ?_
  · intro hlong memory
    simp only [uvfsLookupName, uvfsLookupByName, if_pos (not_le.mp hlong)]
    apply selfContained_pure
  · intro h x xs
    simp only [ReplyOp.IsSelfContained, uvfsLookupName, uvfsLookupByName, if_neg (not_lt.mpr h)]
    exact selfContained_lookup (covers_of_last h (by decide))

theorem isSelfContained_create : (ReplyOp.create dir name mode).IsSelfContained ker replies ↔
    (ReplyOp.create dir name mode).ReadsKnown ker replies := by
  refine isSelfContained_iff_atReply _ (.create dir.item.inode name mode) ?_ ?_
  · intro hlong memory
    unfold uvfsCreate
    rw [if_pos (not_le.mp hlong)]
    apply selfContained_pure
  · intro h x xs
    simp only [ReplyOp.IsSelfContained, uvfsCreate, if_neg (not_lt.mpr h)]
    exact selfContained_newEntry (k := .create) rfl (fun _ => rfl) (covers_of_last h (by decide))

theorem isSelfContained_mkdir : (ReplyOp.mkdir dir name mode).IsSelfContained ker replies ↔
    (ReplyOp.mkdir dir name mode).ReadsKnown ker replies := by
  refine isSelfContained_iff_atReply _ (.mkdir dir.item.inode name mode) ?_ ?_
  · intro hlong memory
    unfold uvfsMkdir
    rw [if_pos (not_le.mp hlong)]
    apply selfContained_pure
  · intro h x xs
    simp only [ReplyOp.IsSelfContained, uvfsMkdir, if_neg (not_lt.mpr h)]
    exact selfContained_newEntry (k := .mkdir) rfl (fun c => rdevs_adjustLinks c _)
      (covers_of_last h (by decide))

theorem isSelfContained_symlink : (ReplyOp.symlink dir name path).IsSelfContained ker replies ↔
    (ReplyOp.symlink dir name path).ReadsKnown ker replies := by
  refine isSelfContained_iff_atReply _ (.symlink dir.item.inode name path) ?_ ?_
  · intro hlong memory
    unfold uvfsSymlink
    split
    · apply selfContained_pure
    · have hpath : path.length > uvfsMaxPathlen := by
        by_contra hpath
        exact hlong ⟨not_lt.mp ‹_›, not_lt.mp hpath⟩
      rw [if_pos hpath]
      apply selfContained_pure
  · intro h x xs
    simp only [ReplyOp.IsSelfContained, uvfsSymlink, if_neg (not_lt.mpr h.1),
      if_neg (not_lt.mpr h.2)]
    exact selfContained_newEntry (k := .symlink) rfl (fun _ => rfl) (covers_of_last h (by decide))

theorem isSelfContained_readSuper {sb : ℕ} {data : Option (List Byte)} :
    (ReplyOp.readSuper sb data).IsSelfContained ker replies ↔
      (ReplyOp.readSuper sb data).ReadsKnown ker replies := by
  rw [ReplyOp.ReadsKnown]
  cases hdata : data.bind uvfsParseOptions with
  | none =>
      refine iff_of_true ?_ fun arg harg => by cases harg
      intro memory
      simp only [uvfsReadSuper, hdata]
      apply selfContained_pure
  | some arg =>
      simp only [Option.mem_some_iff, forall_eq']
      refine isSelfContained_iff_atReply _ (.readSuper arg) ?_ ?_
      · intro hlong memory
        simp only [uvfsReadSuper, hdata, if_pos (not_lt.mp hlong)]
        apply selfContained_pure
      · intro h x xs
        simp only [ReplyOp.IsSelfContained, uvfsReadSuper, hdata, if_neg (not_le.mpr h)]
        exact selfContained_readSuper (covers_of_last h (by decide))

end

/-- **Replies are self-contained** exactly when what an operation reads is known: its reply is an
error, or reaches as far as the operation reads, or leaves only bytes of the request to read. -/
theorem self_contained_iff (ker : Kernel) (replies : List Reply) (op : ReplyOp) :
    op.IsSelfContained ker replies ↔ op.ReadsKnown ker replies := by
  cases op with
  | lookup dir name => exact isSelfContained_lookup
  | create dir name mode => exact isSelfContained_create
  | mkdir dir name mode => exact isSelfContained_mkdir
  | symlink dir name path => exact isSelfContained_symlink
  | readdir dir before filldir fPos => exact selfContained_readdir
  | readlink fh buflen =>
      exact isSelfContained_iff_atReply _ (.readlink fh) (absurd trivial) fun _ _ _ =>
        selfContained_readlink
  | followLink fh =>
      exact isSelfContained_iff_atReply _ (.readlink fh) (absurd trivial) fun _ _ _ =>
        selfContained_followLink
  | readpage inode pg =>
      exact isSelfContained_iff_atReply _ (.readpage inode pg) (absurd trivial) fun _ _ _ =>
        selfContained_readpage
  | revalidateInode inode =>
      exact isSelfContained_iff_atReply _ (.getattr inode.fh) (absurd trivial) fun _ _ _ =>
        selfContained_revalidateInode
  | statfs fh =>
      exact isSelfContained_iff_atReply _ (.statfs fh) (absurd trivial) fun _ _ _ =>
        selfContained_statfs
  | readSuper sb data => exact isSelfContained_readSuper

/-- A reply that is only a header. -/
def bareReply : Reply where
  serial := 1
  size := 16
  data := fun i => if i = offsetofSerial then 1 else if i = offsetofSize then 16 else 0
  behind := fun _ => 0
  size_ge := by decide
  size_eq := by decide
  serial_eq := by decide

/-- A root directory. -/
def bareDir : Slot ℕ CachedInode := ⟨0, 0, 0, newInode ⟨0, 0, 0, 0, 0, 0, 1, 0⟩⟩

/-- A kernel that has cached only the root directory. -/
def bareKernel : Kernel := ⟨fun _ h => h, .w64, ⟨0, 0⟩, ⟨[bareDir], 1⟩⟩

/-- `uvfs_lookup` of `a` takes a header without an error for an inode, whose `i_rdev` is what the
transaction held before. -/
theorem lookup_bare_reply : replyError bareReply.data = 0 ∧
    ¬ (ReplyOp.lookup bareDir [97]).IsSelfContained bareKernel [bareReply] := by
  refine ⟨by decide, fun h => ?_⟩
  have hrdevs := congrArg (fun res => rdevs res.2) (h true (fun _ _ => 0) fun _ _ => 1)
  exact absurd hrdevs (by decide)

end Uvfs.Vfs
