import Uvfs.Lib.Blind
import Uvfs.Vfs.Operations

/-!
# What the consumers of a reply touch

A reply carries counts and lengths that nobody has checked.  `uvfs_readdir` walks from entry to
entry by their lengths, `uvfs_readpage` copies as many bytes as the reply says, and `uvfs_readlink`
and `uvfs_follow_link` put a NUL behind as many.

* `entryLoop` : the `for` loop of `uvfs_readdir` with the words it reads and the names it passes on;
  `run_entryLoop` ties it to `walk`.
* `Round`, `rounds` : the rounds of the `while` loop in a call of `uvfs_readdir`.
* `readdir_robust_iff` : for which replies the loop stays inside `data` and gets on.
* `fillOps` : the copies of `uvfs_readpage`; `terminatorAt` : where the NUL goes.
* `data_replies_in_bounds_iff` : for which lengths they stay inside.
-/

namespace Uvfs.Vfs

/-! ## Directories -/

/-- What the `for` loop of `uvfs_readdir` does with the reply. -/
inductive EntryCall
  /-- Read the word at a position. -/
  | read (p : ℤ)
  /-- Call `filldir` with the name at a position. -/
  | filldir (name namlen fPos : ℤ) (ino : Word)

/-- What it gets: the word, or whether `filldir` refuses. -/
def EntryCall.Answer : EntryCall → Type
  | .read _ => Word
  | .filldir _ _ _ _ => Bool

/-- A function that reads entries of a reply. -/
abbrev EntryReader := Dialogue EntryCall EntryCall.Answer

namespace EntryReader

/-- Read a word. -/
def read (p : ℤ) : EntryReader Word := Dialogue.call (EntryCall.read p)

/-- `filldir`. -/
def filldir (name namlen fPos : ℤ) (ino : Word) : EntryReader Bool :=
  Dialogue.call (EntryCall.filldir name namlen fPos ino)

end EntryReader

open EntryReader in
/-- The `for` loop of `uvfs_readdir`, from the entry at `ent` on: whether it went to `full`, and
`f_pos`.
Source: `dir.c`, `uvfs_readdir`, lines 535–553. -/
def entryLoop : ℕ → ℤ → ℤ → EntryReader (Bool × ℤ)
  | 0, _, fPos => return (false, fPos)
  | i + 1, ent, fPos => do
      let length ← read (ent + offsetofLength)
      let ino ← read (ent + offsetofIno)
      if ← filldir (ent + sizeofDirent) length.toInt fPos ino then return (true, fPos)
      else
        let index ← read (ent + offsetofIndex)
        let length ← read (ent + offsetofLength)
        entryLoop i ((ent + sizeofDirent + length.toInt + 3) / 4 * 4) (index + 1).toInt

/-- The memory and `filldir` answer; the state is what `filldir` has taken. -/
def entryAnswer (b : ℤ → Byte) (filldir : Filldir) :
    List Dirent → (q : EntryCall) → q.Answer × List Dirent
  | out, .read p => (wordAt b p, out)
  | out, .filldir name namlen fPos ino =>
      let d : Dirent :=
        ⟨Mem.toList (fun i => b (name + i)) namlen.toNat, namlen, fPos, ino.signExtend 64⟩
      if filldir out d then (true, out) else (false, out ++ [d])

section

variable {b : ℤ → Byte} {filldir : Filldir} {i : ℕ} {ent fPos : ℤ} {out : List Dirent}

@[simp] theorem run_read (p : ℤ) :
    (EntryReader.read p).run (entryAnswer b filldir) out = (wordAt b p, out) := rfl

@[simp] theorem calls_read (p : ℤ) :
    (EntryReader.read p).calls (entryAnswer b filldir) out = [.read p] := rfl

@[simp] theorem calls_filldir (name namlen fPos : ℤ) (ino : Word) :
    (EntryReader.filldir name namlen fPos ino).calls (entryAnswer b filldir) out =
      [.filldir name namlen fPos ino] := rfl

/-- `filldir` on the entry at `ent`. -/
@[simp] theorem run_filldir :
    (EntryReader.filldir (ent + sizeofDirent) (wordAt b (ent + offsetofLength)).toInt fPos
        (wordAt b (ent + offsetofIno))).run (entryAnswer b filldir) out =
      if filldir out (direntAt b ent fPos) then (true, out)
      else (false, out ++ [direntAt b ent fPos]) := rfl

/-- The loop, one entry at a time. -/
theorem run_entryLoop_succ :
    (entryLoop (i + 1) ent fPos).run (entryAnswer b filldir) out =
      if filldir out (direntAt b ent fPos) then ((true, fPos), out)
      else (entryLoop i (nextEnt b ent) (nextPos b ent)).run (entryAnswer b filldir)
        (out ++ [direntAt b ent fPos]) := by
  simp only [entryLoop, Dialogue.run_bind, run_read, run_filldir]
  split
  · rfl
  · simp only [Bool.false_eq_true, if_false, Dialogue.run_bind, run_read]
    rfl

/-- The calls of the loop, one entry at a time. -/
theorem calls_entryLoop_succ :
    (entryLoop (i + 1) ent fPos).calls (entryAnswer b filldir) out =
      .read (ent + offsetofLength) :: .read (ent + offsetofIno) ::
        .filldir (ent + sizeofDirent) (wordAt b (ent + offsetofLength)).toInt fPos
          (wordAt b (ent + offsetofIno)) ::
        if filldir out (direntAt b ent fPos) then []
        else .read (ent + offsetofIndex) :: .read (ent + offsetofLength) ::
          (entryLoop i (nextEnt b ent) (nextPos b ent)).calls (entryAnswer b filldir)
            (out ++ [direntAt b ent fPos]) := by
  simp only [entryLoop, Dialogue.calls_bind, run_read, calls_read, calls_filldir, run_filldir]
  split
  · rfl
  · simp only [Bool.false_eq_true, if_false, Dialogue.calls_bind, run_read, calls_read]
    rfl

/-- The loop is the walk. -/
theorem run_entryLoop :
    (entryLoop i ent fPos).run (entryAnswer b filldir) out =
      (((walk b filldir i ent fPos out).1.isSome, (walk b filldir i ent fPos out).2.1),
        (walk b filldir i ent fPos out).2.2) := by
  induction i generalizing ent fPos out with
  | zero => rfl
  | succ i ih =>
      rw [run_entryLoop_succ, walk]
      split
      · rfl
      · exact ih

/-- A walk to the end hands over every entry. -/
theorem length_walk (h : (walk b filldir i ent fPos out).1 = none) :
    (walk b filldir i ent fPos out).2.2.length = out.length + i := by
  induction i generalizing ent fPos out with
  | zero => rfl
  | succ i ih =>
      rw [walk] at h ⊢
      split at h
      · cases h
      · rw [if_neg ‹_›, ih h, List.length_append, List.length_singleton]
        omega

end

/-- Where `reply->data` begins. -/
def dataStart : ℤ := (replyOffset .readdir 5 : ℕ)

/-- Where it ends. -/
def dataEnd : ℤ := dataStart + uvfsBuffsize

/-- The call stays inside `reply->data`, and the length of a name is not negative. -/
def EntryCall.Inside : EntryCall → Prop
  | .read p => dataStart ≤ p ∧ p + 4 ≤ dataEnd
  | .filldir name namlen _ _ => 0 ≤ namlen ∧ dataStart ≤ name ∧ name + namlen ≤ dataEnd

/-- Every entry that the loop comes to has a length that is not negative and ends inside
`reply->data`; the loop goes on as long as `filldir` takes the entries. -/
def EntriesFit (b : ℤ → Byte) (filldir : Filldir) : ℕ → ℤ → ℤ → List Dirent → Prop
  | 0, _, _, _ => True
  | i + 1, ent, fPos, out =>
      0 ≤ (wordAt b (ent + offsetofLength)).toInt ∧
        ent + sizeofDirent + (wordAt b (ent + offsetofLength)).toInt ≤ dataEnd ∧
        (filldir out (direntAt b ent fPos) = false →
          EntriesFit b filldir i (nextEnt b ent) (nextPos b ent) (out ++ [direntAt b ent fPos]))

/-- The loop stays inside when the entries fit. -/
theorem calls_inside_iff {b : ℤ → Byte} {filldir : Filldir} {i : ℕ} {ent fPos : ℤ}
    {out : List Dirent} (hent : dataStart ≤ ent) :
    (∀ q ∈ (entryLoop i ent fPos).calls (entryAnswer b filldir) out, q.Inside) ↔
      EntriesFit b filldir i ent fPos out := by
  induction i generalizing ent fPos out with
  | zero =>
      exact ⟨fun _ => trivial, fun _ q hq => by cases hq⟩
  | succ i ih =>
      rw [calls_entryLoop_succ, EntriesFit]
      have hnext : 0 ≤ (wordAt b (ent + offsetofLength)).toInt → dataStart ≤ nextEnt b ent := by
        intro hlen
        unfold nextEnt sizeofDirent
        omega
      constructor
      · intro h
        obtain ⟨-, -, ⟨hlen, -, hend⟩, hrest⟩ := by simpa only [List.forall_mem_cons] using h
        refine ⟨hlen, hend, fun htaken => ?_⟩
        rw [if_neg (by simp [htaken])] at hrest
        refine (ih (hnext hlen)).mp fun q hq => ?_
        exact hrest q (List.mem_cons_of_mem _ (List.mem_cons_of_mem _ hq))
      · rintro ⟨hlen, hend, hrest⟩
        -- the header ends where the name begins, so its words are inside
        have hread : ∀ k, 0 ≤ k → k + 4 ≤ sizeofDirent → (EntryCall.read (ent + k)).Inside := by
          intro k hk hk'
          exact ⟨by omega, by omega⟩
        refine List.forall_mem_cons.mpr ⟨hread 0 (by decide) (by decide), ?_⟩
        refine List.forall_mem_cons.mpr ⟨hread 4 (by decide) (by decide), ?_⟩
        refine List.forall_mem_cons.mpr ⟨⟨hlen, by unfold sizeofDirent; omega, hend⟩, ?_⟩
        split
        · intro q hq
          cases hq
        · refine List.forall_mem_cons.mpr ⟨hread 8 (by decide) (by decide), ?_⟩
          refine List.forall_mem_cons.mpr ⟨hread 0 (by decide) (by decide), ?_⟩
          exact (ih (hnext hlen)).mpr (hrest (Bool.eq_false_iff.mpr ‹¬ _›))

/-! ## Rounds -/

/-- A reply that a call of `uvfs_readdir` gets, with `f_pos` and what `filldir` has taken so far. -/
structure Round where
  /-- The transaction when `uvfs_make_request` returns. -/
  reply : Mem
  /-- `f_pos`. -/
  fPos : ℤ
  /-- What `filldir` has taken. -/
  out : List Dirent

namespace Round

variable (before : Mem) (filldir : Filldir) (r : Round)

/-- The loop over the entries of the reply; there is none when the reply has an error. -/
def calls : List EntryCall :=
  if replyError r.reply < 0 then []
  else (entryLoop (replyCount r.reply).toNat dataStart r.fPos).calls
    (entryAnswer (around before r.reply) filldir) r.out

/-- What the loop leaves. -/
def walked : Option Dirent × ℤ × List Dirent :=
  walk (around before r.reply) filldir (replyCount r.reply).toNat dataStart r.fPos r.out

/-- The round is followed by another request. -/
def Continues : Prop :=
  0 ≤ replyError r.reply ∧ replyCount r.reply ≠ 0 ∧ (r.walked before filldir).1 = none

instance : Decidable (r.Continues before filldir) := inferInstanceAs (Decidable (_ ∧ _))

/-- The loop stays inside the reply, and another request follows only after an entry of this one has
been taken. -/
def Robust : Prop :=
  (∀ q ∈ r.calls before filldir, q.Inside) ∧
    (r.Continues before filldir → r.out.length < (r.walked before filldir).2.2.length)

/-- The count is not negative, and the entries fit. -/
def Fits : Prop :=
  0 ≤ replyError r.reply → 0 ≤ replyCount r.reply ∧
    EntriesFit (around before r.reply) filldir (replyCount r.reply).toNat dataStart r.fPos r.out

variable {before filldir r}

/-- **One round** is robust when the reply fits. -/
theorem robust_iff_fits : r.Robust before filldir ↔ r.Fits before filldir := by
  unfold Robust Fits calls
  by_cases herror : replyError r.reply < 0
  · rw [if_pos herror]
    constructor
    · intro _ hge
      exact absurd herror (not_lt.mpr hge)
    · intro _
      refine ⟨fun q hq => (by cases hq), fun hcontinues => ?_⟩
      exact absurd herror (not_lt.mpr hcontinues.1)
  · rw [if_neg herror, calls_inside_iff (le_refl _)]
    constructor
    · rintro ⟨hfit, hprogress⟩ hge
      refine ⟨?_, hfit⟩
      by_contra hneg
      -- with a negative count the loop body is never entered, and the next round begins
      have hwalk : r.walked before filldir = (none, r.fPos, r.out) := by
        rw [walked, Int.toNat_of_nonpos (by omega)]
        rfl
      have hgrow := hprogress ⟨hge, by omega, by rw [hwalk]⟩
      rw [hwalk] at hgrow
      exact lt_irrefl _ hgrow
    · intro hfits
      obtain ⟨hcount, hfit⟩ := hfits (not_lt.mp herror)
      refine ⟨hfit, ?_⟩
      rintro ⟨-, hne, hnone⟩
      rw [walked, length_walk hnone]
      omega

end Round

section

variable {σ : Type} (serve : σ → (q : WireCall) → q.Answer × σ) (dir : Inode) (before : Mem)
  (filldir : Filldir)

/-- The rounds of a call of `uvfs_readdir`. -/
def rounds : ℕ → σ → ℤ → List Dirent → List Round
  | 0, _, _, _ => []
  | fuel + 1, s, fPos, out =>
      let transaction : Bool := (serve s .newTransaction).1
      if transaction then
        let (reply, s) := serve (serve s .newTransaction).2 (.makeRequest (.readdir dir fPos))
        let r : Round := ⟨reply, fPos, out⟩
        r :: if r.Continues before filldir then
          rounds fuel (serve s .kfree).2 (r.walked before filldir).2.1
            (r.walked before filldir).2.2
        else []
      else []

end

/-- The requests among some calls. -/
def WireCall.request? : WireCall → Option VfsRequest
  | .makeRequest r => some r
  | .newTransaction | .kfree => none

section

variable {σ : Type} {serve : σ → (q : WireCall) → q.Answer × σ} {s : σ} {dir : Inode} {before : Mem}
  {filldir : Filldir} {fuel : ℕ} {fPos : ℤ} {out : List Dirent}

/-- The calls of a round and of those that follow it. -/
theorem calls_uvfsReaddir_succ {s₁ s₂ : σ} {reply : Mem}
    (hnew : serve s .newTransaction = (true, s₁))
    (hreply : serve s₁ (.makeRequest (.readdir dir fPos)) = (reply, s₂)) :
    let r : Round := ⟨reply, fPos, out⟩
    (uvfsReaddir dir before filldir (fuel + 1) fPos out).calls serve s =
      .newTransaction :: .makeRequest (.readdir dir fPos) :: .kfree ::
        if r.Continues before filldir then
          (uvfsReaddir dir before filldir fuel (r.walked before filldir).2.1
            (r.walked before filldir).2.2).calls serve (serve s₂ .kfree).2
        else [] := by
  intro r
  simp only [uvfsReaddir, Dialogue.calls_bind, Wire.run_newTransaction, hnew, if_true,
    Wire.run_makeRequest, hreply]
  by_cases herror : replyError reply < 0
  · rw [if_pos herror, if_neg fun h : r.Continues before filldir => absurd herror (not_lt.mpr h.1)]
    rfl
  by_cases hcount : replyCount reply = 0
  · rw [if_neg herror, if_pos hcount, if_neg fun h : r.Continues before filldir => h.2.1 hcount]
    rfl
  -- past the two tests the `for` loop decides
  rw [if_neg herror, if_neg hcount]
  have hwalked : r.walked before filldir = walk (around before reply) filldir
    (replyCount reply).toNat (replyOffset .readdir 5) fPos out := rfl
  rcases hwalk : walk (around before reply) filldir (replyCount reply).toNat
    (replyOffset .readdir 5) fPos out with ⟨_ | refused, fPos', out'⟩
  · rw [if_pos ⟨not_lt.mp herror, hcount, by rw [hwalked, hwalk]⟩, hwalked, hwalk]
    rfl
  · have hstop : ¬ r.Continues before filldir := fun h => by
      rw [Round.Continues, hwalked, hwalk] at h
      cases h.2.2
    rw [if_neg hstop]
    rfl

/-- Each round has one request, for the entries from its `f_pos` on. -/
theorem requests_uvfsReaddir :
    ((uvfsReaddir dir before filldir fuel fPos out).calls serve s).filterMap WireCall.request? =
      (rounds serve dir before filldir fuel s fPos out).map fun r => .readdir dir r.fPos := by
  induction fuel generalizing s fPos out with
  | zero => rfl
  | succ fuel ih =>
      rcases hnew : serve s .newTransaction with ⟨transaction, s₁⟩
      rcases hreply : serve s₁ (.makeRequest (.readdir dir fPos)) with ⟨reply, s₂⟩
      cases transaction with
      | false =>
          have hcalls : (uvfsReaddir dir before filldir (fuel + 1) fPos out).calls serve s =
              [.newTransaction] := by
            simp only [uvfsReaddir, Dialogue.calls_bind, Wire.run_newTransaction, hnew,
              Bool.false_eq_true, if_false, Dialogue.calls_pure, List.append_nil]
            rfl
          rw [hcalls, rounds]
          simp only [hnew, Bool.false_eq_true, if_false]
          rfl
      | true =>
          rw [calls_uvfsReaddir_succ hnew hreply, rounds]
          simp only [hnew, hreply, if_true, List.map_cons]
          change VfsRequest.readdir dir fPos :: List.filterMap _ _ = _
          congr 1
          split
          · exact ih
          · rfl

/-- A count of -1: the same request again, without an entry in between. -/
theorem negative_count_repeats_request :
    let dir := uvfsIget .w64 1 ⟨0, 0, 0, 1, 0, 3, 2, 0⟩ (attrOfMode 0o040755) none
    let x : Exchange := ⟨true, fun _ => Mem.setWord (fun _ => 0) (replyOffset .readdir 4) (-1)⟩
    let filldir : Filldir := fun _ _ => false
    let before : Mem := fun _ => 0
    (rounds x.serve dir before filldir 2 [] 0 []).map Round.fPos = [0, 0] ∧
      ∃ r ∈ rounds x.serve dir before filldir 2 [] 0 [], ¬ r.Robust before filldir := by
  intro dir x filldir before
  refine ⟨by decide, _, List.mem_cons_self, fun h => ?_⟩
  have hfits := Round.robust_iff_fits.mp h (by decide)
  exact absurd hfits.1 (by decide)

/-- **When `uvfs_readdir` is robust.**  Each of its rounds makes one request.  All rounds of a call
stay inside their replies and none repeats without progress exactly when every reply without an
error has a count that is not negative and entries, as far as `filldir` takes them, whose lengths
are not negative and which end inside `data`. -/
theorem readdir_robust_iff :
    ((uvfsReaddir dir before filldir fuel fPos out).calls serve s).filterMap WireCall.request? =
        ((rounds serve dir before filldir fuel s fPos out).map fun r => .readdir dir r.fPos) ∧
      ((∀ r ∈ rounds serve dir before filldir fuel s fPos out, r.Robust before filldir) ↔
        ∀ r ∈ rounds serve dir before filldir fuel s fPos out, 0 ≤ replyError r.reply →
          0 ≤ replyCount r.reply ∧
            EntriesFit (around before r.reply) filldir (replyCount r.reply).toNat dataStart r.fPos
              r.out) :=
  ⟨requests_uvfsReaddir, forall₂_congr fun _ _ => Round.robust_iff_fits⟩

end

/-! ## Pages -/

/-- A copy that `uvfs_readpage` makes into the page. -/
inductive FillOp
  /-- `memcpy(buff, reply->buff, n)`. -/
  | memcpy (n : ℕ)
  /-- `memset(buff + start, 0, n)`. -/
  | memset (start n : ℕ)

namespace FillOp

/-- What it does to the page. -/
def exec (buff : Mem) (data : Mem) : FillOp → Mem
  | .memcpy n => data.overlay 0 n buff
  | .memset start n => data.overlay start n fun _ => 0

/-- It reads inside `reply->buff` and writes inside the page; both have `PAGE_CACHE_SIZE` bytes. -/
def Inside : FillOp → Prop
  | .memcpy n => n ≤ pageCacheSize
  | .memset start n => start + n ≤ pageCacheSize

/-- It writes a byte. -/
def Writes (k : ℕ) : FillOp → Prop
  | .memcpy n => k < n
  | .memset start n => start ≤ k ∧ k < start + n

end FillOp

/-- The copies of `uvfs_readpage` for a reply.
Source: `file.c`, `uvfs_readpage`, lines 205–211. -/
def fillOps (l : LongWidth) (bytesRead : Word) : List FillOp :=
  let n := l.ofInt bytesRead
  .memcpy n :: if n < pageCacheSize then [.memset n (pageCacheSize - n)] else []

/-- The page is filled by the copies. -/
theorem fillPage_eq_foldl (l : LongWidth) (data : Mem) (reply : FileReply) :
    fillPage l data reply = (fillOps l reply.bytesRead).foldl (FillOp.exec reply.buff) data := by
  unfold fillPage fillOps
  dsimp only
  split
  · rfl
  · rfl

/-- An `int` that is not negative is the same as a `size_t`. -/
theorem ofInt_of_nonneg {l : LongWidth} {w : Word} (h : 0 ≤ w.toInt) :
    (l.ofInt w : ℤ) = w.toInt := by
  have hlt : w.toNat < 2 ^ 31 := by
    have hmsb := BitVec.toInt_eq_toNat_cond w
    split_ifs at hmsb
    · omega
    · have hw := w.isLt
      omega
  have hofInt := @LongWidth.ofInt_of_lt l w.toNat hlt
  rw [BitVec.ofNat_toNat, BitVec.setWidth_eq] at hofInt
  rw [hofInt, BitVec.toInt_eq_toNat_of_lt (by omega)]

/-- A negative `int` is huge as a `size_t`. -/
theorem ofInt_of_neg {l : LongWidth} {w : Word} (h : w.toInt < 0) : 2 ^ 31 ≤ l.ofInt w := by
  have hext : (w.signExtend l.bits).toInt = w.toInt := by
    refine BitVec.toInt_signExtend_of_le ?_
    cases l with
    | w32 => decide
    | w64 => decide
  have hnat := BitVec.toInt_eq_toNat_cond (w.signExtend l.bits)
  have hlow := BitVec.le_toInt w
  unfold LongWidth.ofInt
  cases l with
  | w32 =>
      simp only [LongWidth.bits] at *
      omega
  | w64 =>
      simp only [LongWidth.bits] at *
      omega

/-- A length fits into a page only when it is not negative. -/
theorem ofInt_le_pageCacheSize_iff {l : LongWidth} {w : Word} :
    l.ofInt w ≤ pageCacheSize ↔ 0 ≤ w.toInt ∧ w.toInt ≤ pageCacheSize := by
  by_cases h : 0 ≤ w.toInt
  · have hofInt := @ofInt_of_nonneg l w h
    omega
  · have hofInt := @ofInt_of_neg l w (not_le.mp h)
    unfold pageCacheSize
    omega

/-- What one would ask of `uvfs_readpage` for a reply; `data` is the page after it. -/
structure FillsInside (l : LongWidth) (reply : FileReply) (data : Mem) : Prop where
  /-- No copy reaches behind the page or behind `reply->buff`. -/
  inside : ∀ op ∈ fillOps l reply.bytesRead, op.Inside
  /-- Every byte of the page is written. -/
  whole : ∀ k < pageCacheSize, ∃ op ∈ fillOps l reply.bytesRead, op.Writes k
  /-- The bytes of the reply come first, and then zeros. -/
  bytes : ∀ k < pageCacheSize,
    data k = if (k : ℤ) < reply.bytesRead.toInt then reply.buff k else 0

theorem fillsInside_iff {l : LongWidth} {data : Mem} {reply : FileReply} :
    FillsInside l reply (fillPage l data reply) ↔
      0 ≤ reply.bytesRead.toInt ∧ reply.bytesRead.toInt ≤ pageCacheSize := by
  constructor
  · intro h
    exact ofInt_le_pageCacheSize_iff.mp (h.inside _ List.mem_cons_self)
  · intro h
    have hle : l.ofInt reply.bytesRead ≤ pageCacheSize := ofInt_le_pageCacheSize_iff.mpr h
    have heq : (l.ofInt reply.bytesRead : ℤ) = reply.bytesRead.toInt := ofInt_of_nonneg h.1
    refine ⟨?_, fun k hk => ?_, fun k hk => ?_⟩
    · refine List.forall_mem_cons.mpr ⟨hle, ?_⟩
      split
      · intro op hop
        obtain rfl := List.mem_singleton.mp hop
        exact (Nat.add_sub_of_le hle).le
      · intro op hop
        cases hop
    · by_cases hcopied : k < l.ofInt reply.bytesRead
      · exact ⟨_, List.mem_cons_self, hcopied⟩
      · have hshort : l.ofInt reply.bytesRead < pageCacheSize := by omega
        refine ⟨.memset (l.ofInt reply.bytesRead) (pageCacheSize - l.ofInt reply.bytesRead), ?_, ?_⟩
        · simp [fillOps, hshort]
        · exact ⟨by omega, by omega⟩
    · rw [fillPage_apply hk, ← heq]
      simp only [Nat.cast_lt]

/-- `uvfs_readpage` with a reply that has no error. -/
theorem run_uvfsReadpage_of_ok {σ : Type} {serve : σ → (q : DriverCall) → q.Answer × σ}
    {s s₁ s₂ : σ} {l : LongWidth} {c : Cred} {inode : Inode} {pg : Page} {reply : FileReply}
    (hnew : serve s .newTransaction = (true, s₁))
    (hreply : serve s₁ (.makeRequest (.read (readRequest l c inode pg))) = (reply, s₂))
    (herror : 0 ≤ reply.error.toInt) :
    ((uvfsReadpage l c inode pg).run serve s).1 =
      ({ pg with data := fillPage l pg.data reply }.setUptodate.unlock, 0) := by
  have hnew' : newTransaction.run serve s = (true, s₁) := hnew
  have hreply' : (makeRequest (.read (readRequest l c inode pg))).run serve s₁ = (reply, s₂) :=
    hreply
  simp only [uvfsReadpage, Dialogue.run_bind, hnew', if_true, hreply', if_neg (not_lt.mpr herror),
    Dialogue.run_pure]

/-! ## Links -/

/-- `reply->len`. -/
def replyLen (m : Mem) : ℤ := (m.word (replyOffset .readlink 4)).toInt

/-- Where `reply->buff[reply->len] = 0` stores. -/
def terminatorAt (m : Mem) : ℤ := (replyOffset .readlink 5 : ℕ) + replyLen m

theorem terminate_apply (m : Mem) (i : ℕ) :
    terminate m i = if (i : ℤ) = terminatorAt m then 0 else m i := rfl

/-- The NUL goes into `reply->buff`. -/
def TerminatesInside (m : Mem) : Prop :=
  (replyOffset .readlink 5 : ℕ) ≤ terminatorAt m ∧
    terminatorAt m < (replyOffset .readlink 5 : ℕ) + uvfsMaxPathlen

theorem terminatesInside_iff {m : Mem} :
    TerminatesInside m ↔ 0 ≤ replyLen m ∧ replyLen m < uvfsMaxPathlen := by
  unfold TerminatesInside terminatorAt
  omega

/-- The server sends a path back as the target of a link. -/
structure Echoes (path : List Byte) (m : Mem) : Prop where
  error : 0 ≤ replyError m
  len : m.word (replyOffset .readlink 4) = BitVec.ofNat 32 path.length
  buff : Mem.toList (fun i => m (replyOffset .readlink 5 + i)) path.length = path

/-- A path that comes back is read as it was sent, whether the NUL goes into `reply->buff` or, for
the longest path, behind it: the union is larger. -/
theorem stringAt_of_echoes {path : List Byte} {m : Mem} (h : Echoes path m) (hnul : 0 ∉ path)
    (hlen : path.length ≤ uvfsMaxPathlen) :
    stringAt (terminate m) (replyOffset .readlink 5) = path := by
  have hat : terminatorAt m = (replyOffset .readlink 5 + path.length : ℕ) := by
    unfold uvfsMaxPathlen at hlen
    have hnat : (BitVec.ofNat 32 path.length).toNat = path.length := Nat.mod_eq_of_lt (by omega)
    unfold terminatorAt replyLen
    rw [h.len, BitVec.toInt_eq_toNat_of_lt (by omega), hnat, Nat.cast_add]
  refine cstring_eq_of_toList ?_ hnul ?_ ?_
  · refine (Mem.toList_eq_iff.mpr fun i hi => ?_).trans h.buff
    rw [terminate_apply, hat, if_neg (by omega)]
  · rw [terminate_apply, hat, if_pos rfl]
  · rw [sizeofU_eq]
    have hoff : replyOffset .readlink 5 = 20 := by decide
    unfold uvfsMaxPathlen at hlen
    omega

/-- A target of 1024 bytes, which `uvfs_symlink` accepts: the NUL goes behind `reply->buff`. -/
theorem longest_target_overruns_buff :
    let path : List Byte := List.replicate uvfsMaxPathlen 97
    let m := Mem.setWord (fun _ => 97) (replyOffset .readlink 4) 1024 |>.setWord offsetofError 0
    path.length ≤ uvfsMaxPathlen ∧ 0 ∉ path ∧ Echoes path m ∧ ¬ TerminatesInside m := by
  intro path m
  have hbuff : ∀ i, m (replyOffset .readlink 5 + i) = 97 := by
    intro i
    have hoff : replyOffset .readlink 5 = 20 := by decide
    have hlen : replyOffset .readlink 4 = 16 := by decide
    have herror : offsetofError = 12 := by decide
    simp only [m, Mem.setWord]
    rw [Mem.overlay_of_not_mem (by omega), Mem.overlay_of_not_mem (by omega)]
  refine ⟨by simp [path], ?_, ⟨by decide, ?_, ?_⟩, ?_⟩
  · intro h
    exact absurd (List.eq_of_mem_replicate h) (by decide)
  · rw [List.length_replicate]
    decide
  · rw [List.length_replicate]
    refine List.eq_replicate_iff.mpr ⟨Mem.length_toList _ _, fun b hb => ?_⟩
    obtain ⟨i, -, rfl⟩ := List.mem_map.mp hb
    exact hbuff i
  · rw [terminatesInside_iff]
    decide

/-- **When the lengths of a reply keep its consumers inside.**  `uvfs_readpage` writes the page and
nothing else, from the reply and nothing else, exactly when `bytes_read` is at least zero and at
most `PAGE_CACHE_SIZE`.  The NUL of `uvfs_readlink` and `uvfs_follow_link` goes into `reply->buff`
exactly when `len` is at least zero and less than `UVFS_MAX_PATHLEN`; a path that `uvfs_symlink`
accepts and the server sends back is read unchanged. -/
theorem data_replies_in_bounds_iff (l : LongWidth) (c : Cred) (inode : Inode) (pg : Page)
    (reply : FileReply) (m : Mem) (x : Exchange) (rs : List VfsRequest) (fh : Fhandle) (buflen : ℕ)
    (path : List Byte) :
    (∀ (σ : Type) (serve : σ → (q : DriverCall) → q.Answer × σ) (s s₁ s₂ : σ),
      serve s .newTransaction = (true, s₁) →
      serve s₁ (.makeRequest (.read (readRequest l c inode pg))) = (reply, s₂) →
      0 ≤ reply.error.toInt →
      (FillsInside l reply ((uvfsReadpage l c inode pg).run serve s).1.1.data ↔
        0 ≤ reply.bytesRead.toInt ∧ reply.bytesRead.toInt ≤ pageCacheSize)) ∧
    (0 ≤ replyError m →
      (TerminatesInside m ↔ 0 ≤ replyLen m ∧ replyLen m < uvfsMaxPathlen)) ∧
    (x.transaction = true → Echoes path (x.reply (.readlink fh)) → 0 ∉ path →
      path.length ≤ uvfsMaxPathlen →
      ((uvfsReadlink fh buflen).run x.serve rs).1 =
          (((min buflen path.length : ℕ) : ℤ), path.take buflen) ∧
        ((uvfsFollowLink fh).run x.serve rs).1 = .ok path) := by
  refine ⟨fun σ serve s s₁ s₂ hnew hreply herror => ?_, fun _ => ?_,
    fun htrans hechoes hnul hlen => ?_⟩
  · rw [run_uvfsReadpage_of_ok hnew hreply herror]
    exact fillsInside_iff
  · exact terminatesInside_iff
  · have hstring := stringAt_of_echoes hechoes hnul hlen
    have herror := not_lt.mpr hechoes.error
    constructor
    · simp only [uvfsReadlink, run_request, htrans, if_true, if_neg herror, hstring]
      simp
    · simp only [uvfsFollowLink, run_request, htrans, if_true, if_neg herror, hstring]

end Uvfs.Vfs
