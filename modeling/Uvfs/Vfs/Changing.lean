import Uvfs.Lib.Cursor
import Uvfs.Vfs.Readdir

/-!
# Reading a directory that changes

`dir.c` says of `uvfs_readdir` that the server should go on in a reasonable manner when the contents
of the directory are changed in the middle of it.  Here the directory may be another one at every
request, transactions may be missing and requests may fail; the server only answers from the
directory that it has at that time, and an entry keeps its index as long as it is there.  So a reply
without an error has no entries when there are none from `f_pos` on, and else some of them, the
first ones, well encoded.  A server that answers something else can keep the loop for ever.

* `ChangingServer` : such a server; its clock goes on with every call.
* `run_uvfsReaddir_changing` : one call, which returns.
* `scanEnd` : the time when a sequence of calls is over; `exists_scanResult` : what it leaves.
* `readdir_through_changes` : what the calls hand over was there, comes once, and an entry that is
  there all the time is not missed.
-/

namespace Uvfs.Vfs

open Cursor (Scanned)

/-- `f_pos` is a cursor over the indexes. -/
theorem posAfter_eq_after (fPos : ℤ) (es : List Entry) :
    posAfter fPos es = Cursor.after Entry.index fPos es := by
  induction es generalizing fPos with
  | nil => rfl
  | cons e es ih => exact ih (e.index + 1)

/-- One part of a scan after the other. -/
theorem scanned_append {D : ℕ → List Entry} {fPos : ℤ} {n n₁ n' : ℕ} {es es' : List Entry}
    {ended : Bool} (h : Scanned Entry.index D fPos n n₁ es false)
    (h' : Scanned Entry.index D (posAfter fPos es) n₁ n' es' ended) :
    Scanned Entry.index D fPos n n' (es ++ es') ended := by
  rw [posAfter_eq_after] at h'
  exact h.append h'

/-- A server whose directory changes, on a clock that every call of the client moves on. -/
structure ChangingServer where
  /-- The directory at each time. -/
  dir : ℕ → Directory
  /-- Whether there is a transaction. -/
  memory : ℕ → Bool
  /-- The reply to a request for the entries from a position on. -/
  reply : ℕ → ℤ → Mem
  /-- It is an error, or it has the first ones of these entries, or says that there are none. -/
  answers : ∀ n p, Answers (dir n) p (reply n p) ∨ replyError (reply n p) < 0

namespace ChangingServer

variable (x : ChangingServer)

/-- The entries at each time. -/
def entries (n : ℕ) : List Entry := (x.dir n).entries

/-- What it answers. -/
def serve : ℕ → (q : WireCall) → q.Answer × ℕ
  | n, .newTransaction => (x.memory n, n + 1)
  | n, .makeRequest (.readdir _ fPos) => (x.reply n (BitVec.ofInt 32 fPos).toInt, n + 1)
  | n, .makeRequest _ => (fun _ => 0, n + 1)
  | n, .kfree => ((), n + 1)

/-- Nothing fails. -/
structure Steady : Prop where
  memory : ∀ n, x.memory n = true
  reply : ∀ n p, ¬ replyError (x.reply n p) < 0

end ChangingServer

section

variable {x : ChangingServer} {dir : Inode} {before : Mem} {filldir : Filldir} {fPos : ℤ} {n : ℕ}

/-- A position of the scan. -/
def AtPosition (fPos : ℤ) : Prop := 0 ≤ fPos ∧ fPos ≤ maxIndex + 1

theorem AtPosition.toInt_ofInt (h : AtPosition fPos) : (BitVec.ofInt 32 fPos).toInt = fPos := by
  obtain ⟨hnonneg, hle⟩ := h
  unfold maxIndex at hle
  rw [BitVec.toInt_ofInt]
  exact Int.bmod_eq_of_le (by omega) (by omega)

/-- What was scanned leads to another position. -/
theorem AtPosition.posAfter {es : List Entry} {n' : ℕ} {ended : Bool} (h : AtPosition fPos)
    (hs : Scanned Entry.index x.entries fPos n n' es ended) : AtPosition (posAfter fPos es) := by
  rw [posAfter_eq_after]
  refine ⟨h.1.trans (Cursor.lt_after hs.sorted hs.ahead).1, Cursor.after_le h.2 fun e he => ?_⟩
  obtain ⟨k, _, _, hmem⟩ := hs.seen e he
  exact (x.dir k).index_le e hmem

/-- What one call of `uvfs_readdir` leaves. -/
structure CallResult (x : ChangingServer) (filldir : Filldir) (fPos : ℤ) (out : List Dirent)
    (n : ℕ) (r : Listing × ℕ) (es : List Entry) : Prop where
  /-- It returns. -/
  ret : ∃ v, r.1.ret = some v
  pos : r.1.fPos = posAfter fPos es
  out : r.1.out = out ++ dirents fPos es
  scanned : Scanned Entry.index x.entries fPos n r.2 es r.1.ended
  ends : x.Steady → (∀ o y, filldir o y = false) → r.1.ended = true

/-- **One call of `uvfs_readdir`** while the directory changes: it returns, since every reply moves
`f_pos` on. -/
theorem run_uvfsReaddir_changing {fuel : ℕ} (h : AtPosition fPos)
    (hfuel : maxIndex + 1 < fuel + fPos) (out : List Dirent) (n : ℕ) :
    ∃ es, CallResult x filldir fPos out n
      ((uvfsReaddir dir before filldir fuel fPos out).run x.serve n) es := by
  induction fuel generalizing fPos out n with
  | zero =>
      have := h.2
      omega
  | succ fuel ih =>
      by_cases hmem : x.memory n = true
      swap
      · -- no transaction
        have hrun : (uvfsReaddir dir before filldir (fuel + 1) fPos out).run x.serve n =
            (⟨some enomem, false, fPos, out, none⟩, n + 1) := by
          simp [uvfsReaddir, ChangingServer.serve, hmem]
        rw [hrun]
        exact ⟨[], ⟨_, rfl⟩, rfl, by simp [dirents], .idle (Nat.le_succ n),
          fun hsteady => absurd (hsteady.memory n) hmem⟩
      have hreply := x.answers (n + 1) fPos
      simp only [uvfsReaddir, Dialogue.run_bind, Wire.run_newTransaction, Wire.run_makeRequest,
        ChangingServer.serve, hmem, if_true, h.toInt_ofInt]
      by_cases herror : replyError (x.reply (n + 1) fPos) < 0
      · rw [if_pos herror]
        have hlater : n ≤ n + 3 := Nat.le_add_right n 3
        exact ⟨[], ⟨_, rfl⟩, rfl, by simp [dirents], .idle hlater,
          fun hsteady => absurd herror (hsteady.reply _ _)⟩
      rw [if_neg herror]
      rcases (hreply.resolve_right herror).2 with ⟨hnone, hcount⟩ |
        ⟨batch, hne, hbatch, hcount, hsize, henc⟩
      · have hzero : replyCount (x.reply (n + 1) fPos) = 0 := by simp [replyCount, hcount]
        rw [if_pos hzero]
        have hlast : Scanned Entry.index x.entries fPos (n + 1) (n + 2) [] true := .last hnone
        exact ⟨[], ⟨_, rfl⟩, rfl, by simp [dirents],
          (hlast.wait (Nat.le_succ n)).rest (Nat.le_succ _), fun _ _ => rfl⟩
      · have hlength : replyCount (x.reply (n + 1) fPos) = batch.length := by
          have hle := length_le_of_size batch
          unfold uvfsBuffsize at hsize
          rw [replyCount, hcount, toInt_ofNat_of_lt (by omega)]
        have hpos : 0 < batch.length := List.length_pos_iff.mpr hne
        rw [if_neg (by omega), hlength, Int.toNat_natCast]
        have hindex : ∀ e ∈ batch, e.index ≤ maxIndex := fun e he =>
          (x.dir (n + 1)).index_le e (List.mem_filter.mp (hbatch.subset he)).1
        obtain ⟨k, hk, hwalk, hall⟩ := @walk_encoded before (x.reply (n + 1) fPos) filldir
          (replyOffset .readdir 5) fPos out batch hindex hsize (by decide) henc
        rw [hwalk]
        have hpiece : Scanned Entry.index x.entries fPos (n + 1) (n + 2) (batch.take k) false :=
          .piece (x.dir (n + 1)).sorted ((List.take_prefix k batch).trans hbatch)
        have hpart := (hpiece.wait (Nat.le_succ n)).rest (Nat.le_succ _)
        rcases hk.lt_or_eq with hlt | rfl
        · -- `filldir` has refused an entry of this reply
          obtain ⟨y, hy⟩ : ∃ y, (dirents fPos batch)[k]? = some y :=
            ⟨_, List.getElem?_eq_getElem (by rwa [length_dirents])⟩
          simp only [hy]
          exact ⟨batch.take k, ⟨_, rfl⟩, rfl, rfl, hpart,
            fun _ hroom => absurd (hall hroom) hlt.ne⟩
        · -- the whole reply was taken, and the next round asks for what comes behind it
          have hnone : (dirents fPos batch)[batch.length]? = none := by simp
          simp only [hnone]
          rw [List.take_length] at hpart ⊢
          have hmoved : fPos < posAfter fPos batch := by
            have hhead := List.head_mem hne
            have hahead := hpart.ahead _ hhead
            rw [posAfter_eq_after]
            exact lt_of_le_of_lt hahead ((Cursor.lt_after hpart.sorted hpart.ahead).2 _ hhead)
          obtain ⟨es, hes⟩ := ih (h.posAfter hpart) (by omega) (out ++ dirents fPos batch) (n + 3)
          refine ⟨batch ++ es, hes.ret, ?_, ?_, ?_, hes.ends⟩
          · rw [posAfter_append]
            exact hes.pos
          · rw [dirents_append, ← List.append_assoc]
            exact hes.out
          · exact scanned_append hpart hes.scanned

/-- The time when the calls of `readdirScan` are over. -/
def scanEnd {σ : Type} (serve : σ → (q : WireCall) → q.Answer × σ) (dir : Inode) (before : Mem)
    (fuel : ℕ) : List Filldir → ℤ → σ → σ
  | [], _, s => s
  | filldir :: calls, fPos, s =>
      let r := (uvfsReaddir dir before filldir fuel fPos []).run serve s
      if r.1.ended then r.2 else scanEnd serve dir before fuel calls r.1.fPos r.2

/-- What a sequence of calls leaves, when it is over at `n'`. -/
structure ScanResult (x : ChangingServer) (calls : List Filldir) (fPos : ℤ) (n n' : ℕ) (r : Scan)
    (es : List Entry) : Prop where
  rets : ∀ ret ∈ r.rets, ret ≠ none
  out : r.out = dirents fPos es
  scanned : Scanned Entry.index x.entries fPos n n' es r.ended
  ends : x.Steady → (∃ filldir ∈ calls, ∀ o y, filldir o y = false) → r.ended = true

/-- A sequence of calls from a position: each takes up where the last one stopped. -/
theorem exists_scanResult {fuel : ℕ} (hfuel : maxIndex + 1 < fuel) (calls : List Filldir)
    (h : AtPosition fPos) (n : ℕ) :
    ∃ es, ScanResult x calls fPos n (scanEnd x.serve dir before fuel calls fPos n)
      (readdirScan x.serve dir before fuel calls fPos n) es := by
  induction calls generalizing fPos n with
  | nil => exact ⟨[], by simp [readdirScan], rfl, .idle le_rfl, by simp⟩
  | cons filldir calls ih =>
      have hnonneg := h.1
      obtain ⟨es, hes⟩ := @run_uvfsReaddir_changing x dir before filldir fPos fuel h (by omega) [] n
      obtain ⟨v, hret⟩ := hes.ret
      have hscanned := hes.scanned
      have hends := hes.ends
      simp only [readdirScan, scanEnd]
      cases hended : ((uvfsReaddir dir before filldir fuel fPos []).run x.serve n).1.ended with
      | true =>
          rw [hended] at hscanned
          simp only [if_true]
          exact ⟨es, by simp [hret], hes.out, hscanned, fun _ _ => rfl⟩
      | false =>
          rw [hended] at hscanned hends
          obtain ⟨es', hes'⟩ := ih (h.posAfter hscanned)
            ((uvfsReaddir dir before filldir fuel fPos []).run x.serve n).2
          simp only [Bool.false_eq_true, if_false, hes.pos]
          refine ⟨es ++ es', ?_, ?_, scanned_append hscanned hes'.scanned, ?_⟩
          · intro ret hmem
            rcases List.mem_cons.mp hmem with rfl | hmem
            · simp [hret]
            · exact hes'.rets ret hmem
          · rw [dirents_append, hes.out, hes'.out]
            rfl
          · rintro hsteady ⟨f, hf, hroom⟩
            rcases List.mem_cons.mp hf with rfl | hf
            · exact absurd (hends hsteady hroom) (by simp)
            · exact hes'.ends hsteady ⟨f, hf, hroom⟩

/-- **Reading a directory while it changes.**  However the directory changes between two requests,
however many of the entries from the asked index on the server puts into each reply, as long as
there are some when the reply says that there are (`ChangingServer.answers`), wherever `filldir`
refuses an entry and whichever requests fail: every call of `uvfs_readdir` returns; what the calls
hand over, from any position on, are entries that were there at some time in between, none with an
index that came before; and when the end is reached, every entry that was there all the time is
among them.  If nothing fails and one `filldir` has room for everything, the end is reached. -/
theorem readdir_through_changes (x : ChangingServer) (dir : Inode) (before : Mem) {fuel : ℕ}
    (hfuel : maxIndex + 1 < fuel) (calls : List Filldir) (h : AtPosition fPos) (n : ℕ) :
    let r := readdirScan x.serve dir before fuel calls fPos n
    let n' := scanEnd x.serve dir before fuel calls fPos n
    (∀ ret ∈ r.rets, ret ≠ none) ∧
      (x.Steady → (∃ filldir ∈ calls, ∀ o y, filldir o y = false) → r.ended = true) ∧
      ∃ es, r.out = dirents fPos es ∧ (es.Pairwise fun e e' => e.index < e'.index) ∧
        (∀ e ∈ es, ∃ k, n ≤ k ∧ k < n' ∧ e ∈ x.entries k) ∧
        (r.ended = true → ∀ e, (∀ k, n ≤ k → k < n' → e ∈ x.entries k) → fPos ≤ e.index →
          e ∈ es) := by
  obtain ⟨es, hes⟩ := @exists_scanResult x dir before fPos fuel hfuel calls h n
  exact ⟨hes.rets, hes.ends, es, hes.out, hes.scanned.sorted, hes.scanned.seen,
    fun hended e hall hp => hes.scanned.kept e hall hp (.inr hended)⟩

end

/-- The entry `a` of `twoEntries` is gone, and there is `d`. -/
def otherEntries : Directory where
  entries := [⟨[98, 99], 8, 5⟩, ⟨[100], 9, 9⟩]
  sorted := by decide
  index_le := by decide

/-- The next entry of `otherEntries`. -/
def otherEntriesReply (p : ℤ) : Mem :=
  if p ≤ 5 then wordsReply [10, 0, 36, 0, 1, 2, 8, 5] [98, 99]
  else if p ≤ 9 then wordsReply [10, 0, 36, 0, 1, 1, 9, 9] [100]
  else wordsReply [10, 0, 20, 0, 0] []

theorem otherEntriesReply_answers (p : ℤ) : Answers otherEntries p (otherEntriesReply p) := by
  unfold otherEntriesReply
  by_cases h₅ : p ≤ 5
  · rw [if_pos h₅]
    have hsince : otherEntries.since p = [⟨[98, 99], 8, 5⟩] ++ [⟨[100], 9, 9⟩] := by
      have h₉ : p ≤ 9 := by omega
      simp [Directory.since, otherEntries, h₅, h₉]
    refine ⟨by decide, .inr ⟨_, by decide, ⟨_, hsince.symm⟩, by decide, by decide, ?_⟩⟩
    exact ⟨by decide, by decide, by decide, by decide, trivial⟩
  by_cases h₉ : p ≤ 9
  · rw [if_neg h₅, if_pos h₉]
    have hsince : otherEntries.since p = [⟨[100], 9, 9⟩] ++ [] := by
      simp [Directory.since, otherEntries, h₅, h₉]
    refine ⟨by decide, .inr ⟨_, by decide, ⟨_, hsince.symm⟩, by decide, by decide, ?_⟩⟩
    exact ⟨by decide, by decide, by decide, by decide, trivial⟩
  · rw [if_neg h₅, if_neg h₉]
    exact ⟨by decide, .inl ⟨by simp [Directory.since, otherEntries, h₅, h₉], by decide⟩⟩

/-- The directory is `twoEntries` at first. -/
def twoThenOther : ChangingServer where
  dir n := if n < 3 then twoEntries else otherEntries
  memory _ := true
  reply n p := if n < 3 then twoEntriesReply p else otherEntriesReply p
  answers n p := by
    left
    by_cases h : n < 3
    · simp only [if_pos h]
      exact twoEntriesReply_answers p
    · simp only [if_neg h]
      exact otherEntriesReply_answers p

theorem twoThenOther_steady : twoThenOther.Steady where
  memory _ := rfl
  reply n p := by
    have herror : (twoThenOther.reply n p).word offsetofError = 0 := by
      unfold twoThenOther
      by_cases h : n < 3
      · simp only [if_pos h]
        exact (twoEntriesReply_answers p).1
      · simp only [if_neg h]
        exact (otherEntriesReply_answers p).1
    simp [replyError, herror]

/-- The entry `bc` is in both, and is not missed. -/
theorem readdir_through_changes_two :
    let r := readdirScan twoThenOther.serve (newInode ⟨0, 0, 0, 0, 0, 0, 1, 0⟩) (fun _ => 0)
      (2 ^ 31) [fun out _ => out.length = 1, fun _ _ => false] 0 0
    r.ended = true ∧ ∃ es, r.out = dirents 0 es ∧ ⟨[98, 99], 8, 5⟩ ∈ es := by
  intro r
  obtain ⟨_, hends, es, hout, _, _, hkept⟩ := @readdir_through_changes 0 twoThenOther
    (newInode ⟨0, 0, 0, 0, 0, 0, 1, 0⟩) (fun _ => 0) (2 ^ 31) (by decide)
    [fun out _ => out.length = 1, fun _ _ => false] ⟨le_rfl, by decide⟩ 0
  have hended := hends twoThenOther_steady ⟨fun _ _ => false, by simp, fun _ _ => rfl⟩
  refine ⟨hended, es, hout, hkept hended _ (fun k _ _ => ?_) (by decide)⟩
  unfold ChangingServer.entries twoThenOther
  by_cases hk : k < 3
  · simp [if_pos hk, twoEntries]
  · simp [if_neg hk, otherEntries]

end Uvfs.Vfs
