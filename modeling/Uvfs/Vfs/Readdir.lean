import Uvfs.Vfs.Operations

/-!
# Reading a directory

A caller reads a directory by calling `uvfs_readdir` until it reaches the end; each call takes up at
`f_pos`, asks the server for the entries from there on, and hands them to `filldir` until that
refuses one.  The server holds the entries with increasing indexes and answers each request with as
many of them as it likes.

* `Directory` : the entries; `Answers` : a reply; `ServesDirectory` : a server.
* `dirents` : what `filldir` should get.
* `Stands d fPos rest` : `f_pos` stands in front of the entries `rest`; a round of the loop and a
  call of `uvfs_readdir` lead from one such position to another.
* `readdir_scan` : a sequence of calls delivers every entry once, and one that starts at the offset
  of an entry takes up at that entry.
-/

namespace Uvfs.Vfs

/-! ## The server's side -/

/-- An entry of a directory. -/
structure Entry where
  /-- The name. -/
  name : List Byte
  /-- The inode number. -/
  ino : Word
  /-- The index. -/
  index : ℕ
  deriving DecidableEq

/-- The largest index of an entry; the position behind it is still an `int`. -/
def maxIndex : ℕ := 2 ^ 31 - 2

/-- A directory: the entries in the order of their indexes. -/
structure Directory where
  /-- The entries. -/
  entries : List Entry
  sorted : entries.Pairwise fun e e' => e.index < e'.index
  index_le : ∀ e ∈ entries, e.index ≤ maxIndex

/-- How much room an entry takes: the struct, the name and the padding. -/
def recordSize (e : Entry) : ℕ := (12 + e.name.length + 3) / 4 * 4

/-- The entries are encoded one after the other from `off` on. -/
def Encoded (m : Mem) : ℕ → List Entry → Prop
  | _, [] => True
  | off, e :: es => m.word off = BitVec.ofNat 32 e.name.length ∧ m.word (off + 4) = e.ino ∧
      m.word (off + 8) = BitVec.ofNat 32 e.index ∧
      (Mem.toList (fun i => m (off + 12 + i)) e.name.length) = e.name ∧
      Encoded m (off + recordSize e) es

/-- The entries from a position on. -/
def Directory.since (d : Directory) (p : ℤ) : List Entry :=
  d.entries.filter fun e => p ≤ e.index

/-- A reply to `UVFS_READDIR` with `entry_no = p`: no entries when there are none, else the first
ones, as many as the server likes and `data` holds. -/
def Answers (d : Directory) (p : ℤ) (m : Mem) : Prop :=
  m.word offsetofError = 0 ∧
    ((d.since p = [] ∧ m.word (replyOffset .readdir 4) = 0) ∨
      ∃ batch, batch ≠ [] ∧ batch <+: d.since p ∧
        m.word (replyOffset .readdir 4) = BitVec.ofNat 32 batch.length ∧
        (batch.map recordSize).sum ≤ uvfsBuffsize ∧ Encoded m (replyOffset .readdir 5) batch)

/-- A party that answers the requests of `uvfs_readdir` for a directory. -/
structure ServesDirectory {σ : Type} (d : Directory) (dir : Inode)
    (serve : σ → (q : WireCall) → q.Answer × σ) : Prop where
  transaction : ∀ s, (serve s .newTransaction).1 = true
  reply : ∀ s fPos, Answers d (BitVec.ofInt 32 fPos).toInt
    (serve s (.makeRequest (.readdir dir fPos))).1

/-! ## What `filldir` should get -/

/-- The arguments of `filldir` for a list of entries, from `f_pos` on. -/
def dirents : ℤ → List Entry → List Dirent
  | _, [] => []
  | fPos, e :: es =>
      ⟨e.name, e.name.length, fPos, e.ino.signExtend 64⟩ :: dirents (e.index + 1) es

/-- `f_pos` behind a list of entries. -/
def posAfter : ℤ → List Entry → ℤ
  | fPos, [] => fPos
  | _, e :: es => posAfter (e.index + 1) es

theorem posAfter_append (fPos : ℤ) (es es' : List Entry) :
    posAfter fPos (es ++ es') = posAfter (posAfter fPos es) es' := by
  induction es generalizing fPos with
  | nil => rfl
  | cons e es ih => exact ih (e.index + 1)

theorem dirents_append (fPos : ℤ) (es es' : List Entry) :
    dirents fPos (es ++ es') = dirents fPos es ++ dirents (posAfter fPos es) es' := by
  induction es generalizing fPos with
  | nil => rfl
  | cons e es ih =>
      rw [List.cons_append, dirents, dirents, ih, List.cons_append]
      rfl

@[simp] theorem length_dirents (fPos : ℤ) (es : List Entry) :
    (dirents fPos es).length = es.length := by
  induction es generalizing fPos with
  | nil => rfl
  | cons e es ih => rw [dirents, List.length_cons, ih, List.length_cons]

/-- `f_pos` stands in front of `rest`. -/
structure Stands (d : Directory) (fPos : ℤ) (rest : List Entry) : Prop where
  nonneg : 0 ≤ fPos
  le : fPos ≤ maxIndex + 1
  split : ∃ done, d.entries = done ++ rest ∧ ∀ e ∈ done, (e.index : ℤ) < fPos
  ahead : ∀ e ∈ rest, fPos ≤ e.index

namespace Stands

variable {d : Directory} {fPos : ℤ} {e : Entry} {rest : List Entry}

theorem start (d : Directory) : Stands d 0 d.entries where
  nonneg := le_rfl
  le := by simp [maxIndex]
  split := ⟨[], rfl, by simp⟩
  ahead e _ := Int.natCast_nonneg _

/-- The entries from `f_pos` on. -/
theorem since_eq (h : Stands d fPos rest) : d.since fPos = rest := by
  obtain ⟨done, heq, hdone⟩ := h.split
  rw [Directory.since, heq, List.filter_append, List.filter_eq_nil_iff.mpr, List.nil_append,
    List.filter_eq_self]
  · intro e he
    simpa using h.ahead e he
  · intro e he
    simpa using hdone e he

/-- Behind the next entry. -/
theorem step (h : Stands d fPos (e :: rest)) : Stands d (e.index + 1) rest := by
  obtain ⟨done, heq, hdone⟩ := h.split
  have hmem : e ∈ d.entries := by simp [heq]
  have hsorted := d.sorted
  rw [heq] at hsorted
  refine ⟨by omega, ?_, ⟨done ++ [e], by simp [heq], ?_⟩, ?_⟩
  · have := d.index_le e hmem
    omega
  · intro e' he'
    rcases List.mem_append.mp he' with hd | hlast
    · have := hdone e' hd
      have := h.ahead e (by simp)
      omega
    · rw [List.mem_singleton.mp hlast]
      omega
  · intro e' he'
    have hlt := List.rel_of_pairwise_cons (List.pairwise_append.mp hsorted).2.1 he'
    omega

/-- Behind some more entries. -/
theorem append {es : List Entry} (h : Stands d fPos (es ++ rest)) :
    Stands d (posAfter fPos es) rest := by
  induction es generalizing fPos with
  | nil => exact h
  | cons e es ih => exact ih h.step

theorem index_le (h : Stands d fPos rest) : ∀ e ∈ rest, e.index ≤ maxIndex := by
  obtain ⟨done, heq, -⟩ := h.split
  intro e he
  exact d.index_le e (by simp [heq, he])

/-- The position fits the request. -/
theorem toInt_ofInt (h : Stands d fPos rest) : (BitVec.ofInt 32 fPos).toInt = fPos := by
  have hle := h.le
  have hnonneg := h.nonneg
  unfold maxIndex at hle
  rw [BitVec.toInt_ofInt]
  exact Int.bmod_eq_of_le (by omega) (by omega)

end Stands

/-! ## One reply -/

section

variable {before m : Mem} {filldir : Filldir} {off : ℕ} {e : Entry} {es : List Entry} {fPos : ℤ}
  {out : List Dirent}

@[simp] theorem around_natCast (p : ℕ) : around before m p = m p := rfl

/-- A word inside the union. -/
theorem wordAt_around (p k : ℕ) : wordAt (around before m) (p + k) = m.word (p + k) := by
  apply Word.ofBytes_congr
  intro i _
  exact_mod_cast around_natCast (p + k + i)

theorem toInt_ofNat_of_lt {n : ℕ} (h : n < 2 ^ 31) : (BitVec.ofNat 32 n).toInt = n :=
  (Width.toInt_ofNat_eq_iff (by omega)).mpr (by omega)

theorem length_le_of_size (batch : List Entry) : batch.length ≤ (batch.map recordSize).sum := by
  rw [← List.length_map (f := recordSize)]
  apply List.length_le_sum_of_one_le
  intro n hn
  obtain ⟨e, -, rfl⟩ := List.mem_map.mp hn
  unfold recordSize
  omega

/-- The name of an encoded entry has a length that fits an `int`. -/
theorem name_lt_of_recordSize_le (h : recordSize e ≤ uvfsBuffsize) : e.name.length < 2 ^ 31 := by
  simp only [recordSize, uvfsBuffsize] at h
  omega

/-- `ent->length` of an encoded entry. -/
theorem length_encoded (h : Encoded m off (e :: es)) (hsize : recordSize e ≤ uvfsBuffsize) :
    (wordAt (around before m) (off + offsetofLength)).toInt = e.name.length := by
  have hword : wordAt (around before m) (off + offsetofLength) = m.word off := wordAt_around off 0
  rw [hword, h.1, toInt_ofNat_of_lt (name_lt_of_recordSize_le hsize)]

/-- The arguments of `filldir` for an encoded entry. -/
theorem direntAt_encoded (h : Encoded m off (e :: es)) (hsize : recordSize e ≤ uvfsBuffsize) :
    direntAt (around before m) off fPos =
      ⟨e.name, e.name.length, fPos, e.ino.signExtend 64⟩ := by
  have hino : wordAt (around before m) (off + offsetofIno) = e.ino :=
    (wordAt_around off 4).trans h.2.1
  have hname : ∀ i : ℕ, around before m (off + sizeofDirent + i) = m (off + 12 + i) := by
    intro i
    exact_mod_cast around_natCast (off + 12 + i)
  simp only [direntAt, length_encoded h hsize, hino, hname, Int.toNat_natCast, h.2.2.2.1]

/-- The position of the entry behind an encoded one. -/
theorem nextEnt_encoded (h : Encoded m off (e :: es)) (hsize : recordSize e ≤ uvfsBuffsize)
    (hoff : 4 ∣ off) : nextEnt (around before m) off = (off + recordSize e : ℕ) := by
  rw [nextEnt, length_encoded h hsize]
  simp only [sizeofDirent, recordSize]
  omega

/-- `f_pos` behind an encoded entry. -/
theorem nextPos_encoded (h : Encoded m off (e :: es)) (hindex : e.index ≤ maxIndex) :
    nextPos (around before m) off = e.index + 1 := by
  have hword : wordAt (around before m) (off + offsetofIndex) = BitVec.ofNat 32 e.index :=
    (wordAt_around off 8).trans h.2.2.1
  have hadd : BitVec.ofNat 32 e.index + 1 = BitVec.ofNat 32 (e.index + 1) := by
    rw [BitVec.ofNat_add]
    rfl
  unfold maxIndex at hindex
  rw [nextPos, hword, hadd, toInt_ofNat_of_lt (by omega)]
  push_cast
  rfl

/-- **One round of the loop**: `filldir` gets the entries in order until it refuses one, and `f_pos`
stands behind the last one it has taken. -/
theorem walk_encoded {batch : List Entry} (hindex : ∀ e ∈ batch, e.index ≤ maxIndex)
    (hsize : (batch.map recordSize).sum ≤ uvfsBuffsize) (hoff : 4 ∣ off)
    (h : Encoded m off batch) :
    ∃ k ≤ batch.length, walk (around before m) filldir batch.length off fPos out =
        ((dirents fPos batch)[k]?, posAfter fPos (batch.take k),
          out ++ dirents fPos (batch.take k)) ∧
      ((∀ o x, filldir o x = false) → k = batch.length) := by
  induction batch generalizing off fPos out with
  | nil => exact ⟨0, le_rfl, by simp [walk, posAfter, dirents], fun _ => rfl⟩
  | cons e es ih =>
      rw [List.map_cons, List.sum_cons] at hsize
      have hdirent := @direntAt_encoded before m off e es fPos h (by omega)
      by_cases hrefuse : filldir out ⟨e.name, e.name.length, fPos, e.ino.signExtend 64⟩ = true
      · refine ⟨0, Nat.zero_le _, ?_, ?_⟩
        · simp [walk, hdirent, hrefuse, posAfter, dirents]
        · intro hnone
          rw [hnone] at hrefuse
          cases hrefuse
      · have hoff' : 4 ∣ off + recordSize e :=
          dvd_add hoff ⟨(12 + e.name.length + 3) / 4, Nat.mul_comm _ _⟩
        obtain ⟨k, hk, hwalk, hall⟩ := @ih (off + recordSize e) (e.index + 1)
          (out ++ [⟨e.name, e.name.length, fPos, e.ino.signExtend 64⟩])
          (fun e' he' => hindex e' (by simp [he'])) (by omega) hoff' h.2.2.2.2
        refine ⟨k + 1, Nat.succ_le_succ hk, ?_, fun hnone => congrArg Nat.succ (hall hnone)⟩
        rw [List.length_cons, walk, hdirent, if_neg hrefuse, nextEnt_encoded h (by omega) hoff,
          nextPos_encoded h (hindex e (by simp)), hwalk]
        simp [posAfter, dirents]

end

/-! ## One call -/

section

variable {σ : Type} {serve : σ → (q : WireCall) → q.Answer × σ} {d : Directory} {dir : Inode}
  {before : Mem} {filldir : Filldir} {fPos : ℤ} {rest : List Entry}

/-- **One call of `uvfs_readdir`**: with fuel for the entries that are left it returns 0; `filldir`
has taken the entries in order from `f_pos` on, all of them when the end was reached, and `f_pos`
stands behind the last one.  When `filldir` refuses nothing the end is reached. -/
theorem run_uvfsReaddir (hserve : ServesDirectory d dir serve) {fuel : ℕ}
    (h : Stands d fPos rest) (hfuel : rest.length < fuel) (out : List Dirent) (s : σ) :
    ∃ k ≤ rest.length, ∃ ended s',
      (uvfsReaddir dir before filldir fuel fPos out).run serve s =
        (⟨some 0, ended, posAfter fPos (rest.take k), out ++ dirents fPos (rest.take k),
          (dirents fPos rest)[k]?⟩, s') ∧
      (ended = true → k = rest.length) ∧ ((∀ o x, filldir o x = false) → ended = true) := by
  induction fuel generalizing fPos rest out s with
  | zero => omega
  | succ fuel ih =>
      obtain ⟨reply, s₂, hans⟩ : ∃ (reply : Mem) (s₂ : σ), serve (serve s .newTransaction).2
          (.makeRequest (.readdir dir fPos)) = (reply, s₂) := ⟨_, _, rfl⟩
      have hanswer : Answers d fPos reply := by
        have := hserve.reply (serve s .newTransaction).2 fPos
        rwa [hans, h.toInt_ofInt] at this
      simp only [uvfsReaddir, Dialogue.run_bind, Wire.run_newTransaction, Wire.run_makeRequest,
        hserve.transaction, if_true, hans]
      obtain ⟨herror, hreply⟩ := hanswer
      rw [h.since_eq] at hreply
      have hok : ¬ replyError reply < 0 := by simp [replyError, herror]
      rw [if_neg hok]
      rcases hreply with ⟨rfl, hcount⟩ | ⟨batch, hne, ⟨later, rfl⟩, hcount, hsize, henc⟩
      · have hzero : replyCount reply = 0 := by simp [replyCount, hcount]
        rw [if_pos hzero]
        refine ⟨0, le_rfl, true, (serve s₂ .kfree).2, ?_, fun _ => rfl, fun _ => rfl⟩
        simp [posAfter, dirents]
      · have hlength : replyCount reply = batch.length := by
          have hle := length_le_of_size batch
          unfold uvfsBuffsize at hsize
          rw [replyCount, hcount, toInt_ofNat_of_lt (by omega)]
        have hpos : 0 < batch.length := List.length_pos_iff.mpr hne
        rw [if_neg (by omega), hlength, Int.toNat_natCast]
        obtain ⟨k, hk, hwalk, hall⟩ := @walk_encoded before reply filldir
          (replyOffset .readdir 5) fPos out batch
          (fun e he => h.index_le e (List.mem_append_left later he)) hsize (by decide) henc
        rw [hwalk]
        rw [List.length_append] at hfuel
        rcases hk.lt_or_eq with hlt | rfl
        · -- `filldir` has refused an entry of this reply
          refine ⟨k, by simp; omega, false, (serve s₂ .kfree).2, ?_, by simp, ?_⟩
          · obtain ⟨x, hx⟩ : ∃ x, (dirents fPos batch)[k]? = some x :=
              ⟨_, List.getElem?_eq_getElem (by rwa [length_dirents])⟩
            have hx' : (dirents fPos (batch ++ later))[k]? = some x := by
              rw [dirents_append, List.getElem?_append_left (by rwa [length_dirents]), hx]
            simp [hx, hx', List.take_append_of_le_length hk]
          · intro hnone
            exact absurd (hall hnone) hlt.ne
        · -- the whole reply was taken, and the next round asks for what comes behind it
          obtain ⟨k', hk', ended, s', hrun, hend, hnone⟩ :=
            ih h.append (by omega) (out ++ dirents fPos batch) (serve s₂ .kfree).2
          refine ⟨batch.length + k', by simp; omega, ended, s', ?_, ?_, hnone⟩
          · have hlater : (dirents fPos (batch ++ later))[batch.length + k']? =
                (dirents (posAfter fPos batch) later)[k']? := by
              rw [dirents_append, List.getElem?_append_right (by rw [length_dirents]; omega),
                length_dirents, Nat.add_sub_cancel_left]
            rw [hlater]
            simp [hrun, List.take_length_add_append, posAfter_append, dirents_append]
          · intro hended
            simp [hend hended]

end

/-! ## A sequence of calls -/

/-- What a sequence of calls leaves. -/
structure Scan where
  /-- What the calls returned. -/
  rets : List (Option ℤ)
  /-- What `filldir` has taken, over all calls. -/
  out : List Dirent
  /-- What `filldir` has refused, over all calls. -/
  refused : List Dirent
  /-- The last call reached the end. -/
  ended : Bool
  deriving DecidableEq

/-- Call `uvfs_readdir` with one `filldir` after the other, each from where the last one stopped,
until a call reaches the end. -/
def readdirScan {σ : Type} (serve : σ → (q : WireCall) → q.Answer × σ) (dir : Inode) (before : Mem)
    (fuel : ℕ) : List Filldir → ℤ → σ → Scan
  | [], _, _ => ⟨[], [], [], false⟩
  | filldir :: calls, fPos, s =>
      let r := (uvfsReaddir dir before filldir fuel fPos []).run serve s
      if r.1.ended then ⟨[r.1.ret], r.1.out, r.1.refused.toList, true⟩
      else
        let later := readdirScan serve dir before fuel calls r.1.fPos r.2
        ⟨r.1.ret :: later.rets, r.1.out ++ later.out, r.1.refused.toList ++ later.refused,
          later.ended⟩

section

variable {σ : Type} {serve : σ → (q : WireCall) → q.Answer × σ} {d : Directory} {dir : Inode}
  {before : Mem} {fPos : ℤ} {rest : List Entry} {fuel : ℕ}

/-- What a sequence of calls from a position delivers. -/
structure Delivers (r : Scan) (calls : List Filldir) (whole : List Dirent) : Prop where
  /-- Every call returns 0. -/
  rets : ∀ ret ∈ r.rets, ret = some 0
  /-- Nothing is left out, repeated or out of order. -/
  isPrefix : r.out <+: whole
  /-- What was refused is an entry too, with its own offset. -/
  refused : ∀ x ∈ r.refused, x ∈ whole
  /-- Nothing is missing at the end. -/
  all : r.ended = true → r.out = whole
  /-- A `filldir` that has room for everything reaches the end. -/
  ends : (∃ filldir ∈ calls, ∀ o x, filldir o x = false) → r.ended = true

/-- Calls from a position in front of the entries `rest`. -/
theorem Stands.delivers (hserve : ServesDirectory d dir serve) (h : Stands d fPos rest)
    (hfuel : rest.length < fuel) (calls : List Filldir) (s : σ) :
    Delivers (readdirScan serve dir before fuel calls fPos s) calls (dirents fPos rest) := by
  induction calls generalizing fPos rest s with
  | nil =>
      exact ⟨by simp [readdirScan], List.nil_prefix, by simp [readdirScan], by simp [readdirScan],
        by simp⟩
  | cons filldir calls ih =>
      obtain ⟨k, hk, ended, s', hrun, hend, hnone⟩ :=
        @run_uvfsReaddir σ serve d dir before filldir fPos rest hserve fuel h hfuel [] s
      have hsplit : dirents fPos rest =
          dirents fPos (rest.take k) ++ dirents (posAfter fPos (rest.take k)) (rest.drop k) := by
        rw [← dirents_append, List.take_append_drop]
      have hstands : Stands d (posAfter fPos (rest.take k)) (rest.drop k) := by
        apply Stands.append
        rwa [List.take_append_drop]
      have hrefused : ∀ x ∈ ((dirents fPos rest)[k]?).toList, x ∈ dirents fPos rest := by
        intro x hx
        exact List.mem_of_getElem? (Option.mem_toList.mp hx)
      simp only [readdirScan, hrun, List.nil_append]
      cases ended with
      | true =>
          have hall : rest.take k = rest := by rw [hend rfl, List.take_length]
          simp only [if_true, hall]
          exact ⟨by simp, List.prefix_rfl, hrefused, fun _ => rfl, fun _ => rfl⟩
      | false =>
          have hlater := ih hstands (by rw [List.length_drop]; omega) s'
          simp only [Bool.false_eq_true, if_false]
          refine ⟨?_, ?_, ?_, ?_, ?_⟩
          · intro ret hret
            rcases List.mem_cons.mp hret with rfl | hret
            · rfl
            · exact hlater.rets ret hret
          · rw [hsplit]
            exact (List.prefix_append_right_inj _).mpr hlater.isPrefix
          · intro x hx
            rcases List.mem_append.mp hx with hx | hx
            · exact hrefused x hx
            · rw [hsplit]
              exact List.mem_append_right _ (hlater.refused x hx)
          · intro hended
            rw [hsplit, hlater.all hended]
          · rintro ⟨f, hf, hroom⟩
            rcases List.mem_cons.mp hf with rfl | hf
            · exact absurd (hnone hroom) (by simp)
            · exact hlater.ends ⟨f, hf, hroom⟩

/-- The offset that was handed to `filldir` for an entry stands in front of that entry. -/
theorem Stands.of_dirents {j : ℕ} {x : Dirent} (h : Stands d fPos rest)
    (hx : (dirents fPos rest)[j]? = some x) :
    Stands d x.offset (rest.drop j) ∧
      dirents x.offset (rest.drop j) = (dirents fPos rest).drop j := by
  induction j generalizing fPos rest with
  | zero =>
      cases rest with
      | nil => simp [dirents] at hx
      | cons e es =>
          rw [dirents, List.getElem?_cons_zero, Option.some.injEq] at hx
          subst hx
          exact ⟨h, rfl⟩
  | succ j ih =>
      cases rest with
      | nil => simp [dirents] at hx
      | cons e es =>
          rw [dirents, List.getElem?_cons_succ] at hx
          exact ih h.step hx

/-- **A directory scan delivers every entry exactly once**: whatever the server puts into each reply
and wherever `filldir` refuses an entry, calls from the start of the directory hand over the entries
in order, each with its name, length and inode number, and all of them once a call reaches the end;
calls that start at the offset of an entry do so from that entry on. -/
theorem readdir_scan (hserve : ServesDirectory d dir serve) (hfuel : d.entries.length < fuel)
    (calls : List Filldir) (s : σ) :
    Delivers (readdirScan serve dir before fuel calls 0 s) calls (dirents 0 d.entries) ∧
      ∀ j x, (dirents 0 d.entries)[j]? = some x →
        Delivers (readdirScan serve dir before fuel calls x.offset s) calls
          ((dirents 0 d.entries).drop j) := by
  refine ⟨(Stands.start d).delivers hserve hfuel calls s, ?_⟩
  intro j x hx
  obtain ⟨hstands, heq⟩ := (Stands.start d).of_dirents hx
  rw [← heq]
  exact hstands.delivers hserve (by rw [List.length_drop]; omega) calls s

end

/-- A directory with the entries `a` and `bc`. -/
def twoEntries : Directory where
  entries := [⟨[97], 7, 0⟩, ⟨[98, 99], 8, 5⟩]
  sorted := by decide
  index_le := by decide

/-- A reply that consists of words and a name. -/
def wordsReply (ws : List Word) (name : List Byte) : Mem := fun i =>
  (ws.flatMap Word.bytes ++ name).getD i 0

/-- The next entry of `twoEntries`. -/
def twoEntriesReply (p : ℤ) : Mem :=
  if p ≤ 0 then wordsReply [10, 0, 36, 0, 1, 1, 7, 0] [97]
  else if p ≤ 5 then wordsReply [10, 0, 36, 0, 1, 2, 8, 5] [98, 99]
  else wordsReply [10, 0, 20, 0, 0] []

theorem twoEntriesReply_answers (p : ℤ) : Answers twoEntries p (twoEntriesReply p) := by
  unfold twoEntriesReply
  by_cases h₀ : p ≤ 0
  · rw [if_pos h₀]
    have hsince : twoEntries.since p = [⟨[97], 7, 0⟩] ++ [⟨[98, 99], 8, 5⟩] := by
      have h₅ : p ≤ 5 := by omega
      simp [Directory.since, twoEntries, h₀, h₅]
    refine ⟨by decide, .inr ⟨_, by decide, ⟨_, hsince.symm⟩, by decide, by decide, ?_⟩⟩
    exact ⟨by decide, by decide, by decide, by decide, trivial⟩
  by_cases h₅ : p ≤ 5
  · rw [if_neg h₀, if_pos h₅]
    have hsince : twoEntries.since p = [⟨[98, 99], 8, 5⟩] ++ [] := by
      simp [Directory.since, twoEntries, h₀, h₅]
    refine ⟨by decide, .inr ⟨_, by decide, ⟨_, hsince.symm⟩, by decide, by decide, ?_⟩⟩
    exact ⟨by decide, by decide, by decide, by decide, trivial⟩
  · rw [if_neg h₀, if_neg h₅]
    exact ⟨by decide, .inl ⟨by simp [Directory.since, twoEntries, h₀, h₅], by decide⟩⟩

/-- A server for `twoEntries` that puts one entry into each reply. -/
def twoEntriesServer : Unit → (q : WireCall) → q.Answer × Unit
  | _, .newTransaction => (true, ())
  | _, .makeRequest (.readdir _ fPos) => (twoEntriesReply (BitVec.ofInt 32 fPos).toInt, ())
  | _, .makeRequest _ => (fun _ => 0, ())
  | _, .kfree => ((), ())

theorem twoEntriesServer_serves (dir : Inode) :
    ServesDirectory twoEntries dir twoEntriesServer :=
  ⟨fun _ => rfl, fun _ _ => twoEntriesReply_answers _⟩

/-- The second call gets the entry that the first one had no room for. -/
theorem readdir_scan_two :
    let r := readdirScan twoEntriesServer (newInode ⟨0, 0, 0, 0, 0, 0, 1, 0⟩) (fun _ => 0) 3
      [fun out _ => out.length = 1, fun _ _ => false] 0 ()
    r.ended = true ∧
      r.out = [⟨[97], 1, 0, 7⟩, ⟨[98, 99], 2, 1, 8⟩] := by
  have h := (@readdir_scan _ _ _ _ (fun _ => 0) 3
    (twoEntriesServer_serves (newInode ⟨0, 0, 0, 0, 0, 0, 1, 0⟩)) (by decide)
    [fun out _ => out.length = 1, fun _ _ => false] ()).1
  have hended := h.ends ⟨fun _ _ => false, by simp, fun _ _ => rfl⟩
  exact ⟨hended, h.all hended⟩

end Uvfs.Vfs
