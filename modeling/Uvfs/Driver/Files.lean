import Uvfs.Driver.Effect

/-!
# Open files

`uvfs_use_count` is the number of open files, and a call in progress runs on an open file.  The VFS
keeps this; the driver relies on it when it drains its lists.

* `Files` : the invariant; `Files.setRead`, `Files.setWrite`, `Files.close` are its rules for the
  parts of a step, `Files.step` puts them together and `Reachable.files` has the run.
-/

namespace Uvfs.Driver

open State Transition

variable {s s' : State} {a : Act} {G : State → Act → Prop}

/-- The use count counts the open files, and calls in progress run on open files. -/
structure Files (s : State) : Prop where
  nodup : s.opened.Nodup
  count : s.uvfsUseCount = s.opened.length
  read : ∀ r, (s.reads r).pc.InProgress → r < s.nReads ∧ (s.reads r).file ∈ s.opened
  write : ∀ w, (s.writes w).pc.InProgress → w < s.nWrites ∧ (s.writes w).file ∈ s.opened

namespace Files

theorem init : Files State.init where
  nodup := List.nodup_nil
  count := rfl
  read _ h := h.elim
  write _ h := h.elim

theorem setTrans (h : Files s) (t : TransId) (tr : Transaction) : Files (s.setTrans t tr) :=
  ⟨h.nodup, h.count, h.read, h.write⟩

/-- A read call may move as long as it stays on its file and does not come back. -/
theorem setRead (h : Files s) {r : ReadId} {c : ReadCall}
    (hc : c.pc.InProgress → (s.reads r).pc.InProgress ∧ c.file = (s.reads r).file) :
    Files (s.setRead r c) := by
  refine ⟨h.nodup, h.count, fun r' hr' => ?_, h.write⟩
  simp only [State.setRead, Function.update_apply] at hr' ⊢
  split_ifs at hr' ⊢ with hrr
  · subst hrr
    obtain ⟨hp, hf⟩ := hc hr'
    rw [hf]
    exact h.read r' hp
  · exact h.read r' hr'

/-- A read call in progress may move anywhere. -/
theorem setReadPc (h : Files s) {r : ReadId} {pc : ReadPc} (hr : (s.reads r).pc.InProgress) :
    Files (s.setReadPc r pc) :=
  h.setRead fun _ => ⟨hr, rfl⟩

/-- A write call may move as long as it stays on its file and does not come back. -/
theorem setWrite (h : Files s) {w : WriteId} {c : WriteCall}
    (hc : c.pc.InProgress → (s.writes w).pc.InProgress ∧ c.file = (s.writes w).file) :
    Files (s.setWrite w c) := by
  refine ⟨h.nodup, h.count, h.read, fun w' hw' => ?_⟩
  simp only [State.setWrite, Function.update_apply] at hw' ⊢
  split_ifs at hw' ⊢ with hww
  · subst hww
    obtain ⟨hp, hf⟩ := hc hw'
    rw [hf]
    exact h.write w' hp
  · exact h.write w' hw'

/-- A write call in progress may move anywhere. -/
theorem setWritePc (h : Files s) {w : WriteId} {pc : WritePc} (hw : (s.writes w).pc.InProgress) :
    Files (s.setWritePc w pc) :=
  h.setWrite fun _ => ⟨hw, rfl⟩

theorem woke (h : Files s) (hw : Woke s s') : Files s' := by
  cases hw with
  | nobody => exact h
  | one r _ hr => exact h.setReadPc (by rw [hr]; trivial)

/-- The loop of `uvfsd_read` keeps the call on its file. -/
theorem readLoop (h : Files s) {r : ReadId} (hr : (s.reads r).pc.InProgress)
    (hl : ReadLoop s r s') : Files s' := by
  cases hl with
  | shutdown => exact h.setReadPc hr
  | sleep => exact ⟨h.nodup, h.count, (h.setReadPc hr).read, h.write⟩
  | take t rest s₁ _ _ hw =>
      have h₁ : Files s₁ :=
        Files.woke (s := s.handOut t rest) ⟨h.nodup, h.count, h.read, h.write⟩ hw
      obtain ⟨reads, rfl, hreads⟩ := hw.exists_reads
      refine (h₁.setTrans t _).setRead fun _ => ⟨?_, rfl⟩
      rcases hreads r with hsame | ⟨_, hwoken⟩
      · simp only [State.setTrans, hsame]
        exact hr
      · simp only [State.setTrans, hwoken]
        trivial

/-- A file that is not busy carries no call in progress. -/
theorem read_of_not_busy (h : Files s) {f : FileId} (hb : ¬ s.Busy f) {r : ReadId}
    (hr : (s.reads r).pc.InProgress) : (s.reads r).file ∈ s.opened.erase f := by
  obtain ⟨hlt, hf⟩ := h.read r hr
  exact (List.mem_erase_of_ne fun he => hb (.inl ⟨r, hlt, he, hr⟩)).mpr hf

/-- A file that is not busy carries no call in progress. -/
theorem write_of_not_busy (h : Files s) {f : FileId} (hb : ¬ s.Busy f) {w : WriteId}
    (hw : (s.writes w).pc.InProgress) : (s.writes w).file ∈ s.opened.erase f := by
  obtain ⟨hlt, hf⟩ := h.write w hw
  exact (List.mem_erase_of_ne fun he => hb (.inr ⟨w, hlt, he, hw⟩)).mpr hf

/-- Closing a file that is not busy. -/
theorem close (h : Files s) {f : FileId} (hf : f ∈ s.opened) (hb : ¬ s.Busy f) :
    Files { s with opened := s.opened.erase f, uvfsUseCount := s.uvfsUseCount - 1 } where
  nodup := h.nodup.erase f
  count := by
    have hpos : 0 < s.opened.length := List.length_pos_of_mem hf
    simp only [List.length_erase_of_mem hf, h.count]
    omega
  read r hr := ⟨(h.read r hr).1, h.read_of_not_busy hb hr⟩
  write w hw := ⟨(h.write w hw).1, h.write_of_not_busy hb hw⟩

end Files

/-- Every step keeps the count and the files of the calls. -/
theorem Files.step (h : Files s) (he : Effect s a s') : Files s' := by
  cases he with
  | uvfsdOpen f hf =>
      refine ⟨List.nodup_cons.mpr ⟨hf, h.nodup⟩, ?_, fun r hr => ?_, fun w hw => ?_⟩
      · simp only [List.length_cons, h.count]
        omega
      · exact ⟨(h.read r hr).1, List.mem_cons_of_mem _ (h.read r hr).2⟩
      · exact ⟨(h.write w hw).1, List.mem_cons_of_mem _ (h.write w hw).2⟩
  | release f hf hb _ => exact h.close hf hb
  | releaseLast f hf hb _ =>
      have h' := h.close hf hb
      exact ⟨h'.nodup, h'.count, h'.read, h'.write⟩
  | enqueued t pick s' _ _ hw =>
      exact Files.woke (s := s.enqueue t) ⟨h.nodup, h.count, h.read, h.write⟩ hw
  | readEnter f count hf =>
      refine ⟨h.nodup, h.count, fun r hr => ?_, h.write⟩
      by_cases hrr : r = s.nReads
      · subst hrr
        simpa using hf
      · simp only [Function.update_of_ne hrr] at hr ⊢
        exact ⟨Nat.lt_succ_of_lt (h.read r hr).1, (h.read r hr).2⟩
  | readSignal r hr => exact h.setRead fun _ => ⟨hr, rfl⟩
  | readSchedule r hr _ => exact h.setReadPc (by rw [hr]; trivial)
  | readLockFirst r pick s' hr hl => exact h.readLoop (by rw [hr]; trivial) hl
  | readLockAgain r pick s' hr _ hl =>
      refine Files.readLoop (s := { s with uvfsDriverQueue := s.uvfsDriverQueue.erase r })
        ⟨h.nodup, h.count, h.read, h.write⟩ ?_ hl
      rcases hr with hr | hr <;> simp only [hr] <;> trivial
  | readLockSignal r pick hr _ =>
      refine Files.setReadPc (s := { s with uvfsDriverQueue := s.uvfsDriverQueue.erase r })
        ⟨h.nodup, h.count, h.read, h.write⟩ ?_
      rcases hr with hr | hr <;> simp only [hr] <;> trivial
  | readCopyShutdown r fault hr => exact h.setReadPc (by rw [hr]; trivial)
  | readPassOn r pick fault s₁ hr hw =>
      exact (h.woke hw).setRead fun hp => absurd hp (by simp [ReadPc.InProgress])
  | readCopy r fault t hr => exact h.setRead fun _ => ⟨by rw [hr]; trivial, rfl⟩
  | readDone r t fault hr m _ =>
      have hp : (s.reads r).pc.InProgress := by rw [hr]; trivial
      exact Files.setReadPc (s := s.clearInUse m) ⟨h.nodup, h.count, h.read, h.write⟩ hp
  | readReturn r t fault hr => exact h.setReadPc (by rw [hr]; trivial)
  | writeEnter f count header answers hf _ =>
      refine ⟨h.nodup, h.count, h.read, fun w hw => ?_⟩
      by_cases hww : w = s.nWrites
      · subst hww
        simpa [checkHeader_file] using hf
      · simp only [Function.update_of_ne hww] at hw ⊢
        exact ⟨Nat.lt_succ_of_lt (h.write w hw).1, (h.write w hw).2⟩
  | writeMiss w hw _ => exact h.setWritePc (by rw [hw]; trivial)
  | writeClaim w t hw _ =>
      exact Files.setWrite (s := (s.listDelInit t).setTrans t _)
        ⟨h.nodup, h.count, h.read, h.write⟩
        fun _ => ⟨by simp only [State.setTrans, listDelInit, hw]; trivial, rfl⟩
  | writeCopy w data fault t hw m _ =>
      have hp : (s.writes w).pc.InProgress := by rw [hw]; trivial
      exact (h.setTrans m _).setWritePc hp
  | writeDone w t fault hw m _ =>
      have hp : (s.writes w).pc.InProgress := by rw [hw]; trivial
      exact Files.setWritePc (s := s.answer m) ⟨h.nodup, h.count, h.read, h.write⟩ hp
  | ioctlShutdown f cmd mounted pick s' _ hw =>
      exact Files.woke (s := { s with shuttingDown := true })
        ⟨h.nodup, h.count, h.read, h.write⟩ hw
  | _ => exact ⟨h.nodup, h.count, h.read, h.write⟩

/-- In every reachable state the use count counts the open files. -/
theorem Reachable.files (h : Reachable G s) : Files s :=
  Reach.invariant Files.init (fun _ _ _ hf _ hs => hf.step (step_effect hs)) h

end Uvfs.Driver
