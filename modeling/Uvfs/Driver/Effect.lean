import Uvfs.Driver.Step

/-!
# What a step can do

`step` is written the way the code is.  `Effect s a s'` says the same as a relation, one constructor
for each way through a function, with the tests that lead there as hypotheses and the state after it
in closed form.  Every invariant below is proved by cases on it (`step_effect`), so that the
functions themselves are taken apart here and nowhere else.

* `Woke s s'` : what `wake_up_interruptible` can do.
* `ReadLoop s r s'` : the three ways on from the head of the loop in `uvfsd_read`.
* `Effect s a s'`, `step_effect`.
* `Steady s s'` : nothing is numbered and no write moves, which is so for most steps
  (`Effect.steady`).
-/

namespace Uvfs.Driver

open State

/-- What `wake_up_interruptible` can do: nothing, when no waiter is asleep, or make one of them
runnable. -/
inductive Woke (s : State) : State → Prop
  | nobody : (∀ r ∈ s.uvfsDriverQueue, (s.reads r).pc ≠ .asleep) → Woke s s
  | one (r : ReadId) : r ∈ s.uvfsDriverQueue → (s.reads r).pc = .asleep →
      Woke s (s.setReadPc r .woken)

/-- The ways on from the head of the loop in `uvfsd_read`. -/
inductive ReadLoop (s : State) (r : ReadId) : State → Prop
  | shutdown : s.shuttingDown = true → ReadLoop s r (s.setReadPc r .shutdown)
  | sleep : s.shuttingDown = false → s.uvfsRequests = [] →
      ReadLoop s r { s.setReadPc r .asleep with uvfsDriverQueue := s.uvfsDriverQueue ++ [r] }
  | take (t : TransId) (rest : List TransId) (s' : State) : s.shuttingDown = false →
      s.uvfsRequests = t :: rest → Woke (s.handOut t rest) s' → ReadLoop s r (s'.beginReadCopy r t)

/-- What a step can do. -/
inductive Effect (s : State) : Act → State → Prop
  | uvfsdOpen (f : FileId) : f ∉ s.opened →
      Effect s (.uvfsdOpen f)
        { s with opened := f :: s.opened, uvfsUseCount := s.uvfsUseCount + 1 }
  | release (f : FileId) : f ∈ s.opened → ¬ s.Busy f → s.uvfsUseCount - 1 ≠ 0 →
      Effect s (.uvfsdRelease f)
        { s with opened := s.opened.erase f, uvfsUseCount := s.uvfsUseCount - 1 }
  | releaseLast (f : FileId) : f ∈ s.opened → ¬ s.Busy f → s.uvfsUseCount - 1 = 0 →
      Effect s (.uvfsdRelease f)
        { s with opened := s.opened.erase f, uvfsUseCount := s.uvfsUseCount - 1 }.drain
  | newTransaction (junk : Transaction) (old : Option TransId) : (∀ t ∈ old, s.Reusable t) →
      Effect s (.newTransaction junk old) (s.addTransaction junk old)
  | buildRequest (t : TransId) (req : Mem) : (s.clients t).pc = .created →
      IsRequest req (s.trans t).serial →
      Effect s (.buildRequest t req) ((s.setTrans t { s.trans t with u := req }).setClient t
        { s.clients t with pc := .built, request := req })
  | refused (t : TransId) (pick : Option ReadId) : (s.clients t).pc = .built →
      s.uvfsUseCount = 0 → Effect s (.makeRequest t pick)
        ((s.setTrans t ((s.trans t).setError eio)).setClientPc t .leaving)
  | enqueued (t : TransId) (pick : Option ReadId) (s' : State) : (s.clients t).pc = .built →
      s.uvfsUseCount ≠ 0 → Woke (s.enqueue t) s' → Effect s (.makeRequest t pick) s'
  | kill (t : TransId) : (s.clients t).pc ≠ .freed →
      Effect s (.kill t) ((s.wakeUpIf ((s.clients t).pc = .waiting) t).setClient t
        { s.clients t with signalPending := true })
  | waitSleep (t : TransId) : s.asleep t = false → s.MustWait t →
      Effect s (.waitSleep t) (s.sleep t)
  | waitAnswered (t : TransId) : (s.clients t).pc = .waiting → (s.trans t).answered ≠ 0 →
      s.asleep t = false → Effect s (.waitAnswered t) (s.setClientPc t .checking)
  | waitSignal (t : TransId) : (s.clients t).pc = .waiting → (s.clients t).signalPending = true →
      s.asleep t = false → Effect s (.waitSignal t) (s.setClientPc t .checking)
  | checkAbort (t : TransId) : (s.clients t).pc = .checking → (s.clients t).signalPending = true →
      (s.trans t).inUse ≠ 0 → Effect s (.checkSignal t)
        ((s.setTrans t { s.trans t with abort := 1 }).setClientPc t .aborting)
  | checkUnlink (t : TransId) : (s.clients t).pc = .checking →
      (s.clients t).signalPending = true → (s.trans t).inUse = 0 →
      Effect s (.checkSignal t) (s.unlinkAborted t)
  | checkLeave (t : TransId) : (s.clients t).pc = .checking →
      (s.clients t).signalPending = false →
      Effect s (.checkSignal t) (s.setClientPc t .leaving)
  | waitUnused (t : TransId) : (s.clients t).pc = .aborting → (s.trans t).inUse = 0 →
      s.asleep t = false → Effect s (.waitUnused t) (s.setClientPc t .aborted)
  | withdraw (t : TransId) : (s.clients t).pc = .aborted →
      Effect s (.withdraw t) (s.unlinkAborted t)
  | leave (t : TransId) : (s.clients t).pc = .leaving →
      Effect s (.leave t) (s.setClientPc t .returned)
  | kfree (t : TransId) : (s.clients t).pc = .returned →
      Effect s (.kfree t) (s.setClientPc t .freed)
  | reuse (t : TransId) (junk : Transaction) : s.Reusable t →
      Effect s (.reuse t junk) (s.setTrans t junk)
  | readEnter (f : FileId) (count : ℕ) : f ∈ s.opened →
      Effect s (.readEnter f count) { s with
        nReads := s.nReads + 1
        reads := Function.update s.reads s.nReads
          ⟨f, if count < sizeofUvfsRequestU then .returned eio else .entered, false, none,
            fun _ => 0, 0, s.session, 0⟩ }
  | readSignal (r : ReadId) : (s.reads r).pc.InProgress →
      Effect s (.readSignal r) (s.setRead r { s.reads r with
        signalPending := true
        pc := if (s.reads r).pc = .asleep then .roused else (s.reads r).pc })
  | readSchedule (r : ReadId) : (s.reads r).pc = .asleep → (s.reads r).signalPending = true →
      Effect s (.readSchedule r) (s.setReadPc r .roused)
  | readLockFirst (r : ReadId) (pick : Option ReadId) (s' : State) : (s.reads r).pc = .entered →
      ReadLoop s r s' → Effect s (.readLock r pick) s'
  | readLockAgain (r : ReadId) (pick : Option ReadId) (s' : State) :
      (s.reads r).pc = .woken ∨ (s.reads r).pc = .roused → (s.reads r).signalPending = false →
      ReadLoop { s with uvfsDriverQueue := s.uvfsDriverQueue.erase r } r s' →
      Effect s (.readLock r pick) s'
  | readLockSignal (r : ReadId) (pick : Option ReadId) :
      (s.reads r).pc = .woken ∨ (s.reads r).pc = .roused → (s.reads r).signalPending = true →
      Effect s (.readLock r pick)
        ({ s with uvfsDriverQueue := s.uvfsDriverQueue.erase r }.setReadPc r
          (.returned erestartsys))
  | readCopyShutdown (r : ReadId) (fault : Bool) : (s.reads r).pc = .shutdown →
      Effect s (.readCopyShutdown r fault) (s.setReadPc r (.shutdownCopied fault))
  | readPassOn (r : ReadId) (pick : Option ReadId) (fault : Bool) (s' : State) :
      (s.reads r).pc = .shutdownCopied fault → Woke s s' →
      Effect s (.readPassOn r pick)
        (s'.setReadPc r (.returned (if fault then eio else (requestLayout .shutdown).sum)))
  | readCopy (r : ReadId) (fault : Option ℕ) (t : TransId) (hr : (s.reads r).pc = .copying t)
      (m : TransId) : s.owner t = m →
      Effect s (.readCopy r fault) (s.endReadCopy r t (s.trans m) fault)
  | readDone (r : ReadId) (t : TransId) (fault : Bool) (hr : (s.reads r).pc = .copied t fault)
      (m : TransId) : s.owner t = m →
      Effect s (.readDone r) ((s.clearInUse m).setReadPc r (.finished t fault))
  | readReturn (r : ReadId) (t : TransId) (fault : Bool) (hr : (s.reads r).pc = .finished t fault)
      (m : TransId) : s.owner t = m → Effect s (.readReturn r)
        (s.setReadPc r (.returned (if fault then eio else (s.trans m).requestSize)))
  | writeEnter (f : FileId) (count : ℕ) (header : Option Header) (answers : Option ReadId) :
      f ∈ s.opened → count < 2 ^ 31 →
      Effect s (.writeEnter f count header answers) { s with
        nWrites := s.nWrites + 1
        writes := Function.update s.writes s.nWrites (checkHeader f count answers header) }
  | writeMiss (w : WriteId) : (s.writes w).pc = .lookup →
      s.findReply (s.writes w).serial = none →
      Effect s (.writeLookup w) (s.setWritePc w (.returned einval))
  | writeClaim (w : WriteId) (t : TransId) : (s.writes w).pc = .lookup →
      s.findReply (s.writes w).serial = some t →
      Effect s (.writeLookup w) (s.beginWriteCopy w t)
  | writeCopy (w : WriteId) (data : Mem) (fault : Option ℕ) (t : TransId)
      (hw : (s.writes w).pc = .copying t) (m : TransId) : s.owner t = m →
      Effect s (.writeCopy w data fault)
        ((s.setTrans m ((s.trans m).copyFromUser (s.writes w).size.toNat
          (userBytes data fault))).setWritePc w (.copied t fault.isSome))
  | writeDone (w : WriteId) (t : TransId) (fault : Bool) (hw : (s.writes w).pc = .copied t fault)
      (m : TransId) : s.owner t = m → Effect s (.writeDone w) ((s.answer m).setWritePc w
        (.returned (if fault then eio else (s.writes w).size.toInt)))
  | ioctlShutdown (f : FileId) (cmd : ℕ) (mounted : Bool) (pick : Option ReadId) (s' : State) :
      f ∈ s.opened → Woke { s with shuttingDown := true } s' →
      Effect s (.ioctl f cmd mounted pick) s'
  | ioctlOther (f : FileId) (cmd : ℕ) (mounted : Bool) (pick : Option ReadId) :
      f ∈ s.opened → Effect s (.ioctl f cmd mounted pick) s

/-- Memory that no transaction has had can always be got. -/
theorem step_newTransaction_none (s : State) (junk : Transaction) :
    step s (.newTransaction junk none) = some (s.addTransaction junk none) := by
  rw [step, uvfsNewTransaction, if_pos]
  exact fun t ht => absurd ht (Option.not_mem_none t)

/-- `wake_up_interruptible` does one of the two things. -/
theorem wakeUpInterruptible_woke {s s' : State} {pick : Option ReadId}
    (h : s.wakeUpInterruptible pick = some s') : Woke s s' := by
  cases pick with
  | none =>
      simp only [wakeUpInterruptible] at h
      split at h
      · cases h
        exact .nobody (by assumption)
      · cases h
  | some r =>
      simp only [wakeUpInterruptible] at h
      split at h
      · rename_i hr
        cases h
        exact .one r hr.1 hr.2
      · cases h

/-- The header check leaves the call on its file. -/
@[simp] theorem checkHeader_file (f : FileId) (count : ℕ) (answers : Option ReadId)
    (header : Option Header) : (checkHeader f count answers header).file = f := by
  cases header with
  | none => rfl
  | some h =>
      simp only [checkHeader]
      split_ifs <;> rfl

/-- A call that has just checked its header uses no transaction. -/
theorem checkHeader_not_uses (f : FileId) (count : ℕ) (answers : Option ReadId)
    (header : Option Header) (t : TransId) :
    ¬ (checkHeader f count answers header).pc.Uses t := by
  cases header with
  | none => exact id
  | some h =>
      simp only [checkHeader]
      split_ifs <;> exact id

/-- A wake-up changes nothing but the reads, and there only a sleeper into a woken reader. -/
theorem Woke.exists_reads {s s' : State} (hw : Woke s s') :
    ∃ reads, s' = { s with reads := reads } ∧ ∀ r, reads r = s.reads r ∨
      (s.reads r).pc = .asleep ∧ reads r = { s.reads r with pc := .woken } := by
  cases hw with
  | nobody => exact ⟨s.reads, rfl, fun _ => .inl rfl⟩
  | one r₀ _ hr₀ =>
      refine ⟨_, rfl, fun r => ?_⟩
      by_cases hr : r = r₀
      · subst hr
        exact .inr ⟨hr₀, by simp⟩
      · exact .inl (by simp [hr])

/-- A wake-up leaves alone a read that is not asleep. -/
theorem Woke.reads_of_ne {s s' : State} (hw : Woke s s') {r : ReadId}
    (hr : (s.reads r).pc ≠ .asleep) : s'.reads r = s.reads r := by
  obtain ⟨reads, rfl, hreads⟩ := hw.exists_reads
  exact (hreads r).resolve_right fun h => hr h.1

/-- The loop of `uvfsd_read` goes on in one of the three ways. -/
theorem uvfsdReadLoop_cases {s s' : State} {r : ReadId} {pick : Option ReadId}
    (h : s.uvfsdReadLoop r pick = some s') : ReadLoop s r s' := by
  unfold uvfsdReadLoop at h
  split at h
  · rename_i hsd
    cases h
    exact .shutdown hsd
  · rename_i hsd
    split at h
    · rename_i hr
      cases h
      exact .sleep (by simpa using hsd) hr
    · rename_i t rest hr
      obtain ⟨s₁, hw, rfl⟩ := Option.map_eq_some_iff.mp h
      exact .take t rest s₁ (by simpa using hsd) hr (wakeUpInterruptible_woke hw)

/-- **Every step is one of the effects.** -/
theorem step_effect {s s' : State} {a : Act} (h : step s a = some s') : Effect s a s' := by
  cases a with
  | uvfsdOpen f =>
      simp only [step, State.uvfsdOpen] at h
      split at h
      · cases h
      · cases h
        exact .uvfsdOpen f (by assumption)
  | uvfsdRelease f =>
      simp only [step, State.uvfsdRelease] at h
      split at h
      · rename_i hf
        split at h <;> cases h
        · exact .releaseLast f hf.1 hf.2 (by assumption)
        · exact .release f hf.1 hf.2 (by assumption)
      · cases h
  | newTransaction junk old =>
      simp only [step, uvfsNewTransaction] at h
      split at h
      · rename_i hold
        cases h
        exact .newTransaction junk old hold
      · cases h
  | buildRequest t req =>
      simp only [step, State.buildRequest] at h
      split at h
      · rename_i hb
        cases h
        exact .buildRequest t req hb.1 hb.2
      · cases h
  | makeRequest t pick =>
      simp only [step, uvfsMakeRequest] at h
      split at h
      · rename_i hb
        split at h
        · rename_i hc
          cases h
          exact .refused t pick hb hc
        · rename_i hc
          exact .enqueued t pick s' hb hc (wakeUpInterruptible_woke h)
      · cases h
  | kill t =>
      simp only [step, State.kill] at h
      split at h
      · rename_i hc
        cases h
        exact .kill t hc
      · cases h
  | waitSleep t =>
      simp only [step, State.waitSleep] at h
      split at h
      · rename_i hc
        cases h
        exact .waitSleep t hc.1 hc.2
      · cases h
  | waitAnswered t =>
      simp only [step, State.waitAnswered] at h
      split at h
      · rename_i hc
        cases h
        exact .waitAnswered t hc.1 hc.2.2 hc.2.1
      · cases h
  | waitSignal t =>
      simp only [step, State.waitSignal] at h
      split at h
      · rename_i hc
        cases h
        exact .waitSignal t hc.1 hc.2.2 hc.2.1
      · cases h
  | checkSignal t =>
      simp only [step, State.checkSignal] at h
      split at h
      · rename_i hc
        split at h
        · rename_i hs
          split at h <;> cases h
          · exact .checkAbort t hc hs (by assumption)
          · rename_i hu
            exact .checkUnlink t hc hs (by simpa using hu)
        · rename_i hs
          cases h
          exact .checkLeave t hc (by simpa using hs)
      · cases h
  | waitUnused t =>
      simp only [step, State.waitUnused] at h
      split at h
      · rename_i hc
        cases h
        exact .waitUnused t hc.1 hc.2.2 hc.2.1
      · cases h
  | withdraw t =>
      simp only [step, State.withdraw] at h
      split at h
      · rename_i hc
        cases h
        exact .withdraw t hc
      · cases h
  | leave t =>
      simp only [step, State.leave] at h
      split at h
      · rename_i hc
        cases h
        exact .leave t hc
      · cases h
  | kfree t =>
      simp only [step, State.kfree] at h
      split at h
      · rename_i hc
        cases h
        exact .kfree t hc
      · cases h
  | reuse t junk =>
      simp only [step, State.reuse] at h
      split at h
      · rename_i hc
        cases h
        exact .reuse t junk hc
      · cases h
  | readEnter f count =>
      simp only [step, uvfsdReadEnter] at h
      split at h
      · rename_i hf
        cases h
        exact .readEnter f count hf
      · cases h
  | readSignal r =>
      simp only [step, State.readSignal] at h
      split at h
      · rename_i hp
        cases h
        exact .readSignal r hp
      · cases h
  | readSchedule r =>
      simp only [step, State.readSchedule] at h
      split at h
      · rename_i hp
        cases h
        exact .readSchedule r hp.1 hp.2
      · cases h
  | readLock r pick =>
      simp only [step, uvfsdReadLock] at h
      split at h
      · exact .readLockFirst r pick s' (by assumption) (uvfsdReadLoop_cases h)
      · rename_i hp
        split at h
        · cases h
          exact .readLockSignal r pick (.inl hp) (by assumption)
        · rename_i hs
          exact .readLockAgain r pick s' (.inl hp) (by simpa using hs) (uvfsdReadLoop_cases h)
      · rename_i hp
        split at h
        · cases h
          exact .readLockSignal r pick (.inr hp) (by assumption)
        · rename_i hs
          exact .readLockAgain r pick s' (.inr hp) (by simpa using hs) (uvfsdReadLoop_cases h)
      · cases h
  | readCopyShutdown r fault =>
      simp only [step, State.readCopyShutdown] at h
      split at h
      · rename_i hp
        cases h
        exact .readCopyShutdown r fault hp
      · cases h
  | readPassOn r pick =>
      simp only [step, State.readPassOn] at h
      split at h
      · rename_i fault hp
        obtain ⟨s₁, hw, rfl⟩ := Option.map_eq_some_iff.mp h
        exact .readPassOn r pick fault s₁ hp (wakeUpInterruptible_woke hw)
      · cases h
  | readCopy r fault =>
      simp only [step, uvfsdReadCopy] at h
      split at h
      · rename_i t hp
        cases h
        exact .readCopy r fault t hp _ rfl
      · cases h
  | readDone r =>
      simp only [step, uvfsdReadDone] at h
      split at h
      · rename_i t fault hp
        cases h
        exact .readDone r t fault hp _ rfl
      · cases h
  | readReturn r =>
      simp only [step, uvfsdReadReturn] at h
      split at h
      · rename_i t fault hp
        cases h
        exact .readReturn r t fault hp _ rfl
      · cases h
  | writeEnter f count header answers =>
      simp only [step, uvfsdWriteEnter] at h
      split at h
      · rename_i hf
        cases h
        exact .writeEnter f count header answers hf.1 hf.2
      · cases h
  | writeLookup w =>
      simp only [step, uvfsdWriteLookup] at h
      split at h
      · rename_i hp
        split at h <;> cases h
        · exact .writeMiss w hp (by assumption)
        · exact .writeClaim w _ hp (by assumption)
      · cases h
  | writeCopy w data fault =>
      simp only [step, uvfsdWriteCopy] at h
      split at h
      · rename_i t hp
        cases h
        exact .writeCopy w data fault t hp _ rfl
      · cases h
  | writeDone w =>
      simp only [step, uvfsdWriteDone] at h
      split at h
      · rename_i t fault hp
        cases h
        exact .writeDone w t fault hp _ rfl
      · cases h
  | ioctl f cmd mounted pick =>
      simp only [step, uvfsdIoctl] at h
      split at h
      · rename_i hf
        split at h
        · obtain ⟨p, hp, rfl⟩ := Option.map_eq_some_iff.mp h
          obtain ⟨s₁, hw, rfl⟩ := Option.map_eq_some_iff.mp hp
          exact .ioctlShutdown f cmd mounted pick s₁ hf (wakeUpInterruptible_woke hw)
        · split_ifs at h <;> cases h <;> exact .ioctlOther f cmd mounted pick hf
      · cases h

/-! ## Steps that keep the books

Most steps neither number anything nor move a write. -/

/-- Nothing is numbered and no write moves between the two states. -/
structure Steady (s s' : State) : Prop where
  nTrans : s'.nTrans = s.nTrans
  serialNumber : s'.serialNumber = s.serialNumber
  session : s'.session = s.session
  sessionBase : s'.sessionBase = s.sessionBase
  nReads : s'.nReads = s.nReads
  nWrites : s'.nWrites = s.nWrites
  writes : s'.writes = s.writes

theorem Woke.steady {s s₁ s' : State} (hw : Woke s₁ s') (h : Steady s s₁) : Steady s s' := by
  obtain ⟨reads, rfl, _⟩ := hw.exists_reads
  exact ⟨h.nTrans, h.serialNumber, h.session, h.sessionBase, h.nReads, h.nWrites, h.writes⟩

theorem ReadLoop.steady {s s₁ s' : State} {r : ReadId} (hl : ReadLoop s₁ r s') (h : Steady s s₁) :
    Steady s s' := by
  cases hl with
  | shutdown =>
      exact ⟨h.nTrans, h.serialNumber, h.session, h.sessionBase, h.nReads, h.nWrites, h.writes⟩
  | sleep =>
      exact ⟨h.nTrans, h.serialNumber, h.session, h.sessionBase, h.nReads, h.nWrites, h.writes⟩
  | take t rest s₂ _ _ hw =>
      have h₂ : Steady s s₂ := hw.steady
        ⟨h.nTrans, h.serialNumber, h.session, h.sessionBase, h.nReads, h.nWrites, h.writes⟩
      exact ⟨h₂.nTrans, h₂.serialNumber, h₂.session, h₂.sessionBase, h₂.nReads, h₂.nWrites,
        h₂.writes⟩

/-- The step creates no transaction, starts no call, does nothing for a write and releases nothing.
-/
def Act.Steady : Act → Prop
  | .uvfsdRelease _ | .newTransaction _ _ | .readEnter _ _ | .writeEnter _ _ _ _ | .writeLookup _
  | .writeCopy _ _ _ | .writeDone _ => False
  | _ => True

/-- Such a step keeps the books. -/
theorem Effect.steady {s s' : State} {a : Act} (he : Effect s a s') (ha : a.Steady) :
    Steady s s' := by
  cases he with
  | enqueued t pick s' _ _ hw => exact hw.steady ⟨rfl, rfl, rfl, rfl, rfl, rfl, rfl⟩
  | readLockFirst r pick s' _ hl => exact hl.steady ⟨rfl, rfl, rfl, rfl, rfl, rfl, rfl⟩
  | readLockAgain r pick s' _ _ hl => exact hl.steady ⟨rfl, rfl, rfl, rfl, rfl, rfl, rfl⟩
  | readPassOn r pick fault s₁ _ hw =>
      have h₁ : Driver.Steady s s₁ := hw.steady ⟨rfl, rfl, rfl, rfl, rfl, rfl, rfl⟩
      exact ⟨h₁.nTrans, h₁.serialNumber, h₁.session, h₁.sessionBase, h₁.nReads, h₁.nWrites,
        h₁.writes⟩
  | ioctlShutdown f cmd mounted pick s' _ hw =>
      exact hw.steady ⟨rfl, rfl, rfl, rfl, rfl, rfl, rfl⟩
  | release | releaseLast | newTransaction | readEnter | writeEnter | writeMiss | writeClaim
  | writeCopy | writeDone => exact ha.elim
  | _ => exact ⟨rfl, rfl, rfl, rfl, rfl, rfl, rfl⟩

/-- Nothing that is numbered loses its number. -/
theorem Effect.counters_le {s s' : State} {a : Act} (he : Effect s a s') :
    s.nTrans ≤ s'.nTrans ∧ s.nReads ≤ s'.nReads ∧ s.nWrites ≤ s'.nWrites := by
  by_cases ha : a.Steady
  · have h := he.steady ha
    exact ⟨h.nTrans.ge, h.nReads.ge, h.nWrites.ge⟩
  · cases he with
    | newTransaction => exact ⟨Nat.le_succ _, le_refl _, le_refl _⟩
    | readEnter => exact ⟨le_refl _, Nat.le_succ _, le_refl _⟩
    | writeEnter => exact ⟨le_refl _, le_refl _, Nat.le_succ _⟩
    | release | releaseLast | writeMiss | writeClaim | writeCopy | writeDone =>
        exact ⟨le_refl _, le_refl _, le_refl _⟩
    | _ => exact absurd trivial ha

end Uvfs.Driver
