import Uvfs.Driver.Files

/-!
# Wake-ups of the readers

Readers wait exclusively, so a wake-up makes one of them runnable, and whoever takes a request or
the shutdown message wakes the next.  A reader that was picked and has a signal pending leaves with
`-ERESTARTSYS` instead, and wakes nobody.

* `wakeup_lost_to_signal` : a request waits, a reader sleeps, and nobody is awake.
* `SignalExitsTended` : a reader that was picked leaves by the signal only when another one is still
  on the way, or nothing waits, or nobody sleeps.
* `Queued` : a sleeping reader is in `Uvfs_driver_queue`, so that a wake-up finds it.
* `Tended` : when something waits and a reader sleeps, one is on its way to take it or to pass the
  wake-up on; `Tended.step`.
* `no_wakeup_lost` : the run.
-/

namespace Uvfs.Driver

open State Transition

variable {s s' : State} {a : Act} {r : ReadId} {G : State → Act → Prop}

/-- A request waits or the shutdown message is to be delivered. -/
def State.Pending (s : State) : Prop := s.uvfsRequests ≠ [] ∨ s.shuttingDown = true

instance (s : State) : Decidable s.Pending := inferInstanceAs (Decidable (_ ∨ _))

/-- The reader is awake inside `uvfsd_read` and not past its last wake-up. -/
def ReadPc.Awake : ReadPc → Prop
  | .entered | .woken | .roused | .shutdown | .shutdownCopied _ => True
  | _ => False

instance : (pc : ReadPc) → Decidable pc.Awake
  | .entered | .woken | .roused | .shutdown | .shutdownCopied _ => isTrue trivial
  | .asleep | .copying _ | .copied _ _ | .finished _ _ | .returned _ => isFalse id

/-- The reader is awake for another reason than a signal: it is on its way to look at the queue or
to pass the wake-up on. -/
def ReadPc.OnTheWay : ReadPc → Prop
  | .entered | .woken | .shutdown | .shutdownCopied _ => True
  | _ => False

instance : (pc : ReadPc) → Decidable pc.OnTheWay
  | .entered | .woken | .shutdown | .shutdownCopied _ => isTrue trivial
  | .roused | .asleep | .copying _ | .copied _ _ | .finished _ _ | .returned _ => isFalse id

theorem ReadPc.OnTheWay.awake {pc : ReadPc} (h : pc.OnTheWay) : pc.Awake := by
  cases pc with
  | entered | woken | shutdown | shutdownCopied fault => trivial
  | _ => exact h.elim

theorem ReadPc.Awake.inProgress {pc : ReadPc} (h : pc.Awake) : pc.InProgress := by
  cases pc with
  | returned v => exact h.elim
  | _ => trivial

/-! ## A wake-up is lost -/

/-- Two readers sleep, a request wakes the first, a signal reaches it before it has the lock, and it
returns.  The request waits, the second reader sleeps, and no reader is awake. -/
theorem wakeup_lost_to_signal :
    ∃ s, Reachable anyStep s ∧ s.uvfsRequests = [0] ∧ (s.reads 1).pc = .asleep ∧
      ∀ r, ¬ (s.reads r).pc.Awake := by
  obtain ⟨s, hs, hp⟩ := Reach.of_check step anyStep State.init
    [.uvfsdOpen 0, .readEnter 0 sizeofUvfsRequestU, .readEnter 0 sizeofUvfsRequestU,
      .readLock 0 none, .readLock 1 none, .newTransaction .zeroed none,
      .buildRequest 0 (getattrRequest 0), .makeRequest 0 (some 0), .readSignal 0,
      .readLock 0 none]
    (fun s => s.uvfsRequests = [0] ∧ (s.reads 1).pc = .asleep ∧
      ∀ r < s.nReads, ¬ (s.reads r).pc.Awake) (by decide +kernel)
  obtain ⟨hreq, hasleep, hawake⟩ := hp
  exact ⟨s, hs, hreq, hasleep, fun r hr =>
    hawake r ((Reachable.files hs).read r hr.inProgress).1 hr⟩

/-! ## The wait queue -/

/-- A sleeping reader is in `Uvfs_driver_queue`. -/
def Queued (s : State) : Prop := ∀ r, (s.reads r).pc = .asleep → r ∈ s.uvfsDriverQueue

namespace Queued

theorem setRead (h : Queued s) {c : ReadCall} (hc : c.pc ≠ .asleep) : Queued (s.setRead r c) := by
  intro r' hr'
  by_cases hr : r' = r
  · subst hr
    simp only [State.setRead, Function.update_self] at hr'
    exact absurd hr' hc
  · simp only [State.setRead, Function.update_of_ne hr] at hr'
    exact h r' hr'

theorem woke (h : Queued s) (hw : Woke s s') : Queued s' := by
  cases hw with
  | nobody => exact h
  | one r _ _ => exact h.setRead (by simp)

/-- A reader that is not asleep leaves the wait queue. -/
theorem erase (h : Queued s) (hr : (s.reads r).pc ≠ .asleep) :
    Queued { s with uvfsDriverQueue := s.uvfsDriverQueue.erase r } := by
  intro r' hr'
  refine (List.mem_erase_of_ne ?_).mpr (h r' hr')
  rintro rfl
  exact hr hr'

theorem readLoop (h : Queued s) (hl : ReadLoop s r s') : Queued s' := by
  cases hl with
  | shutdown => exact h.setRead (by simp)
  | sleep =>
      intro r' hr'
      by_cases hr : r' = r
      · exact List.mem_append_right _ (hr ▸ List.mem_singleton_self r')
      · simp only [State.setReadPc, State.setRead, Function.update_of_ne hr] at hr'
        exact List.mem_append_left _ (h r' hr')
  | take t rest s₁ _ _ hw =>
      have h₁ : Queued s₁ := Queued.woke (s := s.handOut t rest) h hw
      exact h₁.setRead (by simp)

/-- Every step keeps the sleepers in the queue. -/
theorem step (h : Queued s) (he : Effect s a s') : Queued s' := by
  cases he with
  | enqueued t pick s' _ _ hw => exact Queued.woke (s := s.enqueue t) h hw
  | readEnter f count _ =>
      refine Queued.setRead (s := s) h ?_
      dsimp only
      split_ifs <;> simp
  | readSignal r _ =>
      refine h.setRead ?_
      dsimp only
      split_ifs with hr
      · simp
      · exact hr
  | readLockFirst r pick s' _ hl => exact h.readLoop hl
  | readLockAgain r pick s' hr _ hl =>
      exact (h.erase (by rcases hr with hr | hr <;> rw [hr] <;> simp)).readLoop hl
  | readLockSignal r pick hr _ =>
      exact (h.erase (by rcases hr with hr | hr <;> rw [hr] <;> simp)).setRead (by simp)
  | readSchedule r _ _ | readCopyShutdown r fault _ | readCopy r fault t _ m _
  | readReturn r t fault _ m _ =>
      exact h.setRead (by simp)
  | readDone r t fault _ m _ => exact Queued.setRead (s := s.clearInUse m) h (by simp)
  | readPassOn r pick fault s₁ _ hw => exact (h.woke hw).setRead (by simp)
  | ioctlShutdown f cmd mounted pick s' _ hw =>
      exact Queued.woke (s := { s with shuttingDown := true }) h hw
  | _ => exact h

end Queued

/-- In every reachable state the sleepers are in the queue. -/
theorem Reachable.queued (h : Reachable G s) : Queued s :=
  Reach.invariant (fun _ hr => by cases hr) (fun _ _ _ hq _ he => hq.step (step_effect he)) h

/-! ## Something that waits is tended -/

/-- A reader that was picked leaves by the signal only when nothing waits, nobody else sleeps, or
another reader is on its way. -/
def SignalExitsTended (s : State) (a : Act) : Prop :=
  ∀ r ∈ a.readLock?, (s.reads r).pc = .woken → (s.reads r).signalPending = true → s.Pending →
    (∃ r' < s.nReads, (s.reads r').pc = .asleep) →
    ∃ r' < s.nReads, r' ≠ r ∧ (s.reads r').pc.OnTheWay

instance (s : State) (a : Act) : Decidable (SignalExitsTended s a) :=
  inferInstanceAs (Decidable (∀ r ∈ a.readLock?, _))

/-- When something waits and a reader sleeps, another one is on its way. -/
def Tended (s : State) : Prop :=
  s.Pending → (∃ r, (s.reads r).pc = .asleep) → ∃ r, (s.reads r).pc.OnTheWay

namespace Tended

/-- Nothing new waits, nobody falls asleep and those on their way stay on it. -/
theorem keep (h : Tended s) (hpend : s'.Pending → s.Pending)
    (hasleep : ∀ r, (s'.reads r).pc = .asleep → (s.reads r).pc = .asleep)
    (hway : ∀ r, (s.reads r).pc.OnTheWay → (s'.reads r).pc.OnTheWay) : Tended s' := by
  rintro hp ⟨r, hr⟩
  obtain ⟨r', hr'⟩ := h (hpend hp) ⟨r, hasleep r hr⟩
  exact ⟨r', hway r' hr'⟩

/-- One reader moves; it does not fall asleep and does not leave its way. -/
theorem setRead (h : Tended s) {c : ReadCall} (hc : c.pc ≠ .asleep)
    (hway : (s.reads r).pc.OnTheWay → c.pc.OnTheWay) : Tended (s.setRead r c) := by
  refine h.keep id (fun r' hr' => ?_) fun r' hr' => ?_
  · by_cases hr : r' = r
    · subst hr
      simp only [State.setRead, Function.update_self] at hr'
      exact absurd hr' hc
    · simpa only [State.setRead, Function.update_of_ne hr] using hr'
  · by_cases hr : r' = r
    · subst hr
      simp only [State.setRead, Function.update_self]
      exact hway hr'
    · simpa only [State.setRead, Function.update_of_ne hr] using hr'

/-- After a wake-up and a move of a reader that was awake, a sleeper means that another one was
picked. -/
theorem of_woke (hq : Queued s) (hw : Woke s s') {c : ReadCall} (hr : (s.reads r).pc ≠ .asleep)
    (hc : c.pc ≠ .asleep) : Tended (s'.setRead r c) := by
  rintro _ ⟨r₁, hr₁⟩
  have hne : r₁ ≠ r := by
    rintro rfl
    simp only [State.setRead, Function.update_self] at hr₁
    exact hc hr₁
  simp only [State.setRead, Function.update_of_ne hne] at hr₁
  cases hw with
  | nobody hno => exact absurd hr₁ (hno r₁ (hq r₁ hr₁))
  | one r₂ _ hr₂ =>
      have hne₂ : r₂ ≠ r := by
        rintro rfl
        exact hr hr₂
      refine ⟨r₂, ?_⟩
      simp [State.setRead, State.setReadPc, hne₂, ReadPc.OnTheWay]

/-- After a wake-up a sleeper means that another one was picked. -/
theorem woke (hq : Queued s) (hw : Woke s s') : Tended s' := by
  rintro _ ⟨r₁, hr₁⟩
  cases hw with
  | nobody hno => exact absurd hr₁ (hno r₁ (hq r₁ hr₁))
  | one r₂ _ _ => exact ⟨r₂, by simp [State.setRead, State.setReadPc, ReadPc.OnTheWay]⟩

theorem readLoop (hq : Queued s) (hr : (s.reads r).pc ≠ .asleep) (hl : ReadLoop s r s') :
    Tended s' := by
  cases hl with
  | shutdown =>
      exact fun _ _ => ⟨r, by simp [State.setRead, State.setReadPc, ReadPc.OnTheWay]⟩
  | sleep hsd hreq =>
      intro hp
      rcases hp with hp | hp
      · exact absurd hreq hp
      · exact absurd (hsd.symm.trans hp) (by simp)
  | take t rest s₁ _ _ hw =>
      have h₁ : Tended (s₁.setRead r { s₁.reads r with
        pc := .copying t, took := some t, size := (s₁.trans t).requestSize }) :=
        of_woke (s := s.handOut t rest) hq hw hr (by simp)
      exact h₁

/-- A reader leaves by a signal. -/
theorem signalExit (hf : Files s) (h : Tended s) {pick : Option ReadId}
    (hG : SignalExitsTended s (.readLock r pick))
    (hr : (s.reads r).pc = .woken ∨ (s.reads r).pc = .roused)
    (hsig : (s.reads r).signalPending = true) (v : ℤ) :
    Tended (s.setReadPc r (.returned v)) := by
  rcases hr with hr | hr
  · rintro hp ⟨r₁, hr₁⟩
    have hne : r₁ ≠ r := by
      rintro rfl
      simp [State.setRead, State.setReadPc] at hr₁
    simp only [State.setRead, State.setReadPc, Function.update_of_ne hne] at hr₁
    have hlt : r₁ < s.nReads := (hf.read r₁ (by rw [hr₁]; trivial)).1
    obtain ⟨r₂, _, hne₂, hway⟩ := hG r rfl hr hsig hp ⟨r₁, hlt, hr₁⟩
    exact ⟨r₂, by
      simpa only [State.setRead, State.setReadPc, Function.update_of_ne hne₂] using hway⟩
  · exact h.setRead (by simp) fun hway => by
      rw [hr] at hway
      exact hway.elim

/-- Every step that meets the guard keeps what waits tended. -/
theorem step (hf : Files s) (hq : Queued s) (h : Tended s) (hG : SignalExitsTended s a)
    (he : Effect s a s') : Tended s' := by
  cases he with
  | releaseLast f _ _ _ =>
      intro hp
      rcases hp with hp | hp
      · exact absurd rfl hp
      · cases hp
  | enqueued t pick s' _ _ hw => exact woke (s := s.enqueue t) hq hw
  | checkUnlink t _ _ _ | withdraw t _ | writeClaim w t _ _ =>
      refine h.keep (fun hp => hp.imp_left fun hne hnil => hne ?_) (fun _ hr => hr) fun _ hr => hr
      have hnil' : s.uvfsRequests = [] := hnil
      exact (congrArg (List.erase · t) hnil').trans rfl
  | readEnter f count _ =>
      have hnew : ¬ (s.reads s.nReads).pc.OnTheWay := fun hw =>
        absurd (hf.read _ hw.awake.inProgress).1 (lt_irrefl _)
      refine Tended.setRead (s := s) h ?_ fun hw => absurd hw hnew
      dsimp only
      split_ifs <;> simp
  | readSignal r _ =>
      refine h.setRead ?_ fun hw => ?_ <;> dsimp only
      · split_ifs with hr
        · simp
        · exact hr
      · split_ifs with hr
        · rw [hr] at hw
          exact hw
        · exact hw
  | readSchedule r hr _ => exact h.setRead (by simp) fun hw => by rw [hr] at hw; exact hw
  | readLockFirst r pick s' hr hl => exact readLoop hq (by rw [hr]; simp) hl
  | readLockAgain r pick s' hr _ hl =>
      have hne : (s.reads r).pc ≠ .asleep := by rcases hr with hr | hr <;> rw [hr] <;> simp
      exact readLoop (hq.erase hne) hne hl
  | readLockSignal r pick hr hsig => exact h.signalExit hf hG hr hsig _
  | readCopyShutdown r fault _ => exact h.setRead (by simp) fun _ => trivial
  | readPassOn r pick fault s₁ hr hw => exact of_woke hq hw (by rw [hr]; simp) (by simp)
  | readCopy r fault t hr m _ | readReturn r t fault hr m _ =>
      exact h.setRead (by simp) fun hw => by rw [hr] at hw; exact hw.elim
  | readDone r t fault hr m _ =>
      exact Tended.setRead (s := s.clearInUse m) h (by simp) fun hw => by
        simp only [clearInUse, State.wakeUpIf, State.setTrans, hr] at hw
        exact hw.elim
  | ioctlShutdown f cmd mounted pick s' _ hw =>
      exact woke (s := { s with shuttingDown := true }) hq hw
  | _ => exact h

end Tended

/-- **No wake-up is lost** in a run in which a reader that was picked leaves by a signal only when
another one is on its way or nothing is to be done: whenever a request or the shutdown message waits
and a reader sleeps, a reader is awake that has not passed its last wake-up. -/
theorem no_wakeup_lost (h : Reachable SignalExitsTended s) (hp : s.Pending)
    (hsleep : ∃ r, (s.reads r).pc = .asleep) : ∃ r, (s.reads r).pc.Awake := by
  have ht : Tended s := Reach.invariant_of (I := fun s => Files s ∧ Queued s)
    (fun _ hr => ⟨Reachable.files hr, Reachable.queued hr⟩) (fun _ hs => by
      obtain ⟨r, hr⟩ := hs
      cases hr)
    (fun _ _ _ hI ht hG he => ht.step hI.1 hI.2 hG (step_effect he)) h
  obtain ⟨r, hr⟩ := ht hp hsleep
  exact ⟨r, hr.awake⟩

/-- Three readers sleep, two requests pick two of them, and one of the two leaves by a signal. -/
theorem no_wakeup_lost_three : ∃ s, Reachable SignalExitsTended s ∧
    (s.Pending ∧ (s.reads 2).pc = .asleep ∧ (s.reads 0).pc = .returned erestartsys) ∧
    ∃ r, (s.reads r).pc.Awake := by
  obtain ⟨s, hs, hp⟩ := Reach.of_check step SignalExitsTended State.init
    [.uvfsdOpen 0, .readEnter 0 sizeofUvfsRequestU, .readEnter 0 sizeofUvfsRequestU,
      .readEnter 0 sizeofUvfsRequestU, .readLock 0 none, .readLock 1 none, .readLock 2 none,
      .newTransaction .zeroed none, .newTransaction .zeroed none,
      .buildRequest 0 (getattrRequest 0), .buildRequest 1 (getattrRequest 1),
      .makeRequest 0 (some 0), .makeRequest 1 (some 1), .readSignal 0, .readLock 0 none]
    (fun s => s.Pending ∧ (s.reads 2).pc = .asleep ∧
      (s.reads 0).pc = .returned erestartsys) (by decide +kernel)
  exact ⟨s, hs, hp, no_wakeup_lost hs hp.1 ⟨2, hp.2.1⟩⟩

end Uvfs.Driver
