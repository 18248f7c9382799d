import Uvfs.Driver.Wakeups
import Uvfs.Driver.Serials
import Uvfs.Driver.Progress

/-!
# What waits is delivered

A reader that sleeps is woken by somebody else, who was woken by somebody else.  Here the chain is
followed to its end, in runs without end that are fair to every reader; and from there to the client
that sleeps until its request is answered.  While a request or the
shutdown message waits no reader falls asleep, so the readers that sleep or were picked are used up
(`State.sleepWork`), and as long as one sleeps another is on its way (`Tended`).

* `ReadPc.stage` : the steps that a reader has before it returns, when it does not fall asleep.
* `Effect.read_advance` : while something waits, a step leaves an awake reader alone or is its own
  and brings it one stage further.
* `shutdown_reaches_every_reader` : after `UVFS_IOCTL_SHUTDOWN` every call of `uvfsd_read` that is
  in progress returns.
* `request_leaves` : no request is passed over for ever while the server comes back to read.
* `TendsSafely` : the guard under which no wake-up is lost, neither a reader's nor a client's.
* `attended_client_returns` : while the server reads and replies, every client returns.
-/

namespace Uvfs.Driver

open State Transition

variable {s s' : State} {a : Act} {r : ReadId} {t : TransId} {n : ℕ} {G : State → Act → Prop}

/-! ## The way of a reader -/

/-- The step is one of the read `r` inside `uvfsd_read`. -/
def Reads (r : ReadId) (_ : State) : Act → Prop
  | .readSchedule r' | .readLock r' _ | .readCopyShutdown r' _ | .readPassOn r' _ | .readCopy r' _
  | .readDone r' | .readReturn r' => r' = r
  | _ => False

/-- The steps that a reader has before it returns, when it does not fall asleep. -/
def ReadPc.stage : ReadPc → ℕ
  | .asleep => 5
  | .entered | .woken | .roused => 4
  | .shutdown | .copying _ => 3
  | .shutdownCopied _ | .copied _ _ => 2
  | .finished _ _ => 1
  | .returned _ => 0

/-- What a sleeper and a reader that was picked count. -/
def ReadPc.sleepWork : ReadPc → ℕ
  | .asleep => 2
  | .woken => 1
  | _ => 0

/-- How many wake-ups there still can be, and how many readers were picked. -/
def State.sleepWork (s : State) : ℕ := ∑ r ∈ Finset.range s.nReads, (s.reads r).pc.sleepWork

theorem ReadPc.inProgress_of_stage {pc : ReadPc} (h : pc.stage ≠ 0) : pc.InProgress := by
  cases pc with
  | returned v => exact absurd rfl h
  | _ => trivial

/-- Who goes on counts no more than before. -/
theorem ReadPc.sleepWork_le {pc pc' : ReadPc} (h : pc'.stage < pc.stage) :
    pc'.sleepWork ≤ pc.sleepWork := by
  cases pc with
  | asleep =>
      cases pc' with
      | asleep | woken => simp [sleepWork]
      | _ => exact Nat.zero_le _
  | _ =>
      cases pc' with
      | asleep | woken => simp [stage] at h
      | _ => exact Nat.zero_le _

/-- A reader that was picked counts less when it goes on. -/
theorem ReadPc.sleepWork_lt {pc : ReadPc} (h : pc.stage < ReadPc.woken.stage) :
    pc.sleepWork < ReadPc.woken.sleepWork := by
  cases pc with
  | asleep | woken => simp [stage] at h
  | _ => exact Nat.zero_lt_one

/-- A step leaves the read where it is, wakes it, or is its own and brings it further. -/
def Advances (a : Act) (r : ReadId) (s : State) (pc' : ReadPc) : Prop :=
  (¬ Reads r s a ∧ pc' = (s.reads r).pc) ∨ ((s.reads r).pc = .asleep ∧ pc'.stage = 4) ∨
    (Reads r s a ∧ (s.reads r).pc ≠ .asleep ∧ pc'.stage < (s.reads r).pc.stage)

namespace Advances

/-- One read is replaced. -/
theorem update {reads : ReadId → ReadCall} {r₀ : ReadId} {c : ReadCall}
    (hself : r = r₀ → Advances a r s c.pc) (hother : r ≠ r₀ → Advances a r s (reads r).pc) :
    Advances a r s (Function.update reads r₀ c r).pc := by
  by_cases hr : r = r₀
  · subst hr
    rw [Function.update_self]
    exact hself rfl
  · rw [Function.update_of_ne hr]
    exact hother hr

/-- A read takes one of its own steps, and nothing else moves. -/
theorem own {r₀ : ReadId} {c : ReadCall} (hown : ∀ r', Reads r' s a ↔ r₀ = r')
    (hne : (s.reads r₀).pc ≠ .asleep) (hlt : c.pc.stage < (s.reads r₀).pc.stage) :
    Advances a r s (Function.update s.reads r₀ c r).pc := by
  refine update (fun h => ?_) fun h => .inl ⟨fun h' => h ((hown r).mp h').symm, rfl⟩
  subst h
  exact .inr (.inr ⟨(hown r).mpr rfl, hne, hlt⟩)

/-- A wake-up brings a sleeper further. -/
theorem woke {b c : State} (hw : Woke b c) (hreads : b.reads = s.reads) (hown : ¬ Reads r s a) :
    Advances a r s (c.reads r).pc := by
  obtain ⟨reads, rfl, hwoken⟩ := hw.exists_reads
  rw [hreads] at hwoken
  rcases hwoken r with hsame | ⟨hasleep, hwoken⟩
  · exact .inl ⟨hown, by simp only [hsame]⟩
  · exact .inr (.inl ⟨hasleep, by simp only [hwoken, ReadPc.stage]⟩)

/-- The loop of `uvfsd_read`, when something waits. -/
theorem readLoop {b : State} {r₀ : ReadId} {pick : Option ReadId} (hp : b.Pending)
    (hl : ReadLoop b r₀ s') (hreads : b.reads = s.reads) (hne : (s.reads r₀).pc ≠ .asleep)
    (hstage : (s.reads r₀).pc.stage = 4) :
    Advances (.readLock r₀ pick) r s (s'.reads r).pc := by
  cases hl with
  | shutdown =>
      simp only [State.setReadPc, State.setRead, hreads]
      exact own (fun _ => Iff.rfl) hne (by rw [hstage]; exact Nat.lt_succ_self 3)
  | sleep hsd hreq =>
      rcases hp with hp | hp
      · exact absurd hreq hp
      · exact absurd (hsd.symm.trans hp) (by simp)
  | take t rest s₁ _ _ hw =>
      refine update (fun h => .inr (.inr ⟨h.symm, h ▸ hne, ?_⟩)) fun h =>
        woke (b := b.handOut t rest) (c := s₁) hw hreads fun h' => h h'.symm
      rw [h, hstage]
      exact Nat.lt_succ_self 3

end Advances

/-- **While something waits nobody falls asleep**: a step leaves a read where it is, wakes it, or is
its own and brings it further. -/
theorem Effect.read_advance (hf : Files s) (hp : s.Pending) (he : Effect s a s')
    (hr : (s.reads r).pc.InProgress) : Advances a r s (s'.reads r).pc := by
  have hsame : ¬ Reads r s a → Advances a r s (s.reads r).pc := fun h => .inl ⟨h, rfl⟩
  cases he with
  | enqueued t pick s' _ _ hw => exact .woke (b := s.enqueue t) hw rfl id
  | ioctlShutdown f cmd mounted pick s' _ hw =>
      exact .woke (b := { s with shuttingDown := true }) hw rfl id
  | readEnter f count _ =>
      refine .update (fun h => ?_) fun _ => hsame id
      exact absurd (hf.read r hr).1 (h ▸ lt_irrefl _)
  | readSignal r₀ _ =>
      refine .update (fun h => ?_) fun _ => hsame id
      subst h
      dsimp only
      split_ifs with hasleep
      · exact .inr (.inl ⟨hasleep, rfl⟩)
      · exact hsame id
  | readSchedule r₀ hr₀ _ =>
      refine .update (fun h => .inr (.inl ⟨h ▸ hr₀, rfl⟩)) fun h => hsame fun h' => h h'.symm
  | readLockFirst r₀ pick s' hr₀ hl =>
      exact .readLoop hp hl rfl (by rw [hr₀]; simp) (by rw [hr₀]; rfl)
  | readLockAgain r₀ pick s' hr₀ _ hl =>
      exact .readLoop (b := { s with uvfsDriverQueue := s.uvfsDriverQueue.erase r₀ }) hp hl rfl
        (by rcases hr₀ with hr₀ | hr₀ <;> rw [hr₀] <;> simp)
        (by rcases hr₀ with hr₀ | hr₀ <;> rw [hr₀] <;> rfl)
  | readLockSignal r₀ pick hr₀ _ =>
      refine .own (fun _ => Iff.rfl) ?_ ?_ <;> rcases hr₀ with hr₀ | hr₀ <;>
        simp [hr₀, ReadPc.stage]
  | readPassOn r₀ pick fault s₁ hr₀ hw =>
      refine .update (fun h => .inr (.inr ⟨h.symm, ?_, ?_⟩)) fun h =>
        .woke hw rfl fun h' => h h'.symm
      · simp [h, hr₀]
      · simp [h, hr₀, ReadPc.stage]
  | readCopyShutdown r₀ fault hr₀ | readCopy r₀ fault t hr₀ | readDone r₀ t fault hr₀
  | readReturn r₀ t fault hr₀ =>
      exact .own (fun _ => Iff.rfl) (by simp [hr₀]) (by simp [hr₀, ReadPc.stage])
  | _ => exact hsame id

/-! ## Sleepers are used up -/

/-- A read that is not in progress counts nothing. -/
theorem ReadPc.sleepWork_eq_zero {pc : ReadPc} (h : ¬ pc.InProgress) : pc.sleepWork = 0 := by
  cases pc with
  | returned v => rfl
  | _ => exact absurd trivial h

theorem Files.sleepWork_eq_zero (hf : Files s) (r : ReadId) (hr : s.nReads ≤ r) :
    (s.reads r).pc.sleepWork = 0 :=
  ReadPc.sleepWork_eq_zero fun h => absurd (hf.read r h).1 (not_lt.mpr hr)

/-- While something waits no read counts more than before. -/
theorem Effect.read_sleepWork_le (hf : Files s) (hp : s.Pending) (he : Effect s a s')
    (r : ReadId) : (s'.reads r).pc.sleepWork ≤ (s.reads r).pc.sleepWork := by
  by_cases hr : (s.reads r).pc.InProgress
  · rcases he.read_advance hf hp hr with ⟨_, hsame⟩ | ⟨hasleep, hstage⟩ | ⟨_, _, hlt⟩
    · exact (congrArg ReadPc.sleepWork hsame).le
    · exact ReadPc.sleepWork_le (by rw [hasleep, hstage]; exact Nat.lt_succ_self 4)
    · exact ReadPc.sleepWork_le hlt
  · have hmove := he.read_move r
    generalize s'.reads r = c' at hmove
    cases hmove with
    | same => exact le_refl _
    | start f count _ =>
        dsimp only
        split_ifs <;> exact Nat.zero_le _
    | signal h => exact absurd h hr
    | early _ pc h _ | take pick t h _ | interrupted pick h => exact absurd h.inProgress hr
    | passOn pick fault h | copy fault t h | done t fault h | returns t fault h =>
        exact absurd (by rw [h]; trivial) hr

/-- While something waits the count does not rise. -/
theorem Effect.sleepWork_le (hf : Files s) (hp : s.Pending) (he : Effect s a s') :
    s'.sleepWork ≤ s.sleepWork :=
  sum_range_le (he.read_sleepWork_le hf hp) fun r hr => hf.sleepWork_eq_zero r hr

/-- It falls when one read counts less. -/
theorem Effect.sleepWork_lt (hf : Files s) (hp : s.Pending) (he : Effect s a s')
    (hr : (s.reads r).pc.InProgress)
    (hlt : (s'.reads r).pc.sleepWork < (s.reads r).pc.sleepWork) : s'.sleepWork < s.sleepWork := by
  have h := sum_range_add_le (f := fun r' => (s'.reads r').pc.sleepWork)
    (g := fun r' => (s.reads r').pc.sleepWork) (m := s'.nReads) (hf.read r hr).1
    (fun r' _ => he.read_sleepWork_le hf hp r') fun r' hr' => hf.sleepWork_eq_zero r' hr'
  unfold State.sleepWork
  omega

/-- It falls with each step of a reader that was picked. -/
theorem Effect.sleepWork_lt_of_woken (hf : Files s) (hp : s.Pending) (he : Effect s a s')
    (hr : (s.reads r).pc = .woken) (hown : Reads r s a) : s'.sleepWork < s.sleepWork := by
  have hin : (s.reads r).pc.InProgress := by rw [hr]; trivial
  rcases he.read_advance hf hp hin with ⟨hnot, _⟩ | ⟨hasleep, _⟩ | ⟨_, _, hlt⟩
  · exact absurd hown hnot
  · exact absurd (hr.symm.trans hasleep) (by simp)
  · rw [hr] at hlt
    exact he.sleepWork_lt hf hp hin (by rw [hr]; exact ReadPc.sleepWork_lt hlt)

/-- A wake-up can pick a sleeper, or there is none. -/
theorem exists_wakeUpInterruptible (s : State) :
    ∃ pick, (s.wakeUpInterruptible pick).isSome = true := by
  by_cases h : ∀ r ∈ s.uvfsDriverQueue, (s.reads r).pc ≠ .asleep
  · exact ⟨none, by simp only [wakeUpInterruptible, if_pos h, Option.isSome_some]⟩
  · push Not at h
    obtain ⟨r, hr⟩ := h
    exact ⟨some r, by simp only [wakeUpInterruptible, if_pos hr, Option.isSome_some]⟩

/-- The loop of `uvfsd_read` goes on. -/
theorem exists_uvfsdReadLoop (s : State) (r : ReadId) :
    ∃ pick, (s.uvfsdReadLoop r pick).isSome = true := by
  unfold uvfsdReadLoop
  by_cases hsd : s.shuttingDown = true
  · exact ⟨none, by rw [if_pos hsd]; rfl⟩
  · simp only [if_neg hsd]
    cases s.uvfsRequests with
    | nil => exact ⟨none, rfl⟩
    | cons t rest =>
        obtain ⟨pick, hpick⟩ := exists_wakeUpInterruptible (s.handOut t rest)
        exact ⟨pick, by simpa only [Option.isSome_map] using hpick⟩

/-- An awake reader can go on. -/
theorem reads_enabled (hr : (s.reads r).pc.InProgress) (hne : (s.reads r).pc ≠ .asleep) :
    Execution.Enabled step (Reads r) s := by
  cases hpc : (s.reads r).pc with
  | asleep => exact absurd hpc hne
  | returned v =>
      rw [hpc] at hr
      exact hr.elim
  | entered =>
      obtain ⟨pick, hpick⟩ := exists_uvfsdReadLoop s r
      exact ⟨.readLock r pick, rfl, by simpa only [step, uvfsdReadLock, hpc] using hpick⟩
  | woken | roused =>
      obtain ⟨pick, hpick⟩ := exists_uvfsdReadLoop
        { s with uvfsDriverQueue := s.uvfsDriverQueue.erase r } r
      refine ⟨.readLock r pick, rfl, ?_⟩
      simp only [step, uvfsdReadLock, hpc]
      split_ifs
      · rfl
      · exact hpick
  | shutdown => exact ⟨.readCopyShutdown r false, rfl, by simp [step, readCopyShutdown, hpc]⟩
  | shutdownCopied fault =>
      obtain ⟨pick, hpick⟩ := exists_wakeUpInterruptible s
      refine ⟨.readPassOn r pick, rfl, ?_⟩
      simp only [step, readPassOn, hpc, Option.isSome_map]
      exact hpick
  | copying t => exact ⟨.readCopy r none, rfl, by simp [step, uvfsdReadCopy, hpc]⟩
  | copied t fault => exact ⟨.readDone r, rfl, by simp [step, uvfsdReadDone, hpc]⟩
  | finished t fault => exact ⟨.readReturn r, rfl, by simp [step, uvfsdReadReturn, hpc]⟩

/-! ## The shutdown message -/

/-- `ShuttingDown` stays set as long as a call of `uvfsd_read` is in progress: its file is open, and
only the release of the last file clears it. -/
theorem Effect.shuttingDown_stays (hs : Sound s) (he : Effect s a s')
    (hsd : s.shuttingDown = true) (hr : (s.reads r).pc.InProgress) : s'.shuttingDown = true := by
  cases he with
  | releaseLast f hf hb hc => exact absurd hr (hs.read_idle_of_last hf hb hc r)
  | enqueued t pick s' _ _ hw =>
      obtain ⟨reads, rfl, -⟩ := hw.exists_reads
      exact hsd
  | readLockFirst r₀ pick s' _ hl | readLockAgain r₀ pick s' _ _ hl =>
      cases hl with
      | shutdown | sleep => exact hsd
      | take t rest s₁ _ _ hw =>
          obtain ⟨reads, rfl, -⟩ := hw.exists_reads
          exact hsd
  | readPassOn r₀ pick fault s₁ _ hw =>
      obtain ⟨reads, rfl, -⟩ := hw.exists_reads
      exact hsd
  | ioctlShutdown f cmd mounted pick s' _ hw =>
      obtain ⟨reads, rfl, -⟩ := hw.exists_reads
      rfl
  | _ => exact hsd

/-- The reader is awake while the shutdown message is to be delivered. -/
structure Called (s : State) (r : ReadId) : Prop where
  shuttingDown : s.shuttingDown = true
  inProgress : (s.reads r).pc.InProgress
  awake : (s.reads r).pc ≠ .asleep

theorem ReadPc.stage_le_four {pc : ReadPc} (h : pc ≠ .asleep) : pc.stage ≤ 4 := by
  cases pc with
  | asleep => exact absurd rfl h
  | _ => simp [stage]

theorem ReadPc.ne_asleep_of_stage {pc : ReadPc} (h : pc.stage ≤ 4) : pc ≠ .asleep := by
  rintro rfl
  exact absurd h (by simp [stage])

/-- A reader that is awake returns. -/
theorem Called.returns {ρ : Execution step G} (hinit : ρ.state 0 = State.init)
    (hfair : ρ.Fair (Reads r)) (h : Called (ρ.state n) r) :
    ∃ m, n ≤ m ∧ ¬ ((ρ.state m).reads r).pc.InProgress := by
  refine Execution.eventually_of_rank (P := fun s => Called s r)
    (Q := fun s => ¬ (s.reads r).pc.InProgress) (μ := fun s => (s.reads r).pc.stage) hfair h
    (fun m _ hP _ => reads_enabled hP.inProgress hP.awake) fun m _ hP _ hQ => ?_
  have hs := Reachable.sound (reachable_state hinit m)
  have he := step_effect (ρ.next m)
  have hsd := he.shuttingDown_stays hs hP.shuttingDown hP.inProgress
  rcases he.read_advance hs.files (.inr hP.shuttingDown) hP.inProgress with
    ⟨hnot, hsame⟩ | ⟨hasleep, _⟩ | ⟨_, _, hlt⟩
  · exact ⟨⟨hsd, not_not.mp hQ, hsame ▸ hP.awake⟩, (congrArg ReadPc.stage hsame).le,
      fun hown => absurd hown hnot⟩
  · exact absurd hasleep hP.awake
  · have hle := ReadPc.stage_le_four hP.awake
    exact ⟨⟨hsd, not_not.mp hQ, ReadPc.ne_asleep_of_stage (hlt.le.trans hle)⟩, hlt.le, fun _ => hlt⟩

/-- What waits is tended in every state that a run with the guard reaches. -/
theorem Reachable.tended (h : Reachable SignalExitsTended s) : Tended s :=
  Reach.invariant_of (I := fun s => Files s ∧ Queued s)
    (fun _ hr => ⟨Reachable.files hr, Reachable.queued hr⟩)
    (fun _ ⟨_, hr⟩ => by cases hr)
    (fun _ _ _ hI ht hG he => ht.step hI.1 hI.2 hG (step_effect he)) h

/-- A wake-up finds a sleeper. -/
theorem Woke.exists_woken (hq : Queued s) (hw : Woke s s')
    (hsleep : ∃ r, (s.reads r).pc = .asleep) :
    ∃ r, (s.reads r).pc = .asleep ∧ (s'.reads r).pc = .woken := by
  obtain ⟨r, hr⟩ := hsleep
  cases hw with
  | nobody hno => exact absurd hr (hno r (hq r hr))
  | one r₁ _ hr₁ => exact ⟨r₁, hr₁, by simp [State.setReadPc, State.setRead]⟩

/-- While the shutdown message is to be delivered and a reader sleeps, each step of a reader that is
on its way keeps it there, or a sleeper is woken, or a reader that was picked has moved. -/
theorem Effect.onTheWay_cases (hf : Files s) (hq : Queued s) (he : Effect s a s')
    (hsd : s.shuttingDown = true) (hsleep : ∃ r, (s.reads r).pc = .asleep)
    (hway : (s.reads r).pc.OnTheWay) (hown : Reads r s a) :
    (s'.reads r).pc.OnTheWay ∨ s'.sleepWork < s.sleepWork := by
  have hp : s.Pending := .inr hsd
  have hwoken : (s.reads r).pc = .woken → s'.sleepWork < s.sleepWork := fun h =>
    he.sleepWork_lt_of_woken hf hp h hown
  have he' := he
  cases he with
  | readLockFirst r₀ pick s' hr₀ hl =>
      obtain rfl : r₀ = r := hown
      cases hl with
      | shutdown => exact .inl (by simp [State.setReadPc, State.setRead, ReadPc.OnTheWay])
      | sleep hno | take _ _ _ hno => exact absurd (hno.symm.trans hsd) (by simp)
  | readLockAgain r₀ pick s' hr₀ _ hl =>
      obtain rfl : r₀ = r := hown
      rcases hr₀ with hr₀ | hr₀
      · exact .inr (hwoken hr₀)
      · rw [hr₀] at hway
        exact hway.elim
  | readLockSignal r₀ pick hr₀ _ =>
      obtain rfl : r₀ = r := hown
      rcases hr₀ with hr₀ | hr₀
      · exact .inr (hwoken hr₀)
      · rw [hr₀] at hway
        exact hway.elim
  | readCopyShutdown r₀ fault hr₀ =>
      obtain rfl : r₀ = r := hown
      exact .inl (by simp [State.setReadPc, State.setRead, ReadPc.OnTheWay])
  | readPassOn r₀ pick fault s₁ hr₀ hw =>
      obtain rfl : r₀ = r := hown
      obtain ⟨r₁, hasleep, hr₁⟩ := hw.exists_woken hq hsleep
      have hne : r₁ ≠ r₀ := by
        rintro rfl
        exact absurd (hasleep.symm.trans hr₀) (by simp)
      have hprogress : (s.reads r₁).pc.InProgress := by rw [hasleep]; trivial
      refine .inr (he'.sleepWork_lt hf hp hprogress ?_)
      simp only [State.setReadPc, State.setRead, Function.update_of_ne hne, hr₁, hasleep]
      exact Nat.lt_succ_self 1
  | readSchedule r₀ hr₀ _ | readCopy r₀ fault t hr₀ | readDone r₀ t fault hr₀
  | readReturn r₀ t fault hr₀ =>
      obtain rfl : r₀ = r := hown
      rw [hr₀] at hway
      exact hway.elim
  | _ => exact hown.elim

/-- While the shutdown message is to be delivered a sleeper stays asleep or is called. -/
theorem Effect.asleep_cases (hs : Sound s) (he : Effect s a s') (hsd : s.shuttingDown = true)
    (hr : (s.reads r).pc = .asleep) :
    (s'.shuttingDown = true ∧ (s'.reads r).pc = .asleep) ∨ Called s' r := by
  have hin : (s.reads r).pc.InProgress := by rw [hr]; trivial
  have hsd' := he.shuttingDown_stays hs hsd hin
  rcases he.read_advance hs.files (.inr hsd) hin with ⟨_, hsame⟩ | ⟨_, hstage⟩ | ⟨_, hne, _⟩
  · exact .inl ⟨hsd', hsame.trans hr⟩
  · exact .inr ⟨hsd', ReadPc.inProgress_of_stage (by omega), ReadPc.ne_asleep_of_stage hstage.le⟩
  · exact absurd hr hne

/-- A reader that is on its way comes to the end of it, and there the sleepers are fewer. -/
theorem sleepers_fewer {ρ : Execution step SignalExitsTended} (hinit : ρ.state 0 = State.init)
    {r₁ : ReadId} (hfair : ρ.Fair (Reads r₁)) (hsd : (ρ.state n).shuttingDown = true)
    (hr : ((ρ.state n).reads r).pc = .asleep) (hway : ((ρ.state n).reads r₁).pc.OnTheWay) :
    ∃ m, n ≤ m ∧ (Called (ρ.state m) r ∨ ((ρ.state m).shuttingDown = true ∧
      ((ρ.state m).reads r).pc = .asleep) ∧ (ρ.state m).sleepWork < (ρ.state n).sleepWork) := by
  refine Execution.eventually_of_rank
    (P := fun s => (s.shuttingDown = true ∧ (s.reads r).pc = .asleep) ∧
      (s.reads r₁).pc.OnTheWay ∧ s.sleepWork ≤ (ρ.state n).sleepWork)
    (Q := fun s => Called s r ∨ (s.shuttingDown = true ∧ (s.reads r).pc = .asleep) ∧
      s.sleepWork < (ρ.state n).sleepWork)
    (μ := fun s => (s.reads r₁).pc.stage) hfair ⟨⟨hsd, hr⟩, hway, le_refl _⟩
    (fun m _ hP _ => reads_enabled hP.2.1.awake.inProgress fun h => ?_) fun m _ hP _ hQ => ?_
  · obtain ⟨_, hway, _⟩ := hP
    rw [h] at hway
    exact hway.elim
  obtain ⟨⟨hsd, hasleep⟩, hway, hle⟩ := hP
  have hreach := reachable_state hinit m
  have hs := Reachable.sound hreach
  have he := step_effect (ρ.next m)
  have hsleep := (he.asleep_cases hs hsd hasleep).resolve_right fun h => hQ (.inl h)
  have hle' := (he.sleepWork_le hs.files (.inr hsd)).trans hle
  have hstays : ¬ (ρ.state (m + 1)).sleepWork < (ρ.state m).sleepWork := fun h =>
    hQ (.inr ⟨hsleep, h.trans_le hle⟩)
  rcases he.read_advance hs.files (.inr hsd) hway.awake.inProgress with
    ⟨hnot, hsame⟩ | ⟨h, _⟩ | ⟨hown, _, hlt⟩
  · exact ⟨⟨hsleep, hsame ▸ hway, hle'⟩, (congrArg ReadPc.stage hsame).le,
      fun hown => absurd hown hnot⟩
  · rw [h] at hway
    exact hway.elim
  · have hway' := (he.onTheWay_cases hs.files (Reachable.queued hreach) hsd ⟨r, hasleep⟩ hway
      hown).resolve_right hstays
    exact ⟨⟨hsleep, hway', hle'⟩, hlt.le, fun _ => hlt⟩

/-- Every sleeper is called. -/
theorem sleeper_called {ρ : Execution step SignalExitsTended} (hinit : ρ.state 0 = State.init)
    (hfair : ∀ r, ρ.Fair (Reads r)) (hsd : (ρ.state n).shuttingDown = true)
    (hr : ((ρ.state n).reads r).pc = .asleep) : ∃ m, n ≤ m ∧ Called (ρ.state m) r := by
  refine Execution.eventually_of_descent
    (P := fun s => s.shuttingDown = true ∧ (s.reads r).pc = .asleep)
    (Q := fun s => Called s r) (μ := State.sleepWork) ⟨hsd, hr⟩ fun m _ hP => ?_
  obtain ⟨r₁, hway⟩ := Reachable.tended (reachable_state hinit m) (.inr hP.1) ⟨r, hP.2⟩
  exact sleepers_fewer hinit (hfair r₁) hP.1 hP.2 hway

/-- **The shutdown message reaches every reader.**  In every run without end that is fair to the
readers, and in which a reader that was picked leaves by a signal only when another one is on its
way or nothing is to be done: once `ShuttingDown` is set, every call of `uvfsd_read` that is in
progress returns, however many of them sleep behind each other. -/
theorem shutdown_reaches_every_reader {ρ : Execution step SignalExitsTended}
    (hinit : ρ.state 0 = State.init) (hfair : ∀ r, ρ.Fair (Reads r))
    (hsd : (ρ.state n).shuttingDown = true) (hr : ((ρ.state n).reads r).pc.InProgress) :
    ∃ m, n ≤ m ∧ ¬ ((ρ.state m).reads r).pc.InProgress := by
  by_cases hasleep : ((ρ.state n).reads r).pc = .asleep
  · obtain ⟨m, hnm, hcalled⟩ := sleeper_called hinit hfair hsd hasleep
    obtain ⟨k, hmk, hk⟩ := hcalled.returns hinit (hfair r)
    exact ⟨k, hnm.trans hmk, hk⟩
  · exact Called.returns hinit (hfair r) ⟨hsd, hr, hasleep⟩

/-- A read that is not in progress, or sleeps and has no signal, can do nothing by itself. -/
theorem not_reads_enabled (h : ¬ (s.reads r).pc.InProgress ∨
    (s.reads r).pc = .asleep ∧ (s.reads r).signalPending = false) :
    ¬ Execution.Enabled step (Reads r) s := by
  rintro ⟨a, hown, hsome⟩
  obtain ⟨s', hstep⟩ := Option.isSome_iff_exists.mp hsome
  have he := step_effect hstep
  cases he with
  | readSchedule r₀ hr₀ hsig =>
      obtain rfl : r₀ = r := hown
      rcases h with h | ⟨_, h⟩
      · exact h (by rw [hr₀]; trivial)
      · exact absurd (h.symm.trans hsig) (by simp)
  | readLockAgain r₀ pick s' hr₀ _ _ | readLockSignal r₀ pick hr₀ _ =>
      obtain rfl : r₀ = r := hown
      rcases hr₀ with hr₀ | hr₀ <;> simp [hr₀, ReadPc.InProgress] at h
  | readLockFirst r₀ pick s' hr₀ _ | readCopyShutdown r₀ fault hr₀
  | readPassOn r₀ pick fault s₁ hr₀ _
  | readCopy r₀ fault t hr₀ | readDone r₀ t fault hr₀ | readReturn r₀ t fault hr₀ =>
      obtain rfl : r₀ = r := hown
      simp [hr₀, ReadPc.InProgress] at h
  | _ => exact hown.elim

/-- Three readers sleep when the shutdown is ordered; each passes the wake-up on to the next. -/
theorem shutdown_reaches_every_reader_three : ∃ ρ : Execution step SignalExitsTended,
    ρ.state 0 = State.init ∧ (∀ r, ρ.Fair (Reads r)) ∧ (ρ.state 8).shuttingDown = true ∧
    ((ρ.state 8).reads 2).pc = .asleep ∧
    ∃ m, 8 ≤ m ∧ ¬ ((ρ.state m).reads 2).pc.InProgress := by
  obtain ⟨ρ, hinit, hcheck, hidle⟩ := Execution.exists_ofList step SignalExitsTended
    [.uvfsdOpen 0, .readEnter 0 sizeofUvfsRequestU, .readEnter 0 sizeofUvfsRequestU,
      .readEnter 0 sizeofUvfsRequestU, .readLock 0 none, .readLock 1 none, .readLock 2 none,
      .ioctl 0 uvfsIoctlShutdown false (some 0), .readLock 0 none, .readCopyShutdown 0 false,
      .readPassOn 0 (some 1), .readLock 1 none, .readCopyShutdown 1 false, .readPassOn 1 (some 2),
      .readLock 2 none, .readCopyShutdown 2 false, .readPassOn 2 none]
    (.newTransaction .zeroed none) State.init step_newTransaction_isSome
    (fun _ _ hr => absurd hr (by simp [Act.readLock?])) (by decide +kernel)
    (fun n s => (n = 8 → s.shuttingDown = true ∧ (s.reads 2).pc = .asleep) ∧
      (n = 17 → ∀ r < s.nReads, ¬ (s.reads r).pc.InProgress))
    (by decide +kernel)
  obtain ⟨hsd, hasleep⟩ := (hcheck 8 (by decide)).1 rfl
  have hdone : ∀ r, ¬ ((ρ.state 17).reads r).pc.InProgress := fun r hr =>
    (hcheck 17 (by decide)).2 rfl r ((Reachable.files (reachable_state hinit 17)).read r hr).1 hr
  have hfair : ∀ r, ρ.Fair (Reads r) := fun r =>
    Execution.fair_of_blocked (n := 17) fun m hm => by
      refine not_reads_enabled (.inl ?_)
      refine Execution.forever (P := fun s => ¬ (s.reads r).pc.InProgress) hidle (hdone r) ?_ hm
      rintro s s' hr hstep
      cases step_effect hstep
      exact hr
  exact ⟨ρ, hinit, hfair, hsd, hasleep, shutdown_reaches_every_reader hinit hfair hsd
    (by rw [hasleep]; trivial)⟩

/-! ## The requests -/

/-- Without an earlier element everything moves forward. -/
theorem idxOf_erase_le {l : List TransId} {t' : TransId} (hne : t ≠ t') :
    (l.erase t').idxOf t ≤ l.idxOf t := by
  induction l with
  | nil => exact le_refl _
  | cons x l ih =>
      by_cases hx : x = t'
      · subst hx
        rw [List.erase_cons_head, List.idxOf_cons_ne _ hne.symm]
        exact Nat.le_succ _
      · rw [List.erase_cons_tail (by simpa using hx)]
        by_cases hxt : x = t
        · subst hxt
          rw [List.idxOf_cons_self]
          exact Nat.zero_le _
        · rw [List.idxOf_cons_ne _ hxt, List.idxOf_cons_ne _ hxt]
          exact Nat.succ_le_succ ih

/-- A request comes to the end of the list, one is taken out, or the list is emptied. -/
theorem Effect.requests_cases (he : Effect s a s') :
    s'.uvfsRequests = s.uvfsRequests ∨ (∃ t, (s.clients t).pc = .built ∧
        s'.uvfsRequests = s.uvfsRequests ++ [t]) ∨
      (∃ t, s'.uvfsRequests = s.uvfsRequests.erase t) ∨ s'.uvfsRequests = [] := by
  cases he with
  | releaseLast f _ _ _ => exact .inr (.inr (.inr rfl))
  | enqueued t pick s' hp _ hw =>
      obtain ⟨reads, rfl, -⟩ := hw.exists_reads
      exact .inr (.inl ⟨t, hp, rfl⟩)
  | checkUnlink t _ _ _ | withdraw t _ | writeClaim w t _ _ => exact .inr (.inr (.inl ⟨t, rfl⟩))
  | readLockFirst r pick s' _ hl | readLockAgain r pick s' _ _ hl =>
      cases hl with
      | shutdown | sleep => exact .inl rfl
      | take t rest s₁ _ hreq hw =>
          obtain ⟨reads, rfl, -⟩ := hw.exists_reads
          have hreq' : s.uvfsRequests = t :: rest := hreq
          refine .inr (.inr (.inl ⟨t, ?_⟩))
          rw [hreq', List.erase_cons_head]
          rfl
  | readPassOn r pick fault s₁ _ hw =>
      obtain ⟨reads, rfl, -⟩ := hw.exists_reads
      exact .inl rfl
  | ioctlShutdown f cmd mounted pick s' _ hw =>
      obtain ⟨reads, rfl, -⟩ := hw.exists_reads
      exact .inl rfl
  | _ => exact .inl rfl

/-- As long as a request waits, its place in the queue does not get worse. -/
theorem Effect.idxOf_le (hs : Sound s) (he : Effect s a s') (ht : t ∈ s.uvfsRequests)
    (ht' : t ∈ s'.uvfsRequests) : s'.uvfsRequests.idxOf t ≤ s.uvfsRequests.idxOf t := by
  rcases he.requests_cases with h | ⟨t', _, h⟩ | ⟨t', h⟩ | h
  · rw [h]
  · rw [h, List.idxOf_append_of_mem ht]
  · rw [h] at ht' ⊢
    refine idxOf_erase_le ?_
    rintro rfl
    exact hs.requests_nodup.not_mem_erase ht'
  · rw [h] at ht'
    exact absurd ht' List.not_mem_nil

/-- The head of the queue is taken: whoever waits behind it has a better place. -/
theorem ReadLoop.idxOf_lt (hl : ReadLoop s r s') (hsd : s.shuttingDown = false)
    (ht : t ∈ s.uvfsRequests) (hnodup : s.uvfsRequests.Nodup) (ht' : t ∈ s'.uvfsRequests) :
    s'.uvfsRequests.idxOf t < s.uvfsRequests.idxOf t := by
  cases hl with
  | shutdown h => exact absurd (hsd.symm.trans h) (by simp)
  | sleep _ hreq =>
      rw [hreq] at ht
      exact absurd ht List.not_mem_nil
  | take t' rest s₁ _ hreq hw =>
      obtain ⟨reads, rfl, -⟩ := hw.exists_reads
      have hmem : t ∈ rest := ht'
      rw [hreq] at hnodup ⊢
      have hne : t' ≠ t := by
        rintro rfl
        exact (List.nodup_cons.mp hnodup).1 hmem
      rw [List.idxOf_cons_ne _ hne]
      exact Nat.lt_succ_self _

/-- How many requests are before `t`, and how many readers sleep or were picked. -/
def State.wait (s : State) (t : TransId) : ℕ := s.uvfsRequests.idxOf t + s.sleepWork

/-- The reader will look at the queue without anybody waking it. -/
def ReadPc.Looks (pc : ReadPc) : Prop := pc = .entered ∨ pc = .woken

/-- The request waits and the server is not being shut down. -/
structure Waits (s : State) (t : TransId) : Prop where
  requested : t ∈ s.uvfsRequests
  up : s.shuttingDown = false

theorem Waits.pending (h : Waits s t) : s.Pending := .inl (List.ne_nil_of_mem h.requested)

/-- A request that waits does not wait longer for any step. -/
theorem Effect.wait_le (hs : Sound s) (he : Effect s a s') (h : Waits s t) (h' : Waits s' t) :
    s'.wait t ≤ s.wait t :=
  Nat.add_le_add (he.idxOf_le hs h.requested h'.requested) (he.sleepWork_le hs.files h.pending)

/-- Each step of a reader that looks at the queue shortens the wait. -/
theorem Effect.wait_lt (hs : Sound s) (he : Effect s a s') (h : Waits s t) (h' : Waits s' t)
    (hlook : (s.reads r).pc.Looks) (hown : Reads r s a) : s'.wait t < s.wait t := by
  have hidx := he.idxOf_le hs h.requested h'.requested
  have hsleep := he.sleepWork_le hs.files h.pending
  rcases hlook with hr | hr
  swap
  · have hlt := he.sleepWork_lt_of_woken hs.files h.pending hr hown
    unfold State.wait
    omega
  suffices hlt : s'.uvfsRequests.idxOf t < s.uvfsRequests.idxOf t by
    unfold State.wait
    omega
  cases he with
  | readLockFirst r₀ pick s' hr₀ hl =>
      exact hl.idxOf_lt h.up h.requested hs.requests_nodup h'.requested
  | readLockAgain r₀ pick s' hr₀ _ hl =>
      obtain rfl : r₀ = r := hown
      simp [hr] at hr₀
  | readLockSignal r₀ pick hr₀ _ =>
      obtain rfl : r₀ = r := hown
      simp [hr] at hr₀
  | readSchedule r₀ hr₀ _ | readCopyShutdown r₀ fault hr₀ | readPassOn r₀ pick fault s₁ hr₀ _
  | readCopy r₀ fault t hr₀ | readDone r₀ t fault hr₀ | readReturn r₀ t fault hr₀ =>
      obtain rfl : r₀ = r := hown
      exact absurd (hr.symm.trans hr₀) (by simp)
  | _ => exact hown.elim

/-- A reader that looks at the queue does so, and then the wait is shorter or over. -/
theorem wait_shorter {ρ : Execution step SignalExitsTended} (hinit : ρ.state 0 = State.init)
    (hfair : ρ.Fair (Reads r)) (h : Waits (ρ.state n) t)
    (hlook : ((ρ.state n).reads r).pc.Looks) :
    ∃ m, n ≤ m ∧ (¬ Waits (ρ.state m) t ∨
      Waits (ρ.state m) t ∧ (ρ.state m).wait t < (ρ.state n).wait t) := by
  refine Execution.eventually_of_rank
    (P := fun s => Waits s t ∧ (s.reads r).pc.Looks ∧ s.wait t ≤ (ρ.state n).wait t)
    (Q := fun s => ¬ Waits s t ∨ Waits s t ∧ s.wait t < (ρ.state n).wait t)
    (μ := fun s => (s.reads r).pc.stage) hfair ⟨h, hlook, le_refl _⟩
    (fun m _ hP _ => ?_) fun m _ hP _ hQ => ?_
  · obtain ⟨_, hr | hr, _⟩ := hP <;> exact reads_enabled (by rw [hr]; trivial) (by rw [hr]; simp)
  obtain ⟨hw, hlook, hle⟩ := hP
  have hs := Reachable.sound (reachable_state hinit m)
  have he := step_effect (ρ.next m)
  have hw' : Waits (ρ.state (m + 1)) t := not_not.mp fun hno => hQ (.inl hno)
  have hstays : ¬ (ρ.state (m + 1)).wait t < (ρ.state m).wait t := fun hlt =>
    hQ (.inr ⟨hw', hlt.trans_le hle⟩)
  have hin : ((ρ.state m).reads r).pc.InProgress := by
    rcases hlook with hr | hr <;> rw [hr] <;> trivial
  rcases he.read_advance hs.files hw.pending hin with
    ⟨hnot, hsame⟩ | ⟨hasleep, _⟩ | ⟨hown, _, _⟩
  · exact ⟨⟨hw', hsame ▸ hlook, (he.wait_le hs hw hw').trans hle⟩, (congrArg ReadPc.stage hsame).le,
      fun hown => absurd hown hnot⟩
  · rcases hlook with hr | hr <;> exact absurd (hr.symm.trans hasleep) (by simp)
  · exact absurd (he.wait_lt hs hw hw' hlook hown) hstays

/-- The reader delivers the shutdown message. -/
def ReadPc.Delivers : ReadPc → Prop
  | .shutdown | .shutdownCopied _ => True
  | _ => False

/-- The message is delivered only while `ShuttingDown` is set. -/
def Delivering (s : State) : Prop := ∀ r, (s.reads r).pc.Delivers → s.shuttingDown = true

namespace Delivering

theorem setRead (h : Delivering s) {c : ReadCall}
    (hc : c.pc.Delivers → s.shuttingDown = true) : Delivering (s.setRead r c) := by
  intro r' hr'
  by_cases hr : r' = r
  · subst hr
    simp only [State.setRead, Function.update_self] at hr'
    exact hc hr'
  · simp only [State.setRead, Function.update_of_ne hr] at hr'
    exact h r' hr'

theorem woke (h : Delivering s) (hw : Woke s s') : Delivering s' := by
  cases hw with
  | nobody => exact h
  | one r _ _ => exact h.setRead fun hc => hc.elim

theorem readLoop (h : Delivering s) (hl : ReadLoop s r s') : Delivering s' := by
  cases hl with
  | shutdown hsd => exact h.setRead fun _ => hsd
  | sleep _ _ =>
      have h₁ : Delivering (s.setReadPc r .asleep) := h.setRead fun hc => hc.elim
      exact h₁
  | take t rest s₁ _ _ hw =>
      have h₁ : Delivering s₁ := Delivering.woke (s := s.handOut t rest) h hw
      exact h₁.setRead fun hc => hc.elim

theorem step (hs : Sound s) (h : Delivering s) (he : Effect s a s') : Delivering s' := by
  cases he with
  | releaseLast f hf hb hc =>
      intro r hr
      refine absurd (?_ : (s.reads r).pc.InProgress) (hs.read_idle_of_last hf hb hc r)
      cases hpc : (s.reads r).pc with
      | returned v =>
          simp only [drain, hpc] at hr
          exact hr.elim
      | _ => trivial
  | enqueued t pick s' _ _ hw => exact Delivering.woke (s := s.enqueue t) h hw
  | readEnter f count _ =>
      have h₁ : Delivering (s.setRead s.nReads ⟨f, if count < sizeofUvfsRequestU then .returned eio
          else .entered, false, none, fun _ => 0, 0, s.session, 0⟩) := by
        refine h.setRead fun hc => ?_
        dsimp only at hc
        split_ifs at hc <;> exact hc.elim
      exact h₁
  | readSignal r _ =>
      refine h.setRead fun hc => ?_
      dsimp only at hc
      split_ifs at hc
      · exact hc.elim
      · exact h r hc
  | readLockFirst r pick s' _ hl => exact h.readLoop hl
  | readLockAgain r pick s' _ _ hl =>
      exact Delivering.readLoop (s := { s with uvfsDriverQueue := s.uvfsDriverQueue.erase r }) h hl
  | readLockSignal r pick _ _ =>
      exact Delivering.setRead (s := { s with uvfsDriverQueue := s.uvfsDriverQueue.erase r }) h
        fun hc => hc.elim
  | readCopyShutdown r fault hr =>
      exact h.setRead fun _ => h r (by rw [hr]; trivial)
  | readPassOn r pick fault s₁ _ hw => exact (h.woke hw).setRead fun hc => hc.elim
  | readSchedule r _ _ | readCopy r fault t _ | readReturn r t fault _ =>
      exact h.setRead fun hc => hc.elim
  | readDone r t fault _ m _ => exact Delivering.setRead (s := s.clearInUse m) h fun hc => hc.elim
  | ioctlShutdown f cmd mounted pick s' _ hw =>
      exact Delivering.woke (s := { s with shuttingDown := true }) (fun _ _ => rfl) hw
  | _ => exact h

end Delivering

theorem Reachable.delivering (h : Reachable G s) : Delivering s :=
  Reach.invariant_of (I := Sound) (fun _ hr => Reachable.sound hr) (fun _ hr => hr.elim)
    (fun _ _ _ hs h _ he => h.step hs (step_effect he)) h

/-- While a request waits, a read that sleeps or looks at the queue means that one looks at it. -/
theorem exists_looks (h : Reachable SignalExitsTended s) (hw : Waits s t)
    (hr : (s.reads r).pc = .asleep ∨ (s.reads r).pc.Looks) : ∃ r, (s.reads r).pc.Looks := by
  rcases hr with hr | hr
  swap
  · exact ⟨r, hr⟩
  obtain ⟨r₁, hway⟩ := Reachable.tended h hw.pending ⟨r, hr⟩
  refine ⟨r₁, ?_⟩
  have hdel := Reachable.delivering h r₁
  cases hpc : (s.reads r₁).pc with
  | entered => exact .inl rfl
  | woken => exact .inr rfl
  | shutdown | shutdownCopied fault =>
      rw [hpc] at hdel
      exact absurd (hw.up.symm.trans (hdel trivial)) (by simp)
  | _ =>
      rw [hpc] at hway
      exact hway.elim

/-- Up to a later time the request has stopped waiting, or it waits and has a place no worse. -/
theorem waits_until {ρ : Execution step G} (hinit : ρ.state 0 = State.init) {m : ℕ}
    (h : Waits (ρ.state m) t) {k : ℕ} (hk : m ≤ k) :
    (∃ j, m ≤ j ∧ ¬ Waits (ρ.state j) t) ∨
      Waits (ρ.state k) t ∧ (ρ.state k).wait t ≤ (ρ.state m).wait t := by
  induction k, hk using Nat.le_induction with
  | base => exact .inr ⟨h, le_refl _⟩
  | succ k hk ih =>
      rcases ih with hover | ⟨hw, hle⟩
      · exact .inl hover
      by_cases hw' : Waits (ρ.state (k + 1)) t
      · have hs := Reachable.sound (reachable_state hinit k)
        exact .inr ⟨hw', ((step_effect (ρ.next k)).wait_le hs hw hw').trans hle⟩
      · exact .inl ⟨k + 1, hk.trans (Nat.le_succ k), hw'⟩

/-- **No request is passed over for ever.**  As long as it waits and the server comes back to read,
it moves forward: the wait ends. -/
theorem request_leaves {ρ : Execution step SignalExitsTended} (hinit : ρ.state 0 = State.init)
    (hfair : ∀ r, ρ.Fair (Reads r))
    (hread : ∀ m, n ≤ m → Waits (ρ.state m) t → ∃ k, m ≤ k ∧
      ∃ r, ((ρ.state k).reads r).pc = .asleep ∨ ((ρ.state k).reads r).pc.Looks)
    (h : Waits (ρ.state n) t) : ∃ m, n ≤ m ∧ ¬ Waits (ρ.state m) t := by
  refine Execution.eventually_of_descent (P := fun s => Waits s t) (Q := fun s => ¬ Waits s t)
    (μ := fun s => s.wait t) h fun m hm hP => ?_
  obtain ⟨k, hmk, r, hr⟩ := hread m hm hP
  rcases waits_until hinit hP hmk with ⟨j, hmj, hj⟩ | ⟨hw, hle⟩
  · exact ⟨j, hmj, .inl hj⟩
  obtain ⟨r₁, hlook⟩ := exists_looks (reachable_state hinit k) hw hr
  obtain ⟨j, hkj, hj | ⟨hj, hlt⟩⟩ := wait_shorter hinit (hfair r₁) hw hlook
  · exact ⟨j, hmk.trans hkj, .inl hj⟩
  · exact ⟨j, hmk.trans hkj, .inr ⟨hj, hlt.trans_le hle⟩⟩

/-! ## Clients of a server that attends to them -/

/-- Nothing but the client itself takes it out of `uvfs_make_request`. -/
theorem Effect.inside_or_returned (hs : Sound s) (he : Effect s a s')
    (hin : (s.clients t).pc.Inside) :
    (s'.clients t).pc.Inside ∨ (s'.clients t).pc = .returned := by
  by_cases ht : Touches s a t
  swap
  · rw [(he.frame hs.files ht).client]
    exact .inl hin
  cases he with
  | newTransaction junk old _ =>
      obtain rfl : t = s.nTrans := ht
      exact absurd (hs.logged.lt _ hin.ne_freed) (lt_irrefl _)
  | buildRequest t' req hp _ | refused t' pick hp _ | enqueued t' pick s' hp _ _ =>
      obtain rfl : t = t' := ht
      exact absurd (by rw [hp]; trivial) hin.not_halfStarted
  | kill t' _ =>
      obtain rfl : t = t' := ht
      exact .inl (by simpa [State.setClient] using hin)
  | waitSleep t' _ _ => exact .inl hin
  | waitAnswered t' | waitSignal t' | checkAbort t' | checkLeave t' | waitUnused t'
  | checkUnlink t' | withdraw t' =>
      obtain rfl : t = t' := ht
      left
      simp [State.unlinkAborted, State.setClientPc, State.setClient, ClientPc.Inside]
  | leave t' hp =>
      obtain rfl : t = t' := ht
      exact .inr (by simp [State.setClientPc, State.setClient])
  | kfree t' hp =>
      obtain rfl : t = t' := ht
      rw [hp] at hin
      exact hin.elim
  | readLockFirst r pick s' _ hl | readLockAgain r pick s' _ _ hl =>
      cases hl with
      | shutdown | sleep => exact .inl hin
      | take t' rest s₁ _ _ hw =>
          obtain ⟨reads, rfl, -⟩ := hw.exists_reads
          exact .inl hin
  | release | releaseLast | reuse | readLockSignal | readDone | writeMiss | writeClaim | writeCopy
  | writeDone => exact .inl hin
  | _ => exact ht.elim

/-- A request does not come back into `Uvfs_requests` while its client is inside. -/
theorem Effect.requested_of_inside (he : Effect s a s') (hin : (s.clients t).pc.Inside)
    (ht : t ∈ s'.uvfsRequests) : t ∈ s.uvfsRequests := by
  rcases he.requests_cases with h | ⟨t', hp, h⟩ | ⟨t', h⟩ | h
  · exact h ▸ ht
  · rw [h, List.mem_append, List.mem_singleton] at ht
    refine ht.resolve_right ?_
    rintro rfl
    exact hin.not_halfStarted (by rw [hp]; trivial)
  · exact List.mem_of_mem_erase (h ▸ ht)
  · exact absurd (h ▸ ht) List.not_mem_nil

/-- Nor into either list once it is out of both. -/
theorem Effect.listed_of_inside (hs : Sound s) (he : Effect s a s')
    (hin : (s.clients t).pc.Inside) (ht : s'.Listed t) : s.Listed t := by
  rcases he.live_of_live hs (.inr ht) with (hhalf | hl) | rfl
  · exact absurd hhalf hin.not_halfStarted
  · exact hl
  · exact absurd (hs.logged.lt _ hin.ne_freed) (lt_irrefl _)

/-- Until a later time the client has returned, or it is inside and its request has not come
back. -/
theorem inside_until {ρ : Execution step G} (hinit : ρ.state 0 = State.init) {m : ℕ}
    (hin : ((ρ.state m).clients t).pc.Inside) {k : ℕ} (hk : m ≤ k) :
    (∃ j, m ≤ j ∧ ((ρ.state j).clients t).pc = .returned) ∨ ((ρ.state k).clients t).pc.Inside ∧
      (t ∉ (ρ.state m).uvfsRequests → t ∉ (ρ.state k).uvfsRequests) := by
  induction k, hk using Nat.le_induction with
  | base => exact .inr ⟨hin, id⟩
  | succ k hk ih =>
      rcases ih with hover | ⟨hin', hout⟩
      · exact .inl hover
      have he := step_effect (ρ.next k)
      rcases he.inside_or_returned (Reachable.sound (reachable_state hinit k)) hin' with h | h
      · exact .inr ⟨h, fun hm ht => hout hm (he.requested_of_inside hin' ht)⟩
      · exact .inl ⟨k + 1, hk.trans (Nat.le_succ k), h⟩

/-- A client that waits for its answer has been enqueued. -/
def Enrolled (s : State) : Prop := ∀ t, (s.clients t).pc.Enqueued → t ∈ s.enqueueLog

theorem Enrolled.step (hs : Sound s) (h : Enrolled s) (he : Effect s a s') : Enrolled s' := by
  intro t ht'
  by_cases ht : Touches s a t
  swap
  · have hf := he.frame hs.files ht
    rw [hf.client] at ht'
    exact hf.log.mpr (h t ht')
  cases he with
  | newTransaction junk old _ =>
      obtain rfl : t = s.nTrans := ht
      simp [addTransaction, ClientPc.Enqueued] at ht'
  | enqueued t' pick s' _ _ hw =>
      obtain rfl : t = t' := ht
      obtain ⟨reads, rfl, -⟩ := hw.exists_reads
      exact List.mem_append_right _ (List.mem_singleton_self t)
  | buildRequest t' | refused t' | leave t' | kfree t' | checkLeave t' | checkUnlink t'
  | withdraw t' =>
      obtain rfl : t = t' := ht
      simp [State.unlinkAborted, State.setClientPc, State.setClient, ClientPc.Enqueued] at ht'
  | kill t' _ =>
      obtain rfl : t = t' := ht
      exact h t (by simpa [State.setClient] using ht')
  | waitSleep t' _ _ => exact h t ht'
  | waitAnswered t' hp | waitSignal t' hp | checkAbort t' hp | waitUnused t' hp =>
      obtain rfl : t = t' := ht
      exact h t (by rw [hp]; trivial)
  | readLockFirst r pick s' _ hl | readLockAgain r pick s' _ _ hl =>
      cases hl with
      | shutdown | sleep => exact h t ht'
      | take t' rest s₁ _ _ hw =>
          obtain ⟨reads, rfl, -⟩ := hw.exists_reads
          exact h t ht'
  | release | releaseLast | reuse | readLockSignal | readDone | writeMiss | writeClaim | writeCopy
  | writeDone => exact h t ht'
  | _ => exact ht.elim

theorem Reachable.enrolled (h : Reachable G s) : Enrolled s :=
  Reach.invariant_of (I := Sound) (fun _ hr => Reachable.sound hr) (fun _ hr => hr.elim)
    (fun _ _ _ hs h _ he => h.step hs (step_effect he)) h

/-- The client is inside and its request is in neither list: it was taken out by a write, answered
or withdrawn. -/
structure Claimed (s : State) (t : TransId) : Prop where
  inside : (s.clients t).pc.Inside
  out : ¬ s.Listed t

/-- The client, or the write that took the transaction out, can take a step. -/
theorem Claimed.enabled (hfl : Flags s t) (hwait : Waiter s t) (henr : Enrolled s)
    (h : Claimed s t) : Execution.Enabled step (Serves t) s := by
  by_cases hdue : Due s t
  · exact hdue.enabled hfl hwait
  by_cases hp : (s.clients t).pc.Enqueued
  swap
  · -- past its last critical section
    have hleaving : (s.clients t).pc = .leaving := by
      have hin := h.inside
      revert hp hin
      cases (s.clients t).pc <;> simp [ClientPc.Enqueued, ClientPc.Inside]
    exact ⟨.leave t, rfl, by simp [step, leave, hleaving]⟩
  have hans : (s.trans t).answered = 0 := not_not.mp fun hne => hdue ⟨h.inside, .inr hne⟩
  have hwd : (s.clients t).withdrawn = false := by
    by_contra hwd
    exact (hfl.withdrawn (by simpa using hwd)).not_enqueued hp
  obtain ⟨w, hw⟩ := (hfl.pending (henr t hp) h.inside.ne_freed hwd hans).resolve_left h.out
  cases hwpc : (s.writes w).pc with
  | copying t' =>
      exact ⟨.writeCopy w (fun _ => 0) none, hw, by simp [step, uvfsdWriteCopy, hwpc]⟩
  | copied t' fault => exact ⟨.writeDone w, hw, by simp [step, uvfsdWriteDone, hwpc]⟩
  | _ => exact absurd hw (by rw [hwpc]; exact id)

/-- Once its request is in neither list the client returns. -/
theorem Claimed.returns {ρ : Execution step ClaimsSafely} (hinit : ρ.state 0 = State.init)
    (hfair : ρ.Fair (Serves t)) (h : Claimed (ρ.state n) t) :
    ∃ m, n ≤ m ∧ ((ρ.state m).clients t).pc = .returned := by
  refine Execution.eventually_of_rank (P := fun s => Claimed s t)
    (Q := fun s => (s.clients t).pc = .returned) (μ := fun s => s.work t) hfair h
    (fun m _ hP _ => ?_) fun m _ hP _ hQ => ?_
  · have hreach := reachable_state hinit m
    exact hP.enabled (Reachable.flags hreach t) (Reachable.waiter hreach t)
      (Reachable.enrolled hreach)
  have hreach := reachable_state hinit m
  have hs := Reachable.sound hreach
  have he := step_effect (ρ.next m)
  obtain ⟨hle, hlt⟩ := he.work_le hs (Reachable.owned hreach) (Reachable.waiter hreach t) hP.inside
  exact ⟨⟨(he.inside_or_returned hs hP.inside).resolve_right hQ,
    fun hl => hP.out (he.listed_of_inside hs hP.inside hl)⟩, hle, hlt⟩

/-- A reader that was picked leaves by a signal only when another one is on its way or nothing is to
be done, and no write claims a transaction out of turn or copies over `in_use`.  So no wake-up is
lost, neither of a reader nor of a client. -/
def TendsSafely (s : State) (a : Act) : Prop := SignalExitsTended s a ∧ ClaimsSafely s a

instance (s : State) (a : Act) : Decidable (TendsSafely s a) :=
  inferInstanceAs (Decidable (_ ∧ _))

/-- From time `n` on the server attends to `t`: while the request waits it is not shut down and
comes back to read, and what it has read it takes out of `Uvfs_replies` again, with a reply. -/
structure Attended (ρ : Execution step TendsSafely) (t : TransId) (n : ℕ) : Prop where
  up : ∀ m, n ≤ m → t ∈ (ρ.state m).uvfsRequests → (ρ.state m).shuttingDown = false
  reads : ∀ m, n ≤ m → t ∈ (ρ.state m).uvfsRequests → ∃ k, m ≤ k ∧
    ∃ r, ((ρ.state k).reads r).pc = .asleep ∨ ((ρ.state k).reads r).pc.Looks
  replies : ∀ m, n ≤ m → t ∈ (ρ.state m).uvfsReplies → ∃ k, m ≤ k ∧ t ∉ (ρ.state k).uvfsReplies

/-- The request of a client that is attended to leaves both lists, and then the client returns. -/
theorem Attended.returns {ρ : Execution step TendsSafely} (hserver : Attended ρ t n)
    (hinit : ρ.state 0 = State.init) (hfair : ∀ r, ρ.Fair (Reads r))
    (hserves : ρ.Fair (Serves t)) (hin : ((ρ.state n).clients t).pc.Inside) :
    ∃ m, n ≤ m ∧ ((ρ.state m).clients t).pc = .returned := by
  -- the request leaves `Uvfs_requests`
  obtain ⟨m, hnm, hout⟩ : ∃ m, n ≤ m ∧ t ∉ (ρ.state m).uvfsRequests := by
    by_cases ht : t ∈ (ρ.state n).uvfsRequests
    swap
    · exact ⟨n, le_refl n, ht⟩
    obtain ⟨m, hnm, hm⟩ := request_leaves (ρ := ρ.weaken fun _ _ h => h.1) hinit hfair
      (fun m hm hw => hserver.reads m hm hw.requested) ⟨ht, hserver.up n (le_refl n) ht⟩
    exact ⟨m, hnm, fun ht' => hm ⟨ht', hserver.up m hnm ht'⟩⟩
  rcases inside_until hinit hin hnm with hover | ⟨hin, -⟩
  · exact hover
  -- it leaves `Uvfs_replies`
  obtain ⟨k, hmk, hrep⟩ : ∃ k, m ≤ k ∧ t ∉ (ρ.state k).uvfsReplies := by
    by_cases ht : t ∈ (ρ.state m).uvfsReplies
    · exact hserver.replies m hnm ht
    · exact ⟨m, le_refl m, ht⟩
  rcases inside_until hinit hin hmk with ⟨j, hmj, hj⟩ | ⟨hin, hstays⟩
  · exact ⟨j, hnm.trans hmj, hj⟩
  obtain ⟨j, hkj, hj⟩ := Claimed.returns (ρ := ρ.weaken fun _ _ h => h.2) hinit hserves
    ⟨hin, not_or.mpr ⟨hstays hout, hrep⟩⟩
  exact ⟨j, hnm.trans (hmk.trans hkj), hj⟩

/-- **Every client of a server that attends to it returns.**  In every run without end that is fair
to the readers, to the client and to the calls that work on its transaction, in which picked readers
leave by a signal only as they may and no write claims a transaction out of turn or copies over
`in_use` (`TendsSafely`), a client inside `uvfs_make_request` comes out of it, however many requests
were before it, however many readers slept, and whether or not it sleeps itself. -/
theorem attended_client_returns {ρ : Execution step TendsSafely}
    (hinit : ρ.state 0 = State.init) (hfair : ∀ r, ρ.Fair (Reads r))
    (hserves : ρ.Fair (Serves t)) (hserver : Attended ρ t n)
    (hin : ((ρ.state n).clients t).pc.Inside) :
    ∃ m, n ≤ m ∧ ((ρ.state m).clients t).pc = .returned :=
  hserver.returns hinit hfair hserves hin

/-- A reader sleeps, a client wakes it and sleeps, and the server reads and answers. -/
theorem attended_client_returns_one : ∃ ρ : Execution step TendsSafely,
    ρ.state 0 = State.init ∧ (∀ r, ρ.Fair (Reads r)) ∧ ρ.Fair (Serves 0) ∧ Attended ρ 0 7 ∧
    (ρ.state 7).uvfsRequests = [0] ∧ ((ρ.state 7).clients 0).pc = .waiting ∧
    (ρ.state 7).asleep 0 = true ∧ ∃ m, 7 ≤ m ∧ ((ρ.state m).clients 0).pc = .returned := by
  obtain ⟨ρ, hinit, hcheck, hidle⟩ := Execution.exists_ofList step TendsSafely
    [.uvfsdOpen 0, .readEnter 0 sizeofUvfsRequestU, .readLock 0 none, .newTransaction .zeroed none,
      .buildRequest 0 (getattrRequest 0), .makeRequest 0 (some 0), .waitSleep 0, .readLock 0 none,
      .readCopy 0 none, .readDone 0, .readReturn 0, .writeEnter 0 16 (some ⟨0, 16⟩) (some 0),
      .writeLookup 0, .writeCopy 0 (fun _ => 0) none, .writeDone 0, .waitAnswered 0, .checkSignal 0,
      .leave 0]
    (.newTransaction .zeroed none) State.init step_newTransaction_isSome
    (fun s => ⟨fun _ hr => absurd hr (by simp [Act.readLock?]), claimsSafely_newTransaction s⟩)
    (by decide +kernel)
    (fun n s => (n = 7 → s.uvfsRequests = [0] ∧ s.shuttingDown = false ∧
        (s.clients 0).pc = .waiting ∧ s.asleep 0 = true ∧ (s.reads 0).pc = .woken) ∧
      (8 ≤ n → s.uvfsRequests = []) ∧
      (n = 18 → (s.clients 0).pc = .returned ∧ 0 < s.nTrans ∧ s.uvfsReplies = [] ∧
        ∀ f ∈ s.opened, ¬ s.Busy f))
    (by decide +kernel)
  obtain ⟨hreq, hup, hwaiting, hasleep, hwoken⟩ := (hcheck 7 (by decide)).1 rfl
  obtain ⟨hret, hlt, hrep, hidle'⟩ := (hcheck 18 (by decide)).2.2 rfl
  have hfiles := Reachable.files (reachable_state hinit 18)
  -- the run after the list
  have hrest : ∀ m, 18 ≤ m → ((ρ.state m).clients 0).pc = .returned ∧ 0 < (ρ.state m).nTrans ∧
      (ρ.state m).uvfsRequests = [] ∧ (ρ.state m).uvfsReplies = [] ∧
      (∀ r, ¬ ((ρ.state m).reads r).pc.InProgress) ∧
        ∀ w, ¬ ((ρ.state m).writes w).pc.InProgress := by
    intro m hm
    refine Execution.forever (P := fun s => (s.clients 0).pc = .returned ∧ 0 < s.nTrans ∧
      s.uvfsRequests = [] ∧ s.uvfsReplies = [] ∧ (∀ r, ¬ (s.reads r).pc.InProgress) ∧
        ∀ w, ¬ (s.writes w).pc.InProgress) hidle
      ⟨hret, hlt, (hcheck 18 (by decide)).2.1 (by decide), hrep,
        fun r hr => hidle' _ (hfiles.read r hr).2 (.inl ⟨r, (hfiles.read r hr).1, rfl, hr⟩),
        fun w hw => hidle' _ (hfiles.write w hw).2 (.inr ⟨w, (hfiles.write w hw).1, rfl, hw⟩)⟩
      ?_ hm
    rintro s s' ⟨hret, hlt, hkeep⟩ hstep
    cases step_effect hstep
    refine ⟨?_, Nat.succ_pos _, hkeep⟩
    simpa [addTransaction, Function.update_of_ne (Nat.ne_of_lt hlt)] using hret
  have hout : ∀ m, 8 ≤ m → (ρ.state m).uvfsRequests = [] := by
    intro m hm
    by_cases hle : m ≤ 18
    · exact (hcheck m hle).2.1 hm
    · exact (hrest m (by omega)).2.2.1
  have hfair : ∀ r, ρ.Fair (Reads r) := fun r => Execution.fair_of_blocked (n := 18) fun m hm =>
    not_reads_enabled (.inl ((hrest m hm).2.2.2.2.1 r))
  have hserves : ρ.Fair (Serves 0) := Execution.fair_of_blocked (n := 18) fun m hm => by
    obtain ⟨hret, _, _, _, hread, hwrite⟩ := hrest m hm
    refine not_serves_enabled (by rw [hret]; exact id) ?_
    rintro (⟨r, hr⟩ | ⟨w, hw⟩)
    · exact hread r hr.inProgress
    · exact hwrite w hw.inProgress
  have hseven : ∀ m, 7 ≤ m → 0 ∈ (ρ.state m).uvfsRequests → m = 7 := by
    intro m hm ht
    by_contra hne
    rw [hout m (by omega)] at ht
    exact absurd ht List.not_mem_nil
  have hserver : Attended ρ 0 7 := by
    refine ⟨fun m hm ht => ?_, fun m hm ht => ?_, fun m _ _ => ?_⟩
    · rw [hseven m hm ht]
      exact hup
    · rw [hseven m hm ht]
      exact ⟨7, le_refl 7, 0, .inr (.inr hwoken)⟩
    · refine ⟨max m 18, le_max_left _ _, ?_⟩
      rw [(hrest _ (le_max_right _ _)).2.2.2.1]
      exact List.not_mem_nil
  exact ⟨ρ, hinit, hfair, hserves, hserver, hreq, hwaiting, hasleep,
    attended_client_returns hinit hfair hserves hserver (by rw [hwaiting]; trivial)⟩

end Uvfs.Driver
