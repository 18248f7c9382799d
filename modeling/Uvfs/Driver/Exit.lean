import Uvfs.Driver.Sleepers

/-!
# Server exit

When the last server closes the device, `uvfsd_release` answers everything that is in the two lists
and wakes the clients, and from then on `uvfs_make_request` refuses.  Nobody is left waiting, as
long as no write works on a transaction whose client is on its way out:

* `Closed s` : with no open file both lists are empty; `Reachable.closed` has the run.
* `Settled s t` : the transaction is off the lists, no call works on it, the reply is there and the
  client is awake.  It is kept by every step (`Settled.step`).
* `Settled.progress`, `Settled.rank_step`, `Settled.completes` : the client has a step to take until
  it returns, each of its steps brings it nearer, and no other step throws it back.
* `late_reply_completes_listed_request` : a write that works on a freed transaction completes the
  next owner of the memory, which the last release then finds in a list.
* `no_client_stranded` : what this says about the releases and requests of a run.
-/

namespace Uvfs.Driver

open State Transition

variable {s s' : State} {a : Act} {t : TransId} {G : State → Act → Prop}

/-! ## The lists of a closed device -/

/-- With no open file both lists are empty. -/
def Closed (s : State) : Prop :=
  s.uvfsUseCount = 0 → s.uvfsRequests = [] ∧ s.uvfsReplies = []

theorem Closed.woke (h : Closed s) (hw : Woke s s') : Closed s' := by
  obtain ⟨reads, rfl, _⟩ := hw.exists_reads
  exact h

theorem Closed.listDelInit (h : Closed s) (t : TransId) : Closed (s.listDelInit t) := fun hc => by
  obtain ⟨hreq, hrep⟩ := h hc
  simp [State.listDelInit, hreq, hrep]

theorem Closed.readLoop (h : Closed s) {r : ReadId} (hl : ReadLoop s r s') : Closed s' := by
  cases hl with
  | shutdown => exact h
  | sleep => exact h
  | take t rest s₁ _ hreq hw =>
      obtain ⟨reads, rfl, _⟩ := hw.exists_reads
      intro hc
      exact absurd ((h hc).1.symm.trans hreq) (by simp)

/-- Every step keeps the lists of a closed device empty. -/
theorem Closed.step (hs : Sound s) (h : Closed s) (he : Effect s a s') : Closed s' := by
  cases he with
  | uvfsdOpen f _ =>
      intro hc
      have hcount := hs.files.count
      simp only at hc
      omega
  | release f _ _ hne => exact fun hc => absurd hc hne
  | releaseLast f _ _ _ => exact fun _ => ⟨rfl, rfl⟩
  | enqueued t pick s' _ hne hw =>
      exact Closed.woke (s := s.enqueue t) (fun hc => absurd hc hne) hw
  | checkUnlink t _ _ _ | withdraw t _ => exact h.listDelInit t
  | readLockFirst r pick s' _ hl => exact h.readLoop hl
  | readLockAgain r pick s' _ _ hl =>
      exact Closed.readLoop (s := { s with uvfsDriverQueue := s.uvfsDriverQueue.erase r }) h hl
  | readPassOn r pick fault s₁ _ hw =>
      have h₁ : Closed s₁ := h.woke hw
      exact h₁
  | writeClaim w t _ _ => exact h.listDelInit t
  | ioctlShutdown f cmd mounted pick s' _ hw =>
      exact Closed.woke (s := { s with shuttingDown := true }) h hw
  | _ => exact h

/-- In every reachable state a closed device has empty lists. -/
theorem Reachable.closed (h : Reachable G s) : Closed s :=
  Reach.invariant_of (I := Sound) (fun _ hr => Reachable.sound hr) (fun _ => ⟨rfl, rfl⟩)
    (fun _ _ _ hs hf _ he => hf.step hs (step_effect he)) h

/-- With no open file, what is enqueued is answered or withdrawn. -/
theorem answered_of_closed (hs : Sound s) (hc : Closed s) (h : Flags s t)
    (h₀ : s.uvfsUseCount = 0) (hlog : t ∈ s.enqueueLog) (hfreed : (s.clients t).pc ≠ .freed)
    (hwd : (s.clients t).withdrawn = false) : (s.trans t).answered ≠ 0 := by
  intro hans
  obtain ⟨hreq, hrep⟩ := hc h₀
  rcases h.pending hlog hfreed hwd hans with (hm | hm) | hw
  · exact absurd hm (hreq ▸ List.not_mem_nil)
  · exact absurd hm (hrep ▸ List.not_mem_nil)
  · exact hs.not_held_of_closed h₀ (.inr hw)

/-! ## Settled transactions -/

/-- The error a caller reads is the one that was set. -/
theorem Transaction.error_setError (tr : Transaction) {e : ℤ} (h : -2 ^ 31 ≤ e) (h' : e < 2 ^ 31) :
    (tr.setError e).error = e := by
  rw [Transaction.error, Transaction.setError, Mem.word_setWord, BitVec.toInt_ofInt]
  rw [Int.bmod_eq_of_le (by omega) (by omega)]

/-- The transaction is off the lists, nobody works on it and its client is awake; until the client
leaves it is answered with `-EIO`, and the client leaves with that or, when it was killed, with
`-ERESTARTSYS`. -/
structure Settled (s : State) (t : TransId) : Prop where
  lt : t < s.nTrans
  awake : s.asleep t = false
  listed : ¬ s.Listed t
  held : ¬ s.Held t
  started : ¬ (s.clients t).pc.HalfStarted
  answered : (s.clients t).pc.Enqueued → (s.trans t).answered ≠ 0 ∧ (s.trans t).inUse = 0 ∧
    (s.clients t).withdrawn = false ∧ (s.trans t).error = eio
  outcome : (s.clients t).pc = .leaving ∨ (s.clients t).pc = .returned →
    (s.trans t).error = eio ∨
      (s.trans t).error = erestartsys ∧ (s.clients t).signalPending = true

namespace Settled

theorem frame (h : Settled s t) (hf : Frame s s' t) (hn : s.nTrans ≤ s'.nTrans) : Settled s' t where
  lt := lt_of_lt_of_le h.lt hn
  awake := hf.asleep.trans h.awake
  listed := hf.listed.not.mpr h.listed
  held := hf.held.not.mpr h.held
  started := by
    rw [hf.client]
    exact h.started
  answered := by
    rw [hf.client, hf.trans]
    exact h.answered
  outcome := by
    rw [hf.client, hf.trans]
    exact h.outcome

/-- The client moves on without leaving. -/
theorem setClient (h : Settled s t) {c : Client} (started : ¬ c.pc.HalfStarted)
    (enqueued : c.pc.Enqueued → (s.clients t).pc.Enqueued)
    (kept : c.withdrawn = (s.clients t).withdrawn)
    (outcome : c.pc = .leaving ∨ c.pc = .returned → (s.trans t).error = eio ∨
      (s.trans t).error = erestartsys ∧ c.signalPending = true) : Settled (s.setClient t c) t := by
  have hc : (s.setClient t c).clients t = c := Function.update_self ..
  refine ⟨h.lt, h.awake, h.listed, h.held, ?_, ?_, ?_⟩ <;> rw [hc]
  · exact started
  · intro hp
    obtain ⟨hans, huse, hwd, herr⟩ := h.answered (enqueued hp)
    exact ⟨hans, huse, kept.trans hwd, herr⟩
  · exact outcome

/-- The interrupted client withdraws. -/
theorem unlinkAborted (h : Settled s t) (hsig : (s.clients t).signalPending = true) :
    Settled (s.unlinkAborted t) t := by
  have hc : (s.unlinkAborted t).clients t =
      { s.clients t with pc := .leaving, withdrawn := true } :=
    Function.update_self ..
  have ht : (s.unlinkAborted t).trans t = (s.trans t).setError erestartsys :=
    Function.update_self ..
  refine ⟨h.lt, h.awake, fun hl => h.listed ?_, h.held, by rw [hc]; exact id, ?_,
    fun _ => .inr ⟨?_, ?_⟩⟩
  · exact hl.imp List.mem_of_mem_erase List.mem_of_mem_erase
  · rw [hc]
    exact fun hp => hp.elim
  · rw [ht]
    exact Transaction.error_setError _ (by decide) (by decide)
  · rw [hc]
    exact hsig

/-- Nobody sleeps with the reply there and `in_use` clear. -/
theorem not_mustWait (h : Settled s t) : ¬ s.MustWait t := by
  rintro (⟨hp, hans, _⟩ | ⟨hp, huse⟩)
  · exact (h.answered (by rw [hp]; trivial)).1 hans
  · exact huse (h.answered (by rw [hp]; trivial)).2.1

/-- A wake-up on the queue of the client. -/
theorem wakeUpIf (h : Settled s t) (c : Prop) [Decidable c] : Settled (s.wakeUpIf c t) t := by
  refine ⟨h.lt, ?_, h.listed, h.held, h.started, h.answered, h.outcome⟩
  by_cases hc : c
  · exact wakeUpIf_asleep hc
  · rw [wakeUpIf_asleep_of_not hc]
    exact h.awake

/-- Every step keeps a settled transaction settled. -/
theorem step (hs : Sound s) (ho : Owned s) (hfl : Flags s t) (h : Settled s t)
    (he : Effect s a s') : Settled s' t := by
  by_cases ht : Touches s a t
  swap
  · exact h.frame (he.frame hs.files ht) he.counters_le.1
  cases he with
  | release f _ _ _ | releaseLast f _ _ _ => exact absurd ht.2 h.listed
  | newTransaction junk old _ =>
      exact absurd h.lt (by rw [show t = s.nTrans from ht]; exact lt_irrefl _)
  | buildRequest t' req hp _ | refused t' pick hp _ | enqueued t' pick s' hp _ _ =>
      obtain rfl : t = t' := ht
      exact absurd (by rw [hp]; trivial) h.started
  | kill t' hp =>
      obtain rfl : t = t' := ht
      exact (h.wakeUpIf _).setClient h.started id rfl
        fun hp => (h.outcome hp).imp_right fun hr => ⟨hr.1, rfl⟩
  | waitSleep t' _ hw =>
      obtain rfl : t = t' := ht
      exact absurd hw h.not_mustWait
  | waitAnswered t' hp _ | waitSignal t' hp _ | waitUnused t' hp _ =>
      obtain rfl : t = t' := ht
      exact h.setClient id (fun _ => by rw [hp]; trivial) rfl
        fun hc => by rcases hc with hc | hc <;> cases hc
  | checkAbort t' hp _ huse =>
      obtain rfl : t = t' := ht
      exact absurd (h.answered (by rw [hp]; trivial)).2.1 huse
  | checkUnlink t' _ hsig _ =>
      obtain rfl : t = t' := ht
      exact h.unlinkAborted hsig
  | checkLeave t' hp _ =>
      obtain rfl : t = t' := ht
      exact h.setClient id (fun hc => hc.elim) rfl
        fun _ => .inl (h.answered (by rw [hp]; trivial)).2.2.2
  | withdraw t' hp =>
      obtain rfl : t = t' := ht
      exact h.unlinkAborted (hfl.aborting (.inr hp))
  | leave t' hp =>
      obtain rfl : t = t' := ht
      exact h.setClient id (fun hc => hc.elim) rfl fun _ => h.outcome (.inl hp)
  | kfree t' hp =>
      obtain rfl : t = t' := ht
      exact h.setClient id (fun hc => hc.elim) rfl fun hc => by rcases hc with hc | hc <;> cases hc
  | reuse t' junk hre =>
      obtain rfl : t = t' := ht
      refine ⟨h.lt, h.awake, h.listed, h.held, h.started, fun hc => ?_, fun hc => ?_⟩
      · exact absurd hc (by simp only [State.setTrans, hre.1]; exact id)
      · rcases hc with hc | hc <;> cases hre.1.symm.trans hc
  | readLockFirst r pick s' _ _ | readLockAgain r pick s' _ _ _ | readLockSignal r pick _ _ =>
      exact absurd (.inl (List.mem_of_head? ht)) h.listed
  | readDone r t' fault hr m hm =>
      obtain ⟨rfl, _⟩ := ho.of_readDone hr hm ht
      exact absurd (.inl ⟨r, by rw [hr]; rfl⟩) h.held
  | writeMiss w _ hfind | writeClaim w t' _ hfind =>
      exact absurd (.inr (List.mem_of_find?_eq_some ht)) h.listed
  | writeCopy w data fault t' hw m hm =>
      have huses : (s.writes w).pc.Uses t' := by rw [hw]; rfl
      obtain ⟨rfl, _⟩ := ho.of_write huses hm ht
      exact absurd (.inr ⟨w, huses⟩) h.held
  | writeDone w t' fault hw m hm =>
      have huses : (s.writes w).pc.Uses t' := by rw [hw]; rfl
      obtain ⟨rfl, _⟩ := ho.of_write huses hm ht
      exact absurd (.inr ⟨w, huses⟩) h.held
  | _ => exact ht.elim

end Settled

/-! ## Completion -/

/-- How many steps of its own a client can still take inside `uvfs_make_request`. -/
def ClientPc.rank : ClientPc → ℕ
  | .created | .built => 6
  | .waiting => 5
  | .checking => 4
  | .aborting => 3
  | .aborted => 2
  | .leaving => 1
  | .returned | .freed => 0

/-- A step that the client of `t` takes inside `uvfs_make_request`, past the enqueueing. -/
def Act.Own (t : TransId) : Act → Prop
  | .waitSleep t' | .waitAnswered t' | .waitSignal t' | .checkSignal t' | .waitUnused t'
  | .withdraw t' | .leave t' => t' = t
  | _ => False

theorem Act.Own.touches (h : a.Own t) : Touches s a t := by
  cases a with
  | waitSleep t' | waitAnswered t' | waitSignal t' | checkSignal t' | waitUnused t' | withdraw t'
  | leave t' => exact Eq.symm h
  | _ => exact h.elim

/-- Clients claim and copy nothing. -/
theorem Act.Own.claimsSafely (h : a.Own t) : ClaimsSafely s a := by
  cases a with
  | writeLookup w | writeCopy w data fault => exact h.elim
  | _ => exact .of_other rfl rfl

namespace Settled

/-- Until it returns, the client has a step to take. -/
theorem progress (h : Settled s t) (hp : (s.clients t).pc.rank ≠ 0) :
    ∃ a s', a.Own t ∧ Driver.step s a = some s' := by
  cases hpc : (s.clients t).pc with
  | created | built => exact absurd (by rw [hpc]; trivial) h.started
  | waiting =>
      have hans := (h.answered (by rw [hpc]; trivial)).1
      exact ⟨.waitAnswered t, _, rfl, if_pos ⟨hpc, h.awake, hans⟩⟩
  | checking =>
      obtain ⟨_, huse, _⟩ := h.answered (by rw [hpc]; trivial)
      cases hsig : (s.clients t).signalPending with
      | true => exact ⟨.checkSignal t, s.unlinkAborted t, rfl, by
          simp [Driver.step, State.checkSignal, hpc, hsig, huse]⟩
      | false => exact ⟨.checkSignal t, s.setClientPc t .leaving, rfl, by
          simp [Driver.step, State.checkSignal, hpc, hsig]⟩
  | aborting =>
      have huse := (h.answered (by rw [hpc]; trivial)).2.1
      exact ⟨.waitUnused t, _, rfl, if_pos ⟨hpc, h.awake, huse⟩⟩
  | aborted => exact ⟨.withdraw t, _, rfl, if_pos hpc⟩
  | leaving => exact ⟨.leave t, _, rfl, if_pos hpc⟩
  | returned | freed => exact absurd (by rw [hpc]; rfl) hp

/-- A step of the client brings it nearer to its return, and no step throws it back. -/
theorem rank_step (hs : Sound s) (h : Settled s t) (he : Effect s a s') :
    (s'.clients t).pc.rank ≤ (s.clients t).pc.rank ∧
      (a.Own t → (s'.clients t).pc.rank < (s.clients t).pc.rank) := by
  by_cases ht : Touches s a t
  swap
  · rw [(he.frame hs.files ht).client]
    exact ⟨le_refl _, fun ho => absurd ho.touches ht⟩
  cases he with
  | release f _ _ _ | releaseLast f _ _ _ => exact absurd ht.2 h.listed
  | newTransaction junk old _ =>
      exact absurd h.lt (by rw [show t = s.nTrans from ht]; exact lt_irrefl _)
  | buildRequest t' req hp _ | refused t' pick hp _ | enqueued t' pick s' hp _ _ =>
      obtain rfl : t = t' := ht
      exact absurd (by rw [hp]; trivial) h.started
  | kill t' _ =>
      obtain rfl : t = t' := ht
      simp [State.setClient, State.wakeUpIf, Act.Own]
  | waitSleep t' _ hw =>
      obtain rfl : t = t' := ht
      exact absurd hw h.not_mustWait
  | waitAnswered t' hp _ | waitSignal t' hp _ | checkLeave t' hp _ | waitUnused t' hp _
  | leave t' hp | kfree t' hp =>
      obtain rfl : t = t' := ht
      simp [State.setClientPc, State.setClient, hp, ClientPc.rank, Act.Own]
  | checkAbort t' hp _ _ =>
      obtain rfl : t = t' := ht
      simp [State.setClientPc, State.setClient, State.setTrans, hp, ClientPc.rank]
  | checkUnlink t' hp _ _ | withdraw t' hp =>
      obtain rfl : t = t' := ht
      simp [State.unlinkAborted, State.setClient, hp, ClientPc.rank]
  | reuse t' junk _ => exact ⟨le_refl _, fun ho => ho.elim⟩
  | readLockFirst r pick s' _ _ | readLockAgain r pick s' _ _ _ | readLockSignal r pick _ _ =>
      exact absurd (.inl (List.mem_of_head? ht)) h.listed
  | readDone | writeCopy | writeDone => exact ⟨le_refl _, fun ho => ho.elim⟩
  | writeMiss w _ _ | writeClaim w t' _ _ =>
      exact absurd (.inr (List.mem_of_find?_eq_some ht)) h.listed
  | _ => exact ht.elim

/-- The steps of the client alone take it to its return. -/
theorem completes (hr : Reachable ClaimsSafely s) (h : Settled s t) :
    ∃ s', Reach Driver.step (fun _ a => a.Own t) s s' ∧ (s'.clients t).pc.rank = 0 := by
  induction hn : (s.clients t).pc.rank using Nat.strong_induction_on generalizing s with
  | _ n ih =>
      by_cases hzero : (s.clients t).pc.rank = 0
      · exact ⟨s, .refl, hzero⟩
      obtain ⟨a, s₁, hown, hstep⟩ := h.progress hzero
      have hr₁ : Reachable ClaimsSafely s₁ := hr.tail hown.claimsSafely hstep
      have h₁ := h.step (Reachable.sound hr) (Reachable.owned hr) (Reachable.flags hr t)
        (step_effect hstep)
      have hlt := (h.rank_step (Reachable.sound hr) (step_effect hstep)).2 hown
      obtain ⟨s', hreach, hend⟩ := ih _ (hn ▸ hlt) hr₁ h₁ rfl
      have hfirst : Reach Driver.step (fun _ a => a.Own t) s s₁ := Reach.refl.tail hown hstep
      exact ⟨s', hfirst.trans hreach, hend⟩

end Settled

/-- The client of `t` is on its way out of `uvfs_make_request`: until it returns it has a step to
take; no step of anybody throws it back, and each step of its own brings it nearer; its steps alone
take it to its return; and it leaves with `-EIO`, or with `-ERESTARTSYS` when it was killed. -/
structure Completing (s : State) (t : TransId) : Prop where
  progress : (s.clients t).pc.rank ≠ 0 → ∃ a s', a.Own t ∧ step s a = some s'
  rank : ∀ a s', step s a = some s' → (s'.clients t).pc.rank ≤ (s.clients t).pc.rank ∧
    (a.Own t → (s'.clients t).pc.rank < (s.clients t).pc.rank)
  completes : ∃ s', Reach step (fun _ a => a.Own t) s s' ∧ (s'.clients t).pc.rank = 0
  outcome : (s.clients t).pc = .leaving ∨ (s.clients t).pc = .returned →
    (s.trans t).error = eio ∨
      (s.trans t).error = erestartsys ∧ (s.clients t).signalPending = true

/-- From a settled state on, the client completes. -/
theorem Settled.completing (hr : Reachable ClaimsSafely s) (h : Settled s t)
    (hrun : Reach Driver.step ClaimsSafely s s') : Completing s' t := by
  have hr' : Reachable ClaimsSafely s' := Reach.trans hr hrun
  have h' : Settled s' t := by
    refine Reach.invariant_of (I := Reachable ClaimsSafely) (P := fun s₁ => Settled s₁ t)
      (fun s₁ hr₁ => Reach.trans hr hr₁) h ?_ hrun
    intro s₁ a s₂ hr₁ h₁ _ he
    exact h₁.step (Reachable.sound hr₁) (Reachable.owned hr₁) (Reachable.flags hr₁ t)
      (step_effect he)
  exact ⟨h'.progress, fun a s₂ he => h'.rank_step (Reachable.sound hr') (step_effect he),
    h'.completes hr', h'.outcome⟩

/-- The last release settles everything it finds in the lists. -/
theorem settled_of_release (hr : Reachable ClaimsSafely s) {f : FileId}
    (hstep : step s (.uvfsdRelease f) = some s') (hc : s'.uvfsUseCount = 0) (hl : s.Listed t) :
    Settled s' t := by
  have hr' : Reachable ClaimsSafely s' := Reach.tail hr (.of_other rfl rfl) hstep
  have hs := Reachable.sound hr
  have hheld : ¬ s'.Held t := (Reachable.sound hr').not_held_of_closed hc
  obtain ⟨henq, _⟩ := (Reachable.flags hr t).listed hl
  have hfreed : (s.clients t).pc ≠ .freed := fun hp => by
    rw [hp] at henq
    exact henq
  have hwd : (s.clients t).withdrawn = false := by
    cases hw : (s.clients t).withdrawn with
    | false => rfl
    | true => exact absurd henq ((Reachable.flags hr t).withdrawn hw).not_enqueued
  have hinuse : (s'.trans t).inUse ≠ 0 → (s'.clients t).pc ≠ .freed → s'.Held t :=
    fun hu hf => (Reachable.flags hr' t).inUse hf hu
  cases step_effect hstep with
  | release _ _ _ hne => exact absurd hc hne
  | releaseLast _ _ _ _ =>
      have htrans := drain_trans_of_listed
        (s := { s with opened := s.opened.erase f, uvfsUseCount := s.uvfsUseCount - 1 }) hs.nodup hl
      have hawake := drain_asleep_of_listed
        (s := { s with opened := s.opened.erase f, uvfsUseCount := s.uvfsUseCount - 1 }) hl
      refine ⟨hs.logged.lt t hfreed, hawake, ?_, hheld, henq.not_halfStarted,
        fun _ => ⟨?_, ?_, hwd, ?_⟩, fun hp => ?_⟩
      · rintro (hm | hm) <;> exact absurd hm List.not_mem_nil
      · rw [htrans]
        exact (by decide : (1 : Word) ≠ 0)
      · exact not_not.mp fun hu => hheld (hinuse hu hfreed)
      · rw [htrans]
        exact Transaction.error_setError _ (by decide) (by decide)
      · exact absurd henq (by rcases hp with hp | hp <;> exact hp ▸ id)

/-- A refused request is settled. -/
theorem settled_of_refused (hs : Sound s) (hw : Waiter s t) (hp : (s.clients t).pc = .built) :
    Settled ((s.setTrans t ((s.trans t).setError eio)).setClientPc t .leaving) t := by
  have hhalf : (s.clients t).pc.HalfStarted := by rw [hp]; trivial
  have hlog : t ∉ s.enqueueLog := fun hm => (hs.logged.log t hm).2 hhalf
  refine ⟨hs.logged.lt t (by rw [hp]; decide), hw.awake (by rw [hp]; decide) (by rw [hp]; decide),
    fun hl => hlog (hs.enqueued_of_listed hl),
    fun hh => hlog (hs.enqueued_of_held hh), ?_, fun hc => ?_, fun _ => .inl ?_⟩
  · simp [State.setClientPc, State.setClient, ClientPc.HalfStarted]
  · simp [State.setClientPc, State.setClient, ClientPc.Enqueued] at hc
  · simp only [State.setClientPc, State.setClient, State.setTrans, Function.update_self]
    exact Transaction.error_setError _ (by decide) (by decide)

/-! ## The releases and requests of a run -/

/-- A killed client withdraws and frees its transaction while a write that has claimed it in between
is about to copy.  `kmalloc` gives the memory to the next client, which enqueues it; the write
answers it, and the client, which nobody has killed, returns as if its request had succeeded.  When
the last server now closes the device, the transaction is still in a list. -/
theorem late_reply_completes_listed_request :
    ∃ s s', Reachable (fun s a => RepliesToReads s a ∧ RepliesOnce s a) s ∧ s.Listed 1 ∧
      (s.clients 1).pc = .returned ∧ (s.clients 1).signalPending = false ∧
      (s.trans 1).error = 0 ∧ step s (.uvfsdRelease 0) = some s' ∧ s'.uvfsUseCount = 0 := by
  obtain ⟨s, hs, hl, hpc, hsig, herr, hrel⟩ :=
    Reach.of_check step (fun s a => RepliesToReads s a ∧ RepliesOnce s a) State.init lateReplyRun
    (fun s => s.Listed 1 ∧ (s.clients 1).pc = .returned ∧ (s.clients 1).signalPending = false ∧
      (s.trans 1).error = 0 ∧
      (step s (.uvfsdRelease 0)).any (fun s' : State => decide (s'.uvfsUseCount = 0)) = true)
    (by decide +kernel)
  obtain ⟨s', hstep, hc⟩ := (Option.any_eq_true _ _).mp hrel
  exact ⟨s, s', hs, hl, hpc, hsig, herr, hstep, of_decide_eq_true hc⟩

/-- **No client is stranded by a server exit.**  In the runs in which no write claims a transaction
out of turn or copies over `in_use`: with no open file both lists are empty and every client inside
`uvfs_make_request` is answered or has withdrawn.  The clients of the transactions that the release
which closes the device finds in a list are inside `uvfs_make_request`, and from then on they
complete; so does, from its refusal on, the client of each request that is made while the device is
closed. -/
theorem no_client_stranded (h : Reachable ClaimsSafely s) :
    (s.uvfsUseCount = 0 → s.uvfsRequests = [] ∧ s.uvfsReplies = [] ∧
      ∀ t ∈ s.enqueueLog, (s.clients t).pc.Enqueued ∨ (s.clients t).pc = .leaving →
        (s.clients t).withdrawn = false → (s.trans t).answered ≠ 0) ∧
    (∀ f s', step s (.uvfsdRelease f) = some s' → s'.uvfsUseCount = 0 → ∀ t, s.Listed t →
      (s.clients t).pc.Enqueued ∧ ∀ s₂, Reach step ClaimsSafely s' s₂ → Completing s₂ t) ∧
    ∀ t pick s', step s (.makeRequest t pick) = some s' → s.uvfsUseCount = 0 →
      ∀ s₂, Reach step ClaimsSafely s' s₂ → Completing s₂ t := by
  have hs := Reachable.sound h
  refine ⟨fun h₀ => ?_, ?_, ?_⟩
  · have hc := Reachable.closed h
    refine ⟨(hc h₀).1, (hc h₀).2, fun t hlog hp hwd => ?_⟩
    refine answered_of_closed hs hc (Reachable.flags h t) h₀ hlog ?_ hwd
    rintro hf
    rw [hf] at hp
    exact hp.elim id (by decide)
  · intro f s' hstep hc t hl
    refine ⟨((Reachable.flags h t).listed hl).1, fun s₂ hrun => ?_⟩
    exact (settled_of_release h hstep hc hl).completing
      (Reach.tail h (.of_other rfl rfl) hstep) hrun
  · intro t pick s' hstep h₀ s₂ hrun
    have hsettled : Settled s' t := by
      cases step_effect hstep with
      | refused _ _ hp _ => exact settled_of_refused hs (Reachable.waiter h t) hp
      | enqueued _ _ _ _ hne _ => exact absurd h₀ hne
    exact hsettled.completing (Reach.tail h (.of_other rfl rfl) hstep) hrun

/-- A request that a read has taken is in `Uvfs_replies` when the only server closes the device, and
its client sleeps. -/
theorem no_client_stranded_one : ∃ s s', Reachable ClaimsSafely s ∧ s.asleep 0 = true ∧
    step s (.uvfsdRelease 0) = some s' ∧ s'.uvfsUseCount = 0 ∧ s.Listed 0 ∧ Completing s' 0 := by
  obtain ⟨s, hs, hp⟩ := Reach.of_check step ClaimsSafely State.init
    [.uvfsdOpen 0, .newTransaction .zeroed none, .buildRequest 0 (getattrRequest 0),
      .makeRequest 0 none, .readEnter 0 sizeofUvfsRequestU, .readLock 0 none, .readCopy 0 none,
      .readDone 0, .readReturn 0, .waitSleep 0]
    (fun s => s.asleep 0 = true ∧ s.Listed 0 ∧
      (step s (.uvfsdRelease 0)).any (fun s' : State => decide (s'.uvfsUseCount = 0)) = true)
    (by decide +kernel)
  obtain ⟨ha, hl, hrel⟩ := hp
  obtain ⟨s', hstep, hc⟩ := (Option.any_eq_true _ _).mp hrel
  have hc := of_decide_eq_true hc
  exact ⟨s, s', hs, ha, hstep, hc, hl, ((no_client_stranded hs).2.1 0 s' hstep hc 0 hl).2 s' .refl⟩

end Uvfs.Driver
