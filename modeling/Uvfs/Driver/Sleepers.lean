import Uvfs.Driver.Lifetime

/-!
# The clients that sleep

A client sleeps on the `fs_queue` of its transaction, in one of its two waits, and gets on only when
somebody calls `wake_up` on that queue or, in the first wait, sends it a signal.  Whoever makes the
condition of a wait true has to wake the client: `uvfsd_release` and `uvfsd_write` do it when they
answer, `uvfsd_write` and `uvfsd_read` when they clear `in_use`, the latter only if it finds `abort`
set.

* `Waiter s t` : a client that sleeps has to wait, and one that waits for `in_use` has set `abort`.
* `Waiter.step` : every step keeps this, because each step that ends a wait wakes.
* `no_client_wakeup_lost` : what it says of the two waits, for the runs in which no write claims a
  transaction out of turn or copies over `in_use`.
-/

namespace Uvfs.Driver

open State Transition

variable {s s' : State} {a : Act} {t : TransId}

/-- A client that sleeps has to wait, and one that waits for `in_use` to be cleared has told the
reader or writer so. -/
structure Waiter (s : State) (t : TransId) : Prop where
  mustWait : s.asleep t = true → s.MustWait t
  abort : (s.clients t).pc = .aborting → (s.trans t).abort ≠ 0

namespace Waiter

theorem init (t : TransId) : Waiter State.init t where
  mustWait h := by cases h
  abort h := by cases h

theorem frame (h : Waiter s t) (hf : Frame s s' t) : Waiter s' t where
  mustWait ha := by
    rw [hf.asleep] at ha
    unfold State.MustWait
    rw [hf.client, hf.trans]
    exact h.mustWait ha
  abort := by
    rw [hf.client, hf.trans]
    exact h.abort

/-- A client that is awake, and not in its second wait. -/
theorem of_awake (ha : s.asleep t = false) (hp : (s.clients t).pc ≠ .aborting) : Waiter s t where
  mustWait h := absurd (ha.symm.trans h) (by decide)
  abort h := absurd h hp

/-- A client sleeps in no place but its two waits. -/
theorem awake (h : Waiter s t) (hp : (s.clients t).pc ≠ .waiting)
    (hp' : (s.clients t).pc ≠ .aborting) : s.asleep t = false :=
  Bool.eq_false_iff.mpr fun ha => (h.mustWait ha).elim (fun hw => hp hw.1) fun hw => hp' hw.1

/-- A client that is awake has moved to a place outside its second wait. -/
theorem setClientPc (ha : s.asleep t = false) {pc : ClientPc} (hp : pc ≠ .aborting) :
    Waiter (s.setClientPc t pc) t :=
  of_awake ha (by simpa [State.setClientPc, State.setClient] using hp)

/-- `in_use` is set, and `abort` stays. -/
theorem setInUse (h : Waiter s t) : Waiter (s.setTrans t { s.trans t with inUse := 1 }) t := by
  have htr : (s.setTrans t { s.trans t with inUse := 1 }).trans t =
      { s.trans t with inUse := 1 } := Function.update_self ..
  refine ⟨fun ha => ?_, by rw [htr]; exact h.abort⟩
  unfold State.MustWait
  rw [htr]
  exact (h.mustWait ha).imp_right fun hw => ⟨hw.1, (by decide : (1 : Word) ≠ 0)⟩

/-- A read takes the transaction. -/
theorem take (h : Waiter s t) {rest : List TransId} {s₁ : State} {r : ReadId}
    (hw : Woke (s.handOut t rest) s₁) : Waiter (s₁.beginReadCopy r t) t := by
  obtain ⟨reads, rfl, _⟩ := hw.exists_reads
  have h₁ := h.setInUse
  exact ⟨h₁.mustWait, h₁.abort⟩

/-- The loop of `uvfsd_read` at the head of `Uvfs_requests`. -/
theorem readLoop (h : Waiter s t) {r : ReadId} (ht : s.uvfsRequests.head? = some t)
    (hr : ¬ (s.reads r).pc.Uses t) (hl : ReadLoop s r s') : Waiter s' t := by
  cases hl with
  | shutdown => exact h.frame (Frame.setRead (iff_of_false id hr))
  | sleep _ hreq =>
      rw [hreq] at ht
      cases ht
  | take t' rest s₁ _ hreq hw =>
      obtain rfl : t' = t := by
        rw [hreq] at ht
        exact Option.some.inj ht
      exact h.take hw

/-- A read clears `in_use`: a client that waits for it has set `abort`, so it is woken. -/
theorem clearInUse (h : Waiter s t) : Waiter (s.clearInUse t) t := by
  have htr : (s.clearInUse t).trans t = { s.trans t with inUse := 0 } := Function.update_self ..
  refine ⟨fun ha => ?_, by rw [htr]; exact h.abort⟩
  by_cases hab : (s.trans t).abort ≠ 0
  · have hawake : (s.clearInUse t).asleep t = false := wakeUpIf_asleep hab
    exact absurd (hawake.symm.trans ha) (by decide)
  · have hkept : (s.clearInUse t).asleep = s.asleep := wakeUpIf_asleep_of_not hab
    rcases h.mustWait (hkept ▸ ha) with hw | hw
    · refine .inl ⟨hw.1, ?_, hw.2.2⟩
      rw [htr]
      exact hw.2.1
    · exact absurd (h.abort hw.1) hab

/-- The reply is copied and does not reach `in_use`. -/
theorem copyFromUser (h : Waiter s t) {n : ℕ} (hn : n ≤ Transaction.offsetofInUse) (data : Mem) :
    Waiter (s.setTrans t ((s.trans t).copyFromUser n data)) t := by
  have htr : (s.setTrans t ((s.trans t).copyFromUser n data)).trans t =
      (s.trans t).copyFromUser n data := Function.update_self ..
  have huse : ((s.trans t).copyFromUser n data).inUse = (s.trans t).inUse :=
    Word.overlay_of_le hn
  have habort : ((s.trans t).copyFromUser n data).abort = (s.trans t).abort :=
    Word.overlay_of_le (hn.trans (by decide))
  have hans : ((s.trans t).copyFromUser n data).answered = (s.trans t).answered :=
    Word.overlay_of_le (hn.trans (by decide))
  refine ⟨fun ha => ?_, by rw [htr, habort]; exact h.abort⟩
  unfold State.MustWait
  rw [htr, huse, hans]
  exact h.mustWait ha

/-- **Every step that meets the guard keeps this**: one that ends a wait wakes the client. -/
theorem step (hs : Sound s) (ho : Owned s) (h : Waiter s t) (hG : ClaimsSafely s a)
    (he : Effect s a s') : Waiter s' t := by
  by_cases ht : Touches s a t
  swap
  · exact h.frame (he.frame hs.files ht)
  cases he with
  | release f _ _ hne => exact absurd ht.1 hne
  | releaseLast f _ _ _ =>
      have hl : State.Listed
        { s with opened := s.opened.erase f, uvfsUseCount := s.uvfsUseCount - 1 } t := ht.2
      refine ⟨fun ha => absurd ((drain_asleep_of_listed hl).symm.trans ha) (by decide),
        fun hp => ?_⟩
      have htr := drain_trans_of_listed
        (s := { s with opened := s.opened.erase f, uvfsUseCount := s.uvfsUseCount - 1 }) hs.nodup hl
      rw [htr]
      exact h.abort hp
  | newTransaction junk old _ =>
      obtain rfl : t = s.nTrans := ht
      exact of_awake (Function.update_self ..) (by simp [addTransaction])
  | buildRequest t' req hp _ =>
      obtain rfl : t = t' := ht
      have ha := h.awake (by rw [hp]; decide) (by rw [hp]; decide)
      exact of_awake ha (by simp [State.setClient])
  | refused t' pick hp _ | checkLeave t' hp _ | leave t' hp | kfree t' hp =>
      obtain rfl : t = t' := ht
      have ha := h.awake (by rw [hp]; decide) (by rw [hp]; decide)
      exact of_awake ha (by simp [State.setClientPc, State.setClient])
  | enqueued t' pick s' hp _ hw =>
      obtain rfl : t = t' := ht
      have ha := h.awake (by rw [hp]; decide) (by rw [hp]; decide)
      have h₁ : Waiter (s.enqueue t) t :=
        of_awake ha (by simp [State.enqueue, State.setClientPc, State.setClient])
      exact h₁.frame (Frame.woke hw)
  | kill t' _ =>
      obtain rfl : t = t' := ht
      have hc : ((s.wakeUpIf ((s.clients t).pc = .waiting) t).setClient t
          { s.clients t with signalPending := true }).clients t =
          { s.clients t with signalPending := true } := Function.update_self ..
      refine ⟨fun ha => ?_, by rw [hc]; exact h.abort⟩
      unfold State.MustWait
      rw [hc]
      -- in the first wait the signal wakes the client, in the second it has to wait as before
      by_cases hp : (s.clients t).pc = .waiting
      · exact absurd ((wakeUpIf_asleep hp).symm.trans ha) (by decide)
      · have hold : s.asleep t = true := (congrFun (wakeUpIf_asleep_of_not hp) t).symm.trans ha
        exact .inr ((h.mustWait hold).resolve_left fun hw => hp hw.1)
  | waitSleep t' _ hw =>
      obtain rfl : t = t' := ht
      exact ⟨fun _ => hw, h.abort⟩
  | waitAnswered t' _ _ ha | waitSignal t' _ _ ha | waitUnused t' _ _ ha =>
      obtain rfl : t = t' := ht
      exact setClientPc ha (by decide)
  | checkAbort t' hp _ _ =>
      obtain rfl : t = t' := ht
      have ha := h.awake (by rw [hp]; decide) (by rw [hp]; decide)
      refine ⟨fun ha' => absurd (ha.symm.trans ha') (by decide), fun _ => ?_⟩
      simp [State.setClientPc, State.setClient, State.setTrans]
  | checkUnlink t' hp _ _ | withdraw t' hp =>
      obtain rfl : t = t' := ht
      have ha := h.awake (by rw [hp]; decide) (by rw [hp]; decide)
      exact of_awake ha (by simp [State.unlinkAborted, State.setClient])
  | reuse t' junk hre =>
      obtain rfl : t = t' := ht
      have ha := h.awake (by rw [hre.1]; decide) (by rw [hre.1]; decide)
      exact of_awake ha (by simp [State.setTrans, hre.1])
  | readLockFirst r pick s' hr hl => exact h.readLoop ht (hr ▸ id) hl
  | readLockAgain r pick s' hr _ hl =>
      have hnot : ¬ (s.reads r).pc.Uses t := by rcases hr with hr | hr <;> exact hr ▸ id
      exact readLoop (s := { s with uvfsDriverQueue := s.uvfsDriverQueue.erase r })
        ⟨h.mustWait, h.abort⟩ ht hnot hl
  | readLockSignal r pick _ _ => exact ⟨h.mustWait, h.abort⟩
  | readDone r t' fault hr m hm =>
      obtain ⟨rfl, rfl⟩ := ho.of_readDone hr hm ht
      have h₁ := h.clearInUse
      exact ⟨h₁.mustWait, h₁.abort⟩
  | writeMiss w _ hfind => exact absurd (hfind.symm.trans ht) (by simp)
  | writeClaim w t' _ hfind =>
      obtain rfl : t = t' := Option.some.inj (Eq.trans (Eq.symm ht) hfind)
      have h₁ := h.setInUse
      exact ⟨h₁.mustWait, h₁.abort⟩
  | writeCopy w data fault t' hw m hm =>
      obtain ⟨rfl, rfl⟩ := ho.of_write (by rw [hw]; rfl) hm ht
      have h₁ := h.copyFromUser (hG.2 _ rfl) (userBytes data fault)
      exact ⟨h₁.mustWait, h₁.abort⟩
  | writeDone w t' fault hw m hm =>
      obtain ⟨rfl, rfl⟩ := ho.of_write (by rw [hw]; rfl) hm ht
      refine ⟨fun ha => ?_, fun hp => ?_⟩
      · simp [answer, wakeUp, setWritePc, setWrite] at ha
      · simp only [answer, wakeUp, setWritePc, setWrite, setTrans, Function.update_self]
        exact h.abort hp
  | _ => exact ht.elim

end Waiter

/-- In every run that meets the guard the clients that sleep have to wait. -/
theorem Reachable.waiter (h : Reachable ClaimsSafely s) (t : TransId) : Waiter s t :=
  Reach.invariant_of (I := fun s => Sound s ∧ Owned s) (P := fun s => Waiter s t)
    (fun _ hr => ⟨Reachable.sound hr, Reachable.owned hr⟩) (Waiter.init t)
    (fun _ _ _ hI h hG he => h.step hI.1 hI.2 hG (step_effect he)) h

/-- **No wake-up of a client is lost**: in every run in which no write claims a transaction out of
turn or copies over `in_use`, a client that sleeps is unanswered and has no signal pending, or it
has been killed and its transaction is in use. -/
theorem no_client_wakeup_lost (h : Reachable ClaimsSafely s) (ha : s.asleep t = true) :
    (s.clients t).pc = .waiting ∧ (s.trans t).answered = 0 ∧
        (s.clients t).signalPending = false ∨
      (s.clients t).pc = .aborting ∧ (s.clients t).signalPending = true ∧ s.Held t := by
  have hfl := Reachable.flags h t
  rcases (Reachable.waiter h t).mustWait ha with hw | ⟨hp, huse⟩
  · exact .inl hw
  · exact .inr ⟨hp, hfl.aborting (.inl hp), hfl.inUse (by rw [hp]; decide) huse⟩

end Uvfs.Driver
