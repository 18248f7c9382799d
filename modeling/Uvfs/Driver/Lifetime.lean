import Uvfs.Driver.Flags
import Uvfs.Driver.Server

/-!
# The lifetime of a transaction

The caller frees its transaction after `uvfs_make_request` has returned, so by then no read or write
may work on it.  A client that was killed waits for `in_use` to be cleared, tests it without the
lock and takes the lock afterwards.  Between the test and the lock a write can still claim the
transaction.

* `make_request_returns_while_claimed` : it happens, with a well-behaved server.
* `ClaimsSafely` : no write claims a transaction whose client has passed that test or that a read
  still works on, and no reply reaches over `in_use`.
* `Guarded` : what then holds of `in_use`, `answered` and the client while a call works on the
  transaction; `Guarded.step`.
* `Safe` : the flags and the guarding of all transactions, which need each other: where every call
  works on a transaction whose client waits, the memory it works on has not been given to anyone
  else.  `Reachable.safe` has the run.
* `not_held_of_returned` : under the guard no call works on a transaction whose client has left.
-/

namespace Uvfs.Driver

open State Transition

variable {s s' : State} {a : Act} {t : TransId}

/-! ## The race -/

/-- The client of transaction 0 is killed while a read copies its request.  It finds `in_use` clear,
the reply claims the transaction before the client has the lock again, and the client leaves. -/
def raceRun : List Act :=
  [.uvfsdOpen 0, .newTransaction .zeroed none, .buildRequest 0 (getattrRequest 0),
    .makeRequest 0 none, .readEnter 0 sizeofUvfsRequestU, .readLock 0 none, .kill 0, .waitSignal 0,
    .checkSignal 0, .readCopy 0 none, .readDone 0, .waitUnused 0, .readReturn 0,
    .writeEnter 0 16 (some ⟨0, 16⟩) (some 0), .writeLookup 0, .withdraw 0, .leave 0]

/-- After the race transaction 0 is freed, and its memory is given to transaction 1 and enqueued;
the write copies its reply there and answers it, and the client of transaction 1 leaves. -/
def lateReplyRun : List Act :=
  raceRun ++ [.kfree 0, .newTransaction .zeroed (some 0), .buildRequest 1 (getattrRequest 1),
    .makeRequest 1 none, .waitSleep 1, .writeCopy 0 (fun _ => 0) none, .writeDone 0,
    .waitAnswered 1, .checkSignal 1, .leave 1]

/-- A killed client has found `in_use` clear, the reply claims the transaction before the client has
the lock again, and `uvfs_make_request` returns while `uvfsd_write` still copies into it.  The
server has read the request and answers it once. -/
theorem make_request_returns_while_claimed :
    ∃ s, Reachable (fun s a => RepliesToReads s a ∧ RepliesOnce s a) s ∧
      (s.clients 0).pc = .returned ∧ (s.writes 0).pc.Uses 0 := by
  obtain ⟨s, hs, hp⟩ :=
    Reach.of_check step (fun s a => RepliesToReads s a ∧ RepliesOnce s a) State.init raceRun
    (fun s => (s.clients 0).pc = .returned ∧ (s.writes 0).pc.Uses 0)
    (by decide +kernel)
  exact ⟨s, hs, hp⟩

/-! ## The guard -/

/-- A write claims no transaction whose client is between its unlocked test of `!in_use` and the
lock, and none that a read still works on; and the reply it copies ends before `in_use`. -/
def ClaimsSafely (s : State) (a : Act) : Prop :=
  (∀ w ∈ a.lookup?, ∀ t ∈ s.findReply (s.writes w).serial,
    (s.clients t).pc ≠ .aborted ∧ ∀ r < s.nReads, ¬ (s.reads r).pc.Uses t) ∧
  ∀ p ∈ a.copy?, (s.writes p.1).size.toNat ≤ Transaction.offsetofInUse

instance (s : State) (a : Act) : Decidable (ClaimsSafely s a) :=
  inferInstanceAs (Decidable ((∀ w ∈ a.lookup?, ∀ t ∈ s.findReply (s.writes w).serial, _) ∧
    ∀ p ∈ a.copy?, _))

/-- A step that is neither a lookup nor a copy of `uvfsd_write` claims and copies nothing. -/
theorem ClaimsSafely.of_other (hl : a.lookup? = none) (hc : a.copy? = none) : ClaimsSafely s a :=
  ⟨by simp [hl], by simp [hc]⟩

/-- The client waits where it looks at `in_use` again before it leaves. -/
def ClientPc.Waits : ClientPc → Prop
  | .waiting | .checking | .aborting => True
  | _ => False

theorem ClientPc.Waits.not_past {pc : ClientPc} (h : pc.Waits) : ¬ pc.Past := by
  cases pc with
  | leaving | returned | freed => exact h.elim
  | _ => exact id

theorem ClientPc.Waits.ne_freed {pc : ClientPc} (h : pc.Waits) : pc ≠ .freed := by
  rintro rfl
  exact h

theorem ClientPc.Enqueued.waits {pc : ClientPc} (h : pc.Enqueued) (hne : pc ≠ .aborted) :
    pc.Waits := by
  cases pc with
  | waiting | checking | aborting => trivial
  | aborted => exact absurd rfl hne
  | _ => exact h.elim

/-- While a call works on the transaction `in_use` is set, the transaction is not answered and its
client waits. -/
structure Guarded (s : State) (t : TransId) : Prop where
  held : s.Held t → (s.trans t).inUse ≠ 0 ∧ (s.trans t).answered = 0 ∧ (s.clients t).pc.Waits
  apart : ∀ r w, (s.reads r).pc.Uses t → ¬ (s.writes w).pc.Uses t

namespace Guarded

theorem init (t : TransId) : Guarded State.init t where
  held h := by rcases h with ⟨_, h⟩ | ⟨_, h⟩ <;> exact h.elim
  apart _ _ h := h.elim

theorem frame (h : Guarded s t) (hf : Frame s s' t) : Guarded s' t where
  held := by
    rw [hf.held, hf.trans, hf.client]
    exact h.held
  apart r w := by
    rw [hf.reads, hf.write_uses]
    exact h.apart r w

/-- Nobody works on the transaction. -/
theorem of_idle (hheld : ¬ s.Held t) : Guarded s t where
  held h := absurd h hheld
  apart r _ hr := absurd (.inl ⟨r, hr⟩) hheld

/-- Once its client is past the last critical section, nobody works on the transaction. -/
theorem not_held (h : Guarded s t) (hp : (s.clients t).pc.Past) : ¬ s.Held t :=
  fun hh => (h.held hh).2.2.not_past hp

theorem not_held_of_unused (h : Guarded s t) (hu : (s.trans t).inUse = 0) : ¬ s.Held t :=
  fun hh => (h.held hh).1 hu

theorem not_held_of_answered (h : Guarded s t) (ha : (s.trans t).answered ≠ 0) : ¬ s.Held t :=
  fun hh => ha (h.held hh).2.1

/-- The client moves on. -/
theorem setClient (h : Guarded s t) {c : Client} (held : s.Held t → c.pc.Waits) :
    Guarded (s.setClient t c) t := by
  have hc : (s.setClient t c).clients t = c := Function.update_self ..
  refine ⟨fun hh => ?_, h.apart⟩
  rw [hc]
  exact ⟨(h.held hh).1, (h.held hh).2.1, held hh⟩

/-- A read takes the transaction. -/
theorem take (hs : Sound s) (hfl : Flags s t) {rest : List TransId} {s₁ : State}
    {r : ReadId} (hreq : s.uvfsRequests = t :: rest) (hw : Woke (s.handOut t rest) s₁) :
    Guarded (s₁.beginReadCopy r t) t := by
  have hm : t ∈ s.uvfsRequests := by rw [hreq]; exact List.mem_cons_self
  have hans := (hfl.listed (.inl hm)).2
  have hwaits : (s.clients t).pc.Waits := by
    rcases hfl.requested hm with hp | hp <;> rw [hp] <;> trivial
  obtain ⟨reads, rfl, _⟩ := hw.exists_reads
  have htr : (State.beginReadCopy { s.handOut t rest with reads := reads } r t).trans t =
      { s.trans t with inUse := 1 } := Function.update_self ..
  refine ⟨fun _ => ?_, fun _ w _ hw' => ?_⟩
  · rw [htr]
    exact ⟨(by decide : (1 : Word) ≠ 0), hans, hwaits⟩
  · exact hs.not_listed_of_write hw' (.inl hm)

/-- The loop of `uvfsd_read` at the head of `Uvfs_requests`. -/
theorem readLoop (hs : Sound s) (hfl : Flags s t) (h : Guarded s t) {r : ReadId}
    (ht : s.uvfsRequests.head? = some t) (hr : ¬ (s.reads r).pc.Uses t) (hl : ReadLoop s r s') :
    Guarded s' t := by
  cases hl with
  | shutdown => exact h.frame (Frame.setRead (iff_of_false id hr))
  | sleep _ hreq =>
      rw [hreq] at ht
      cases ht
  | take t' rest s₁ _ hreq hw =>
      obtain rfl : t' = t := by
        rw [hreq] at ht
        exact Option.some.inj ht
      exact take hs hfl hreq hw

/-- A write claims the transaction. -/
theorem claim (hfl : Flags s t) (w : WriteId) (hrep : t ∈ s.uvfsReplies)
    (hp : (s.clients t).pc ≠ .aborted) (hr : ∀ r, ¬ (s.reads r).pc.Uses t) :
    Guarded (s.beginWriteCopy w t) t := by
  obtain ⟨henq, hans⟩ := hfl.listed (.inr hrep)
  have htr : (s.beginWriteCopy w t).trans t = { s.trans t with inUse := 1 } :=
    Function.update_self ..
  refine ⟨fun _ => ?_, fun r _ hr' => absurd hr' (hr r)⟩
  rw [htr]
  exact ⟨(by decide : (1 : Word) ≠ 0), hans, henq.waits hp⟩

/-- A read is done with the transaction. -/
theorem readDone (hs : Sound s) (h : Guarded s t) {r : ReadId} {fault : Bool}
    (hr : (s.reads r).pc = .copied t fault) :
    Guarded ((s.clearInUse t).setReadPc r (.finished t fault)) t := by
  have huses : (s.reads r).pc.Uses t := by rw [hr]; rfl
  refine of_idle ?_
  rintro (⟨r', hr'⟩ | ⟨w, hw⟩)
  · by_cases hrr : r' = r
    · subst hrr
      simp [State.setReadPc, State.setRead, ReadPc.Uses] at hr'
    · simp only [State.setReadPc, State.setRead, clearInUse, State.wakeUpIf, State.setTrans,
        Function.update_of_ne hrr] at hr'
      exact hrr (hs.calls.took_inj r' r t (hs.calls.took r' t hr'.trans?)
        (hs.calls.took r t huses.trans?))
  · exact h.apart r w huses hw

/-- The reply is copied and does not reach `in_use`. -/
theorem writeCopy (h : Guarded s t) {w : WriteId}
    (hw : (s.writes w).pc = .copying t) {n : ℕ} (hn : n ≤ Transaction.offsetofInUse) (data : Mem)
    (fault : Bool) :
    Guarded ((s.setTrans t ((s.trans t).copyFromUser n data)).setWritePc w (.copied t fault))
      t := by
  have huses : (s.writes w).pc.Uses t := by rw [hw]; rfl
  have huse : ((s.trans t).copyFromUser n data).inUse = (s.trans t).inUse :=
    Word.overlay_of_le hn
  have hans : ((s.trans t).copyFromUser n data).answered = (s.trans t).answered :=
    Word.overlay_of_le (hn.trans (by decide))
  have htr : ((s.setTrans t ((s.trans t).copyFromUser n data)).setWritePc w
      (.copied t fault)).trans t = (s.trans t).copyFromUser n data := Function.update_self ..
  refine ⟨fun _ => ?_, fun r w' hr _ => ?_⟩
  · rw [htr, huse, hans]
    exact h.held (.inr ⟨w, huses⟩)
  · exact h.apart r w hr huses

/-- A write is done with the transaction. -/
theorem writeDone (hs : Sound s) (h : Guarded s t) {w : WriteId} {fault : Bool}
    (hw : (s.writes w).pc = .copied t fault) (v : ℤ) :
    Guarded ((s.answer t).setWritePc w (.returned v)) t := by
  have huses : (s.writes w).pc.Uses t := by rw [hw]; rfl
  refine of_idle ?_
  rintro (⟨r, hr⟩ | ⟨w', hw'⟩)
  · exact h.apart r w hr huses
  · by_cases hww : w' = w
    · subst hww
      simp [State.setWritePc, State.setWrite, WritePc.Uses] at hw'
    · simp only [State.setWritePc, State.setWrite, answer, State.wakeUp, State.setTrans,
        Function.update_of_ne hww] at hw'
      exact hww (hs.calls.write_inj w' w t hw' huses)

/-- Every step that meets the guard keeps a transaction guarded. -/
theorem step (hs : Sound s) (ho : Owned s) (hfl : Flags s t) (h : Guarded s t)
    (hG : ClaimsSafely s a) (he : Effect s a s') : Guarded s' t := by
  by_cases ht : Touches s a t
  swap
  · exact h.frame (he.frame hs.files ht)
  cases he with
  | release f _ _ hne => exact absurd ht.1 hne
  | releaseLast f hf hb hc =>
      exact of_idle (hs.not_held_of_last hf hb hc)
  | newTransaction junk old _ =>
      obtain rfl : t = s.nTrans := ht
      have hlog : s.nTrans ∉ s.enqueueLog := fun hm => lt_irrefl _ (hs.logged.log _ hm).1
      exact of_idle fun hh => hlog (hs.enqueued_of_held hh)
  | buildRequest t' req hp _ | refused t' pick hp _ =>
      obtain rfl : t = t' := ht
      have hlog : t ∉ s.enqueueLog := fun hm => (hs.logged.log t hm).2 (by rw [hp]; trivial)
      exact of_idle fun hh => hlog (hs.enqueued_of_held hh)
  | enqueued t' pick s' hp _ hw =>
      obtain rfl : t = t' := ht
      have hlog : t ∉ s.enqueueLog := fun hm => (hs.logged.log t hm).2 (by rw [hp]; trivial)
      have hheld : ¬ s.Held t := fun hh => hlog (hs.enqueued_of_held hh)
      have h₁ : Guarded (s.enqueue t) t := of_idle hheld
      exact h₁.frame (Frame.woke hw)
  | kill t' _ =>
      obtain rfl : t = t' := ht
      exact setClient (s := s.wakeUpIf ((s.clients t).pc = .waiting) t) ⟨h.held, h.apart⟩
        fun hh => (h.held hh).2.2
  | waitSleep t' _ _ => exact ⟨h.held, h.apart⟩
  | waitAnswered t' _ hans =>
      obtain rfl : t = t' := ht
      exact of_idle (h.not_held_of_answered hans)
  | waitSignal t' _ _ =>
      obtain rfl : t = t' := ht
      exact h.setClient fun _ => trivial
  | checkAbort t' _ _ _ =>
      obtain rfl : t = t' := ht
      have htr : (s.setTrans t { s.trans t with abort := 1 }).trans t =
          { s.trans t with abort := 1 } := Function.update_self ..
      have h₁ : Guarded (s.setTrans t { s.trans t with abort := 1 }) t :=
        ⟨by rw [htr]; exact h.held, h.apart⟩
      exact h₁.setClient fun _ => trivial
  | checkUnlink t' _ _ huse =>
      obtain rfl : t = t' := ht
      exact of_idle (h.not_held_of_unused huse)
  | checkLeave t' hp hsig =>
      obtain rfl : t = t' := ht
      have hans : (s.trans t).answered ≠ 0 :=
        (hfl.checking hp).resolve_left fun hsig' => absurd (hsig.symm.trans hsig') (by decide)
      exact of_idle (h.not_held_of_answered hans)
  | waitUnused t' _ huse =>
      obtain rfl : t = t' := ht
      exact of_idle (h.not_held_of_unused huse)
  | withdraw t' hp =>
      obtain rfl : t = t' := ht
      refine of_idle fun hh => ?_
      have hwaits := (h.held hh).2.2
      rw [hp] at hwaits
      exact hwaits
  | leave t' hp | kfree t' hp =>
      obtain rfl : t = t' := ht
      have hpast : (s.clients t).pc.Past := by rw [hp]; trivial
      exact of_idle (h.not_held hpast)
  | reuse t' junk hre =>
      obtain rfl : t = t' := ht
      have hpast : (s.clients t).pc.Past := by rw [hre.1]; trivial
      exact of_idle (h.not_held hpast)
  | readLockFirst r pick s' hr hl => exact h.readLoop hs hfl ht (hr ▸ id) hl
  | readLockAgain r pick s' hr _ hl =>
      have hnot : ¬ (s.reads r).pc.Uses t := by rcases hr with hr | hr <;> exact hr ▸ id
      exact readLoop (s := { s with uvfsDriverQueue := s.uvfsDriverQueue.erase r })
        (hs.driverQueue _) (hfl.driverQueue _) ⟨h.held, h.apart⟩ ht hnot hl
  | readLockSignal r pick hr _ =>
      have hnot : ¬ (s.reads r).pc.Uses t := by rcases hr with hr | hr <;> exact hr ▸ id
      have h' := h.frame (Frame.setRead (r := r)
        (c := { s.reads r with pc := .returned erestartsys }) (iff_of_false id hnot))
      exact ⟨h'.held, h'.apart⟩
  | readDone r t' fault hr m hm =>
      obtain ⟨rfl, rfl⟩ := ho.of_readDone hr hm ht
      exact h.readDone hs hr
  | writeMiss w _ hfind => exact absurd (hfind.symm.trans ht) (by simp)
  | writeClaim w t' _ hfind =>
      obtain rfl : t = t' := Option.some.inj (Eq.trans (Eq.symm ht) hfind)
      obtain ⟨hp, hr⟩ := hG.1 w rfl t hfind
      exact claim hfl w (List.mem_of_find?_eq_some hfind) hp
        fun r hr' => hr r (hs.files.read r hr'.inProgress).1 hr'
  | writeCopy w data fault t' hw m hm =>
      obtain ⟨rfl, rfl⟩ := ho.of_write (by rw [hw]; rfl) hm ht
      exact h.writeCopy hw (hG.2 _ rfl) _ _
  | writeDone w t' fault hw m hm =>
      obtain ⟨rfl, rfl⟩ := ho.of_write (by rw [hw]; rfl) hm ht
      exact h.writeDone hs hw _
  | _ => exact ht.elim

end Guarded

/-- The flags of every transaction fit, and no call works on one whose client does not wait. -/
structure Safe (s : State) : Prop where
  flags : ∀ t, Flags s t
  guarded : ∀ t, Guarded s t

/-- Then the calls work on their own. -/
theorem Safe.owned (hs : Sound s) (h : Safe s) : Owned s :=
  hs.owners.owned fun t ht => ((h.guarded t).held ht).2.2.ne_freed

theorem Safe.step (hs : Sound s) (h : Safe s) (hG : ClaimsSafely s a) (he : Effect s a s') :
    Safe s' where
  flags t := (h.flags t).step hs (h.owned hs) he
  guarded t := (h.guarded t).step hs (h.owned hs) (h.flags t) hG he

/-- **In every run that meets the guard the flags fit and every transaction is guarded.** -/
theorem Reachable.safe (h : Reachable ClaimsSafely s) : Safe s :=
  Reach.invariant_of (I := Sound) (P := Safe) (fun _ hr => Reachable.sound hr)
    ⟨Flags.init, Guarded.init⟩ (fun _ _ _ hs hsafe hG he => hsafe.step hs hG (step_effect he)) h

theorem Reachable.flags (h : Reachable ClaimsSafely s) (t : TransId) : Flags s t :=
  (Reachable.safe h).flags t

theorem Reachable.guarded (h : Reachable ClaimsSafely s) (t : TransId) : Guarded s t :=
  (Reachable.safe h).guarded t

/-- In such a run a number stands for one object wherever a call works on it. -/
theorem Reachable.owned (h : Reachable ClaimsSafely s) : Owned s :=
  (Reachable.safe h).owned (Reachable.sound h)

/-- **No use after return**: in every run in which no write claims a transaction whose client is
past its unlocked test of `in_use` or that a read still works on, and no reply reaches over
`in_use`, no read or write works on a transaction whose client has returned from
`uvfs_make_request`. -/
theorem not_held_of_returned (h : Reachable ClaimsSafely s) (t : TransId)
    (hp : (s.clients t).pc = .returned ∨ (s.clients t).pc = .freed) : ¬ s.Held t := by
  refine (Reachable.guarded h t).not_held ?_
  rcases hp with hp | hp <;> rw [hp] <;> trivial

/-- A killed client waits for the read that copies its request, and another one is answered. -/
theorem not_held_of_returned_two : ∃ s, Reachable ClaimsSafely s ∧
    ((s.clients 0).pc = .returned ∧ (s.clients 1).pc = .freed) ∧ ¬ s.Held 0 ∧ ¬ s.Held 1 := by
  obtain ⟨s, hs, hp⟩ := Reach.of_check step ClaimsSafely State.init
    [.uvfsdOpen 0, .newTransaction .zeroed none, .newTransaction .zeroed none,
      .buildRequest 0 (getattrRequest 0), .buildRequest 1 (getattrRequest 1), .makeRequest 0 none,
      .makeRequest 1 none, .readEnter 0 sizeofUvfsRequestU, .readLock 0 none, .kill 0,
      .waitSignal 0, .checkSignal 0, .readCopy 0 none, .readDone 0, .waitUnused 0, .readReturn 0,
      .withdraw 0, .leave 0, .readEnter 0 sizeofUvfsRequestU, .readLock 1 none, .readCopy 1 none,
      .readDone 1, .readReturn 1, .writeEnter 0 16 (some ⟨1, 16⟩) (some 1), .writeLookup 0,
      .writeCopy 0 (fun _ => 0) none, .writeDone 0, .waitAnswered 1, .checkSignal 1, .leave 1,
      .kfree 1]
    (fun s => (s.clients 0).pc = .returned ∧ (s.clients 1).pc = .freed)
    (by decide +kernel)
  exact ⟨s, hs, hp, not_held_of_returned hs 0 (.inl hp.1), not_held_of_returned hs 1 (.inr hp.2)⟩

end Uvfs.Driver
