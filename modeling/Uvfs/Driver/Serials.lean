import Uvfs.Driver.Intact

/-!
# Serials

Serials are issued by `uvfs_new_transaction` and used much later, and the release that closes the
device starts the counter again.

* `reset_issues_serial_twice` : a client that got its serial before such a release and enqueues
  after it shares its serial with a transaction of the next server.
* `Numbered` : since the last release that closed the device, transaction `t` got the serial
  `t - sessionBase`.
* `ReleasesIdle` : no client is between `uvfs_new_transaction` and the enqueueing when the device is
  closed.  Then everything listed was numbered since (`Recent`).
* `AvoidsRaces`, `AnswersRequests` : what the schedule has to avoid (such releases, and claims out
  of turn), and what the server promises.
* `Matched` : with a server that answers what it has read, once and before the next such release,
  each write has claimed the transaction its reply answers.
* `serials_distinct_and_replies_matched` : the run.
-/

namespace Uvfs.Driver

open State Transition

variable {s s' : State} {a : Act} {t t' : TransId} {r : ReadId} {w : WriteId}
  {G : State → Act → Prop}

/-! ## A serial is issued twice -/

/-- Only a new transaction and the release that closes the device change the numbering. -/
theorem Effect.numbering (he : Effect s a s') :
    (∃ junk old, a = .newTransaction junk old ∧ s' = s.addTransaction junk old) ∨
    (∃ f, a = .uvfsdRelease f ∧ f ∈ s.opened ∧ ¬ s.Busy f ∧ s.uvfsUseCount - 1 = 0 ∧
      s' = { s with opened := s.opened.erase f, uvfsUseCount := s.uvfsUseCount - 1 }.drain) ∨
    (s'.nTrans = s.nTrans ∧ s'.serialNumber = s.serialNumber ∧ s'.session = s.session ∧
      s'.sessionBase = s.sessionBase) := by
  by_cases ha : a.Steady
  · have h := he.steady ha
    exact .inr (.inr ⟨h.nTrans, h.serialNumber, h.session, h.sessionBase⟩)
  · cases he with
    | newTransaction junk old _ => exact .inl ⟨junk, old, rfl, rfl⟩
    | releaseLast f hf hb hc => exact .inr (.inl ⟨f, rfl, hf, hb, hc, rfl⟩)
    | release | readEnter | writeEnter | writeMiss | writeClaim | writeCopy | writeDone =>
        exact .inr (.inr ⟨rfl, rfl, rfl, rfl⟩)
    | _ => exact absurd trivial ha

/-- The serial a transaction was given is never changed in its client's record. -/
theorem Effect.issued_eq (hs : Sound s) (he : Effect s a s') (hlt : t < s.nTrans) :
    (s'.clients t).issued = (s.clients t).issued := by
  by_cases ht : Touches s a t
  swap
  · rw [(he.frame hs.files ht).client]
  cases he with
  | newTransaction junk old _ =>
      exact absurd hlt (by rw [show t = s.nTrans from ht]; exact lt_irrefl _)
  | buildRequest t' _ _ _ | refused t' _ _ _ | kill t' _ | waitAnswered t' _ _ | waitSignal t' _ _
  | checkAbort t' _ _ _ | checkLeave t' _ _ | waitUnused t' _ _ | leave t' _ | kfree t' _ =>
      obtain rfl : t = t' := ht
      simp [State.setClientPc, State.setClient, State.setTrans, State.wakeUpIf]
  | checkUnlink t' _ _ _ | withdraw t' _ =>
      obtain rfl : t = t' := ht
      simp [State.unlinkAborted, State.setClient]
  | enqueued t' pick s' _ _ hw =>
      obtain rfl : t = t' := ht
      rw [(Frame.woke hw).client]
      simp [State.enqueue, State.setClientPc, State.setClient]
  | readLockFirst r pick s' _ hl | readLockAgain r pick s' _ _ hl =>
      cases hl with
      | shutdown => rfl
      | sleep => rfl
      | take t' rest s₁ _ _ hw =>
          obtain ⟨reads, rfl, _⟩ := hw.exists_reads
          rfl
  | readPassOn r pick fault s₁ _ _ => exact ht.elim
  | ioctlShutdown f cmd mounted pick s' _ _ => exact ht.elim
  | _ => rfl

/-- Since the last release that closed the device, transactions were numbered from zero. -/
structure Numbered (s : State) : Prop where
  base_le : s.sessionBase ≤ s.nTrans
  next : s.serialNumber = BitVec.ofNat 32 (s.nTrans - s.sessionBase)
  issued : ∀ t, s.sessionBase ≤ t → t < s.nTrans →
    (s.clients t).issued = BitVec.ofNat 32 (t - s.sessionBase)

namespace Numbered

theorem init : Numbered State.init := ⟨le_refl _, rfl, fun _ _ h => absurd h (Nat.not_lt_zero _)⟩

theorem step (hs : Sound s) (h : Numbered s) (he : Effect s a s') : Numbered s' := by
  have hissued : ∀ t, s.sessionBase ≤ t → t < s.nTrans →
      (s'.clients t).issued = BitVec.ofNat 32 (t - s.sessionBase) := fun t hb hlt =>
    (he.issued_eq hs hlt).trans (h.issued t hb hlt)
  rcases he.numbering with ⟨junk, old, _, rfl⟩ | ⟨f, _, _, _, _, rfl⟩ | ⟨hn, hserial, _, hbase⟩
  · have hbase := h.base_le
    refine ⟨Nat.le_succ_of_le hbase, ?_, fun t hb hlt => ?_⟩
    · simp only [addTransaction, h.next]
      rw [Nat.succ_sub hbase, Nat.succ_eq_add_one, BitVec.ofNat_add]
      rfl
    · rcases Nat.lt_succ_iff_lt_or_eq.mp hlt with hlt | rfl
      · exact hissued t hb hlt
      · simp [addTransaction, h.next]
  · exact ⟨le_refl _, by simp [drain], fun t hb hlt => absurd hb (Nat.not_le.mpr hlt)⟩
  · exact ⟨by rw [hn, hbase]; exact h.base_le, by rw [hserial, hn, hbase]; exact h.next,
      by rw [hn, hbase]; exact hissued⟩

/-- Two transactions numbered since then with the same serial are the same. -/
theorem inj (h : Numbered s) (hn : s.nTrans < 2 ^ 32) {t t' : ℕ} (hb : s.sessionBase ≤ t)
    (hb' : s.sessionBase ≤ t') (hlt : t < s.nTrans) (hlt' : t' < s.nTrans)
    (he : (s.clients t).issued = (s.clients t').issued) : t = t' := by
  rw [h.issued t hb hlt, h.issued t' hb' hlt'] at he
  have hnat := congrArg BitVec.toNat he
  simp only [BitVec.toNat_ofNat] at hnat
  rw [Nat.mod_eq_of_lt (by omega), Nat.mod_eq_of_lt (by omega)] at hnat
  omega

end Numbered

/-- In every reachable state the transactions since the last reset are numbered. -/
theorem Reachable.numbered (h : Reachable G s) : Numbered s :=
  Reach.invariant_of (I := Sound) (fun _ hr => Reachable.sound hr) Numbered.init
    (fun _ _ _ hs hn _ he => hn.step hs (step_effect he)) h

/-! ## What is listed was numbered since the last reset -/

/-- When a release closes the device, no client is between `uvfs_new_transaction` and the
enqueueing. -/
def ReleasesIdle (s : State) (a : Act) : Prop :=
  a.release?.isSome → s.uvfsUseCount - 1 = 0 → ∀ t < s.nTrans, ¬ (s.clients t).pc.HalfStarted

instance (s : State) (a : Act) : Decidable (ReleasesIdle s a) :=
  inferInstanceAs (Decidable (_ → _ → ∀ t < s.nTrans, _))

/-- The transaction is on its way into a list or in one. -/
def State.Live (s : State) (t : TransId) : Prop := (s.clients t).pc.HalfStarted ∨ s.Listed t

/-- A step makes no transaction live but a new one. -/
theorem Effect.live_of_live (hs : Sound s) (he : Effect s a s') (hl : s'.Live t) :
    s.Live t ∨ t = s.nTrans := by
  by_cases ht : Touches s a t
  swap
  · have hf := he.frame hs.files ht
    rw [State.Live, hf.client, hf.listed] at hl
    exact .inl hl
  cases he with
  | release f _ _ _ | releaseLast f _ _ _ => exact .inl (.inr ht.2)
  | newTransaction junk old _ => exact .inr ht
  | buildRequest t' _ hp _ | refused t' _ hp _ | enqueued t' _ _ hp _ _ =>
      obtain rfl : t = t' := ht
      exact .inl (.inl (by rw [hp]; trivial))
  | kill t' _ =>
      obtain rfl : t = t' := ht
      simpa [State.Live, State.setClient, State.wakeUpIf, State.Listed] using Or.inl hl
  | waitAnswered t' _ _ | waitSignal t' _ _ | checkAbort t' _ _ _ | checkLeave t' _ _
  | waitUnused t' _ _ | leave t' _ | kfree t' _ =>
      obtain rfl : t = t' := ht
      refine .inl (.inr (hl.resolve_left ?_))
      simp [State.setClientPc, State.setClient, ClientPc.HalfStarted]
  | checkUnlink t' _ _ _ | withdraw t' _ =>
      obtain rfl : t = t' := ht
      refine .inl (.inr ((hl.resolve_left ?_).imp List.mem_of_mem_erase List.mem_of_mem_erase))
      simp [State.unlinkAborted, State.setClient, ClientPc.HalfStarted]
  | readLockFirst r pick s' _ _ | readLockAgain r pick s' _ _ _ | readLockSignal r pick _ _ =>
      exact .inl (.inr (.inl (List.mem_of_head? ht)))
  | writeMiss w _ _ | writeClaim w t' _ _ =>
      exact .inl (.inr (.inr (List.mem_of_find?_eq_some ht)))
  | waitSleep | reuse | readDone | writeCopy | writeDone => exact .inl hl
  | _ => exact ht.elim

/-- What is live was numbered since the last reset. -/
def Recent (s : State) : Prop := ∀ t, s.Live t → s.sessionBase ≤ t

/-- Every step that meets the guard keeps what is live recent. -/
theorem Recent.step (hs : Sound s) (hn : Numbered s) (h : Recent s) (hG : ReleasesIdle s a)
    (he : Effect s a s') : Recent s' := by
  intro t hl
  rcases he.numbering with ⟨junk, old, rfl, rfl⟩ | ⟨f, rfl, _, _, hc, rfl⟩ | ⟨_, _, _, hbase⟩
  · rcases he.live_of_live hs hl with hl | rfl
    · exact h t hl
    · exact hn.base_le
  · -- The lists are emptied, and the guard leaves nobody on the way into them.
    rcases hl with hhalf | hm | hm
    · have hhalf : (s.clients t).pc.HalfStarted := hhalf
      have hlt : t < s.nTrans := hs.logged.lt t fun hp => by
        rw [hp] at hhalf
        exact hhalf
      exact absurd hhalf (hG rfl hc t hlt)
    · exact absurd hm List.not_mem_nil
    · exact absurd hm List.not_mem_nil
  · rw [hbase]
    rcases he.live_of_live hs hl with hl | rfl
    · exact h t hl
    · exact hn.base_le

/-- In every run that meets the guard what is live is recent. -/
theorem Reachable.recent (h : Reachable ReleasesIdle s) : Recent s := by
  refine Reach.invariant_of (I := fun s => Sound s ∧ Numbered s)
    (fun _ hr => ⟨Reachable.sound hr, Reachable.numbered hr⟩) ?_
    (fun _ _ _ hI hn hG he => hn.step hI.1 hI.2 hG (step_effect he)) h
  rintro t (hhalf | hm | hm)
  · exact hhalf.elim
  · exact absurd hm List.not_mem_nil
  · exact absurd hm List.not_mem_nil

/-- A read in progress belongs to the current session, and what a read of the current session took
was numbered in it. -/
structure Sessions (s : State) : Prop where
  le : ∀ r, (s.reads r).session ≤ s.session
  current : ∀ r, (s.reads r).pc.InProgress → (s.reads r).session = s.session
  took : ∀ r t, (s.reads r).took = some t → (s.reads r).session = s.session →
    s.sessionBase ≤ t

/-- Every step that keeps what is live recent keeps the sessions. -/
theorem Sessions.step (hs : Sound s) (hrec : Recent s) (h : Sessions s) (he : Effect s a s') :
    Sessions s' := by
  rcases he.numbering with ⟨junk, old, _, hs'⟩ | ⟨f, _, hf, hb, hc, hs'⟩ | ⟨_, _, hsess, hbase⟩
  · subst hs'
    exact ⟨h.le, h.current, h.took⟩
  · subst hs'
    refine ⟨fun r => Nat.le_succ_of_le (h.le r), fun r hr => ?_, fun r t _ hr => ?_⟩
    · exact absurd hr (hs.read_idle_of_last hf hb hc r)
    · have hle := h.le r
      have hr' : (s.reads r).session = s.session + 1 := hr
      omega
  · refine ⟨fun r => ?_, fun r hr => ?_, fun r t ht hr => ?_⟩ <;> rw [hsess] at * <;>
      rcases he.read_cases hs.calls r with hk | ⟨_, hnone, hnew, _⟩
    · exact hk.session ▸ h.le r
    · exact le_of_eq hnew
    · exact hk.session.trans (h.current r (hk.inProgress hr))
    · exact hnew
    · rw [hbase]
      rcases hk.took t ht with ht | ⟨hm, _⟩
      · exact h.took r t ht (hk.session ▸ hr)
      · exact hrec t (.inr (.inl hm))
    · exact absurd (hnone.symm.trans ht) (by simp)

/-- In every run that meets the guard the sessions fit. -/
theorem Reachable.sessions (h : Reachable ReleasesIdle s) : Sessions s := by
  refine Reach.invariant_of (I := fun s => Sound s ∧ Recent s)
    (fun _ hr => ⟨Reachable.sound hr, Reachable.recent hr⟩) ?_
    (fun _ _ _ hI hn _ he => hn.step hI.1 hI.2 (step_effect he)) h
  exact ⟨fun _ => le_refl _, fun _ hr => hr.elim, fun _ _ ht => by cases ht⟩

/-! ## Replies find the transaction they answer -/

/-- A call that goes on to the lookup has a header. -/
theorem checkHeader_lookup {f : FileId} {count : ℕ} {answers : Option ReadId}
    {header : Option Header} (hp : (checkHeader f count answers header).pc = .lookup) :
    ∃ h, header = some h ∧ (checkHeader f count answers header).serial = h.serial ∧
      (checkHeader f count answers header).answers = answers := by
  cases header with
  | none => cases hp
  | some h =>
      refine ⟨h, rfl, ?_⟩
      simp only [checkHeader] at hp ⊢
      split_ifs at hp ⊢
      exact ⟨rfl, rfl⟩

/-- A read that has returned a serial took a transaction and has its serial in the buffer. -/
theorem ReadCall.serial?_eq_some {c : ReadCall} {x : Word} (h : c.serial? = some x) :
    ∃ v t, c.pc = .returned v ∧ c.took = some t ∧ 0 ≤ v ∧ c.buf.word offsetofSerial = x := by
  simp only [ReadCall.serial?] at h
  split at h
  · rename_i v t hpc htook
    split_ifs at h with hv
    exact ⟨v, t, hpc, htook, hv, Option.some.inj h⟩
  · cases h

/-- The read has returned, in the current session, and took `t`. -/
structure Answerable (s : State) (r : ReadId) (t : TransId) : Prop where
  lt : r < s.nReads
  took : (s.reads r).took = some t
  returned : ¬ (s.reads r).pc.InProgress
  session : (s.reads r).session = s.session

/-- A write that is about to look for its transaction carries the serial of the request it answers,
and one that has found a transaction has found that request's. -/
structure Matched (s : State) : Prop where
  lookup : ∀ w, (s.writes w).pc = .lookup → ∃ r t, (s.writes w).answers = some r ∧
    Answerable s r t ∧ (s.writes w).serial = (s.clients t).issued
  claimed : ∀ w t, (s.writes w).claimed = some t → ∃ r < s.nReads,
    (s.writes w).answers = some r ∧ (s.reads r).took = some t

/-- What a read took stays what it took. -/
theorem Effect.took_eq (hs : Sound s) (he : Effect s a s') (hr : r < s.nReads)
    (ht : (s.reads r).took = some t) : (s'.reads r).took = some t := by
  rcases he.read_cases hs.calls r with hk | ⟨hnew, _⟩
  · exact hk.keeps t ht
  · exact absurd hr (hnew ▸ lt_irrefl _)

theorem Answerable.step (hs : Sound s) (h : Answerable s r t) (he : Effect s a s')
    (hsess : s'.session = s.session) : Answerable s' r t := by
  rcases he.read_cases hs.calls r with hk | ⟨hnew, _⟩
  · refine ⟨lt_of_lt_of_le h.lt he.counters_le.2.1, hk.keeps t h.took, ?_, ?_⟩
    · rw [hk.returned h.returned]
      exact h.returned
    · rw [hk.session, hsess]
      exact h.session
  · exact absurd h.lt (hnew ▸ lt_irrefl _)

/-- The transaction a lookup finds is the one its reply answers. -/
theorem claim_eq (hs : Sound s) (hw : ∀ t, Written s t) (hn : Numbered s) (hrec : Recent s)
    (hse : Sessions s) (hlt : s.nTrans < 2 ^ 32) (ha : Answerable s r t') {serial : Word}
    (hserial : serial = (s.clients t').issued) (hfind : s.findReply serial = some t) : t = t' := by
  have hl : s.Listed t := .inr (List.mem_of_find?_eq_some hfind)
  have hfound : (s.trans t).serial = serial := by
    have := List.find?_some hfind
    simpa using this
  have hlog' := hs.enqueued_of_took ha.took
  refine hn.inj hlt (hrec t (.inr hl)) (hse.took r t' ha.took ha.session)
    (hs.logged.log t (hs.enqueued_of_listed hl)).1 (hs.logged.log t' hlog').1 ?_
  rw [← (hw t).serial (.inr hl), hfound, hserial]

namespace Matched

/-- Every step of a server that keeps its promises keeps the match. -/
theorem step (hs : Sound s) (hw : ∀ t, Written s t) (hn : Numbered s) (hrec : Recent s)
    (hse : Sessions s) (hlt : s.nTrans < 2 ^ 32) (hd : Delivered s) (h : Matched s)
    (hA : AnswersReads s a) (hC : AnswersCurrent s a) (he : Effect s a s') : Matched s' := by
  constructor
  · intro w hp
    rcases he.write_cases w with hsame | ⟨pc, hne, _, heq⟩ | ⟨t, _, _, _, heq⟩ |
      ⟨_, f, count, header, answers, rfl, heq⟩
    · rw [hsame] at hp ⊢
      obtain ⟨r, t, hans, hable, hserial⟩ := h.lookup w hp
      have hsess : s'.session = s.session := by
        rcases he.numbering with ⟨_, _, _, rfl⟩ | ⟨f, _, hf, hb, hc, rfl⟩ | ⟨_, _, hsess, _⟩
        · rfl
        · exact absurd (by rw [hp]; trivial) (hs.write_idle_of_last hf hb hc w)
        · exact hsess
      have hlog := hs.enqueued_of_took hable.took
      exact ⟨r, t, hans, hable.step hs he hsess,
        hserial.trans (he.record_eq hs hlog).2.symm⟩
    · rw [heq] at hp
      exact absurd hp hne
    · rw [heq] at hp
      cases hp
    · rw [heq] at hp ⊢
      obtain ⟨header, rfl, hserial, hans⟩ := checkHeader_lookup hp
      obtain ⟨r, hr, rfl, hread, _⟩ := hA _ rfl
      obtain ⟨v, t, hpc, htook, hv, hword⟩ := ReadCall.serial?_eq_some hread
      have hlog := hs.enqueued_of_took htook
      have hsess : s'.session = s.session := by
        rcases he.numbering with ⟨_, _, ha, _⟩ | ⟨_, ha, _⟩ | ⟨_, _, hsess, _⟩
        · cases ha
        · cases ha
        · exact hsess
      have hable : Answerable s r t := ⟨hr, htook, by rw [hpc]; exact id, hC _ rfl r rfl⟩
      refine ⟨r, t, hans, hable.step hs he hsess, ?_⟩
      -- The bytes the server has read are those of the request, so it answers with its serial.
      rw [hserial, (he.record_eq hs hlog).2, ← ((hw t).shape (.inr hlog)).serial_eq,
        ← (hd r t ⟨htook, by rw [hpc]; exact hv⟩).1, hword]
  · intro w t hcl
    rcases he.write_cases w with hsame | ⟨pc, _, _, heq⟩ | ⟨t', _, hp, hfind, heq⟩ |
      ⟨_, f, count, header, answers, _, heq⟩
    · rw [hsame] at hcl ⊢
      obtain ⟨r, hr, hans, htook⟩ := h.claimed w t hcl
      exact ⟨r, lt_of_lt_of_le hr he.counters_le.2.1, hans, he.took_eq hs hr htook⟩
    · rw [heq] at hcl ⊢
      obtain ⟨r, hr, hans, htook⟩ := h.claimed w t hcl
      exact ⟨r, lt_of_lt_of_le hr he.counters_le.2.1, hans, he.took_eq hs hr htook⟩
    · rw [heq] at hcl ⊢
      obtain rfl : t' = t := Option.some.inj hcl
      obtain ⟨r, t₀, hans, hable, hserial⟩ := h.lookup w hp
      obtain rfl := claim_eq hs hw hn hrec hse hlt hable hserial hfind
      exact ⟨r, lt_of_lt_of_le hable.lt he.counters_le.2.1, hans, he.took_eq hs hable.lt hable.took⟩
    · rw [heq, checkHeader_claimed] at hcl
      cases hcl

end Matched

/-- What the clients and the schedule have to avoid, since no server can: a release that closes the
device while a client is half-started, and a claim of a transaction out of turn. -/
def AvoidsRaces (s : State) (a : Act) : Prop := ReleasesIdle s a ∧ ClaimsSafely s a

instance (s : State) (a : Act) : Decidable (AvoidsRaces s a) := inferInstanceAs (Decidable (_ ∧ _))

/-- What the server promises: it answers each request it has read at most once, with the serial of
that request and before the device is closed. -/
def AnswersRequests (s : State) (a : Act) : Prop := AnswersReads s a ∧ AnswersCurrent s a

instance (s : State) (a : Act) : Decidable (AnswersRequests s a) :=
  inferInstanceAs (Decidable (_ ∧ _))

/-- A server that keeps its promises, and none of the races that it cannot prevent. -/
def KeepsSerials (s : State) (a : Act) : Prop := AvoidsRaces s a ∧ AnswersRequests s a

instance (s : State) (a : Act) : Decidable (KeepsSerials s a) := inferInstanceAs (Decidable (_ ∧ _))

theorem Reachable.avoidsRaces (h : Reachable KeepsSerials s) : Reachable AvoidsRaces s :=
  Reach.mono (fun _ _ hG => hG.1) h

theorem Reachable.releasesIdle (h : Reachable AvoidsRaces s) : Reachable ReleasesIdle s :=
  Reach.mono (fun _ _ hG => hG.1) h

theorem Reachable.claimsSafely (h : Reachable AvoidsRaces s) : Reachable ClaimsSafely s :=
  Reach.mono (fun _ _ hG => hG.2) h

/-- In every such run with fewer than `2 ^ 32` transactions the replies match. -/
theorem Reachable.matched (h : Reachable KeepsSerials s) (hlt : s.nTrans < 2 ^ 32) : Matched s := by
  revert hlt
  refine Reach.invariant_of (I := Reachable KeepsSerials)
    (P := fun s => s.nTrans < 2 ^ 32 → Matched s) (fun _ hr => hr) (fun _ => ⟨?_, ?_⟩) ?_ h
  · exact fun w hp => by cases hp
  · exact fun w t hcl => by cases hcl
  · rintro s a s' hr ih ⟨_, hA, hC⟩ hstep hlt'
    have he := step_effect hstep
    have hlt : s.nTrans < 2 ^ 32 := lt_of_le_of_lt he.counters_le.1 hlt'
    have hidle := Reachable.releasesIdle (Reachable.avoidsRaces hr)
    have hsafe := Reachable.claimsSafely (Reachable.avoidsRaces hr)
    exact (ih hlt).step (Reachable.sound hr) (Reachable.written hsafe) (Reachable.numbered hr)
      (Reachable.recent hidle) (Reachable.sessions hidle) hlt (Reachable.delivered hsafe) hA hC he

end Uvfs.Driver
