import Uvfs.Driver.Lifetime

/-!
# Requests are delivered intact

Request and reply share the union `u`.  A request has to stay in it until the server has read it.

* `Written s t` : where the calls work on their own, a transaction that is built or in a list holds
  the request its client built, with the serial it was given.
* `stale_reply_overwrites_copied_request` : a transaction that `uvfsd_read` is copying out can lose
  its request.  Its serial was issued a second time, after the last release had reset the counter,
  and a late reply to the first bearer claims it.
* `Safe.mem_replies` : where no write claims a transaction out of turn, a read works on a listed
  transaction, and what it delivers is the request (`Delivered`).
* `requests_delivered_intact` : the run.
-/

namespace Uvfs.Driver

open State Transition

variable {s s' : State} {a : Act} {t : TransId} {r : ReadId} {G : State → Act → Prop}

/-! ## The lists -/

/-- A transaction that is built or listed holds its client's request and serial. -/
structure Written (s : State) (t : TransId) : Prop where
  shape : (s.clients t).pc = .built ∨ t ∈ s.enqueueLog →
    IsRequest (s.clients t).request (s.clients t).issued
  serial : (s.clients t).pc.HalfStarted ∨ s.Listed t →
    (s.trans t).serial = (s.clients t).issued
  whole : (s.clients t).pc = .built ∨ s.Listed t → (s.trans t).u = (s.clients t).request

namespace Written

theorem init (t : TransId) : Written State.init t where
  shape h := h.elim (fun h => by cases h) fun h => absurd h List.not_mem_nil
  serial h := h.elim (fun h => h.elim) fun h => by
    rcases h with h | h <;> exact absurd h List.not_mem_nil
  whole h := h.elim (fun h => by cases h) fun h => by
    rcases h with h | h <;> exact absurd h List.not_mem_nil

theorem frame (h : Written s t) (hf : Frame s s' t) : Written s' t where
  shape := by
    rw [hf.client, hf.log]
    exact h.shape
  serial := by
    rw [hf.client, hf.trans, hf.listed]
    exact h.serial
  whole := by
    rw [hf.client, hf.trans, hf.listed]
    exact h.whole

/-- Off the lists and past the start, there is nothing left to keep but the client's own record. -/
theorem of_unlisted (h : Written s t) (hlog : s'.enqueueLog = s.enqueueLog)
    (hreq : (s'.clients t).request = (s.clients t).request)
    (hiss : (s'.clients t).issued = (s.clients t).issued)
    (hhalf : ¬ (s'.clients t).pc.HalfStarted) (hlist : ¬ s'.Listed t) : Written s' t where
  shape hp := by
    rw [hreq, hiss]
    refine h.shape (.inr (hlog ▸ hp.resolve_left fun hb => hhalf ?_))
    rw [hb]
    trivial
  serial hp := absurd hp (not_or.mpr ⟨hhalf, hlist⟩)
  whole hp := by
    refine absurd hp (not_or.mpr ⟨fun hb => hhalf ?_, hlist⟩)
    rw [hb]
    trivial

/-- The client moves on and keeps its record. -/
theorem setClient (h : Written s t) {c : Client} (hreq : c.request = (s.clients t).request)
    (hiss : c.issued = (s.clients t).issued)
    (hpc : c.pc = (s.clients t).pc ∨ ¬ c.pc.HalfStarted) : Written (s.setClient t c) t := by
  have hc : (s.setClient t c).clients t = c := Function.update_self ..
  have hbuilt : c.pc = .built → (s.clients t).pc = .built := fun hb => by
    rcases hpc with hpc | hpc
    · exact hpc.symm.trans hb
    · exact absurd (by rw [hb]; trivial) hpc
  refine ⟨fun hp => ?_, fun hp => ?_, fun hp => ?_⟩ <;> rw [hc] at hp ⊢
  · rw [hreq, hiss]
    exact h.shape (hp.imp_left hbuilt)
  · rw [hiss]
    refine h.serial (hp.imp_left fun hh => ?_)
    rcases hpc with hpc | hpc
    · exact hpc ▸ hh
    · exact absurd hh hpc
  · rw [hreq]
    exact h.whole (hp.imp_left hbuilt)

/-- The flags behind the serial play no part. -/
theorem setTrans (h : Written s t) (tr : Transaction) (hu : tr.u = (s.trans t).u)
    (hserial : tr.serial = (s.trans t).serial) : Written (s.setTrans t tr) t := by
  have ht : (s.setTrans t tr).trans t = tr := Function.update_self ..
  refine ⟨h.shape, fun hp => ?_, fun hp => ?_⟩ <;> rw [ht]
  · exact hserial.trans (h.serial hp)
  · exact hu.trans (h.whole hp)

theorem newTransaction (hs : Sound s) (junk : Transaction) (old : Option TransId) :
    Written (s.addTransaction junk old) s.nTrans := by
  have hlog : s.nTrans ∉ s.enqueueLog := fun hm => lt_irrefl _ (hs.logged.log _ hm).1
  have hlist : ¬ s.Listed s.nTrans := fun hl => hlog (hs.enqueued_of_listed hl)
  have hc : ((s.addTransaction junk old).clients s.nTrans).pc = .created := by
    simp [addTransaction]
  refine ⟨fun hp => ?_, fun _ => ?_, fun hp => ?_⟩
  · exact hp.elim (fun hb => by cases hc.symm.trans hb) fun hm => absurd hm hlog
  · simp [addTransaction]
  · exact hp.elim (fun hb => by cases hc.symm.trans hb) fun hl => absurd hl hlist

/-- The client builds its request. -/
theorem buildRequest (h : Written s t) {req : Mem}
    (hp : (s.clients t).pc = .created) (hreq : IsRequest req (s.trans t).serial) :
    Written ((s.setTrans t { s.trans t with u := req }).setClient t
      { s.clients t with pc := .built, request := req }) t := by
  have hserial : (s.trans t).serial = (s.clients t).issued := h.serial (.inl (by rw [hp]; trivial))
  refine ⟨fun _ => ?_, fun _ => ?_, fun _ => ?_⟩ <;>
    simp only [State.setClient, State.setTrans, Function.update_self]
  · exact hserial ▸ hreq
  · exact hserial

theorem enqueue (h : Written s t) (hp : (s.clients t).pc = .built) : Written (s.enqueue t) t := by
  have hc : (s.enqueue t).clients t = { s.clients t with pc := .waiting } :=
    Function.update_self ..
  refine ⟨fun _ => ?_, fun _ => ?_, fun _ => ?_⟩ <;> rw [hc]
  · exact h.shape (.inl hp)
  · exact h.serial (.inl (by rw [hp]; trivial))
  · exact h.whole (.inl hp)

/-- The loop of `uvfsd_read` at the head of `Uvfs_requests`. -/
theorem readLoop (h : Written s t) (ht : s.uvfsRequests.head? = some t)
    (hr : ¬ (s.reads r).pc.Uses t) (hl : ReadLoop s r s') : Written s' t := by
  cases hl with
  | shutdown => exact h.frame (Frame.setRead (iff_of_false id hr))
  | sleep _ hreq =>
      rw [hreq] at ht
      cases ht
  | take t' rest s₁ _ hreq hw =>
      obtain rfl : t' = t := by
        rw [hreq] at ht
        exact Option.some.inj ht
      have hlist : s.Listed t' := .inl (by rw [hreq]; exact List.mem_cons_self)
      have h₀ : Written (s.handOut t' rest) t' :=
        ⟨h.shape, fun _ => h.serial (.inr hlist), fun _ => h.whole (.inr hlist)⟩
      have h₁ : Written (s₁.setTrans t' { s₁.trans t' with inUse := 1 }) t' :=
        (h₀.frame (Frame.woke hw)).setTrans _ rfl rfl
      exact ⟨h₁.shape, h₁.serial, h₁.whole⟩

/-- Every step keeps what is written when the calls work on their own. -/
theorem step (hs : Sound s) (ho : Owned s) (hfl : Flags s t) (h : Written s t)
    (he : Effect s a s') : Written s' t := by
  by_cases ht : Touches s a t
  swap
  · exact h.frame (he.frame hs.files ht)
  cases he with
  | release f _ _ hne => exact absurd ht.1 hne
  | releaseLast f _ _ _ =>
      refine h.of_unlisted rfl rfl rfl (hfl.listed ht.2).1.not_halfStarted ?_
      rintro (hm | hm) <;> exact absurd hm List.not_mem_nil
  | newTransaction junk old _ =>
      obtain rfl : t = s.nTrans := ht
      exact newTransaction hs junk old
  | buildRequest t' req hp hreq =>
      obtain rfl : t = t' := ht
      exact h.buildRequest hp hreq
  | refused t' pick hp _ =>
      obtain rfl : t = t' := ht
      refine h.of_unlisted rfl ?_ ?_ ?_ (hfl.not_listed (by rw [hp]; exact id)) <;>
        simp [State.setClientPc, State.setClient, State.setTrans, ClientPc.HalfStarted]
  | enqueued t' pick s' hp _ hw =>
      obtain rfl : t = t' := ht
      exact (h.enqueue hp).frame (Frame.woke hw)
  | kill t' _ =>
      obtain rfl : t = t' := ht
      exact setClient (s := s.wakeUpIf ((s.clients t).pc = .waiting) t)
        ⟨h.shape, h.serial, h.whole⟩ rfl rfl (.inl rfl)
  | waitSleep t' _ _ => exact ⟨h.shape, h.serial, h.whole⟩
  | waitAnswered t' _ _ | waitSignal t' _ _ | checkLeave t' _ _ | waitUnused t' _ _ | leave t' _
  | kfree t' _ =>
      obtain rfl : t = t' := ht
      exact h.setClient rfl rfl (.inr id)
  | checkAbort t' _ _ _ =>
      obtain rfl : t = t' := ht
      exact (h.setTrans { s.trans t with abort := 1 } rfl rfl).setClient rfl rfl (.inr id)
  | checkUnlink t' _ _ _ | withdraw t' _ =>
      obtain rfl : t = t' := ht
      refine h.of_unlisted rfl ?_ ?_ ?_ ?_
      · simp [State.unlinkAborted, State.setClient]
      · simp [State.unlinkAborted, State.setClient]
      · simp [State.unlinkAborted, State.setClient, ClientPc.HalfStarted]
      · rintro (hm | hm)
        · exact hs.requests_nodup.not_mem_erase hm
        · exact hs.replies_nodup.not_mem_erase hm
  | reuse t' junk hre =>
      obtain rfl : t = t' := ht
      refine h.of_unlisted rfl rfl rfl ?_ hre.2.2.2
      simp only [State.setTrans, hre.1]
      exact id
  | readLockFirst r pick s' hr hl => exact h.readLoop ht (hr ▸ id) hl
  | readLockAgain r pick s' hr _ hl =>
      have hnot : ¬ (s.reads r).pc.Uses t := by rcases hr with hr | hr <;> exact hr ▸ id
      exact readLoop (s := { s with uvfsDriverQueue := s.uvfsDriverQueue.erase r })
        ⟨h.shape, h.serial, h.whole⟩ ht hnot hl
  | readLockSignal r pick _ _ => exact ⟨h.shape, h.serial, h.whole⟩
  | readDone r t' fault hr m hm =>
      obtain ⟨rfl, rfl⟩ := ho.of_readDone hr hm ht
      have h₁ := h.setTrans { s.trans m with inUse := 0 } rfl rfl
      exact ⟨h₁.shape, h₁.serial, h₁.whole⟩
  | writeMiss w _ hfind => exact absurd (hfind.symm.trans ht) (by simp)
  | writeClaim w t' _ hfind =>
      obtain rfl : t = t' := Option.some.inj (Eq.trans (Eq.symm ht) hfind)
      have hrep : t ∈ s.uvfsReplies := List.mem_of_find?_eq_some hfind
      refine h.of_unlisted rfl rfl rfl (hfl.listed (.inr hrep)).1.not_halfStarted ?_
      rintro (hm | hm)
      · exact hs.not_handedOut (List.mem_of_mem_erase hm) (hs.handedOut hrep)
      · exact hs.replies_nodup.not_mem_erase hm
  | writeCopy w data fault t' hw m hm | writeDone w t' fault hw m hm =>
      have huses : (s.writes w).pc.Uses t' := by rw [hw]; rfl
      obtain ⟨rfl, rfl⟩ := ho.of_write huses hm ht
      have hlog := hs.logged.log m (hs.enqueued_of_held (.inr ⟨w, huses⟩))
      exact h.of_unlisted rfl rfl rfl hlog.2 (hs.not_listed_of_write huses)
  | _ => exact ht.elim

end Written

/-- In every run in which no write claims a transaction out of turn or copies over `in_use`, what is
listed holds its request. -/
theorem Reachable.written (h : Reachable ClaimsSafely s) (t : TransId) : Written s t := by
  refine Reach.invariant_of (I := Reachable ClaimsSafely) (P := fun s => Written s t)
    (fun _ hr => hr) (Written.init t) ?_ h
  intro s a s' hr hw _ he
  exact hw.step (Reachable.sound hr) (Reachable.owned hr) (Reachable.flags hr t) (step_effect he)

/-- Once a transaction is enqueued its client's record of the request and the serial does not
change. -/
theorem Effect.record_eq (hs : Sound s) (he : Effect s a s') (hlog : t ∈ s.enqueueLog) :
    (s'.clients t).request = (s.clients t).request ∧
      (s'.clients t).issued = (s.clients t).issued := by
  obtain ⟨hlt, hhalf⟩ := hs.logged.log t hlog
  by_cases ht : Touches s a t
  swap
  · rw [(he.frame hs.files ht).client]
    exact ⟨rfl, rfl⟩
  cases he with
  | newTransaction junk old _ =>
      exact absurd hlt (by rw [show t = s.nTrans from ht]; exact lt_irrefl _)
  | buildRequest t' req hp _ | refused t' pick hp _ | enqueued t' pick s' hp _ _ =>
      obtain rfl : t = t' := ht
      exact absurd (by rw [hp]; trivial) hhalf
  | kill t' _ | waitAnswered t' _ _ | waitSignal t' _ _ | checkAbort t' _ _ _ | checkLeave t' _ _
  | waitUnused t' _ _ | leave t' _ | kfree t' _ =>
      obtain rfl : t = t' := ht
      simp [State.setClientPc, State.setClient, State.setTrans, State.wakeUpIf]
  | checkUnlink t' _ _ _ | withdraw t' _ =>
      obtain rfl : t = t' := ht
      simp [State.unlinkAborted, State.setClient]
  | readLockFirst r pick s' _ hl | readLockAgain r pick s' _ _ hl =>
      cases hl with
      | shutdown => exact ⟨rfl, rfl⟩
      | sleep => exact ⟨rfl, rfl⟩
      | take t' rest s₁ _ _ hw =>
          obtain ⟨reads, rfl, _⟩ := hw.exists_reads
          exact ⟨rfl, rfl⟩
  | readPassOn r pick fault s₁ _ _ => exact ht.elim
  | ioctlShutdown f cmd mounted pick s' _ _ => exact ht.elim
  | _ => exact ⟨rfl, rfl⟩

/-! ## The transactions a read copies out -/

/-- A read works on a transaction in `Uvfs_replies`: its client waits unanswered, so the transaction
has a place, and no write works on it. -/
theorem Safe.mem_replies (hs : Sound s) (h : Safe s) (hr : (s.reads r).pc.Uses t) :
    t ∈ s.uvfsReplies := by
  obtain ⟨_, hans, hwaits⟩ := (h.guarded t).held (.inl ⟨r, hr⟩)
  have hwd : (s.clients t).withdrawn = false :=
    Bool.eq_false_iff.mpr fun hw => hwaits.not_past ((h.flags t).withdrawn hw)
  have hlog := hs.enqueued_of_held (.inl ⟨r, hr⟩)
  rcases (h.flags t).pending hlog hwaits.ne_freed hwd hans with (hm | hm) | ⟨w, hw⟩
  · exact absurd hm (hs.not_requested_of_read hr.trans?)
  · exact hm
  · exact absurd hw ((h.guarded t).apart r w hr)

/-! ## What a read delivers -/

/-- The copy of the request has succeeded so far. -/
def ReadPc.Succeeds : ReadPc → Prop
  | .copied _ fault | .finished _ fault => fault = false
  | .returned v => 0 ≤ v
  | _ => False

/-- The read has delivered, or is about to deliver, the bytes of `t`. -/
def ReadCall.Delivers (c : ReadCall) (t : TransId) : Prop := c.took = some t ∧ c.pc.Succeeds

/-- What reads deliver is the request the client built, as long as its `size` says. -/
def Delivered (s : State) : Prop :=
  ∀ r t, (s.reads r).Delivers t → (s.reads r).buf = (s.clients t).request ∧
    (s.reads r).len = ((s.clients t).request.word offsetofSize).toInt.toNat

/-- A read that delivers has done so before this step or copies the union now. -/
theorem Effect.delivers (hc : Calls s) (he : Effect s a s') (h : (s'.reads r).Delivers t) :
    ((s.reads r).Delivers t ∧ (s'.reads r).buf = (s.reads r).buf ∧
      (s'.reads r).len = (s.reads r).len) ∨
    (a = .readCopy r none ∧ (s.reads r).pc = .copying t ∧
      0 ≤ (s.trans (s.owner t)).requestSize ∧ (s'.reads r).buf = (s.trans (s.owner t)).u ∧
      (s'.reads r).len = (s.trans (s.owner t)).requestSize.toNat) := by
  have hmove := he.read_move r
  obtain ⟨htook, hsucc⟩ := h
  generalize s'.reads r = c' at hmove htook hsucc ⊢
  -- a read on its way to a request or to the shutdown message has taken nothing
  have hearly : (s.reads r).pc.Early → (s.reads r).took ≠ some t := fun hp htook₀ =>
    absurd ((hc.early r hp).symm.trans htook₀) (by simp)
  cases hmove with
  | same => exact .inl ⟨⟨htook, hsucc⟩, rfl, rfl⟩
  | start f count _ => cases htook
  | signal hp =>
      refine .inl ⟨⟨htook, ?_⟩, rfl, rfl⟩
      dsimp only at hsucc
      split_ifs at hsucc
      · exact hsucc.elim
      · exact hsucc
  | early _ pc hp _ => exact absurd htook (hearly hp)
  | take pick t' _ _ => exact hsucc.elim
  | interrupted pick hp => exact absurd htook (hearly hp)
  | passOn pick fault hp => exact absurd htook (hearly (by rw [hp]; trivial))
  | copy fault t' hp =>
      have htook' : (s.reads r).took = some t' := hc.took r t' (by rw [hp]; rfl)
      obtain rfl : t' = t := Option.some.inj (htook'.symm.trans htook)
      have hfault : (fault.isSome || decide ((s.trans (s.owner t')).requestSize < 0)) = false :=
        hsucc
      cases fault with
      | none => exact .inr ⟨rfl, hp, not_lt.mp (by simpa using hfault), rfl, rfl⟩
      | some k => simp at hfault
  | done t' fault hp =>
      refine .inl ⟨⟨htook, ?_⟩, rfl, rfl⟩
      rw [hp]
      exact hsucc
  | returns t' fault hp =>
      refine .inl ⟨⟨htook, ?_⟩, rfl, rfl⟩
      rw [hp]
      cases fault with
      | false => rfl
      | true => exact absurd (show (0 : ℤ) ≤ eio from hsucc) (by decide)

/-- Every step delivers the request. -/
theorem Delivered.step (hs : Sound s) (hsafe : Safe s) (hw : ∀ t, Written s t)
    (h : Delivered s) (he : Effect s a s') : Delivered s' := by
  intro r t hd
  rcases he.delivers hs.calls hd with ⟨hold, hbuf, hlen⟩ | ⟨_, hpc, _, hbuf, hlen⟩
  · have hlog := hs.enqueued_of_took hold.1
    rw [(he.record_eq hs hlog).1, hbuf, hlen]
    exact h r t hold
  · have huses : (s.reads r).pc.Uses t := by rw [hpc]; rfl
    have hlog := hs.enqueued_of_held (.inl ⟨r, huses⟩)
    have hwhole := (hw t).whole (.inr (.inr (hsafe.mem_replies hs huses)))
    rw [hsafe.owned hs t (.inl ⟨r, huses⟩)] at hbuf hlen
    rw [(he.record_eq hs hlog).1, hbuf, hlen, ← hwhole]
    exact ⟨rfl, rfl⟩

/-- In every run that meets the guard reads deliver requests. -/
theorem Reachable.delivered (h : Reachable ClaimsSafely s) : Delivered s := by
  refine Reach.invariant_of (I := Reachable ClaimsSafely) (fun _ hr => hr)
    (fun r t hd => by cases hd.1) ?_ h
  intro s a s' hr hd _ hstep
  exact hd.step (Reachable.sound hr) (Reachable.safe hr) (Reachable.written hr) (step_effect hstep)

/-! ## A late reply to a serial that was issued again -/

/-- Transactions that are not freed have different serials. -/
def LiveDistinct (s : State) : Prop :=
  ∀ t < s.nTrans, ∀ t' < s.nTrans, (s.clients t).pc ≠ .freed → (s.clients t').pc ≠ .freed →
    (s.trans t).serial = (s.trans t').serial → t = t'

instance (s : State) : Decidable (LiveDistinct s) :=
  inferInstanceAs (Decidable (∀ t < s.nTrans, ∀ t' < s.nTrans, _))

/-- Transactions 0 and 1 get their serials, then the last server closes the device and the counter
starts again.  Transaction 1 is enqueued under the next server, read, and withdrawn by its killed
client; the server's answer to it is still to come.  Transaction 3 gets the same serial, a read
starts to copy it out, and now the answer comes: it claims transaction 3 and replaces its request
under the reader's hands. -/
theorem stale_reply_overwrites_copied_request :
    ∃ s, Reachable (fun s a => RepliesToReads s a ∧ LiveDistinct s) s ∧ LiveDistinct s ∧
      (s.reads 1).pc = .copying 3 ∧ (s.trans 3).u 0 ≠ (s.clients 3).request 0 := by
  obtain ⟨s, hs, hp⟩ :=
    Reach.of_check step (fun s a => RepliesToReads s a ∧ LiveDistinct s) State.init
    [.uvfsdOpen 0, .newTransaction .zeroed none, .newTransaction .zeroed none,
      .buildRequest 0 (getattrRequest 0), .buildRequest 1 (getattrRequest 1), .uvfsdRelease 0,
      .makeRequest 0 none, .leave 0, .kfree 0, .uvfsdOpen 0, .makeRequest 1 none,
      .readEnter 0 sizeofUvfsRequestU, .readLock 0 none, .readCopy 0 none, .readDone 0,
      .readReturn 0, .kill 1, .waitSignal 1, .checkSignal 1, .leave 1, .kfree 1,
      .newTransaction .zeroed none, .newTransaction .zeroed none,
      .buildRequest 3 (getattrRequest 1), .makeRequest 3 none, .readEnter 0 sizeofUvfsRequestU,
      .readLock 1 none, .writeEnter 0 16 (some ⟨1, 16⟩) (some 0), .writeLookup 0,
      .writeCopy 0 (fun _ => 0) none]
    (fun s => LiveDistinct s ∧ (s.reads 1).pc = .copying 3 ∧
      (s.trans 3).u 0 ≠ (s.clients 3).request 0) (by decide +kernel)
  exact ⟨s, hs, hp⟩

/-! ## The run -/

/-- The status ioctl finds every listed transaction among the fifteen request types. -/
theorem statusLines_of_listed {l : List TransId} (hl : ∀ t ∈ l, s.Listed t)
    (hs : Sound s) (hw : ∀ t, Written s t) {line : Word × Option String}
    (hline : line ∈ s.statusLines l) :
    ∃ k, 1 ≤ k ∧ k ≤ 15 ∧ line.2 = opNames[k]? ∧ line.2.isSome = true := by
  obtain ⟨t, ht, rfl⟩ := List.mem_map.mp hline
  have hreq := (hw t).shape (.inr (hs.enqueued_of_listed (hl t ht)))
  obtain ⟨hlow, hhigh⟩ := hreq.type
  rw [← (hw t).whole (.inr (hl t ht))] at hlow hhigh
  set k := ((s.trans t).u.word offsetofType).toInt with hk
  refine ⟨k.toNat, by omega, by omega, ?_⟩
  have hlen : opNames.length = 18 := rfl
  have hget := List.getElem?_eq_getElem (l := opNames) (i := k.toNat) (by omega)
  rw [if_pos (by omega : 0 ≤ k)]
  exact ⟨rfl, by simp only [hget, Option.isSome_some]⟩

/-- **Requests are delivered intact**, in every run in which no write claims a transaction that a
read still works on or whose client is past its unlocked test of `in_use`, and no reply reaches over
`in_use`: what is listed and what a read works on holds the request its client built, a read that
succeeds has copied the first `size` bytes of it, and the status ioctl indexes `Op_names` at the
request types only. -/
theorem requests_delivered_intact (h : Reachable ClaimsSafely s) :
    (∀ t, s.Listed t → (s.trans t).u = (s.clients t).request) ∧
    (∀ r t, (s.reads r).pc.Uses t → (s.trans t).u = (s.clients t).request) ∧
    (∀ r t v, (s.reads r).pc = .returned v → 0 ≤ v → (s.reads r).took = some t →
      (s.reads r).len = ((s.clients t).request.word offsetofSize).toInt.toNat ∧
        ∀ i < (s.reads r).len, (s.reads r).buf i = (s.clients t).request i) ∧
    ∀ line ∈ s.statusLines (s.uvfsRequests ++ s.uvfsReplies),
      ∃ k, 1 ≤ k ∧ k ≤ 15 ∧ line.2 = opNames[k]? ∧ line.2.isSome = true := by
  have hw := Reachable.written h
  have hsafe := Reachable.safe h
  refine ⟨fun t hl => (hw t).whole (.inr hl), fun r t hr => ?_, fun r t v hp hv htook => ?_, ?_⟩
  · exact (hw t).whole (.inr (.inr (hsafe.mem_replies (Reachable.sound h) hr)))
  · obtain ⟨hbuf, hlen⟩ := Reachable.delivered h r t ⟨htook, by rw [hp]; exact hv⟩
    exact ⟨hlen, fun i _ => congrFun hbuf i⟩
  · exact fun line hline => statusLines_of_listed (fun t ht => List.mem_append.mp ht)
      (Reachable.sound h) hw hline

/-- One request is read and one waits. -/
theorem requests_delivered_intact_two : ∃ s, Reachable ClaimsSafely s ∧
    ((s.reads 0).pc = .returned 52 ∧ (s.reads 0).took = some 0 ∧ s.uvfsRequests = [1]) ∧
    (∀ i < (s.reads 0).len, (s.reads 0).buf i = (s.clients 0).request i) ∧
    (s.trans 1).u = (s.clients 1).request := by
  obtain ⟨s, hs, hp⟩ := Reach.of_check step ClaimsSafely State.init
    [.uvfsdOpen 0, .newTransaction .zeroed none, .newTransaction .zeroed none,
      .buildRequest 0 (getattrRequest 0), .buildRequest 1 (getattrRequest 1), .makeRequest 0 none,
      .makeRequest 1 none, .readEnter 0 sizeofUvfsRequestU, .readLock 0 none, .readCopy 0 none,
      .readDone 0, .readReturn 0]
    (fun s => (s.reads 0).pc = .returned 52 ∧ (s.reads 0).took = some 0 ∧
      s.uvfsRequests = [1]) (by decide +kernel)
  obtain ⟨hlist, _, hread, _⟩ := requests_delivered_intact hs
  exact ⟨s, hs, hp, (hread 0 0 52 hp.1 (by decide) hp.2.1).2,
    hlist 1 (.inl (by rw [hp.2.2]; exact List.mem_singleton_self 1))⟩

end Uvfs.Driver
