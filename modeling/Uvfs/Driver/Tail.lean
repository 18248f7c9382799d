import Uvfs.Driver.Intact

/-!
# The tail of `uvfsd_read`

`uvfsd_read` clears `in_use`, releases the lock, and only then reads `request->size`, for the value
it returns.  What keeps the client from freeing the transaction ends with the unlock.

* `ReadsLate s r t` : what the call still has to do depends on the memory of `t`, whoever has it.
* `readsLate_iff` : it does so exactly when the copy to the server succeeded.
* `freed_size_is_returned` : the client is killed and frees the transaction, the memory is used
  again, and the read returns a number from there.
* `Act.stores?` : the steps that fill the memory of a transaction with something else.  By
  `Effect.requestSize_cases` no other step changes the size in it.
* `read_reports_delivery_iff` : the runs.
-/

namespace Uvfs.Driver

open State Transition

variable {s s' : State} {a : Act} {t m : TransId} {r : ReadId} {G : State → Act → Prop}

/-! ## The late read -/

/-- What `uvfsd_read` returns from here. -/
def State.readValue (s : State) (r : ReadId) : Option ReadPc :=
  (s.uvfsdReadReturn r).map fun s' => (s'.reads r).pc

/-- The call has cleared `in_use` and released the lock, and what it returns depends on what is
then in the memory of `t`. -/
def ReadsLate (s : State) (r : ReadId) (t : TransId) : Prop :=
  (∃ fault, (s.reads r).pc = .finished t fault) ∧
    ∃ junk, (s.setTrans (s.owner t) junk).readValue r ≠ s.readValue r

/-- A read that succeeds returns the number of bytes it copied: the size that the request had when
it was taken from `Uvfs_requests`, or that of the shutdown message. -/
structure ReportsSize (s : State) : Prop where
  request : ∀ r t v, (s.reads r).pc = .returned v → 0 ≤ v → (s.reads r).took = some t →
    v = (s.reads r).len ∧ v = (s.reads r).size
  shutdown : ∀ r < s.nReads, ∀ v, (s.reads r).pc = .returned v → 0 ≤ v →
    (s.reads r).took = none → v = (requestLayout .shutdown).sum

/-- `uvfsd_read` leaves the transaction alone after the unlock and returns what it delivered. -/
structure ReportsDelivery (s : State) : Prop where
  noLateRead : ∀ r t, ¬ ReadsLate s r t
  size : ReportsSize s

theorem readValue_of_finished {fault : Bool} (h : (s.reads r).pc = .finished t fault) :
    s.readValue r =
      some (.returned (if fault then eio else (s.trans (s.owner t)).requestSize)) := by
  unfold readValue uvfsdReadReturn
  simp [h, setReadPc, setRead]

/-- Every size has another one. -/
theorem Transaction.exists_requestSize_ne (tr : Transaction) :
    ∃ junk : Transaction, junk.requestSize ≠ tr.requestSize := by
  refine ⟨{ tr with u := tr.u.setWord offsetofSize (tr.u.word offsetofSize + 1) }, fun h => ?_⟩
  unfold requestSize at h
  rw [Mem.word_setWord, BitVec.toInt_inj] at h
  exact absurd (BitVec.add_right_eq_self.mp h) (by decide)

/-- **The late read.** A read that has delivered its request reads the transaction after the unlock,
and a read whose copy failed does not. -/
theorem readsLate_iff {fault : Bool} (h : (s.reads r).pc = .finished t fault) :
    ReadsLate s r t ↔ fault = false := by
  have hjunk : ∀ junk, (s.setTrans (s.owner t) junk).readValue r =
      some (.returned (if fault then eio else junk.requestSize)) := by
    intro junk
    rw [readValue_of_finished (s := s.setTrans (s.owner t) junk) h]
    simp [setTrans]
  constructor
  · rintro ⟨_, junk, hne⟩
    rw [hjunk, readValue_of_finished h] at hne
    cases fault with
    | false => rfl
    | true => simp at hne
  · rintro rfl
    obtain ⟨junk, hne⟩ := (s.trans (s.owner t)).exists_requestSize_ne
    refine ⟨⟨false, h⟩, junk, ?_⟩
    rw [hjunk, readValue_of_finished h]
    simpa using hne

/-- The client is killed while its request is being delivered.  It unlinks the transaction after the
read has cleared `in_use`, frees it, and the memory goes to somebody else.  The read has copied 52
bytes and returns 1000. -/
theorem freed_size_is_returned : ∃ s s', Reachable anyStep s ∧ (s.clients 0).pc = .freed ∧
    ReadsLate s 0 0 ∧ step s (.readReturn 0) = some s' ∧ (s'.reads 0).pc = .returned 1000 ∧
    (s'.reads 0).took = some 0 ∧ (s'.reads 0).len = 52 ∧ ¬ ReportsSize s' := by
  obtain ⟨s, hs, hfreed, hpc, hsize, htook, hlen⟩ := Reach.of_check step anyStep State.init
    [.uvfsdOpen 0, .newTransaction .zeroed none, .buildRequest 0 (getattrRequest 0),
      .makeRequest 0 none, .readEnter 0 sizeofUvfsRequestU, .readLock 0 none, .kill 0,
      .waitSignal 0, .readCopy 0 none, .readDone 0, .checkSignal 0, .leave 0, .kfree 0,
      .reuse 0 { Transaction.zeroed with u := Mem.setWord (fun _ => 0) offsetofSize 1000 }]
    (fun s => (s.clients 0).pc = .freed ∧ (s.reads 0).pc = .finished 0 false ∧
      (s.trans (s.owner 0)).requestSize = 1000 ∧ (s.reads 0).took = some 0 ∧ (s.reads 0).len = 52)
    (by decide +kernel)
  have hstep : step s (.readReturn 0) = some (s.setReadPc 0 (.returned 1000)) := by
    simp [step, uvfsdReadReturn, hpc, hsize]
  have hret : (s.setReadPc 0 (.returned 1000)).reads 0 =
      { s.reads 0 with pc := .returned 1000 } := by
    simp [setReadPc, setRead]
  refine ⟨s, _, hs, hfreed, (readsLate_iff hpc).mpr rfl, hstep, ?_, ?_, ?_, fun h => ?_⟩
  · rw [hret]
  · rw [hret]
    exact htook
  · rw [hret]
    exact hlen
  · have hv := (h.request 0 0 1000 (by rw [hret]) (by decide) (by rw [hret]; exact htook)).1
    rw [hret, hlen] at hv
    exact absurd hv (by decide)

/-! ## How a read returns -/

/-- The successful returns: a read that had returned already, the shutdown message, and the late
read of the size. -/
theorem Effect.returns (hc : Calls s) (he : Effect s a s') {v : ℤ}
    (h : (s'.reads r).pc = .returned v) (hv : 0 ≤ v) :
    s'.reads r = s.reads r ∨
    ((s'.reads r).took = none ∧ v = (requestLayout .shutdown).sum) ∨
    ∃ t, (s.reads r).pc = .finished t false ∧ v = (s.trans (s.owner t)).requestSize := by
  have hmove := he.read_move r
  generalize s'.reads r = c' at hmove h ⊢
  cases hmove with
  | same => exact .inl rfl
  | start f count _ =>
      dsimp only at h
      split_ifs at h
      cases h
      exact absurd hv (by decide)
  | signal hp =>
      dsimp only at h
      split_ifs at h
      exact absurd hp (by rw [h]; exact id)
  | early _ pc _ hpc =>
      obtain rfl : pc = .returned v := h
      exact hpc.elim
  | take pick t _ _ => cases h
  | interrupted pick _ =>
      cases h
      exact absurd hv (by decide)
  | passOn pick fault hp =>
      have hnone : (s.reads r).took = none := hc.early r (by rw [hp]; trivial)
      cases fault with
      | false => exact .inr (.inl ⟨hnone, (ReadPc.returned.inj h).symm⟩)
      | true =>
          have heio : eio = v := ReadPc.returned.inj h
          exact absurd (heio ▸ hv) (by decide)
  | copy fault t _ => cases h
  | done t fault _ => cases h
  | returns t fault hp =>
      cases fault with
      | false => exact .inr (.inr ⟨t, hp, (ReadPc.returned.inj h).symm⟩)
      | true =>
          have heio : eio = v := ReadPc.returned.inj h
          exact absurd (heio ▸ hv) (by decide)

/-! ## Who changes the size -/

/-- The error of a reply and the size of a request are different words of the union. -/
@[simp] theorem Transaction.requestSize_setError (tr : Transaction) (e : ℤ) :
    (tr.setError e).requestSize = tr.requestSize := by
  unfold requestSize setError
  rw [Mem.word_setWord_of_disjoint (.inl (by decide))]

@[simp] theorem Transaction.requestSize_fail (tr : Transaction) :
    tr.fail.requestSize = tr.requestSize :=
  tr.requestSize_setError eio

/-- The memory that a step fills with something else, and what is then there: the next owner gets
it with other contents, or a caller builds its request, or a reply is copied. -/
def Act.stores? (s : State) : Act → Option (TransId × Transaction)
  | .newTransaction junk (some m) | .reuse m junk => some (m, junk)
  | .buildRequest t req => some (t, { s.trans t with u := req })
  | .writeCopy w data fault =>
      match (s.writes w).pc with
      | .copying t => some (s.owner t, (s.trans (s.owner t)).copyFromUser (s.writes w).size.toNat
          (userBytes data fault))
      | _ => none
  | _ => none

/-- Only a step that fills the memory with something else changes the size in it. -/
theorem Effect.requestSize_cases (hs : Sound s) (he : Effect s a s') (hm : m < s.nTrans) :
    (s'.trans m).requestSize = (s.trans m).requestSize ∨
      ∃ tr, a.stores? s = some (m, tr) ∧ (s'.trans m).requestSize = tr.requestSize := by
  by_cases ht : Touches s a m
  swap
  · exact .inl (by rw [(he.frame hs.files ht).trans])
  cases he with
  | release f _ _ hne => exact absurd ht.1 hne
  | releaseLast f _ _ _ =>
      have hdrain := drain_trans_of_listed
        (s := { s with opened := s.opened.erase f, uvfsUseCount := s.uvfsUseCount - 1 })
        hs.nodup ht.2
      exact .inl (by rw [hdrain, Transaction.requestSize_fail])
  | newTransaction junk old _ =>
      exact absurd hm (by rw [show m = s.nTrans from ht]; exact lt_irrefl _)
  | buildRequest t req _ _ =>
      obtain rfl : m = t := ht
      exact .inr ⟨_, rfl, by simp [setClient, setTrans]⟩
  | refused t pick _ _ =>
      obtain rfl : m = t := ht
      exact .inl (by simp [setClientPc, setClient, setTrans])
  | enqueued t pick s' _ _ hw =>
      obtain ⟨reads, rfl, _⟩ := hw.exists_reads
      exact .inl rfl
  | kill t _ | waitSleep t _ _ | waitAnswered t _ _ | waitSignal t _ _ | checkLeave t _ _
  | waitUnused t _ _ | leave t _ | kfree t _ => exact .inl rfl
  | checkAbort t _ _ _ =>
      obtain rfl : m = t := ht
      exact .inl (by simp [setClientPc, setClient, setTrans, Transaction.requestSize])
  | checkUnlink t _ _ _ | withdraw t _ =>
      obtain rfl : m = t := ht
      exact .inl (by simp [unlinkAborted, setClient, setTrans])
  | reuse t junk _ =>
      obtain rfl : m = t := ht
      exact .inr ⟨junk, rfl, by simp [setTrans]⟩
  | readLockFirst r pick s' _ hl | readLockAgain r pick s' _ _ hl =>
      cases hl with
      | shutdown => exact .inl rfl
      | sleep => exact .inl rfl
      | take t rest s₁ _ _ hw =>
          obtain ⟨reads, rfl, _⟩ := hw.exists_reads
          refine .inl ?_
          by_cases hmt : m = t
          · subst hmt
            simp [beginReadCopy, setRead, setTrans, handOut, Transaction.requestSize]
          · simp [beginReadCopy, setRead, setTrans, handOut, hmt]
  | readLockSignal r pick _ _ => exact .inl rfl
  | readDone r t fault _ m' _ =>
      refine .inl ?_
      by_cases hmm : m = m'
      · subst hmm
        simp [setReadPc, setRead, clearInUse, State.wakeUpIf, setTrans, Transaction.requestSize]
      · simp [setReadPc, setRead, clearInUse, State.wakeUpIf, setTrans, hmm]
  | writeMiss w _ hfind => exact absurd (hfind.symm.trans ht) (by simp)
  | writeClaim w t _ hfind =>
      obtain rfl : m = t := Option.some.inj (Eq.trans (Eq.symm ht) hfind)
      exact .inl (by simp [beginWriteCopy, setWrite, setTrans, Transaction.requestSize])
  | writeCopy w data fault t hw m' hm' =>
      by_cases hmm : m = m'
      · subst hmm
        exact .inr ⟨(s.trans m).copyFromUser (s.writes w).size.toNat (userBytes data fault),
          by simp [Act.stores?, hw, hm'], by simp [setWritePc, setWrite, setTrans]⟩
      · exact .inl (by simp [setWritePc, setWrite, setTrans, hmm])
  | writeDone w t fault _ m' _ =>
      refine .inl ?_
      by_cases hmm : m = m'
      · subst hmm
        simp [setWritePc, setWrite, answer, State.wakeUp, setTrans, Transaction.requestSize]
      · simp [setWritePc, setWrite, answer, State.wakeUp, setTrans, hmm]
  | _ => exact ht.elim

/-- Memory gets another owner when a new transaction is put there. -/
theorem Effect.owner_cases (he : Effect s a s') : s'.owner = s.owner ∨
    ∃ junk old, a = .newTransaction junk old ∧ s' = s.addTransaction junk old := by
  cases he with
  | newTransaction junk old _ => exact .inr ⟨junk, old, rfl, rfl⟩
  | enqueued t pick s' _ _ hw | ioctlShutdown f cmd mounted pick s' _ hw =>
      obtain ⟨reads, rfl, _⟩ := hw.exists_reads
      exact .inl rfl
  | readPassOn r pick fault s₁ _ hw =>
      obtain ⟨reads, rfl, _⟩ := hw.exists_reads
      exact .inl rfl
  | readLockFirst r pick s' _ hl | readLockAgain r pick s' _ _ hl =>
      cases hl with
      | shutdown => exact .inl rfl
      | sleep => exact .inl rfl
      | take t rest s₁ _ _ hw =>
          obtain ⟨reads, rfl, _⟩ := hw.exists_reads
          exact .inl rfl
  | _ => exact .inl rfl

/-! ## The size stays -/

/-- A read that has not returned has taken a transaction that was in the memory of `m`. -/
def State.SizeInUse (s : State) (m : TransId) : Prop :=
  ∃ r < s.nReads, ∃ t ∈ (s.reads r).pc.trans?, s.owner t = m

instance (s : State) (m : TransId) : Decidable (s.SizeInUse m) :=
  inferInstanceAs (Decidable (∃ r < s.nReads, ∃ t ∈ (s.reads r).pc.trans?, s.owner t = m))

/-- No step changes the size in memory where a read is going to use it. -/
def KeepsSize (s : State) (a : Act) : Prop :=
  ∀ p ∈ a.stores? s, s.SizeInUse p.1 → p.2.requestSize = (s.trans p.1).requestSize

instance (s : State) (a : Act) : Decidable (KeepsSize s a) :=
  inferInstanceAs (Decidable (∀ p ∈ a.stores? s, _))

/-- The reads that have taken a request find its size in the memory, and those that have copied it
have copied that many bytes. -/
structure SizeKept (s : State) : Prop where
  held : ∀ r t, (s.reads r).pc.trans? = some t →
    (s.trans (s.owner t)).requestSize = (s.reads r).size
  copied : ∀ r t, (s.reads r).Delivers t → (s.reads r).len = (s.reads r).size.toNat

theorem ReadPc.InProgress.of_trans? {pc : ReadPc} (h : pc.trans? = some t) : pc.InProgress := by
  cases pc with
  | returned v => cases h
  | _ => trivial

/-- A transaction that a read works on after the step was worked on before it, or has just been
taken from `Uvfs_requests` with its size. -/
theorem Effect.trans?_cases (he : Effect s a s') (h : (s'.reads r).pc.trans? = some t) :
    (s.reads r).pc.trans? = some t ∧ (s'.reads r).size = (s.reads r).size ∨
      t ∈ s.uvfsRequests ∧ (∃ pick, a = .readLock r pick) ∧
        (s'.reads r).size = (s.trans t).requestSize := by
  have hmove := he.read_move r
  generalize s'.reads r = c' at hmove h ⊢
  cases hmove with
  | same => exact .inl ⟨h, rfl⟩
  | start f count _ =>
      dsimp only at h
      split_ifs at h <;> cases h
  | signal _ =>
      dsimp only at h
      split_ifs at h
      · cases h
      · exact .inl ⟨h, rfl⟩
  | early _ pc _ hpc =>
      dsimp only at h
      cases pc with
      | copying | copied | finished => exact hpc.elim
      | _ => cases h
  | take pick t' _ hreq =>
      obtain rfl : t' = t := Option.some.inj h
      exact .inr ⟨hreq, ⟨pick, rfl⟩, rfl⟩
  | interrupted pick _ => cases h
  | passOn pick fault _ => cases h
  | copy fault t' hp | done t' fault hp =>
      refine .inl ⟨?_, rfl⟩
      rw [hp]
      exact h
  | returns t' fault _ => cases h

/-- A read that has taken a request keeps its record of the size. -/
theorem Effect.size_eq (hc : Calls s) (he : Effect s a s') (htook : (s.reads r).took = some t)
    (htook' : (s'.reads r).took = some t) : (s'.reads r).size = (s.reads r).size := by
  have hmove := he.read_move r
  generalize s'.reads r = c' at hmove htook' ⊢
  cases hmove with
  | start f count _ => cases htook'
  | take pick t' hp _ => exact absurd ((hc.early r hp).symm.trans htook) (by simp)
  | _ => rfl

/-- A step that does not fill the memory of `t` with another size keeps the size in it, and a new
owner finds it there. -/
theorem Effect.requestSize_eq (hs : Sound s) (he : Effect s a s') (hlt : t < s.nTrans)
    (hkeep : ∀ tr, a.stores? s = some (s.owner t, tr) →
      tr.requestSize = (s.trans (s.owner t)).requestSize) :
    (s'.trans (s'.owner t)).requestSize = (s.trans (s.owner t)).requestSize := by
  have hm : s.owner t < s.nTrans := hs.owners.lt t hlt
  rcases he.owner_cases with howner | ⟨junk, old, rfl, rfl⟩
  · rw [howner]
    rcases he.requestSize_cases hs hm with heq | ⟨tr, hst, htr⟩
    · exact heq
    · rw [htr]
      exact hkeep tr hst
  · by_cases hold : some (s.owner t) = old
    · subst hold
      have howner : (s.addTransaction junk (some (s.owner t))).owner t = s.nTrans := if_pos rfl
      rw [howner]
      have hsize : ((s.addTransaction junk (some (s.owner t))).trans s.nTrans).requestSize =
          junk.requestSize := by simp [addTransaction, Transaction.requestSize]
      rw [hsize]
      exact hkeep junk rfl
    · have howner : (s.addTransaction junk old).owner t = s.owner t := if_neg hold
      rw [howner]
      simp [addTransaction, Function.update_of_ne hm.ne]

namespace SizeKept

theorem init : SizeKept State.init where
  held _ _ h := by cases h
  copied _ _ h := by cases h.1

/-- Every step that meets the guard keeps the sizes. -/
theorem step (hs : Sound s) (h : SizeKept s) (hG : KeepsSize s a) (he : Effect s a s') :
    SizeKept s' := by
  refine ⟨fun r t hr => ?_, fun r t hd => ?_⟩
  · rcases he.trans?_cases hr with ⟨hr₀, hsize⟩ | ⟨hreq, ⟨pick, rfl⟩, hsize⟩
    · have hlog := hs.enqueued_of_took (hs.calls.took r t hr₀)
      have hlt : r < s.nReads := (hs.files.read r (.of_trans? hr₀)).1
      rw [hsize, he.requestSize_eq hs (hs.logged.log t hlog).1 fun tr hst =>
        hG (s.owner t, tr) hst ⟨r, hlt, t, hr₀, rfl⟩]
      exact h.held r t hr₀
    · -- the request is taken in this step, which stores nothing
      have hlog := hs.enqueued_of_listed (.inl hreq)
      have hkeep : ∀ tr, (Act.readLock r pick).stores? s = some (s.owner t, tr) →
          tr.requestSize = (s.trans (s.owner t)).requestSize := fun tr hst => by cases hst
      rw [hsize, he.requestSize_eq hs (hs.logged.log t hlog).1 hkeep,
        hs.owners.listed t (.inl hreq)]
  · rcases he.delivers hs.calls hd with ⟨hold, _, hlen⟩ | ⟨_, hpc, _, _, hlen⟩
    · rw [he.size_eq hs.calls hold.1 hd.1, hlen]
      exact h.copied r t hold
    · have hr : (s.reads r).pc.trans? = some t := by rw [hpc]; rfl
      rw [he.size_eq hs.calls (hs.calls.took r t hr) hd.1, hlen, h.held r t hr]

end SizeKept

/-- In every run that meets the guard the sizes are kept. -/
theorem Reachable.sizeKept (h : Reachable KeepsSize s) : SizeKept s :=
  Reach.invariant_of (I := Sound) (P := SizeKept) (fun _ hr => Reachable.sound hr) SizeKept.init
    (fun _ _ _ hs hk hG hstep => hk.step hs hG (step_effect hstep)) h

/-! ## The runs -/

/-- A read that starts has taken nothing and has at most failed the check of `count`. -/
theorem Effect.new_read (he : Effect s a s') (hr : s.nReads ≤ r) (hr' : r < s'.nReads) :
    (s'.reads r).pc = .entered ∨ (s'.reads r).pc = .returned eio := by
  by_cases ha : a.Steady
  · exact absurd hr' (by rw [(he.steady ha).nReads]; exact not_lt.mpr hr)
  cases he with
  | readEnter f count _ =>
      obtain rfl : r = s.nReads := le_antisymm (Nat.le_of_lt_succ hr') hr
      simp only [Function.update_self]
      split_ifs
      · exact .inr rfl
      · exact .inl rfl
  | newTransaction | release | releaseLast | writeEnter | writeMiss | writeClaim | writeCopy
  | writeDone => exact absurd hr' (not_lt.mpr hr)
  | _ => exact absurd trivial ha

/-- In every run a read that succeeds and has taken nothing returns the size of the shutdown
message. -/
theorem Reachable.shutdown_size (h : Reachable G s) : ∀ r < s.nReads, ∀ v,
    (s.reads r).pc = .returned v → 0 ≤ v → (s.reads r).took = none →
    v = (requestLayout .shutdown).sum := by
  refine Reach.invariant_of (I := Sound) (P := fun s => ∀ r < s.nReads, ∀ v,
    (s.reads r).pc = .returned v → 0 ≤ v → (s.reads r).took = none →
    v = (requestLayout .shutdown).sum) (fun _ hr => Reachable.sound hr) ?_ ?_ h
  · exact fun r hr => absurd hr (Nat.not_lt_zero r)
  · intro s a s' hs ih _ hstep r hr v hp hv hnone
    have he := step_effect hstep
    by_cases hlt : r < s.nReads
    · rcases he.returns hs.calls hp hv with heq | ⟨_, hsize⟩ | ⟨t, hfin, _⟩
      · exact ih r hlt v (heq ▸ hp) hv (heq ▸ hnone)
      · exact hsize
      · have htook : (s.reads r).took = some t := hs.calls.took r t (by rw [hfin]; rfl)
        have hkept := (he.read_cases hs.calls r).resolve_right fun hnew => hlt.ne hnew.1
        exact absurd (hnone.symm.trans (hkept.keeps t htook)) (by simp)
    · rcases he.new_read (not_lt.mp hlt) hr with hnew | hnew
      · cases hnew.symm.trans hp
      · cases hnew.symm.trans hp
        exact absurd hv (by decide)

/-- In every run that keeps the sizes a read that succeeds returns the size of the request it
took. -/
theorem Reachable.returned_size (h : Reachable KeepsSize s) : ∀ r t v,
    (s.reads r).pc = .returned v → 0 ≤ v → (s.reads r).took = some t →
    v = (s.reads r).size := by
  refine Reach.invariant_of (I := fun s => Sound s ∧ SizeKept s) (P := fun s => ∀ r t v,
    (s.reads r).pc = .returned v → 0 ≤ v → (s.reads r).took = some t → v = (s.reads r).size)
    (fun _ hr => ⟨Reachable.sound hr, Reachable.sizeKept hr⟩) ?_ ?_ h
  · intro r t v _ _ htook
    cases htook
  · rintro s a s' ⟨hs, hk⟩ ih _ hstep r t v hp hv htook
    have he := step_effect hstep
    rcases he.returns hs.calls hp hv with heq | ⟨hnone, _⟩ | ⟨t', hfin, hsize⟩
    · rw [heq] at hp htook ⊢
      exact ih r t v hp hv htook
    · exact absurd (hnone.symm.trans htook) (by simp)
    · have hr : (s.reads r).pc.trans? = some t' := by rw [hfin]; rfl
      have htook' : (s.reads r).took = some t' := hs.calls.took r t' hr
      have hlt : r < s.nReads := (hs.files.read r (.of_trans? hr)).1
      have hkept := (he.read_cases hs.calls r).resolve_right fun hnew => hlt.ne hnew.1
      rw [he.size_eq hs.calls htook' (hkept.keeps t' htook'), hsize]
      exact hk.held r t' hr

/-- In every run that keeps the sizes reads return what they delivered. -/
theorem Reachable.reportsSize (h : Reachable KeepsSize s) : ReportsSize s where
  request r t v hp hv htook := by
    have hsize := Reachable.returned_size h r t v hp hv htook
    have hlen := (Reachable.sizeKept h).copied r t ⟨htook, by rw [hp]; exact hv⟩
    refine ⟨?_, hsize⟩
    rw [hlen, ← hsize, Int.toNat_of_nonneg hv]
  shutdown := Reachable.shutdown_size h

/-- The server's buffer, or a size that is negative, makes every copy of a request fault. -/
def FaultsCopies (s : State) : Act → Prop
  | .readCopy r fault => fault.isSome = true ∨
      ∀ t, (s.reads r).pc = .copying t → (s.trans (s.owner t)).requestSize < 0
  | _ => True

/-- Then nothing is delivered. -/
theorem Reachable.not_delivers (h : Reachable FaultsCopies s) : ∀ r t,
    ¬ (s.reads r).Delivers t := by
  refine Reach.invariant_of (I := Sound) (P := fun s => ∀ r t, ¬ (s.reads r).Delivers t)
    (fun _ hr => Reachable.sound hr) ?_ ?_ h
  · rintro r t ⟨htook, _⟩
    cases htook
  · intro s a s' hs ih hG hstep r t hd
    rcases (step_effect hstep).delivers hs.calls hd with ⟨hold, _⟩ | ⟨rfl, hpc, hsize, _⟩
    · exact ih r t hold
    · rcases hG with hfault | hneg
      · cases hfault
      · exact absurd hsize (not_le.mpr (hneg t hpc))

/-- **When `uvfsd_read` reports what it delivered.** In the runs in which no copy of a request
succeeds it leaves the transaction alone after the unlock and returns what it delivered.  Every read
that has delivered a request does read the transaction after the unlock, in any state.  The value is
nevertheless right in every run in which neither the next owner of the memory nor a reply changes
the size between a read's taking the request and its return. -/
theorem read_reports_delivery_iff (s : State) :
    (Reachable FaultsCopies s → ReportsDelivery s) ∧
    (∀ r t fault, (s.reads r).pc = .finished t fault → (ReadsLate s r t ↔ fault = false)) ∧
    (Reachable KeepsSize s → ReportsSize s) := by
  refine ⟨fun h => ⟨?_, ?_, Reachable.shutdown_size h⟩, fun r t fault hpc => ?_, fun h => ?_⟩
  · rintro r t ⟨⟨fault, hpc⟩, hjunk⟩
    have hfault : fault = false := (readsLate_iff hpc).mp ⟨⟨fault, hpc⟩, hjunk⟩
    have htook := (Reachable.sound h).calls.took r t (by rw [hpc]; rfl)
    exact Reachable.not_delivers h r t ⟨htook, by rw [hpc]; exact hfault⟩
  · intro r t v hp hv htook
    exact absurd ⟨htook, by rw [hp]; exact hv⟩ (Reachable.not_delivers h r t)
  · exact readsLate_iff hpc
  · exact Reachable.reportsSize h

/-- The client is killed and frees the transaction under the read's tail, and the next owner of the
memory happens to leave the word of the size. -/
theorem read_reports_delivery_same_size : ∃ s, Reachable KeepsSize s ∧
    (s.clients 0).pc = .freed ∧ (s.reads 0).pc = .returned 52 ∧ (s.reads 0).took = some 0 ∧
    ((s.reads 0).len : ℤ) = 52 := by
  obtain ⟨s, hs, hfreed, hpc, htook⟩ := Reach.of_check step KeepsSize State.init
    [.uvfsdOpen 0, .newTransaction .zeroed none, .buildRequest 0 (getattrRequest 0),
      .makeRequest 0 none, .readEnter 0 sizeofUvfsRequestU, .readLock 0 none, .kill 0,
      .waitSignal 0, .readCopy 0 none, .readDone 0, .checkSignal 0, .leave 0, .kfree 0,
      .reuse 0 { Transaction.zeroed with u := Mem.setWord (fun _ => 0) offsetofSize 52 },
      .readReturn 0]
    (fun s => (s.clients 0).pc = .freed ∧ (s.reads 0).pc = .returned 52 ∧
      (s.reads 0).took = some 0) (by decide +kernel)
  have hreport := (read_reports_delivery_iff s).2.2 hs
  exact ⟨s, hs, hfreed, hpc, htook, (hreport.request 0 0 52 hpc (by decide) htook).1.symm⟩

end Uvfs.Driver
