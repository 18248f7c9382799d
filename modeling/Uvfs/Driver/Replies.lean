import Uvfs.Driver.Sleepers

/-!
# What an accepted reply does

`uvfsd_write` takes the length of its second copy from the reply's own header and compares it with
`count` alone.  The union `u` it copies into has a fixed size, and the flags that steer the wake-ups
come right behind it.

* `Addressed` : what the record of a write says: which transaction it has claimed, and that the size
  it goes on with is one that `uvfsd_write` accepts; `Reachable.addressed`.
* `Unlinks`, `Replaces`, `Answers` : what the three steps of an accepted write may do to the kernel.
* `oversized_reply_overwrites_serial` : a reply of four bytes more than the union replaces the
  serial.
* `exists_stray` : a write that claims its transaction out of turn may come to copy into the memory
  of the next transaction (`State.owner`).
* `accepted_write_frame_iff` : in the runs that meet `ClaimsSafely` an accepted write does what it
  may, whatever it copies and whatever runs in between, exactly when it claims its transaction in
  turn and its size is at most that of the union.
-/

namespace Uvfs.Driver

open State Transition

variable {s s' : State} {a : Act} {t : TransId} {w : WriteId} {r : ReadId}
  {G : State → Act → Prop}

/-! ## The record of a write -/

/-- The record of a write fits the point it has reached. -/
structure Addressed (s : State) (w : WriteId) : Prop where
  size : (s.writes w).pc.InProgress → (sizeofGenericRep : ℤ) ≤ (s.writes w).size.toInt
  claimed : ∀ t, (s.writes w).pc.Uses t → (s.writes w).claimed = some t
  lookup : (s.writes w).pc = .lookup → (s.writes w).claimed = none
  lt : ∀ t, (s.writes w).claimed = some t → w < s.nWrites

theorem checkHeader_size {f : FileId} {count : ℕ} {answers : Option ReadId} {header : Option Header}
    (hp : (checkHeader f count answers header).pc.InProgress) :
    (sizeofGenericRep : ℤ) ≤ (checkHeader f count answers header).size.toInt := by
  cases header with
  | none => exact hp.elim
  | some h =>
      simp only [checkHeader] at hp ⊢
      split_ifs at hp ⊢ with hcount hsize
      · exact hp.elim
      · exact hp.elim
      · rw [not_not.mp hsize]
        exact_mod_cast Nat.le_of_not_lt hcount

theorem WritePc.uses_of_inProgress {pc : WritePc} (hp : pc.InProgress) (hne : pc ≠ .lookup) :
    ∃ t, pc.Uses t := by
  cases pc with
  | lookup => exact absurd rfl hne
  | copying t | copied t fault => exact ⟨t, rfl⟩
  | returned v => exact hp.elim

namespace Addressed

theorem step (hf : Files s) (h : Addressed s w) (he : Effect s a s') : Addressed s' w := by
  have hlt : ∀ t, (s.writes w).claimed = some t → w < s'.nWrites := fun t ht =>
    lt_of_lt_of_le (h.lt t ht) he.counters_le.2.2
  rcases he.write_cases w with heq | ⟨pc, hne, huses, heq⟩ | ⟨t, _, hp, _, heq⟩ |
    ⟨_, f, count, header, answers, _, heq⟩
  · refine ⟨?_, ?_, ?_, ?_⟩ <;> rw [heq]
    · exact h.size
    · exact h.claimed
    · exact h.lookup
    · exact hlt
  · refine ⟨?_, ?_, ?_, ?_⟩ <;> rw [heq]
    · intro hp
      obtain ⟨t, ht⟩ := WritePc.uses_of_inProgress hp hne
      exact h.size (huses t ht).inProgress
    · exact fun t ht => h.claimed t (huses t ht)
    · exact fun hp => absurd hp hne
    · exact hlt
  · have hin : (s.writes w).pc.InProgress := by rw [hp]; trivial
    refine ⟨?_, ?_, ?_, ?_⟩ <;> rw [heq]
    · exact fun _ => h.size hin
    · exact fun t' ht' => congrArg some ht'
    · exact fun hp' => by cases hp'
    · exact fun _ _ => lt_of_lt_of_le (hf.write w hin).1 he.counters_le.2.2
  · refine ⟨?_, ?_, ?_, ?_⟩ <;> rw [heq]
    · exact checkHeader_size
    · exact fun t ht => absurd ht (checkHeader_not_uses _ _ _ _ t)
    · exact fun _ => checkHeader_claimed _ _ _ _
    · exact fun t ht => absurd ((checkHeader_claimed _ _ _ _).symm.trans ht) (by simp)

end Addressed

/-- In every reachable state the record of a write fits. -/
theorem Reachable.addressed (h : Reachable G s) (w : WriteId) : Addressed s w := by
  refine Reach.invariant_of (I := Files) (P := fun s => Addressed s w)
    (fun _ hr => Reachable.files hr) ?_ (fun _ _ _ hf hn _ he => hn.step hf (step_effect he)) h
  exact ⟨fun hp => hp.elim, fun _ hu => hu.elim, (fun hp => by cases hp), fun _ ht => by cases ht⟩

/-- A write that has claimed a transaction keeps it and its size. -/
theorem Effect.claimed_eq (ha : Addressed s w) (he : Effect s a s')
    (hc : (s.writes w).claimed = some t) :
    (s'.writes w).claimed = some t ∧ (s'.writes w).size = (s.writes w).size := by
  rcases he.write_cases w with heq | ⟨pc, _, _, heq⟩ | ⟨t', _, hp, _, _⟩ | ⟨hnew, _⟩
  · rw [heq]
    exact ⟨hc, rfl⟩
  · rw [heq]
    exact ⟨hc, rfl⟩
  · exact absurd ((ha.lookup hp).symm.trans hc) (by simp)
  · exact absurd (ha.lt t hc) (hnew ▸ lt_irrefl _)

/-- Along a run a write keeps the transaction it has claimed and its size. -/
theorem claimed_eq_of_reach (h : Reachable G s) (hrun : Reach step G s s')
    (hc : (s.writes w).claimed = some t) :
    (s'.writes w).claimed = some t ∧ (s'.writes w).size = (s.writes w).size := by
  induction hrun with
  | refl => exact ⟨hc, rfl⟩
  | tail hr _ hs ih =>
      have hr' : Reachable G _ := Reach.trans h hr
      obtain ⟨hc', hsize⟩ := (step_effect hs).claimed_eq (Reachable.addressed hr' w) ih.1
      exact ⟨hc', hsize.trans ih.2⟩

/-! ## The effect of the three steps -/

/-- The step takes `t` off `Uvfs_replies` and marks it in use; besides, only the call moves. -/
def Unlinks (s s' : State) (w : WriteId) (t : TransId) : Prop :=
  s' = { s with
    uvfsReplies := s.uvfsReplies.erase t
    trans := Function.update s.trans t { s.trans t with inUse := 1 }
    writes := Function.update s.writes w { s.writes w with pc := .copying t, claimed := some t } }

/-- The step replaces the first `n` bytes of the union of `t`; besides, only the call moves. -/
def Replaces (s s' : State) (w : WriteId) (t : TransId) (n : ℕ) (data : Mem) : Prop :=
  ∃ pc, s' = { s with
    trans := Function.update s.trans t { s.trans t with u := (s.trans t).u.overlay 0 n data }
    writes := Function.update s.writes w { s.writes w with pc := pc } }

/-- The step clears `in_use` and sets `answered` of `t` and wakes its client; besides, only the call
moves. -/
def Answers (s s' : State) (w : WriteId) (t : TransId) : Prop :=
  ∃ pc, s' = { s with
    trans := Function.update s.trans t { s.trans t with inUse := 0, answered := 1 }
    asleep := Function.update s.asleep t false
    writes := Function.update s.writes w { s.writes w with pc := pc } }

theorem step_writeLookup (hp : (s.writes w).pc = .lookup)
    (hfind : s.findReply (s.writes w).serial = some t) :
    step s (.writeLookup w) = some (s.beginWriteCopy w t) := by
  simp only [step, uvfsdWriteLookup, hp, hfind]

theorem writes_beginWriteCopy :
    (s.beginWriteCopy w t).writes w = { s.writes w with pc := .copying t, claimed := some t } :=
  Function.update_self ..

theorem unlinks_of_step (hs : Sound s) (hp : (s.writes w).pc = .lookup)
    (hfind : s.findReply (s.writes w).serial = some t)
    (hstep : step s (.writeLookup w) = some s') : Unlinks s s' w t := by
  have hrep : t ∈ s.uvfsReplies := List.mem_of_find?_eq_some hfind
  have hreq : s.uvfsRequests.erase t = s.uvfsRequests :=
    List.erase_of_not_mem fun hm => hs.not_handedOut hm (hs.handedOut hrep)
  rw [step_writeLookup hp hfind, Option.some.injEq] at hstep
  subst hstep
  simp only [Unlinks, State.beginWriteCopy, State.setWrite, State.setTrans, State.listDelInit, hreq]

theorem replaces_of_step {data : Mem} {fault : Option ℕ} (ha : Addressed s w) (ho : Owned s)
    (hc : (s.writes w).claimed = some t) (hn : (s.writes w).size.toNat ≤ sizeofU)
    (hstep : step s (.writeCopy w data fault) = some s') :
    Replaces s s' w t (s.writes w).size.toNat (userBytes data fault) := by
  have hcopy : (s.trans t).copyFromUser (s.writes w).size.toNat (userBytes data fault) =
      { s.trans t with
        u := (s.trans t).u.overlay 0 (s.writes w).size.toNat (userBytes data fault) } := by
    have hbehind : ∀ i, ¬ Transaction.offsetofBehind + i < (s.writes w).size.toNat := fun i => by
      unfold Transaction.offsetofBehind
      omega
    simp only [Transaction.copyFromUser, Transaction.offsetofSerial, Transaction.offsetofInUse,
      Transaction.offsetofAbort, Transaction.offsetofAnswered, min_eq_left hn, if_neg (hbehind _)]
    rw [Word.overlay_of_le hn, Word.overlay_of_le (by omega), Word.overlay_of_le (by omega),
      Word.overlay_of_le (by omega)]
  simp only [step, uvfsdWriteCopy] at hstep
  split at hstep
  · rename_i t' hp
    obtain rfl : t' = t :=
      Option.some.inj ((ha.claimed t' (by rw [hp]; rfl)).symm.trans hc)
    rw [ho t' (.inr ⟨w, by rw [hp]; rfl⟩), hcopy] at hstep
    cases hstep
    exact ⟨.copied t' fault.isSome, rfl⟩
  · cases hstep

theorem answers_of_step (ha : Addressed s w) (ho : Owned s) (hc : (s.writes w).claimed = some t)
    (hstep : step s (.writeDone w) = some s') : Answers s s' w t := by
  simp only [step, uvfsdWriteDone] at hstep
  split at hstep
  · rename_i t' fault hp
    obtain rfl : t' = t :=
      Option.some.inj ((ha.claimed t' (by rw [hp]; rfl)).symm.trans hc)
    rw [ho t' (.inr ⟨w, by rw [hp]; rfl⟩)] at hstep
    cases hstep
    exact ⟨_, rfl⟩
  · cases hstep

/-- Whatever the server's buffer holds, the claimed write can copy and answer. -/
theorem exists_copied (hp : (s.writes w).pc = .copying t) (data : Mem) : ∃ s₁ s₂,
    step s (.writeCopy w data none) = some s₁ ∧ step s₁ (.writeDone w) = some s₂ ∧
      s₁.trans (s.owner t) =
        (s.trans (s.owner t)).copyFromUser (s.writes w).size.toNat data := by
  obtain ⟨s₁, hs₁, hp₁, ht₁⟩ : ∃ s₁, step s (.writeCopy w data none) = some s₁ ∧
      (s₁.writes w).pc = .copied t false ∧ s₁.trans (s.owner t) =
        (s.trans (s.owner t)).copyFromUser (s.writes w).size.toNat data := by
    simp only [step, uvfsdWriteCopy, hp, Option.some.injEq, exists_eq_left']
    constructor
    · simp [State.setWritePc, State.setWrite]
    · simp [State.setWritePc, State.setWrite, State.setTrans, userBytes]
  obtain ⟨s₂, hs₂⟩ : ∃ s₂, step s₁ (.writeDone w) = some s₂ := by
    simp only [step, uvfsdWriteDone, hp₁, Option.some.injEq, exists_eq']
  exact ⟨s₁, s₂, hs₁, hs₂, ht₁⟩

/-! ## The reply that is too long -/

/-- A reply of four bytes more than the union gives the claimed transaction another serial. -/
theorem oversized_reply_overwrites_serial : ∃ s s' : State, Reachable anyStep s ∧
    (s.writes 0).pc = .copying 0 ∧ step s (.writeCopy 0 (fun _ => 1) none) = some s' ∧
    (s.trans 0).serial = 0 ∧ (s'.trans 0).serial = 0x01010101 := by
  obtain ⟨s, hs, hp, hstep⟩ := Reach.of_check step anyStep State.init
    [.uvfsdOpen 0, .newTransaction .zeroed none, .buildRequest 0 (getattrRequest 0),
      .makeRequest 0 none, .readEnter 0 sizeofUvfsRequestU, .readLock 0 none, .readCopy 0 none,
      .readDone 0, .readReturn 0, .writeEnter 0 4160 (some ⟨0, 4160⟩) (some 0), .writeLookup 0]
    (fun s => ((s.writes 0).pc = .copying 0 ∧ (s.trans 0).serial = 0) ∧
      (step s (.writeCopy 0 (fun _ => 1) none)).any
        (fun s' : State => decide ((s'.trans 0).serial = 0x01010101)) = true)
    (by decide +kernel)
  obtain ⟨s', hs', hserial⟩ := (Option.any_eq_true _ _).mp hstep
  exact ⟨s, s', hs, hp.1, hs', hp.2, of_decide_eq_true hserial⟩

/-- A copy that is longer than the union reaches the first byte of the serial. -/
theorem Transaction.serial_copyFromUser {n : ℕ} (hn : sizeofU < n) (tr : Transaction) (data : Mem) :
    (tr.copyFromUser n data).serial.byte 0 = data sizeofU := by
  simp only [Transaction.copyFromUser, Word.overlay, Transaction.offsetofSerial]
  rw [Word.byte_ofBytes _ (by omega)]
  exact if_pos hn

/-- What the accepted write `w` does to the kernel, whatever it copies, whether or not the copy
faults and whatever runs between its steps that meets `ClaimsSafely`: it unlinks `t`, replaces the
first `reply.size` bytes of the union of `t` and answers `t`. -/
def WritesReplyOnly (s : State) (w : WriteId) (t : TransId) : Prop :=
  ∀ s₁ s₂ s₃ s₄ s₅ data fault, step s (.writeLookup w) = some s₁ → Reach step ClaimsSafely s₁ s₂ →
    step s₂ (.writeCopy w data fault) = some s₃ → Reach step ClaimsSafely s₃ s₄ →
    step s₄ (.writeDone w) = some s₅ →
    Unlinks s s₁ w t ∧
      Replaces s₂ s₃ w t (s.writes w).size.toNat (State.userBytes data fault) ∧ Answers s₄ s₅ w t

/-! ## The transaction that is claimed out of turn -/

/-- A client that is past its unlocked test of `in_use` withdraws its transaction, its caller frees
it, and `kmalloc` gives the memory to the next transaction.  A write that has claimed it in between
still points there. -/
theorem exists_stray (h : Reachable anyStep s) (hw : (s.writes w).pc.Uses t)
    (hp : (s.clients t).pc = .aborted) :
    ∃ s', Reach step ClaimsSafely s s' ∧ s'.writes = s.writes ∧ s'.owner t ≠ t := by
  have hs := Reachable.sound h
  have hne : (s.clients t).pc ≠ .freed := by
    rw [hp]
    decide
  have hlt : t < s.nTrans := hs.logged.lt t hne
  have howner : s.owner t = t := hs.owners.live t hne
  have hlisted := hs.not_listed_of_write hw
  have h₁ : step s (.withdraw t) = some (s.unlinkAborted t) := if_pos hp
  have h₂ : step (s.unlinkAborted t) (.leave t) =
      some ((s.unlinkAborted t).setClientPc t .returned) :=
    if_pos (by simp [unlinkAborted, setClient])
  have h₃ : step ((s.unlinkAborted t).setClientPc t .returned) (.kfree t) =
      some (((s.unlinkAborted t).setClientPc t .returned).setClientPc t .freed) :=
    if_pos (by simp [setClientPc, setClient])
  have hfree : (((s.unlinkAborted t).setClientPc t .returned).setClientPc t .freed).Reusable t :=
    ⟨by simp [setClientPc, setClient], hlt, howner,
      fun hl => hlisted (hl.imp List.mem_of_mem_erase List.mem_of_mem_erase)⟩
  have h₄ : step (((s.unlinkAborted t).setClientPc t .returned).setClientPc t .freed)
      (.newTransaction .zeroed (some t)) = some (addTransaction
        (((s.unlinkAborted t).setClientPc t .returned).setClientPc t .freed) .zeroed (some t)) :=
    if_pos fun _ ht => Option.some.inj ht ▸ hfree
  refine ⟨_, (((Reach.refl.tail (.of_other rfl rfl) h₁).tail (.of_other rfl rfl) h₂).tail
    (.of_other rfl rfl) h₃).tail (.of_other rfl rfl) h₄, rfl, ?_⟩
  have hnew : (addTransaction (((s.unlinkAborted t).setClientPc t .returned).setClientPc t .freed)
      .zeroed (some t)).owner t = s.nTrans := if_pos (congrArg some howner)
  rw [hnew]
  exact hlt.ne'

/-- A client that finds its transaction in use, once it is killed, asks to be woken and waits. -/
theorem exists_aborting (hp : (s.clients t).pc.Waits) (huse : (s.trans t).inUse ≠ 0)
    (habort : (s.clients t).pc = .aborting → (s.trans t).abort ≠ 0) :
    ∃ s', Reach step ClaimsSafely s s' ∧ s'.writes = s.writes ∧ s'.reads = s.reads ∧
      (s'.clients t).pc = .aborting ∧ (s'.trans t).abort ≠ 0 := by
  -- out of the first wait and with the lock
  have hchecking : ∀ s₁ : State, s₁.writes = s.writes → s₁.reads = s.reads → s₁.trans = s.trans →
      (s₁.clients t).pc = .checking → (s₁.clients t).signalPending = true →
      Reach step ClaimsSafely s s₁ →
      ∃ s', Reach step ClaimsSafely s s' ∧ s'.writes = s.writes ∧ s'.reads = s.reads ∧
        (s'.clients t).pc = .aborting ∧ (s'.trans t).abort ≠ 0 := by
    intro s₁ hwrites hreads htrans hpc hsig hrun
    have h₁ : step s₁ (.checkSignal t) =
        some ((s₁.setTrans t { s₁.trans t with abort := 1 }).setClientPc t .aborting) := by
      simp only [step, checkSignal, hpc, hsig, htrans, ne_eq, huse, not_false_eq_true, if_true]
    refine ⟨_, hrun.tail (.of_other rfl rfl) h₁, hwrites, hreads, ?_, ?_⟩ <;>
      simp [setClientPc, setClient, setTrans]
  obtain ⟨s₁, hs₁, hkill⟩ : ∃ s₁, s₁ = (s.wakeUpIf ((s.clients t).pc = .waiting) t).setClient t
      { s.clients t with signalPending := true } ∧ step s (.kill t) = some s₁ :=
    ⟨_, rfl, if_pos hp.ne_freed⟩
  have hrun : Reach step ClaimsSafely s s₁ := Reach.refl.tail (.of_other rfl rfl) hkill
  cases hpc : (s.clients t).pc with
  | waiting =>
      have h₁ : step s₁ (.waitSignal t) = some (s₁.setClientPc t .checking) :=
        if_pos (by simp [hpc, hs₁, setClient, wakeUpIf])
      refine hchecking (s₁.setClientPc t .checking) ?_ ?_ ?_ ?_ ?_
        (hrun.tail (.of_other rfl rfl) h₁) <;> simp [hs₁, setClientPc, setClient, wakeUpIf]
  | checking =>
      refine hchecking s₁ ?_ ?_ ?_ ?_ ?_ hrun <;> simp [hs₁, hpc, setClient, wakeUpIf]
  | aborting => exact ⟨s, .refl, rfl, rfl, hpc, habort hpc⟩
  | _ => exact absurd hp (by rw [hpc]; exact id)

/-- The read that works on its transaction ends, and wakes it. -/
theorem exists_unused (hr : (s.reads r).pc.Uses t) (howner : s.owner t = t)
    (hp : (s.clients t).pc = .aborting) (habort : (s.trans t).abort ≠ 0) :
    ∃ s', Reach step ClaimsSafely s s' ∧ s'.writes = s.writes ∧ (s'.clients t).pc = .aborted := by
  -- the last of the steps of the read, and the client's
  have hcopied : ∀ s₁ : State, s₁.writes = s.writes → s₁.clients = s.clients →
      s₁.trans = s.trans → s₁.owner = s.owner → (∃ fault, (s₁.reads r).pc = .copied t fault) →
      Reach step ClaimsSafely s s₁ →
      ∃ s', Reach step ClaimsSafely s s' ∧ s'.writes = s.writes ∧
        (s'.clients t).pc = .aborted := by
    rintro s₁ hwrites hclients htrans ho ⟨fault, hpc⟩ hrun
    have h₁ : step s₁ (.readDone r) =
        some ((s₁.clearInUse t).setReadPc r (.finished t fault)) := by
      simp only [step, uvfsdReadDone, hpc, ho, howner]
    have hawake : (s₁.clearInUse t).asleep t = false := by
      rw [← htrans] at habort
      exact (congrFun (if_pos habort) t).trans (Function.update_self ..)
    have h₂ : step ((s₁.clearInUse t).setReadPc r (.finished t fault)) (.waitUnused t) =
        some (((s₁.clearInUse t).setReadPc r (.finished t fault)).setClientPc t .aborted) :=
      if_pos ⟨by rw [← hp, ← hclients]; rfl, hawake, by simp [clearInUse, setReadPc, setRead,
        setTrans, wakeUpIf]⟩
    exact ⟨_, (hrun.tail (.of_other rfl rfl) h₁).tail (.of_other rfl rfl) h₂, hwrites,
      by simp [setClientPc, setClient]⟩
  cases hpc : (s.reads r).pc with
  | copying t' =>
      obtain rfl : t' = t := by simpa [hpc, ReadPc.Uses] using hr
      have h₁ : step s (.readCopy r none) = some (s.endReadCopy r t' (s.trans t') none) := by
        simp only [step, uvfsdReadCopy, hpc, howner]
      have hpc₁ : ((s.endReadCopy r t' (s.trans t') none).reads r).pc =
          .copied t' (decide ((s.trans t').requestSize < 0)) := by
        simp [endReadCopy, setRead]
      exact hcopied (s.endReadCopy r t' (s.trans t') none) rfl rfl rfl rfl ⟨_, hpc₁⟩
        (Reach.refl.tail (.of_other rfl rfl) h₁)
  | copied t' fault =>
      obtain rfl : t' = t := by simpa [hpc, ReadPc.Uses] using hr
      exact hcopied s rfl rfl rfl rfl ⟨fault, hpc⟩ .refl
  | _ => exact absurd hr (by rw [hpc]; exact id)

/-- A write that claims its transaction out of turn may be left with a pointer into the memory of
another one. -/
theorem exists_stray_of_unsafe (h : Reachable ClaimsSafely s) (hp : (s.writes w).pc = .lookup)
    (hfind : s.findReply (s.writes w).serial = some t) (hG : ¬ ClaimsSafely s (.writeLookup w)) :
    ∃ s', Reach step ClaimsSafely (s.beginWriteCopy w t) s' ∧
      s'.writes = (s.beginWriteCopy w t).writes ∧ s'.owner t ≠ t := by
  have h₁ : Reachable anyStep (s.beginWriteCopy w t) :=
    (Reach.mono (fun _ _ _ => trivial) h).tail trivial (step_writeLookup hp hfind)
  have hw₁ : ((s.beginWriteCopy w t).writes w).pc.Uses t := by
    rw [writes_beginWriteCopy]
    rfl
  by_cases haborted : (s.clients t).pc = .aborted
  · exact exists_stray h₁ hw₁ haborted
  -- a read still works on it: its client is killed and waits for that read, not for the write
  obtain ⟨r, hr⟩ : ∃ r, (s.reads r).pc.Uses t := by
    by_contra hnone
    refine hG ⟨fun w' hw' t' ht' => ?_, fun p hp' => by cases hp'⟩
    obtain rfl : w = w' := Option.some.inj hw'
    obtain rfl : t = t' := Option.some.inj (hfind.symm.trans ht')
    exact ⟨haborted, fun r _ hr => hnone ⟨r, hr⟩⟩
  have hwaits := ((Reachable.guarded h t).held (.inl ⟨r, hr⟩)).2.2
  have htrans : (s.beginWriteCopy w t).trans t = { s.trans t with inUse := 1 } :=
    Function.update_self ..
  obtain ⟨s₂, hrun₂, hwrites₂, hreads₂, hpc₂, habort₂⟩ :=
    exists_aborting (s := s.beginWriteCopy w t) hwaits
      (by rw [htrans]; exact (by decide : (1 : Word) ≠ 0))
      (by rw [htrans]; exact (Reachable.waiter h t).abort)
  have h₂ : Reachable anyStep s₂ := h₁.trans (Reach.mono (fun _ _ _ => trivial) hrun₂)
  have howner₂ : s₂.owner t = t := (Reachable.sound h₂).owners.live t (by rw [hpc₂]; decide)
  obtain ⟨s₃, hrun₃, hwrites₃, hpc₃⟩ :=
    exists_unused (r := r) (by rw [hreads₂]; exact hr) howner₂ hpc₂ habort₂
  have h₃ : Reachable anyStep s₃ := h₂.trans (Reach.mono (fun _ _ _ => trivial) hrun₃)
  have hw₃ : (s₃.writes w).pc.Uses t := by
    rw [hwrites₃, hwrites₂]
    exact hw₁
  obtain ⟨s₄, hrun₄, hwrites₄, howner₄⟩ := exists_stray h₃ hw₃ hpc₃
  exact ⟨s₄, (hrun₂.trans hrun₃).trans hrun₄, (hwrites₄.trans hwrites₃).trans hwrites₂, howner₄⟩

/-- A write that is left so does not change the union of its transaction only. -/
theorem not_writesReplyOnly_of_stray (h : Reachable ClaimsSafely s)
    (hp : (s.writes w).pc = .lookup) (hfind : s.findReply (s.writes w).serial = some t)
    (hrun : Reach step ClaimsSafely (s.beginWriteCopy w t) s')
    (hwrites : s'.writes = (s.beginWriteCopy w t).writes) (howner : s'.owner t ≠ t) :
    ¬ WritesReplyOnly s w t := by
  intro hw
  have hcall : s'.writes w = { s.writes w with pc := .copying t, claimed := some t } := by
    rw [hwrites, writes_beginWriteCopy]
  have hpos : 0 < (s.writes w).size.toNat := by
    have hsize := (Reachable.addressed h w).size (by rw [hp]; trivial)
    have hint : 0 < (s.writes w).size.toInt := lt_of_lt_of_le (by decide) hsize
    rw [BitVec.toInt_eq_toNat_cond] at hint
    split at hint <;> omega
  -- the first byte of the reply is not there yet
  obtain ⟨data, hdata⟩ : ∃ data : Mem, data 0 ≠ (s'.trans (s'.owner t)).u 0 :=
    ⟨fun _ => (s'.trans (s'.owner t)).u 0 + 1, by simp⟩
  obtain ⟨s₃, s₅, hs₃, hs₅, ht₃⟩ := exists_copied (by rw [hcall] : (s'.writes w).pc = _) data
  obtain ⟨-, ⟨pc, hrep⟩, -⟩ :=
    hw _ _ _ _ _ data none (step_writeLookup hp hfind) hrun hs₃ .refl hs₅
  simp only [hcall] at ht₃
  have hsame : s₃.trans (s'.owner t) = s'.trans (s'.owner t) := by
    rw [hrep]
    exact Function.update_of_ne howner ..
  refine hdata ?_
  rw [← hsame, ht₃]
  have hu : 0 < sizeofU := by decide
  exact (if_pos ⟨le_rfl, by omega⟩).symm

/-! ## The frame -/

/-- A write that claims its transaction in turn and changes nothing else has a size that the union
holds. -/
theorem size_le_of_writesReplyOnly (h : Reachable ClaimsSafely s)
    (hp : (s.writes w).pc = .lookup) (hfind : s.findReply (s.writes w).serial = some t)
    (hG : ClaimsSafely s (.writeLookup w)) (hw : WritesReplyOnly s w t) :
    (s.writes w).size.toNat ≤ sizeofU := by
  by_contra hn
  have hs₁ := step_writeLookup hp hfind
  have ho₁ : (s.beginWriteCopy w t).owner t = t :=
    Reachable.owned (h.tail hG hs₁) t (.inr ⟨w, by rw [writes_beginWriteCopy]; rfl⟩)
  -- the three steps in a row, with a first byte of the serial that is not there yet
  obtain ⟨data, hdata⟩ : ∃ data : Mem, data sizeofU ≠ (s.trans t).serial.byte 0 :=
    ⟨fun _ => (s.trans t).serial.byte 0 + 1, by simp⟩
  obtain ⟨s₃, s₅, hs₃, hs₅, ht₃⟩ :=
    exists_copied (by rw [writes_beginWriteCopy] : ((s.beginWriteCopy w t).writes w).pc = _) data
  obtain ⟨-, ⟨pc, hrep⟩, -⟩ := hw _ _ _ _ _ data none hs₁ .refl hs₃ .refl hs₅
  rw [ho₁, writes_beginWriteCopy] at ht₃
  have hserial : (s₃.trans t).serial = (s.trans t).serial := by
    rw [hrep]
    simp [State.beginWriteCopy, State.setWrite, State.setTrans, State.listDelInit]
  refine hdata ?_
  rw [← hserial, ht₃, Transaction.serial_copyFromUser (Nat.lt_of_not_le hn)]

/-- A write that claims its transaction in turn and has such a size changes nothing else. -/
theorem writesReplyOnly_of_size_le (h : Reachable ClaimsSafely s)
    (hp : (s.writes w).pc = .lookup) (hfind : s.findReply (s.writes w).serial = some t)
    (hG : ClaimsSafely s (.writeLookup w)) (hn : (s.writes w).size.toNat ≤ sizeofU) :
    WritesReplyOnly s w t := by
  intro s₁ s₂ s₃ s₄ s₅ data fault hs₁ hr₂ hs₃ hr₄ hs₅
  have hun : Unlinks s s₁ w t := unlinks_of_step (Reachable.sound h) hp hfind hs₁
  have hc₁ : (s₁.writes w).claimed = some t ∧ (s₁.writes w).size = (s.writes w).size := by
    rw [hun]
    simp
  have h₁ : Reachable ClaimsSafely s₁ := h.tail hG hs₁
  have h₂ : Reachable ClaimsSafely s₂ := h₁.trans hr₂
  have hc₂ := claimed_eq_of_reach h₁ hr₂ hc₁.1
  have hsize : (s₂.writes w).size = (s.writes w).size := hc₂.2.trans hc₁.2
  have hrep := replaces_of_step (Reachable.addressed h₂ w) (Reachable.owned h₂) hc₂.1
    (hsize ▸ hn) hs₃
  -- the write's own copy meets the guard because of its size
  have hG₂ : ClaimsSafely s₂ (.writeCopy w data fault) := by
    refine ⟨by simp [Act.lookup?], fun p hp' => ?_⟩
    obtain rfl : (w, userBytes data fault) = p := Option.some.inj hp'
    exact (hsize ▸ hn).trans (by decide)
  have hc₄ := claimed_eq_of_reach h₂ (Reach.trans (Reach.refl.tail hG₂ hs₃) hr₄) hc₂.1
  have h₄ : Reachable ClaimsSafely s₄ := (h₂.tail hG₂ hs₃).trans hr₄
  exact ⟨hun, hsize ▸ hrep,
    answers_of_step (Reachable.addressed h₄ w) (Reachable.owned h₄) hc₄.1 hs₅⟩

/-- **The frame of a reply**: after every run in which no write claims a transaction out of turn or
copies over `in_use`, an accepted write changes nothing but the list node, the union, `in_use` and
`answered` of the transaction that it finds exactly when it claims it in turn itself and its size is
at most that of the union. -/
theorem accepted_write_frame_iff (h : Reachable ClaimsSafely s) (hp : (s.writes w).pc = .lookup)
    (hfind : s.findReply (s.writes w).serial = some t) :
    WritesReplyOnly s w t ↔
      ClaimsSafely s (.writeLookup w) ∧ (s.writes w).size.toNat ≤ sizeofU := by
  constructor
  · intro hw
    have hG : ClaimsSafely s (.writeLookup w) := by
      by_contra hG
      obtain ⟨s', hrun, hwrites, howner⟩ := exists_stray_of_unsafe h hp hfind hG
      exact not_writesReplyOnly_of_stray h hp hfind hrun hwrites howner hw
    exact ⟨hG, size_le_of_writesReplyOnly h hp hfind hG hw⟩
  · rintro ⟨hG, hn⟩
    exact writesReplyOnly_of_size_le h hp hfind hG hn

/-- A reply that is a bare header is written for the second of two requests. -/
theorem accepted_write_frame_iff_header : ∃ s, Reachable ClaimsSafely s ∧
    s.findReply (s.writes 0).serial = some 1 ∧ (s.writes 0).size.toNat = sizeofGenericRep ∧
    WritesReplyOnly s 0 1 := by
  obtain ⟨s, hs, hp, hfind, hsize, hG⟩ := Reach.of_check step ClaimsSafely State.init
    [.uvfsdOpen 0, .newTransaction .zeroed none, .newTransaction .zeroed none,
      .buildRequest 0 (getattrRequest 0), .buildRequest 1 (getattrRequest 1), .makeRequest 0 none,
      .makeRequest 1 none, .readEnter 0 sizeofUvfsRequestU, .readLock 0 none,
      .readEnter 0 sizeofUvfsRequestU, .readLock 1 none, .readCopy 1 none, .readDone 1,
      .readReturn 1, .writeEnter 0 16 (some ⟨1, 16⟩) (some 1)]
    (fun s => (s.writes 0).pc = .lookup ∧ s.findReply (s.writes 0).serial = some 1 ∧
      (s.writes 0).size.toNat = sizeofGenericRep ∧ ClaimsSafely s (.writeLookup 0))
    (by decide +kernel)
  exact ⟨s, hs, hfind, hsize,
    (accepted_write_frame_iff hs hp hfind).mpr ⟨hG, by rw [hsize]; decide⟩⟩

end Uvfs.Driver
