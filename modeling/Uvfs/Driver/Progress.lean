import Uvfs.Lib.Fair
import Uvfs.Driver.Exit

/-!
# Every client that is killed or answered returns

A client inside `uvfs_make_request` sleeps until it is answered, and when it was killed, until
`in_use` is cleared.  It gets on only when somebody wakes it, and the second wait is not over when
it could be: a write can claim the transaction again before the client has looked, and the client
goes back to sleep.  But each transaction is taken by one read and claimed by one write only, so the
work that can still be done on it, and the number of times that its client falls asleep, are
bounded.

* `State.work s t` : the steps that the client of `t` and the calls on `t` can still take.
* `Effect.work_le` : no step raises it while the client is inside, and each step of the client and
  of a call that works on `t` lowers it.
* `Due s t` : the client is inside and was killed or answered; `Due.step`, `Due.enabled`.  A client
  that is due and sleeps waits for a call that works on its transaction (`Waiter`).
* `due_client_returns` : in every run without end that is fair to these parties the client returns.
-/

namespace Uvfs.Driver

open State Transition

variable {s s' : State} {a : Act} {t : TransId} {G : State → Act → Prop}

/-! ## The work that is left -/

/-- The steps that a read can still take on `t` until it clears `in_use`; with that step it may wake
the client, which can then fall asleep once more. -/
def ReadPc.work (t : TransId) : ReadPc → ℕ
  | .copying t' => if t' = t then 3 else 0
  | .copied t' _ => if t' = t then 2 else 0
  | _ => 0

/-- The steps that a write can still take on `t` until it clears `in_use`, and the same for its
wake-up. -/
def WritePc.work (t : TransId) : WritePc → ℕ
  | .copying t' => if t' = t then 3 else 0
  | .copied t' _ => if t' = t then 2 else 0
  | _ => 0

@[simp] theorem ReadPc.work_copying (t : TransId) : (ReadPc.copying t).work t = 3 := if_pos rfl

@[simp] theorem ReadPc.work_copied (t : TransId) (fault : Bool) :
    (ReadPc.copied t fault).work t = 2 := if_pos rfl

@[simp] theorem WritePc.work_copying (t : TransId) : (WritePc.copying t).work t = 3 := if_pos rfl

@[simp] theorem WritePc.work_copied (t : TransId) (fault : Bool) :
    (WritePc.copied t fault).work t = 2 := if_pos rfl

theorem ReadPc.work_eq_zero {pc : ReadPc} (h : ¬ pc.Uses t) : pc.work t = 0 := by
  cases pc with
  | copying t' | copied t' fault => exact if_neg h
  | _ => rfl

theorem WritePc.work_eq_zero {pc : WritePc} (h : ¬ pc.Uses t) : pc.work t = 0 := by
  cases pc with
  | copying t' | copied t' fault => exact if_neg h
  | _ => rfl

namespace State

/-- What the reads can still do on `t`. -/
def readWork (s : State) (t : TransId) : ℕ := ∑ r ∈ Finset.range s.nReads, (s.reads r).pc.work t

/-- What the writes can still do on `t`. -/
def writeWork (s : State) (t : TransId) : ℕ :=
  ∑ w ∈ Finset.range s.nWrites, (s.writes w).pc.work t

/-- What the lists can still lead to: a request that waits may be taken by a read and then claimed
by a write. -/
def listWork (s : State) (t : TransId) : ℕ :=
  (if t ∈ s.uvfsRequests then 8 else 0) + if t ∈ s.uvfsReplies then 4 else 0

/-- A client that is awake can fall asleep. -/
def sleepiness (s : State) (t : TransId) : ℕ := if s.asleep t then 0 else 1

/-- A client that has not been killed can be woken by its signal. -/
def signalWork (s : State) (t : TransId) : ℕ := if (s.clients t).signalPending then 0 else 1

/-- The steps that the client of `t` and the calls on `t` can still take. -/
def work (s : State) (t : TransId) : ℕ :=
  (s.clients t).pc.rank + s.sleepiness t + s.signalWork t + s.readWork t + s.writeWork t +
    s.listWork t

end State

/-- A call that has not started does nothing. -/
theorem Files.read_work (hf : Files s) (r : ReadId) (hr : s.nReads ≤ r) :
    (s.reads r).pc.work t = 0 :=
  ReadPc.work_eq_zero fun h => absurd (hf.read r h.inProgress).1 (not_lt.mpr hr)

theorem Files.write_work (hf : Files s) (w : WriteId) (hw : s.nWrites ≤ w) :
    (s.writes w).pc.work t = 0 :=
  WritePc.work_eq_zero fun h => absurd (hf.write w h.inProgress).1 (not_lt.mpr hw)

/-- A step adds work to a read only when the read takes the transaction. -/
theorem Effect.read_work_le (he : Effect s a s') (r : ReadId)
    (huses : (s'.reads r).pc.Uses t → (s.reads r).pc.Uses t) :
    (s'.reads r).pc.work t ≤ (s.reads r).pc.work t := by
  by_cases hu : (s'.reads r).pc.Uses t
  swap
  · rw [ReadPc.work_eq_zero hu]
    exact Nat.zero_le _
  have hold := huses hu
  have hmove := he.read_move r
  generalize s'.reads r = c' at hmove hu
  cases hmove with
  | same => exact le_refl _
  | start f count hr =>
      dsimp only at hu
      split_ifs at hu <;> exact hu.elim
  | signal hp =>
      dsimp only
      split_ifs
      · exact Nat.zero_le _
      · exact le_refl _
  | early _ pc hp hpc =>
      cases pc with
      | copying t' | copied t' fault => exact hpc.elim
      | _ => exact hu.elim
  | take pick t' hp _ =>
      generalize (s.reads r).pc = pc at hold hp
      cases pc with
      | copying t' | copied t' fault => exact hp.elim
      | _ => exact hold.elim
  | copy fault t' hp =>
      rw [hp] at hold ⊢
      simp [ReadPc.work, show t' = t from hold]
  | interrupted | passOn | done | returns => exact hu.elim

/-- No read takes the transaction: the reads have no more work than before. -/
theorem Effect.readWork_le (hs : Sound s) (he : Effect s a s')
    (huses : ∀ r, (s'.reads r).pc.Uses t → (s.reads r).pc.Uses t) :
    s'.readWork t ≤ s.readWork t :=
  sum_range_le (fun r => he.read_work_le r (huses r)) fun r hr => hs.files.read_work r hr

/-- The reads do what they did, up to one. -/
theorem readWork_setRead_le (hs : Sound s) {r : ReadId} (c : ReadCall)
    (hr : (s.reads r).pc.InProgress) :
    (s.setRead r c).readWork t + (s.reads r).pc.work t ≤ s.readWork t + c.pc.work t := by
  have h := sum_range_add_le (f := fun r' => ((s.setRead r c).reads r').pc.work t)
    (g := fun r' => (s.reads r').pc.work t) (m := s.nReads) (hs.files.read r hr).1
    (fun r' hr' => by simp only [State.setRead, Function.update_of_ne hr', le_refl])
    fun r' hr' => hs.files.read_work r' hr'
  simp only [State.setRead, Function.update_self] at h
  exact h

/-- The writes do what they did, up to one. -/
theorem writeWork_setWrite_le (hs : Sound s) {w : WriteId} (c : WriteCall)
    (hw : (s.writes w).pc.InProgress) :
    (s.setWrite w c).writeWork t + (s.writes w).pc.work t ≤ s.writeWork t + c.pc.work t := by
  have h := sum_range_add_le (f := fun w' => ((s.setWrite w c).writes w').pc.work t)
    (g := fun w' => (s.writes w').pc.work t) (m := s.nWrites) (hs.files.write w hw).1
    (fun w' hw' => by simp only [State.setWrite, Function.update_of_ne hw', le_refl])
    fun w' hw' => hs.files.write_work w' hw'
  simp only [State.setWrite, Function.update_self] at h
  exact h

/-! ## No step adds work -/

/-- The client is inside `uvfs_make_request`, past the enqueueing. -/
def ClientPc.Inside : ClientPc → Prop
  | .waiting | .checking | .aborting | .aborted | .leaving => True
  | _ => False

instance : (pc : ClientPc) → Decidable pc.Inside
  | .waiting | .checking | .aborting | .aborted | .leaving => isTrue trivial
  | .created | .built | .returned | .freed => isFalse id

theorem ClientPc.Inside.not_halfStarted {pc : ClientPc} (h : pc.Inside) : ¬ pc.HalfStarted := by
  cases pc with
  | created | built => exact h.elim
  | _ => exact id

theorem ClientPc.Inside.ne_freed {pc : ClientPc} (h : pc.Inside) : pc ≠ .freed := by
  rintro rfl
  exact h

/-- The step is one of the client of `t`, or of a call between setting `in_use` and clearing it on
`t`. -/
def Serves (t : TransId) (s : State) : Act → Prop
  | .readCopy r _ | .readDone r => (s.reads r).pc.Uses t
  | .writeCopy w _ _ | .writeDone w => (s.writes w).pc.Uses t
  | a => a.Own t

theorem listWork_erase_le (s : State) (t : TransId) :
    (s.listDelInit t).listWork t ≤ s.listWork t := by
  have hreq : (if t ∈ s.uvfsRequests.erase t then 8 else 0) ≤
      if t ∈ s.uvfsRequests then 8 else 0 := by
    split_ifs with h₁ h₂
    · exact le_refl _
    · exact absurd (List.mem_of_mem_erase h₁) h₂
    · exact Nat.zero_le _
    · exact le_refl _
  have hrep : (if t ∈ s.uvfsReplies.erase t then 4 else 0) ≤
      if t ∈ s.uvfsReplies then 4 else 0 := by
    split_ifs with h₁ h₂
    · exact le_refl _
    · exact absurd (List.mem_of_mem_erase h₁) h₂
    · exact Nat.zero_le _
    · exact le_refl _
  exact Nat.add_le_add hreq hrep

/-- What a step leaves alone has the work it had, but for a read that has copied. -/
theorem Frame.work_le (hs : Sound s) (hf : Frame s s' t) :
    s'.work t + s.readWork t ≤ s.work t + s'.readWork t := by
  have hwrites : s'.writeWork t ≤ s.writeWork t := by
    refine sum_range_le (fun w => ?_) fun w hw => hs.files.write_work w hw
    by_cases hw : (s.writes w).pc.Uses t ∨ (s'.writes w).pc.Uses t
    · rw [hf.writes w hw]
    · rw [WritePc.work_eq_zero (not_or.mp hw).2]
      exact Nat.zero_le _
  unfold State.work State.sleepiness State.signalWork State.listWork
  rw [hf.client, hf.asleep]
  simp only [hf.requests, hf.replies]
  omega

/-- A read goes on, and has no more work than before. -/
theorem work_setRead_le (hs : Sound s) {r : ReadId} {c : ReadCall}
    (hr : (s.reads r).pc.InProgress) :
    (s.setRead r c).work t + (s.reads r).pc.work t ≤ s.work t + c.pc.work t := by
  have hread := readWork_setRead_le (t := t) hs c hr
  have hwork : (s.setRead r c).work t = (s.clients t).pc.rank + s.sleepiness t + s.signalWork t +
      (s.setRead r c).readWork t + s.writeWork t + s.listWork t := rfl
  rw [hwork]
  unfold State.work
  omega

/-- The read that takes the transaction has less work than the list had for it. -/
theorem take_work_lt (hs : Sound s) {rest : List TransId} {s₁ : State} {r : ReadId}
    (hreq : s.uvfsRequests = t :: rest) (hlt : r < s.nReads) (hw : Woke (s.handOut t rest) s₁) :
    (s₁.beginReadCopy r t).work t < s.work t := by
  have hnodup := hs.nodup
  rw [hreq, List.cons_append, List.nodup_cons, List.mem_append, not_or] at hnodup
  obtain ⟨⟨hrest, hrep⟩, -⟩ := hnodup
  have hidle : ∀ r', (s.reads r').pc.work t = 0 := fun r' =>
    ReadPc.work_eq_zero fun hu => hs.not_requested_of_read hu.trans? (by rw [hreq]; exact .head _)
  obtain ⟨reads, rfl, hreads⟩ := hw.exists_reads
  obtain ⟨c, hc⟩ : ∃ c : ReadCall, c = { reads r with
      pc := .copying t, took := some t, size := (s.trans t).requestSize } := ⟨_, rfl⟩
  have hpc : c.pc = .copying t := by rw [hc]
  have hread : ∑ r' ∈ Finset.range s.nReads, (Function.update reads r c r').pc.work t ≤ 3 := by
    have h := sum_range_add_le (f := fun r' => (Function.update reads r c r').pc.work t)
      (g := fun r' => (s.reads r').pc.work t) (m := s.nReads) hlt (fun r' hr' => ?_)
      fun r' hr' => hidle r'
    · simpa only [hidle, Finset.sum_const_zero, Function.update_self, hpc, ReadPc.work_copying,
        add_zero, zero_add] using h
    · rw [Function.update_of_ne hr', hidle r']
      rcases hreads r' with hsame | ⟨_, hwoken⟩
      · rw [hsame]
        exact (hidle r').le
      · rw [hwoken]
        exact le_refl _
  have hlist : s.listWork t = 8 := by simp [State.listWork, hreq, hrep]
  have hlist' : (s.handOut t rest).listWork t = 4 := by
    simp [State.listWork, State.handOut, hrest]
  have hwork : (State.beginReadCopy { s.handOut t rest with reads := reads } r t).work t =
      (s.clients t).pc.rank + s.sleepiness t + s.signalWork t +
        ∑ r' ∈ Finset.range s.nReads, (Function.update reads r c r').pc.work t + s.writeWork t +
          (s.handOut t rest).listWork t := by
    rw [hc]
    rfl
  rw [hwork, hlist']
  unfold State.work
  rw [hlist]
  omega

/-- The write that claims the transaction has less work than the list had for it. -/
theorem claim_work_lt (hs : Sound s) {w : WriteId} (hw : (s.writes w).pc = .lookup)
    (hrep : t ∈ s.uvfsReplies) : (s.beginWriteCopy w t).work t < s.work t := by
  have hreq : t ∉ s.uvfsRequests := fun hm => hs.not_handedOut hm (hs.handedOut hrep)
  have hwrite := writeWork_setWrite_le (t := t) hs
    { s.writes w with pc := .copying t, claimed := some t }
    (by rw [hw]; trivial : (s.writes w).pc.InProgress)
  have hlist : s.listWork t = 4 := by simp [State.listWork, hreq, hrep]
  have hlist' : (s.beginWriteCopy w t).listWork t = 0 := by
    have hnot : t ∉ s.uvfsReplies.erase t := hs.replies_nodup.not_mem_erase
    have hnot' : t ∉ s.uvfsRequests.erase t := fun hm => hreq (List.mem_of_mem_erase hm)
    simp [State.listWork, State.beginWriteCopy, State.setWrite, State.setTrans, State.listDelInit,
      hnot, hnot']
  have hwork : (s.beginWriteCopy w t).work t = (s.clients t).pc.rank + s.sleepiness t +
      s.signalWork t + s.readWork t +
      (s.setWrite w { s.writes w with pc := .copying t, claimed := some t }).writeWork t +
        (s.beginWriteCopy w t).listWork t := rfl
  rw [WritePc.work_copying] at hwrite
  rw [hwork]
  unfold State.work
  omega

/-- A client counts at most one for being awake. -/
theorem sleepiness_le (s : State) (t : TransId) : s.sleepiness t ≤ 1 := by
  unfold State.sleepiness
  split_ifs
  · exact Nat.zero_le 1
  · exact le_refl 1

/-- A read clears `in_use`; it has more work left than the client can get by being woken. -/
theorem readDone_work_lt (hs : Sound s) {r : ReadId} {fault : Bool}
    (hr : (s.reads r).pc = .copied t fault) :
    ((s.clearInUse t).setReadPc r (.finished t fault)).work t < s.work t := by
  have hread : (s.setRead r { s.reads r with pc := .finished t fault }).readWork t +
      (s.reads r).pc.work t ≤ s.readWork t + 0 := readWork_setRead_le hs _ (by rw [hr]; trivial)
  rw [hr, ReadPc.work_copied] at hread
  have hsleep := sleepiness_le (s.clearInUse t) t
  have hwork : ((s.clearInUse t).setReadPc r (.finished t fault)).work t =
      (s.clients t).pc.rank + (s.clearInUse t).sleepiness t + s.signalWork t +
        (s.setRead r { s.reads r with pc := .finished t fault }).readWork t + s.writeWork t +
          s.listWork t := rfl
  rw [hwork]
  unfold State.work
  omega

/-- A write has copied its reply. -/
theorem writeCopy_work_lt (hs : Sound s) {w : WriteId} (tr : Transaction) (fault : Bool)
    (hw : (s.writes w).pc = .copying t) :
    ((s.setTrans t tr).setWritePc w (.copied t fault)).work t < s.work t := by
  have hwrite := writeWork_setWrite_le (t := t) hs { s.writes w with pc := .copied t fault }
    (by rw [hw]; trivial : (s.writes w).pc.InProgress)
  rw [hw, WritePc.work_copying, WritePc.work_copied] at hwrite
  have hwork : ((s.setTrans t tr).setWritePc w (.copied t fault)).work t =
      (s.clients t).pc.rank + s.sleepiness t + s.signalWork t + s.readWork t +
        (s.setWrite w { s.writes w with pc := .copied t fault }).writeWork t + s.listWork t := rfl
  rw [hwork]
  unfold State.work
  omega

/-- A write answers; it has more work left than the client can get by being woken. -/
theorem writeDone_work_lt (hs : Sound s) {w : WriteId} {fault : Bool} (v : ℤ)
    (hw : (s.writes w).pc = .copied t fault) :
    ((s.answer t).setWritePc w (.returned v)).work t < s.work t := by
  have hwrite : (s.setWrite w { s.writes w with pc := .returned v }).writeWork t +
      (s.writes w).pc.work t ≤ s.writeWork t + 0 :=
    writeWork_setWrite_le hs _ (by rw [hw]; trivial)
  rw [hw, WritePc.work_copied] at hwrite
  have hsleep := sleepiness_le (s.answer t) t
  have hwork : ((s.answer t).setWritePc w (.returned v)).work t =
      (s.clients t).pc.rank + (s.answer t).sleepiness t + s.signalWork t + s.readWork t +
        (s.setWrite w { s.writes w with pc := .returned v }).writeWork t + s.listWork t := rfl
  rw [hwork]
  unfold State.work
  omega

/-- The last release takes more work off the lists than the client can get by being woken. -/
theorem drain_work_le (ht : s.Listed t) : s.drain.work t ≤ s.work t := by
  have hlist : 4 ≤ s.listWork t := by
    unfold State.listWork
    rcases ht with ht | ht <;> rw [if_pos ht] <;> omega
  have hsleep := sleepiness_le s.drain t
  have hwork : s.drain.work t = (s.clients t).pc.rank + s.drain.sleepiness t + s.signalWork t +
      s.readWork t + s.writeWork t + 0 := rfl
  rw [hwork]
  unfold State.work
  omega

/-- A signal wakes a client once at most: one that sleeps in the first wait has not been killed. -/
theorem kill_work_le (hw : Waiter s t) :
    ((s.wakeUpIf ((s.clients t).pc = .waiting) t).setClient t
      { s.clients t with signalPending := true }).work t ≤ s.work t := by
  have hclient : ((s.wakeUpIf ((s.clients t).pc = .waiting) t).setClient t
      { s.clients t with signalPending := true }).clients t =
      { s.clients t with signalPending := true } := Function.update_self ..
  suffices hle : (s.wakeUpIf ((s.clients t).pc = .waiting) t).sleepiness t ≤
      s.sleepiness t + s.signalWork t by
    have hwork : ((s.wakeUpIf ((s.clients t).pc = .waiting) t).setClient t
        { s.clients t with signalPending := true }).work t = (s.clients t).pc.rank +
        (s.wakeUpIf ((s.clients t).pc = .waiting) t).sleepiness t + 0 + s.readWork t +
          s.writeWork t + s.listWork t := by
      unfold State.work State.signalWork
      rw [hclient]
      rfl
    rw [hwork]
    unfold State.work
    omega
  by_cases hp : (s.clients t).pc = .waiting
  swap
  · unfold State.sleepiness
    rw [wakeUpIf_asleep_of_not hp]
    exact Nat.le_add_right _ _
  cases hsig : (s.clients t).signalPending with
  | false =>
      have hwork : s.signalWork t = 1 := by simp [State.signalWork, hsig]
      exact (sleepiness_le _ t).trans (by omega)
  | true =>
      have hawake : s.asleep t = false := Bool.eq_false_iff.mpr fun ha => by
        rcases hw.mustWait ha with hm | hm
        · exact absurd (hsig.symm.trans hm.2.2) (by decide)
        · exact absurd (hp.symm.trans hm.1) (by decide)
      have hwork : s.sleepiness t = 1 := by simp [State.sleepiness, hawake]
      exact (sleepiness_le _ t).trans (by omega)

/-- The client goes to sleep. -/
theorem sleep_work_lt (ha : s.asleep t = false) : (s.sleep t).work t < s.work t := by
  have hwork : (s.sleep t).work t = (s.clients t).pc.rank + (s.sleep t).sleepiness t +
      s.signalWork t + s.readWork t + s.writeWork t + s.listWork t := rfl
  have hsleep : (s.sleep t).sleepiness t = 0 := by simp [State.sleepiness, State.sleep]
  have hawake : s.sleepiness t = 1 := by simp [State.sleepiness, ha]
  rw [hwork, hsleep]
  unfold State.work
  omega

/-- A client moves on while nothing else changes. -/
theorem client_work_lt (hrank : (s'.clients t).pc.rank < (s.clients t).pc.rank)
    (hsignal : (s'.clients t).signalPending = (s.clients t).signalPending)
    (hsleep : s'.asleep = s.asleep) (hreads : s'.readWork t = s.readWork t)
    (hwrites : s'.writeWork t = s.writeWork t) (hlist : s'.listWork t ≤ s.listWork t) :
    s'.work t < s.work t := by
  unfold State.work State.sleepiness State.signalWork
  rw [hsignal, hsleep]
  omega

/-- The head of the loop in `uvfsd_read`, with the transaction first in the queue. -/
theorem readLoop_work_le (hs : Sound s) {r : ReadId} (hr : (s.reads r).pc.InProgress)
    (hl : ReadLoop s r s') (ht : s.uvfsRequests.head? = some t) : s'.work t ≤ s.work t := by
  cases hl with
  | shutdown =>
      have h := work_setRead_le (t := t) (c := { s.reads r with pc := .shutdown }) hs hr
      exact le_trans (Nat.le_add_right _ _) h
  | sleep _ hnil =>
      rw [hnil] at ht
      exact absurd ht (by simp)
  | take t' rest s₁ _ hreq hw =>
      rw [hreq] at ht
      obtain rfl : t' = t := Option.some.inj ht
      exact (take_work_lt hs hreq (hs.files.read r hr).1 hw).le

/-- **No step adds work** for a client inside `uvfs_make_request`, and each step of the client and
of a call that works on its transaction does some of it. -/
theorem Effect.work_le (hs : Sound s) (ho : Owned s) (hwait : Waiter s t)
    (hin : (s.clients t).pc.Inside) (he : Effect s a s') :
    s'.work t ≤ s.work t ∧ (Serves t s a → s'.work t < s.work t) := by
  have hless : s'.work t < s.work t →
      s'.work t ≤ s.work t ∧ (Serves t s a → s'.work t < s.work t) := fun h => ⟨h.le, fun _ => h⟩
  by_cases ht : Touches s a t
  swap
  · have hframe := he.frame hs.files ht
    have huses : ∀ r, (s'.reads r).pc.Uses t → (s.reads r).pc.Uses t := fun r => (hframe.reads r).mp
    have hsum := hframe.work_le hs
    have hread := he.readWork_le hs huses
    refine ⟨by omega, fun hserves => ?_⟩
    cases he with
    | readCopy r fault t' hr m hm =>
        have htt : t' = t := by
          rw [Serves, hr] at hserves
          exact hserves
        subst htt
        have hlt := work_setRead_le (t := t') (c := { s.reads r with
          pc := .copied t' (fault.isSome || decide ((s.trans m).requestSize < 0))
          buf := (s.trans m).u
          len := fault.getD (s.trans m).requestSize.toNat }) hs (by rw [hr]; trivial)
        rw [hr, ReadPc.work_copying, ReadPc.work_copied] at hlt
        unfold endReadCopy
        omega
    | readDone r t' fault hr | writeCopy w data fault t' hw | writeDone w t' fault hw =>
        exact absurd ⟨t, hserves, .inl rfl⟩ ht
    | waitSleep t' | waitAnswered t' | waitSignal t' | checkAbort t' | checkUnlink t'
    | checkLeave t' | waitUnused t' | withdraw t' | leave t' => exact absurd (Eq.symm hserves) ht
    | _ => exact hserves.elim
  cases he with
  | release f _ _ hne => exact absurd ht.1 hne
  | releaseLast f _ _ _ =>
      exact ⟨drain_work_le (s := { s with
        opened := s.opened.erase f, uvfsUseCount := s.uvfsUseCount - 1 }) ht.2,
        fun hserves => hserves.elim⟩
  | newTransaction junk old _ =>
      obtain rfl : t = s.nTrans := ht
      exact absurd (hs.logged.lt _ hin.ne_freed) (lt_irrefl _)
  | buildRequest t' req hp _ | refused t' pick hp _ | enqueued t' pick s' hp _ _ =>
      obtain rfl : t = t' := ht
      exact absurd (by rw [hp]; trivial) hin.not_halfStarted
  | kill t' _ =>
      obtain rfl : t = t' := ht
      exact ⟨kill_work_le hwait, fun hserves => hserves.elim⟩
  | waitSleep t' ha _ =>
      obtain rfl : t = t' := ht
      exact hless (sleep_work_lt ha)
  | waitAnswered t' hp _ | waitSignal t' hp _ | checkLeave t' hp _ | waitUnused t' hp _
  | leave t' hp =>
      obtain rfl : t = t' := ht
      refine hless (client_work_lt ?_ ?_ rfl rfl rfl (le_refl _)) <;>
        simp [State.setClientPc, State.setClient, hp, ClientPc.rank]
  | checkAbort t' hp _ _ =>
      obtain rfl : t = t' := ht
      refine hless (client_work_lt ?_ ?_ rfl rfl rfl (le_refl _)) <;>
        simp [State.setClientPc, State.setClient, State.setTrans, hp, ClientPc.rank]
  | checkUnlink t' hp _ _ | withdraw t' hp =>
      obtain rfl : t = t' := ht
      refine hless (client_work_lt ?_ ?_ rfl rfl rfl (listWork_erase_le s t)) <;>
        simp [State.unlinkAborted, State.setClient, hp, ClientPc.rank]
  | kfree t' hp =>
      obtain rfl : t = t' := ht
      rw [hp] at hin
      exact hin.elim
  | reuse t' junk hre =>
      obtain rfl : t = t' := ht
      exact absurd hre.1 hin.ne_freed
  | readLockFirst r pick s' hr hl =>
      exact ⟨readLoop_work_le hs (by rw [hr]; trivial) hl ht, fun hserves => hserves.elim⟩
  | readLockAgain r pick s' hr _ hl =>
      have h := readLoop_work_le (hs.driverQueue (s.uvfsDriverQueue.erase r))
        (by rcases hr with hr | hr <;> simp only [hr] <;> trivial) hl ht
      exact ⟨h, fun hserves => hserves.elim⟩
  | readLockSignal r pick hr _ =>
      refine ⟨?_, fun hserves => hserves.elim⟩
      have h := work_setRead_le (t := t) (r := r)
        (c := { s.reads r with pc := .returned erestartsys })
        (hs.driverQueue (s.uvfsDriverQueue.erase r))
        (by rcases hr with hr | hr <;> simp only [hr] <;> trivial)
      exact le_trans (Nat.le_add_right _ _) h
  | readDone r t' fault hr m hm =>
      obtain ⟨rfl, rfl⟩ := ho.of_readDone hr hm ht
      exact hless (readDone_work_lt hs hr)
  | writeMiss w _ hnone => exact absurd (hnone.symm.trans ht) (by simp)
  | writeClaim w t' hw hfind =>
      obtain rfl : t' = t := Option.some.inj (hfind.symm.trans ht)
      exact hless (claim_work_lt hs hw (List.mem_of_find?_eq_some hfind))
  | writeCopy w data fault t' hw m hm =>
      obtain ⟨rfl, rfl⟩ := ho.of_write (by rw [hw]; rfl) hm ht
      exact hless (writeCopy_work_lt hs _ _ hw)
  | writeDone w t' fault hw m hm =>
      obtain ⟨rfl, rfl⟩ := ho.of_write (by rw [hw]; rfl) hm ht
      exact hless (writeDone_work_lt hs _ hw)
  | _ => exact ht.elim

/-! ## Clients that are killed or answered -/

/-- The client of `t` is inside `uvfs_make_request`, and it was killed or is answered. -/
structure Due (s : State) (t : TransId) : Prop where
  inside : (s.clients t).pc.Inside
  reason : (s.clients t).signalPending = true ∨ (s.trans t).answered ≠ 0

namespace Due

/-- The client or a call that works on its transaction can take a step. -/
theorem enabled (hfl : Flags s t) (hw : Waiter s t) (h : Due s t) :
    Execution.Enabled Driver.step (Serves t) s := by
  obtain ⟨hin, hreason⟩ := h
  have hawake : ¬ s.MustWait t → s.asleep t = false := fun hno =>
    Bool.eq_false_iff.mpr fun ha => hno (hw.mustWait ha)
  cases hpc : (s.clients t).pc with
  | waiting =>
      have ha : s.asleep t = false := hawake <| by
        rintro (⟨_, hans, hsig⟩ | ⟨hp, _⟩)
        · rcases hreason with hsig' | hans'
          · exact absurd (hsig.symm.trans hsig') (by decide)
          · exact hans' hans
        · exact absurd (hpc.symm.trans hp) (by decide)
      rcases hreason with hsig | hans
      · exact ⟨.waitSignal t, rfl, by simp [Driver.step, waitSignal, hpc, hsig, ha]⟩
      · refine ⟨.waitAnswered t, rfl, ?_⟩
        rw [Driver.step, waitAnswered, if_pos ⟨hpc, ha, hans⟩]
        rfl
  | checking =>
      refine ⟨.checkSignal t, rfl, ?_⟩
      simp only [Driver.step, State.checkSignal, hpc, if_true]
      split_ifs <;> rfl
  | aborting =>
      by_cases huse : (s.trans t).inUse = 0
      · have ha : s.asleep t = false := hawake <| by
          rintro (⟨hp, _⟩ | ⟨_, hno⟩)
          · exact absurd (hpc.symm.trans hp) (by decide)
          · exact hno huse
        exact ⟨.waitUnused t, rfl, by simp [Driver.step, waitUnused, hpc, huse, ha]⟩
      -- somebody works on the transaction, and nothing stops him
      rcases hfl.inUse (by rw [hpc]; simp) huse with ⟨r, hr⟩ | ⟨w, hw⟩
      · cases hrpc : (s.reads r).pc with
        | copying t' => exact ⟨.readCopy r none, hr, by simp [Driver.step, uvfsdReadCopy, hrpc]⟩
        | copied t' fault => exact ⟨.readDone r, hr, by simp [Driver.step, uvfsdReadDone, hrpc]⟩
        | _ => exact absurd hr (by rw [hrpc]; exact id)
      · cases hwpc : (s.writes w).pc with
        | copying t' =>
            exact ⟨.writeCopy w (fun _ => 0) none, hw, by
              simp [Driver.step, uvfsdWriteCopy, hwpc]⟩
        | copied t' fault => exact ⟨.writeDone w, hw, by simp [Driver.step, uvfsdWriteDone, hwpc]⟩
        | _ => exact absurd hw (by rw [hwpc]; exact id)
  | aborted => exact ⟨.withdraw t, rfl, by simp [Driver.step, withdraw, hpc]⟩
  | leaving => exact ⟨.leave t, rfl, by simp [Driver.step, leave, hpc]⟩
  | created | built | returned | freed => exact absurd hin (by rw [hpc]; exact id)

/-- Nothing but the client itself takes it out of `uvfs_make_request`, and what it was killed or
answered by stays. -/
theorem step (hs : Sound s) (ho : Owned s) (hfl : Flags s t) (h : Due s t) (he : Effect s a s') :
    Due s' t ∨ (s'.clients t).pc = .returned := by
  by_cases ht : Touches s a t
  swap
  · have hframe := he.frame hs.files ht
    exact .inl ⟨by rw [hframe.client]; exact h.inside,
      by rw [hframe.client, hframe.trans]; exact h.reason⟩
  obtain ⟨hin, hreason⟩ := h
  cases he with
  | release f _ _ hne => exact absurd ht.1 hne
  | releaseLast f _ _ _ =>
      have htrans := drain_trans_of_listed
        (s := { s with opened := s.opened.erase f, uvfsUseCount := s.uvfsUseCount - 1 }) hs.nodup
        ht.2
      refine .inl ⟨hin, .inr ?_⟩
      rw [htrans]
      exact (by decide : (1 : Word) ≠ 0)
  | newTransaction junk old _ =>
      obtain rfl : t = s.nTrans := ht
      exact absurd (hs.logged.lt _ hin.ne_freed) (lt_irrefl _)
  | buildRequest t' req hp _ | refused t' pick hp _ | enqueued t' pick s' hp _ _ =>
      obtain rfl : t = t' := ht
      exact absurd (by rw [hp]; trivial) hin.not_halfStarted
  | kill t' _ =>
      obtain rfl : t = t' := ht
      exact .inl ⟨by simpa [State.setClient] using hin, .inl (by simp [State.setClient])⟩
  | waitSleep t' _ _ => exact .inl ⟨hin, hreason⟩
  | waitAnswered t' hp _ | waitSignal t' hp _ | checkLeave t' hp _ | waitUnused t' hp _ =>
      obtain rfl : t = t' := ht
      refine .inl ⟨?_, ?_⟩
      · simp [State.setClientPc, State.setClient, ClientPc.Inside]
      · simpa [State.setClientPc, State.setClient] using hreason
  | checkAbort t' hp hsig _ =>
      obtain rfl : t = t' := ht
      exact .inl ⟨by simp [State.setClientPc, State.setClient, ClientPc.Inside],
        .inl (by simpa [State.setClientPc, State.setClient, State.setTrans] using hsig)⟩
  | checkUnlink t' hp _ _ | withdraw t' hp =>
      obtain rfl : t = t' := ht
      refine .inl ⟨by simp [State.unlinkAborted, State.setClient, ClientPc.Inside], ?_⟩
      simpa [State.unlinkAborted, State.setClient, State.setTrans, Transaction.setError] using
        hreason
  | leave t' hp =>
      obtain rfl : t = t' := ht
      exact .inr (by simp [State.setClientPc, State.setClient])
  | kfree t' hp =>
      obtain rfl : t = t' := ht
      rw [hp] at hin
      exact hin.elim
  | reuse t' junk hre =>
      obtain rfl : t = t' := ht
      exact absurd hre.1 hin.ne_freed
  | readLockFirst r pick s' _ hl | readLockAgain r pick s' _ _ hl =>
      cases hl with
      | shutdown => exact .inl ⟨hin, hreason⟩
      | sleep => exact .inl ⟨hin, hreason⟩
      | take t' rest s₁ _ hreq hw =>
          obtain ⟨reads, rfl, -⟩ := hw.exists_reads
          obtain rfl : t' = t := by
            have hhead : (t' :: rest).head? = some t := by rw [← hreq]; exact ht
            exact Option.some.inj hhead
          exact .inl ⟨hin, by
            simpa [State.beginReadCopy, State.setRead, State.setTrans, State.handOut] using hreason⟩
  | readLockSignal r pick _ _ => exact .inl ⟨hin, hreason⟩
  | readDone r t' fault hr m hm =>
      obtain ⟨rfl, rfl⟩ := ho.of_readDone hr hm ht
      exact .inl ⟨hin, by
        simpa [State.setReadPc, State.setRead, clearInUse, State.wakeUpIf, State.setTrans] using
          hreason⟩
  | writeMiss w _ hnone => exact absurd (hnone.symm.trans ht) (by simp)
  | writeClaim w t' hw hfind =>
      obtain rfl : t' = t := Option.some.inj (hfind.symm.trans ht)
      exact .inl ⟨hin, by
        simpa [State.beginWriteCopy, State.setWrite, State.setTrans, State.listDelInit] using
          hreason⟩
  | writeCopy w data fault t' hw m hm =>
      obtain ⟨rfl, rfl⟩ := ho.of_write (by rw [hw]; rfl) hm ht
      -- the copy may run over `answered`, but nothing is answered before it
      have hans := hfl.copying w hw hin.ne_freed
      exact .inl ⟨hin, .inl (hreason.resolve_right fun h => h hans)⟩
  | writeDone w t' fault hw m hm =>
      obtain ⟨rfl, rfl⟩ := ho.of_write (by rw [hw]; rfl) hm ht
      exact .inl ⟨hin, .inr (by
        simp [State.setWritePc, State.setWrite, answer, State.wakeUp, State.setTrans])⟩
  | _ => exact ht.elim

end Due

/-! ## Runs without end -/

/-- The states of a run from the start are reachable. -/
theorem reachable_state {ρ : Execution step G} (hinit : ρ.state 0 = State.init) (m : ℕ) :
    Reachable G (ρ.state m) := by
  have h := ρ.reach m
  rw [hinit] at h
  exact h

/-- **Every client that is killed or answered returns.**  In every run without end in which no
write claims a transaction out of turn or copies over `in_use`, whatever the server and the other
clients do: if the client of `t` and the calls that work on `t` are not kept waiting for ever while
they are awake, then the client, which sleeps until somebody wakes it, comes out of
`uvfs_make_request`. -/
theorem due_client_returns {ρ : Execution step ClaimsSafely} (hinit : ρ.state 0 = State.init)
    (hfair : ρ.Fair (Serves t)) {n : ℕ} (hdue : Due (ρ.state n) t) :
    ∃ m, n ≤ m ∧ ((ρ.state m).clients t).pc = .returned := by
  have hreach := reachable_state hinit
  refine Execution.eventually_of_rank (P := fun s => Due s t)
    (Q := fun s => (s.clients t).pc = .returned) (μ := fun s => s.work t) hfair hdue
    (fun m _ hP _ => hP.enabled (Reachable.flags (hreach m) t) (Reachable.waiter (hreach m) t))
    fun m _ hP _ hQ => ?_
  have hs := Reachable.sound (hreach m)
  have ho := Reachable.owned (hreach m)
  have he := step_effect (ρ.next m)
  obtain ⟨hle, hlt⟩ := he.work_le hs ho (Reachable.waiter (hreach m) t) hP.inside
  exact ⟨(hP.step hs ho (Reachable.flags (hreach m) t) he).resolve_right hQ, hle, hlt⟩

/-- A client that is not inside of `uvfs_make_request` has nothing to do there, and neither has
anybody else for it. -/
theorem not_serves_enabled (hp : ¬ (s.clients t).pc.Inside) (hheld : ¬ s.Held t) :
    ¬ Execution.Enabled step (Serves t) s := by
  rintro ⟨a, hserves, hsome⟩
  cases a with
  | readCopy r fault | readDone r => exact hheld (.inl ⟨r, hserves⟩)
  | writeCopy w data fault | writeDone w => exact hheld (.inr ⟨w, hserves⟩)
  | waitSleep t' | waitAnswered t' | waitSignal t' | checkSignal t' | waitUnused t' | withdraw t'
  | leave t' =>
      obtain rfl : t' = t := hserves
      cases hpc : (s.clients t').pc with
      | waiting | checking | aborting | aborted | leaving => exact hp (by rw [hpc]; trivial)
      | created | built | returned | freed =>
          simp [step, State.waitSleep, State.MustWait, waitAnswered, waitSignal, checkSignal,
            waitUnused, withdraw, leave, hpc] at hsome
  | _ => exact hserves.elim

/-- A new transaction can always be had. -/
theorem step_newTransaction_isSome (s : State) :
    (step s (.newTransaction .zeroed none)).isSome = true := by
  rw [step_newTransaction_none]
  rfl

/-- A new transaction claims and copies nothing. -/
theorem claimsSafely_newTransaction (s : State) :
    ClaimsSafely s (.newTransaction .zeroed none) := .of_other rfl rfl

/-- A client sleeps, is killed while a read copies its request, sleeps again until the read has
cleared `in_use`, and returns.  After that the run creates transactions for ever. -/
theorem due_client_returns_killed : ∃ ρ : Execution step ClaimsSafely,
    ρ.state 0 = State.init ∧ ρ.Fair (Serves 0) ∧ Due (ρ.state 11) 0 ∧
    ((ρ.state 11).clients 0).pc = .aborting ∧ (ρ.state 11).asleep 0 = true ∧
    ((ρ.state 11).reads 0).pc.Uses 0 ∧ ∃ m, 11 ≤ m ∧ ((ρ.state m).clients 0).pc = .returned := by
  obtain ⟨ρ, hinit, hcheck, hidle⟩ := Execution.exists_ofList step ClaimsSafely
    [.uvfsdOpen 0, .newTransaction .zeroed none, .buildRequest 0 (getattrRequest 0),
      .makeRequest 0 none, .waitSleep 0, .readEnter 0 sizeofUvfsRequestU, .readLock 0 none, .kill 0,
      .waitSignal 0, .checkSignal 0, .waitSleep 0, .readCopy 0 none, .readDone 0, .waitUnused 0,
      .withdraw 0, .leave 0]
    (.newTransaction .zeroed none) State.init step_newTransaction_isSome
    claimsSafely_newTransaction (by decide +kernel)
    (fun n s => (n = 11 → (s.clients 0).signalPending = true ∧ (s.clients 0).pc = .aborting ∧
        s.asleep 0 = true ∧ (s.reads 0).pc.Uses 0) ∧
      (n = 16 → (s.clients 0).pc = .returned ∧ 0 < s.nTrans ∧
        (∀ r < s.nReads, ¬ (s.reads r).pc.Uses 0) ∧ ∀ w < s.nWrites, ¬ (s.writes w).pc.Uses 0))
    (by decide +kernel)
  obtain ⟨hsig, hp, hasleep, huse⟩ := (hcheck 11 (by decide)).1 rfl
  obtain ⟨hret, hlt, hread, hwrite⟩ := (hcheck 16 (by decide)).2 rfl
  have hfiles : Files (ρ.state 16) := Reachable.files (reachable_state hinit 16)
  have hheld : ¬ (ρ.state 16).Held 0 := by
    rintro (⟨r, hr⟩ | ⟨w, hw⟩)
    · exact hread r (hfiles.read r hr.inProgress).1 hr
    · exact hwrite w (hfiles.write w hw.inProgress).1 hw
  have hkeep : ∀ s s' : State, ((s.clients 0).pc = .returned ∧ 0 < s.nTrans ∧ ¬ s.Held 0) →
      step s (.newTransaction .zeroed none) = some s' →
      (s'.clients 0).pc = .returned ∧ 0 < s'.nTrans ∧ ¬ s'.Held 0 := by
    rintro s s' ⟨hret, hlt, hheld⟩ hstep
    cases step_effect hstep
    refine ⟨?_, Nat.succ_pos _, hheld⟩
    simpa [addTransaction, Function.update_of_ne (Nat.ne_of_lt hlt)] using hret
  have hfair : ρ.Fair (Serves 0) := Execution.fair_of_blocked (n := 16) fun m hm => by
    obtain ⟨hret, -, hheld⟩ := Execution.forever hidle ⟨hret, hlt, hheld⟩ hkeep hm
    exact not_serves_enabled (by rw [hret]; exact id) hheld
  have hdue : Due (ρ.state 11) 0 := ⟨by rw [hp]; trivial, .inl hsig⟩
  exact ⟨ρ, hinit, hfair, hdue, hp, hasleep, huse, due_client_returns hinit hfair hdue⟩

end Uvfs.Driver
