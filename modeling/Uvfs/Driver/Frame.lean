import Uvfs.Driver.Files
import Uvfs.Driver.Calls

/-!
# What a step leaves alone

Most of what is known about the driver is known of one transaction at a time.  A step touches at
most the transaction it works on (the last release: those in the lists), and everything that is said
about another one is carried over.

* `Sound s` : the invariants proved so far, with what follows from them about the two lists.
* `Owned s` : the calls in progress work on memory of the transactions they have taken.
* `Touches s a t` : the step `a` may change what belongs to `t`.
* `Frame s s' t` : nothing that belongs to `t` has changed.
* `Effect.frame` : a step that does not touch `t` leaves it alone.
* `ReadMove s r a c` : the ways in which a step moves a read (`Effect.read_move`).
* `Effect.read_cases`, `Effect.write_cases` : what a step keeps of the record of a call.
-/

namespace Uvfs.Driver

open State Transition

variable {s s' s'' : State} {a : Act} {t t' : TransId} {r : ReadId} {G : State → Act → Prop}

/-! ## The invariants so far -/

/-- What holds in every reachable state about files, logs, lists and calls. -/
structure Sound (s : State) : Prop where
  files : Files s
  logged : Logged s
  owners : Owners s
  board : ∃ b, Shows s b
  calls : Calls s

/-- Every reachable state is sound. -/
theorem Reachable.sound (h : Reachable G s) : Sound s where
  files := Reachable.files h
  logged := Reachable.logged h
  owners := Reachable.owners h
  board := by
    obtain ⟨b, hb, _⟩ := Reachable.board h
    exact ⟨b, hb⟩
  calls := Reachable.calls h

namespace Sound

/-- The wait queue of the readers plays no part. -/
theorem driverQueue (h : Sound s) (q : List ReadId) : Sound { s with uvfsDriverQueue := q } where
  files := ⟨h.files.nodup, h.files.count, h.files.read, h.files.write⟩
  logged := ⟨h.logged.lt, h.logged.log⟩
  owners := ⟨h.owners.live, h.owners.listed, h.owners.fresh, h.owners.lt⟩
  board := by
    obtain ⟨b, hb⟩ := h.board
    exact ⟨b, hb.posted, hb.pending, hb.given, hb.outstanding⟩
  calls := ⟨h.calls.took, h.calls.took_log, h.calls.took_inj, h.calls.early, h.calls.write_log,
    h.calls.write_inj⟩

/-- A transaction is in at most one of the two lists, once. -/
theorem nodup (h : Sound s) : (s.uvfsRequests ++ s.uvfsReplies).Nodup := by
  obtain ⟨b, hb⟩ := h.board
  rw [hb.pending, hb.outstanding]
  exact b.nodup

theorem requests_nodup (h : Sound s) : s.uvfsRequests.Nodup := (List.nodup_append.mp h.nodup).1

theorem replies_nodup (h : Sound s) : s.uvfsReplies.Nodup := (List.nodup_append.mp h.nodup).2.1

/-- What waits has not been handed out. -/
theorem not_handedOut (h : Sound s) (ht : t ∈ s.uvfsRequests) : t ∉ s.handOutLog := by
  obtain ⟨b, hb⟩ := h.board
  rw [hb.given]
  exact b.not_mem_given (hb.pending ▸ ht)

/-- What is in `Uvfs_replies` has been handed out. -/
theorem handedOut (h : Sound s) (ht : t ∈ s.uvfsReplies) : t ∈ s.handOutLog := by
  obtain ⟨b, hb⟩ := h.board
  rw [hb.given]
  exact b.outstanding_sublist.subset (hb.outstanding ▸ ht)

/-- What has been handed out was enqueued. -/
theorem enqueued_of_handedOut (h : Sound s) (ht : t ∈ s.handOutLog) : t ∈ s.enqueueLog := by
  obtain ⟨b, hb⟩ := h.board
  rw [hb.posted]
  exact b.given_sublist.subset (hb.given ▸ ht)

/-- What a read has taken was enqueued. -/
theorem enqueued_of_took (h : Sound s) (ht : (s.reads r).took = some t) : t ∈ s.enqueueLog :=
  h.enqueued_of_handedOut (h.calls.took_log r t ht)

/-- What is in a list was enqueued. -/
theorem enqueued_of_listed (h : Sound s) (ht : s.Listed t) : t ∈ s.enqueueLog := by
  rcases ht with ht | ht
  · obtain ⟨b, hb⟩ := h.board
    rw [hb.posted]
    exact b.order.subset (List.mem_append_right _ (hb.pending ▸ ht))
  · exact h.enqueued_of_handedOut (h.handedOut ht)

/-- A write has unlinked the transaction it works on. -/
theorem not_listed_of_write (h : Sound s) {w : WriteId} (hw : (s.writes w).pc.Uses t) :
    ¬ s.Listed t := by
  obtain ⟨hlog, hrep⟩ := h.calls.write_log w t hw
  exact fun hl => hl.elim (fun hr => h.not_handedOut hr hlog) hrep

/-- A read has moved the transaction it works on out of `Uvfs_requests`. -/
theorem not_requested_of_read (h : Sound s) {r : ReadId} (hr : (s.reads r).pc.trans? = some t) :
    t ∉ s.uvfsRequests :=
  fun hm => h.not_handedOut hm (h.calls.took_log r t (h.calls.took r t hr))

/-- Nobody works on a transaction that waits. -/
theorem not_held_of_requested (h : Sound s) (ht : t ∈ s.uvfsRequests) : ¬ s.Held t := by
  rintro (⟨r, hr⟩ | ⟨w, hw⟩)
  · exact h.not_requested_of_read hr.trans? ht
  · exact h.not_listed_of_write hw (.inl ht)

/-- A transaction somebody works on was enqueued. -/
theorem enqueued_of_held (h : Sound s) (ht : s.Held t) : t ∈ s.enqueueLog := by
  rcases ht with ⟨r, hr⟩ | ⟨w, hw⟩
  · exact h.enqueued_of_took (h.calls.took r t hr.trans?)
  · exact h.enqueued_of_handedOut (h.calls.write_log w t hw).1

/-- With no open file there is no call in progress. -/
theorem not_held_of_closed (h : Sound s) (hc : s.uvfsUseCount = 0) : ¬ s.Held t := by
  have hopen : s.opened = [] := by
    have := h.files.count
    exact List.length_eq_zero_iff.mp (by omega)
  rintro (⟨r, hr⟩ | ⟨w, hw⟩)
  · exact absurd (h.files.read r hr.inProgress).2 (hopen ▸ List.not_mem_nil)
  · exact absurd (h.files.write w hw.inProgress).2 (hopen ▸ List.not_mem_nil)

/-- When the last file is released no file stays open. -/
theorem erase_eq_nil_of_last (h : Sound s) {f : FileId} (hf : f ∈ s.opened)
    (hc : s.uvfsUseCount - 1 = 0) : s.opened.erase f = [] := by
  have hlen := List.length_erase_of_mem hf
  have hcount := h.files.count
  exact List.length_eq_zero_iff.mp (by omega)

/-- When the last file is released there is no read in progress. -/
theorem read_idle_of_last (h : Sound s) {f : FileId} (hf : f ∈ s.opened) (hb : ¬ s.Busy f)
    (hc : s.uvfsUseCount - 1 = 0) (r : ReadId) : ¬ (s.reads r).pc.InProgress := fun hr =>
  absurd (h.files.read_of_not_busy hb hr) (h.erase_eq_nil_of_last hf hc ▸ List.not_mem_nil)

/-- When the last file is released there is no write in progress. -/
theorem write_idle_of_last (h : Sound s) {f : FileId} (hf : f ∈ s.opened) (hb : ¬ s.Busy f)
    (hc : s.uvfsUseCount - 1 = 0) (w : WriteId) : ¬ (s.writes w).pc.InProgress := fun hw =>
  absurd (h.files.write_of_not_busy hb hw) (h.erase_eq_nil_of_last hf hc ▸ List.not_mem_nil)

/-- When the last file is released nobody works on a transaction. -/
theorem not_held_of_last (h : Sound s) {f : FileId} (hf : f ∈ s.opened) (hb : ¬ s.Busy f)
    (hc : s.uvfsUseCount - 1 = 0) : ¬ s.Held t := by
  rintro (⟨r, hr⟩ | ⟨w, hw⟩)
  · exact h.read_idle_of_last hf hb hc r hr.inProgress
  · exact h.write_idle_of_last hf hb hc w hw.inProgress

end Sound

/-! ## Calls that work on the memory of what they took -/

/-- A call that is between setting `in_use` and clearing it works on the memory of the transaction
that it has taken, and of no other one. -/
def Owned (s : State) : Prop := ∀ t, s.Held t → s.owner t = t

/-- Where the callers of the transactions that calls work on are still there, the memory is
theirs. -/
theorem Owners.owned (h : Owners s) (hlive : ∀ t, s.Held t → (s.clients t).pc ≠ .freed) : Owned s :=
  fun t ht => h.live t (hlive t ht)

/-! ## The drain loops -/

theorem drainLoop_of_not_mem {l : List TransId} (ht : t ∉ l) (trans : TransId → Transaction) :
    drainLoop l trans t = trans t := by
  induction l generalizing trans with
  | nil => rfl
  | cons t₀ rest ih =>
      obtain ⟨hne, hrest⟩ := not_or.mp (List.mem_cons.not.mp ht)
      rw [drainLoop, ih hrest, Function.update_of_ne hne]

/-- A loop of `uvfsd_release` fails every transaction of its list. -/
theorem drainLoop_of_mem {l : List TransId} (hl : l.Nodup) (ht : t ∈ l)
    (trans : TransId → Transaction) : drainLoop l trans t = (trans t).fail := by
  induction l generalizing trans with
  | nil => exact absurd ht List.not_mem_nil
  | cons t₀ rest ih =>
      obtain ⟨hnew, hrest⟩ := List.nodup_cons.mp hl
      unfold drainLoop
      by_cases htt : t = t₀
      · subst htt
        rw [drainLoop_of_not_mem hnew, Function.update_self]
      · rw [ih hrest ((List.mem_cons.mp ht).resolve_left htt), Function.update_of_ne htt]

theorem wakeUpIf_asleep {c : Prop} [Decidable c] (hc : c) : (s.wakeUpIf c t).asleep t = false := by
  simp [State.wakeUpIf, hc]

theorem wakeUpIf_asleep_of_not {c : Prop} [Decidable c] (hc : ¬ c) :
    (s.wakeUpIf c t).asleep = s.asleep := if_neg hc

theorem wakeLoop_of_not_mem {l : List TransId} (ht : t ∉ l) (asleep : TransId → Bool) :
    wakeLoop l asleep t = asleep t := by
  induction l generalizing asleep with
  | nil => rfl
  | cons t₀ rest ih =>
      obtain ⟨hne, hrest⟩ := not_or.mp (List.mem_cons.not.mp ht)
      rw [wakeLoop, ih hrest, Function.update_of_ne hne]

/-- Nobody is sent to sleep by a loop of `uvfsd_release`. -/
theorem wakeLoop_of_awake {l : List TransId} {asleep : TransId → Bool} (ht : asleep t = false) :
    wakeLoop l asleep t = false := by
  induction l generalizing asleep with
  | nil => exact ht
  | cons t₀ rest ih =>
      refine ih ?_
      by_cases htt : t = t₀
      · subst htt
        exact Function.update_self ..
      · rwa [Function.update_of_ne htt]

/-- A loop of `uvfsd_release` wakes the callers of its list. -/
theorem wakeLoop_of_mem {l : List TransId} (ht : t ∈ l) (asleep : TransId → Bool) :
    wakeLoop l asleep t = false := by
  induction l generalizing asleep with
  | nil => exact absurd ht List.not_mem_nil
  | cons t₀ rest ih =>
      rcases List.mem_cons.mp ht with htt | ht
      · refine wakeLoop_of_awake (l := rest) ?_
        rw [htt, Function.update_self]
      · exact ih ht _

/-- The last release wakes the callers of the listed transactions. -/
theorem drain_asleep_of_listed (ht : s.Listed t) : s.drain.asleep t = false := by
  rcases ht with ht | ht
  · exact wakeLoop_of_awake (wakeLoop_of_mem ht _)
  · exact wakeLoop_of_mem ht _

/-- The last release leaves the other callers alone. -/
theorem drain_asleep_of_not_listed (ht : ¬ s.Listed t) : s.drain.asleep t = s.asleep t := by
  obtain ⟨hreq, hrep⟩ := not_or.mp ht
  simp only [drain]
  rw [wakeLoop_of_not_mem hrep, wakeLoop_of_not_mem hreq]

/-- The last release fails the listed transactions. -/
theorem drain_trans_of_listed (h : (s.uvfsRequests ++ s.uvfsReplies).Nodup) (ht : s.Listed t) :
    s.drain.trans t = (s.trans t).fail := by
  obtain ⟨hreq, hrep, hdis⟩ := List.nodup_append.mp h
  rcases ht with ht | ht
  · have hnot : t ∉ s.uvfsReplies := fun hm => hdis t ht t hm rfl
    simp only [drain]
    rw [drainLoop_of_not_mem hnot, drainLoop_of_mem hreq ht]
  · have hnot : t ∉ s.uvfsRequests := fun hm => hdis t hm t ht rfl
    simp only [drain]
    rw [drainLoop_of_mem hrep ht, drainLoop_of_not_mem hnot]

/-- The last release leaves the other transactions alone. -/
theorem drain_trans_of_not_listed (ht : ¬ s.Listed t) : s.drain.trans t = s.trans t := by
  obtain ⟨hreq, hrep⟩ := not_or.mp ht
  simp only [drain]
  rw [drainLoop_of_not_mem hrep, drainLoop_of_not_mem hreq]

/-! ## The frame of a step -/

/-- The step may change what belongs to `t`. -/
def Touches (s : State) : Act → TransId → Prop
  | .uvfsdRelease _, t => s.uvfsUseCount - 1 = 0 ∧ s.Listed t
  | .newTransaction _ _, t => t = s.nTrans
  | .buildRequest t' _, t | .makeRequest t' _, t | .kill t', t | .waitSleep t', t
  | .waitAnswered t', t | .waitSignal t', t | .checkSignal t', t | .waitUnused t', t
  | .withdraw t', t | .leave t', t | .kfree t', t | .reuse t' _, t => t = t'
  | .readLock _ _, t => s.uvfsRequests.head? = some t
  | .readDone r, t => ∃ t', (s.reads r).pc.Uses t' ∧ (t = t' ∨ t = s.owner t')
  | .writeLookup w, t => s.findReply (s.writes w).serial = some t
  | .writeCopy w _ _, t | .writeDone w, t =>
      ∃ t', (s.writes w).pc.Uses t' ∧ (t = t' ∨ t = s.owner t')
  | _, _ => False

namespace Owned

/-- A read clears `in_use` in the transaction that it took. -/
theorem of_readDone (h : Owned s) {fault : Bool} {m : TransId}
    (hr : (s.reads r).pc = .copied t' fault) (hm : s.owner t' = m)
    (ht : Touches s (.readDone r) t) : t' = t ∧ m = t := by
  have hown : s.owner t' = t' := h t' (.inl ⟨r, by rw [hr]; rfl⟩)
  obtain ⟨t₀, huses, ht⟩ := ht
  rw [hr] at huses
  obtain rfl : t' = t₀ := huses
  rw [hown] at hm ht
  have htt : t = t' := ht.elim id id
  exact ⟨htt.symm, hm.symm.trans htt.symm⟩

/-- A write works on the transaction that it found. -/
theorem of_write (h : Owned s) {w : WriteId} {m : TransId} (hw : (s.writes w).pc.Uses t')
    (hm : s.owner t' = m)
    (ht : ∃ t', (s.writes w).pc.Uses t' ∧ (t = t' ∨ t = s.owner t')) : t' = t ∧ m = t := by
  have hown : s.owner t' = t' := h t' (.inr ⟨w, hw⟩)
  obtain ⟨t₀, huses, ht⟩ := ht
  have hsame : t' = t₀ := by
    cases hp : (s.writes w).pc with
    | copying t₁ | copied t₁ fault =>
        rw [hp] at hw huses
        exact (Eq.symm hw).trans huses
    | lookup | returned v =>
        rw [hp] at hw
        exact hw.elim
  subst hsame
  rw [hown] at hm ht
  have htt : t = t' := ht.elim id id
  exact ⟨htt.symm, hm.symm.trans htt.symm⟩

end Owned

/-- Nothing that belongs to `t` has changed. -/
structure Frame (s s' : State) (t : TransId) : Prop where
  client : s'.clients t = s.clients t
  trans : s'.trans t = s.trans t
  asleep : s'.asleep t = s.asleep t
  requests : t ∈ s'.uvfsRequests ↔ t ∈ s.uvfsRequests
  replies : t ∈ s'.uvfsReplies ↔ t ∈ s.uvfsReplies
  log : t ∈ s'.enqueueLog ↔ t ∈ s.enqueueLog
  reads : ∀ r, (s'.reads r).pc.Uses t ↔ (s.reads r).pc.Uses t
  writes : ∀ w, (s.writes w).pc.Uses t ∨ (s'.writes w).pc.Uses t →
    (s'.writes w).pc = (s.writes w).pc

namespace Frame

theorem refl (s : State) (t : TransId) : Frame s s t :=
  ⟨rfl, rfl, rfl, .rfl, .rfl, .rfl, fun _ => .rfl, fun _ _ => rfl⟩

theorem write_uses (h : Frame s s' t) (w : WriteId) :
    (s'.writes w).pc.Uses t ↔ (s.writes w).pc.Uses t :=
  ⟨fun hw => h.writes w (.inr hw) ▸ hw, fun hw => (h.writes w (.inl hw)).symm ▸ hw⟩

theorem trans' (h : Frame s s' t) (h' : Frame s' s'' t) : Frame s s'' t where
  client := h'.client.trans h.client
  trans := h'.trans.trans h.trans
  asleep := h'.asleep.trans h.asleep
  requests := h'.requests.trans h.requests
  replies := h'.replies.trans h.replies
  log := h'.log.trans h.log
  reads r := (h'.reads r).trans (h.reads r)
  writes w hw := by
    have hw' : (s'.writes w).pc.Uses t := by
      rcases hw with hw | hw
      · exact (h.write_uses w).mpr hw
      · exact (h'.write_uses w).mp hw
    exact (h'.writes w (.inl hw')).trans (h.writes w (.inr hw'))

theorem listed (h : Frame s s' t) : s'.Listed t ↔ s.Listed t := or_congr h.requests h.replies

theorem held (h : Frame s s' t) : s'.Held t ↔ s.Held t :=
  or_congr (exists_congr h.reads) (exists_congr h.write_uses)

theorem setTrans (hne : t ≠ t') (tr : Transaction) : Frame s (s.setTrans t' tr) t :=
  { refl s t with trans := Function.update_of_ne hne _ _ }

theorem setClient (hne : t ≠ t') (c : Client) : Frame s (s.setClient t' c) t :=
  { refl s t with client := Function.update_of_ne hne _ _ }

/-- A sleep or a wake-up of the caller of another transaction. -/
theorem setAsleep (hne : t ≠ t') (b : Bool) :
    Frame s { s with asleep := Function.update s.asleep t' b } t :=
  { refl s t with asleep := Function.update_of_ne hne _ _ }

theorem wakeUpIf (hne : t ≠ t') (c : Prop) [Decidable c] : Frame s (s.wakeUpIf c t') t := by
  unfold State.wakeUpIf
  split_ifs
  · exact setAsleep hne false
  · exact refl s t

theorem setClientPc (hne : t ≠ t') (pc : ClientPc) : Frame s (s.setClientPc t' pc) t :=
  setClient hne _

theorem setRead {r : ReadId} {c : ReadCall} (h : c.pc.Uses t ↔ (s.reads r).pc.Uses t) :
    Frame s (s.setRead r c) t := by
  refine { refl s t with reads := fun r' => ?_ }
  by_cases hr : r' = r
  · subst hr
    simpa [State.setRead] using h
  · simp [State.setRead, hr]

theorem setWrite {w : WriteId} {c : WriteCall} (h : ¬ c.pc.Uses t)
    (h' : ¬ (s.writes w).pc.Uses t) : Frame s (s.setWrite w c) t := by
  refine { refl s t with writes := fun w' hw' => ?_ }
  by_cases hw : w' = w
  · subst hw
    simp only [State.setWrite, Function.update_self] at hw'
    exact absurd hw' (not_or.mpr ⟨h', h⟩)
  · simp [State.setWrite, hw]

theorem listDelInit (hne : t ≠ t') : Frame s (s.listDelInit t') t :=
  { refl s t with
    requests := List.mem_erase_of_ne hne
    replies := List.mem_erase_of_ne hne }

theorem unlinkAborted (hne : t ≠ t') : Frame s (s.unlinkAborted t') t :=
  (listDelInit hne).trans' ((setTrans hne _).trans' (setClient hne _))

theorem woke (hw : Woke s s') : Frame s s' t := by
  cases hw with
  | nobody => exact refl s t
  | one r _ hr => exact setRead (by simp only [hr]; exact .rfl)

theorem handOut {rest : List TransId} (hr : s.uvfsRequests = t' :: rest) (hne : t ≠ t') :
    Frame s (s.handOut t' rest) t :=
  { refl s t with
    requests := by simp [State.handOut, hr, hne]
    replies := by simp [State.handOut, hne] }

/-- The loop of `uvfsd_read` touches the first request only. -/
theorem readLoop {r : ReadId} (hr : ¬ (s.reads r).pc.Uses t) (hl : ReadLoop s r s')
    (ht : s.uvfsRequests.head? ≠ some t) : Frame s s' t := by
  cases hl with
  | shutdown => exact setRead (iff_of_false id hr)
  | sleep =>
      have h : Frame s (s.setReadPc r .asleep) t := setRead (iff_of_false id hr)
      exact ⟨h.client, h.trans, h.asleep, h.requests, h.replies, h.log, h.reads, h.writes⟩
  | take t₀ rest s₁ _ hreq hw =>
      have hne : t ≠ t₀ := by
        rintro rfl
        exact ht (by rw [hreq]; rfl)
      have h₁ : Frame s s₁ t := (handOut hreq hne).trans' (woke hw)
      refine h₁.trans' ((setTrans hne _).trans' (setRead (iff_of_false (fun h => hne h.symm) ?_)))
      exact fun h => hr ((h₁.reads r).mp h)

end Frame

/-- **The frame of a step**: what it does not touch it leaves alone. -/
theorem Effect.frame (hf : Files s) (he : Effect s a s') (ht : ¬ Touches s a t) :
    Frame s s' t := by
  cases he with
  | releaseLast f _ _ hc =>
      have hl : ¬ s.Listed t := fun hl => ht ⟨hc, hl⟩
      obtain ⟨hreq, hrep⟩ := not_or.mp hl
      exact { Frame.refl s t with
        trans := drain_trans_of_not_listed
          (s := { s with opened := s.opened.erase f, uvfsUseCount := s.uvfsUseCount - 1 }) hl
        asleep := drain_asleep_of_not_listed
          (s := { s with opened := s.opened.erase f, uvfsUseCount := s.uvfsUseCount - 1 }) hl
        requests := iff_of_false List.not_mem_nil hreq
        replies := iff_of_false List.not_mem_nil hrep }
  | newTransaction junk old _ =>
      exact { Frame.refl s t with
        client := Function.update_of_ne ht _ _
        trans := Function.update_of_ne ht _ _
        asleep := Function.update_of_ne ht _ _ }
  | buildRequest t' req _ _ => exact (Frame.setTrans ht _).trans' (Frame.setClient ht _)
  | refused t' pick _ _ | checkAbort t' _ _ _ =>
      exact (Frame.setTrans ht _).trans' (Frame.setClientPc ht _)
  | enqueued t' pick s' _ _ hw =>
      have hne : t ≠ t' := ht
      have h₁ : Frame s (s.enqueue t') t :=
        { Frame.setClientPc hne .waiting with
          requests := by simp [State.enqueue, hne]
          log := by simp [State.enqueue, hne] }
      exact h₁.trans' (Frame.woke hw)
  | kill t' _ => exact (Frame.wakeUpIf ht _).trans' (Frame.setClient ht _)
  | waitSleep t' _ _ => exact Frame.setAsleep ht true
  | waitAnswered t' _ _ | waitSignal t' _ _ | checkLeave t' _ _ | waitUnused t' _ _ | leave t' _
  | kfree t' _ => exact Frame.setClientPc ht _
  | checkUnlink t' _ _ _ | withdraw t' _ => exact Frame.unlinkAborted ht
  | reuse t' junk _ => exact Frame.setTrans ht _
  | readEnter f count _ =>
      -- The number of the new call has not been used, so no call in progress is overwritten.
      have hnew : ¬ (s.reads s.nReads).pc.Uses t := fun h =>
        absurd (hf.read _ h.inProgress).1 (lt_irrefl _)
      refine { Frame.setRead (s := s) (iff_of_false ?_ hnew) with }
      dsimp only
      split_ifs <;> exact id
  | readSignal r _ =>
      refine Frame.setRead ?_
      split_ifs with hr
      · exact iff_of_false id (hr ▸ id)
      · exact .rfl
  | readSchedule r hr _ => exact Frame.setRead (iff_of_false id (hr ▸ id))
  | readLockFirst r pick s' hr hl => exact Frame.readLoop (hr ▸ id) hl ht
  | readLockAgain r pick s' hr _ hl =>
      have hnot : ¬ (s.reads r).pc.Uses t := by rcases hr with hr | hr <;> exact hr ▸ id
      have h := Frame.readLoop (s := { s with uvfsDriverQueue := s.uvfsDriverQueue.erase r })
        hnot hl ht
      exact ⟨h.client, h.trans, h.asleep, h.requests, h.replies, h.log, h.reads, h.writes⟩
  | readLockSignal r pick hr _ =>
      have hnot : ¬ (s.reads r).pc.Uses t := by rcases hr with hr | hr <;> exact hr ▸ id
      have h : Frame s (s.setReadPc r (.returned erestartsys)) t :=
        Frame.setRead (iff_of_false id hnot)
      exact ⟨h.client, h.trans, h.asleep, h.requests, h.replies, h.log, h.reads, h.writes⟩
  | readCopyShutdown r fault hr => exact Frame.setRead (iff_of_false id (hr ▸ id))
  | readPassOn r pick fault s₁ hr hw =>
      have h₁ : Frame s s₁ t := Frame.woke hw
      refine h₁.trans' (Frame.setRead (iff_of_false id fun h => ?_))
      exact absurd ((h₁.reads r).mp h) (hr ▸ id)
  | readCopy r fault t' hr => exact Frame.setRead (by rw [hr]; exact .rfl)
  | readDone r t' fault hr m hm =>
      have huses : (s.reads r).pc.Uses t' := by rw [hr]; rfl
      have hnot : ¬ (s.reads r).pc.Uses t := fun h => ht ⟨t, h, .inl rfl⟩
      have hne : t ≠ m := fun htm => ht ⟨t', huses, .inr (htm.trans hm.symm)⟩
      have hclear : Frame s (s.clearInUse m) t :=
        (Frame.setTrans hne _).trans' (Frame.wakeUpIf hne _)
      exact hclear.trans' (Frame.setRead (iff_of_false id hnot))
  | readReturn r t' fault hr => exact Frame.setRead (iff_of_false id (hr ▸ id))
  | writeEnter f count header answers _ _ =>
      have hnew : ¬ (s.writes s.nWrites).pc.Uses t := fun h =>
        absurd (hf.write _ h.inProgress).1 (lt_irrefl _)
      exact { Frame.setWrite (s := s) (checkHeader_not_uses f count answers header t) hnew with }
  | writeMiss w hw _ => exact Frame.setWrite id (hw ▸ id)
  | writeClaim w t' hw hfind =>
      have hne : t ≠ t' := by
        rintro rfl
        exact ht hfind
      exact (Frame.listDelInit hne).trans'
        ((Frame.setTrans hne _).trans' (Frame.setWrite (fun h => hne h.symm) (hw ▸ id)))
  | writeCopy w data fault t' hw m hm =>
      have huses : (s.writes w).pc.Uses t' := by rw [hw]; rfl
      have hnot : ¬ (s.writes w).pc.Uses t := fun h => ht ⟨t, h, .inl rfl⟩
      have hne : t ≠ t' := fun htt => ht ⟨t', huses, .inl htt⟩
      have hnem : t ≠ m := fun htm => ht ⟨t', huses, .inr (htm.trans hm.symm)⟩
      exact (Frame.setTrans hnem _).trans' (Frame.setWrite (fun h => hne h.symm) hnot)
  | writeDone w t' fault hw m hm =>
      have huses : (s.writes w).pc.Uses t' := by rw [hw]; rfl
      have hnot : ¬ (s.writes w).pc.Uses t := fun h => ht ⟨t, h, .inl rfl⟩
      have hne : t ≠ m := fun htm => ht ⟨t', huses, .inr (htm.trans hm.symm)⟩
      have hanswer : Frame s (s.answer m) t :=
        (Frame.setTrans hne _).trans' (Frame.setAsleep hne false)
      exact hanswer.trans' (Frame.setWrite id hnot)
  | ioctlShutdown f cmd mounted pick s' _ hw =>
      have h := Frame.woke (t := t) hw
      exact ⟨h.client, h.trans, h.asleep, h.requests, h.replies, h.log, h.reads, h.writes⟩
  | uvfsdOpen f _ | release f _ _ _ | ioctlOther f cmd mounted pick _ =>
      exact ⟨rfl, rfl, rfl, .rfl, .rfl, .rfl, fun _ => .rfl, fun _ _ => rfl⟩

/-! ## What a step does to a read -/

/-- What a step can do to a read, with the record it leaves. -/
inductive ReadMove (s : State) (r : ReadId) : Act → ReadCall → Prop
  | same (a : Act) : ReadMove s r a (s.reads r)
  | start (f : FileId) (count : ℕ) : r = s.nReads →
      ReadMove s r (.readEnter f count)
        ⟨f, if count < sizeofUvfsRequestU then .returned eio else .entered, false, none,
          fun _ => 0, 0, s.session, 0⟩
  | signal : (s.reads r).pc.InProgress →
      ReadMove s r (.readSignal r) { s.reads r with
        signalPending := true
        pc := if (s.reads r).pc = .asleep then .roused else (s.reads r).pc }
  | early (a : Act) (pc : ReadPc) : (s.reads r).pc.Early → pc.Early →
      ReadMove s r a { s.reads r with pc := pc }
  | take (pick : Option ReadId) (t : TransId) : (s.reads r).pc.Early → t ∈ s.uvfsRequests →
      ReadMove s r (.readLock r pick) { s.reads r with
        pc := .copying t, took := some t, size := (s.trans t).requestSize }
  | interrupted (pick : Option ReadId) : (s.reads r).pc.Early →
      ReadMove s r (.readLock r pick) { s.reads r with pc := .returned erestartsys }
  | passOn (pick : Option ReadId) (fault : Bool) : (s.reads r).pc = .shutdownCopied fault →
      ReadMove s r (.readPassOn r pick) { s.reads r with
        pc := .returned (if fault then eio else (requestLayout .shutdown).sum) }
  | copy (fault : Option ℕ) (t : TransId) : (s.reads r).pc = .copying t →
      ReadMove s r (.readCopy r fault) { s.reads r with
        pc := .copied t (fault.isSome || decide ((s.trans (s.owner t)).requestSize < 0))
        buf := (s.trans (s.owner t)).u
        len := fault.getD (s.trans (s.owner t)).requestSize.toNat }
  | done (t : TransId) (fault : Bool) : (s.reads r).pc = .copied t fault →
      ReadMove s r (.readDone r) { s.reads r with pc := .finished t fault }
  | returns (t : TransId) (fault : Bool) : (s.reads r).pc = .finished t fault →
      ReadMove s r (.readReturn r) { s.reads r with
        pc := .returned (if fault then eio else (s.trans (s.owner t)).requestSize) }

theorem ReadPc.Early.inProgress {pc : ReadPc} (h : pc.Early) : pc.InProgress := by
  cases pc with
  | returned v => exact h.elim
  | _ => trivial

namespace ReadMove

/-- One read is replaced. -/
theorem update {reads : ReadId → ReadCall} {r₀ : ReadId} {c : ReadCall}
    (hself : r = r₀ → ReadMove s r a c) (hother : ReadMove s r a (reads r)) :
    ReadMove s r a (Function.update reads r₀ c r) := by
  by_cases hr : r = r₀
  · subst hr
    rw [Function.update_self]
    exact hself rfl
  · rw [Function.update_of_ne hr]
    exact hother

/-- A wake-up moves a sleeper at most. -/
theorem woke {s₀ s₁ : State} (hw : Woke s₀ s₁) (hreads : s₀.reads = s.reads) :
    ReadMove s r a (s₁.reads r) := by
  obtain ⟨reads, rfl, hwoken⟩ := hw.exists_reads
  rw [hreads] at hwoken
  rcases hwoken r with hsame | ⟨hasleep, hwoken⟩
  · simp only [hsame]
    exact .same a
  · simp only [hwoken]
    exact .early a .woken (by rw [hasleep]; trivial) trivial

/-- The loop of `uvfsd_read`. -/
theorem readLoop {s₀ : State} {r₀ : ReadId} {pick : Option ReadId} (hl : ReadLoop s₀ r₀ s')
    (hreads : s₀.reads = s.reads) (hreq : s₀.uvfsRequests = s.uvfsRequests)
    (htrans : s₀.trans = s.trans) (hearly : (s.reads r₀).pc.Early)
    (hawake : (s.reads r₀).pc ≠ .asleep) :
    ReadMove s r (.readLock r₀ pick) (s'.reads r) := by
  have hother : ReadMove s r (.readLock r₀ pick) (s₀.reads r) := hreads ▸ .same _
  cases hl with
  | shutdown =>
      refine update (fun hr => ?_) hother
      subst hr
      rw [hreads]
      exact .early _ .shutdown hearly trivial
  | sleep =>
      refine update (fun hr => ?_) hother
      subst hr
      rw [hreads]
      exact .early _ .asleep hearly trivial
  | take t rest s₁ _ hhead hw =>
      have hkept : s₁.reads r₀ = s.reads r₀ := by
        rw [hw.reads_of_ne (show (s₀.reads r₀).pc ≠ .asleep by rw [hreads]; exact hawake)]
        exact congrFun hreads r₀
      have hwoken : ReadMove s r (.readLock r₀ pick) (s₁.reads r) := woke hw hreads
      have htrans₁ : s₁.trans = s.trans := by
        obtain ⟨reads, rfl, _⟩ := hw.exists_reads
        exact htrans
      refine update (fun hr => ?_) hwoken
      subst hr
      simp only [hkept, htrans₁]
      exact .take pick t hearly (by rw [← hreq, hhead]; exact List.mem_cons_self)

end ReadMove

/-- **What a step does to a read.** -/
theorem Effect.read_move (he : Effect s a s') (r : ReadId) : ReadMove s r a (s'.reads r) := by
  cases he with
  | enqueued t pick s' _ _ hw => exact .woke hw rfl
  | readEnter f count _ => exact .update (fun hr => .start f count hr) (.same _)
  | readSignal r₀ hp =>
      refine .update (fun hr => ?_) (.same _)
      subst hr
      exact .signal hp
  | readSchedule r₀ hr₀ _ =>
      refine .update (fun hr => ?_) (.same _)
      subst hr
      exact .early _ .roused (by rw [hr₀]; trivial) trivial
  | readLockFirst r₀ pick s' hr₀ hl =>
      exact .readLoop hl rfl rfl rfl (by rw [hr₀]; trivial) (by rw [hr₀]; simp)
  | readLockAgain r₀ pick s' hr₀ _ hl =>
      refine .readLoop hl rfl rfl rfl ?_ ?_ <;> rcases hr₀ with hr₀ | hr₀ <;>
        simp [hr₀, ReadPc.Early]
  | readLockSignal r₀ pick hr₀ _ =>
      refine .update (fun hr => ?_) (.same _)
      subst hr
      exact .interrupted pick (by rcases hr₀ with hr₀ | hr₀ <;> rw [hr₀] <;> trivial)
  | readCopyShutdown r₀ fault hr₀ =>
      refine .update (fun hr => ?_) (.same _)
      subst hr
      exact .early _ (.shutdownCopied fault) (by rw [hr₀]; trivial) trivial
  | readPassOn r₀ pick fault s₁ hr₀ hw =>
      refine .update (fun hr => ?_) (.woke hw rfl)
      subst hr
      rw [hw.reads_of_ne (by rw [hr₀]; simp)]
      exact .passOn pick fault hr₀
  | readCopy r₀ fault t hr₀ m hm =>
      refine .update (fun hr => ?_) (.same _)
      subst hr hm
      exact .copy fault t hr₀
  | readDone r₀ t fault hr₀ =>
      refine .update (fun hr => ?_) (.same _)
      subst hr
      exact .done t fault hr₀
  | readReturn r₀ t fault hr₀ m hm =>
      refine .update (fun hr => ?_) (.same _)
      subst hr hm
      exact .returns t fault hr₀
  | ioctlShutdown f cmd mounted pick s' _ hw => exact .woke hw rfl
  | _ => exact .same _

/-- What a step does to a read that had started: it stays in its session, keeps what it took, takes
at most a request, and does not change once it has returned. -/
structure ReadCall.Kept (s : State) (c c' : ReadCall) : Prop where
  session : c'.session = c.session
  keeps : ∀ t, c.took = some t → c'.took = some t
  took : ∀ t, c'.took = some t → c.took = some t ∨ t ∈ s.uvfsRequests ∧ c.pc.InProgress
  returned : ¬ c.pc.InProgress → c' = c
  inProgress : c'.pc.InProgress → c.pc.InProgress

/-- A read in progress moves. -/
theorem ReadCall.Kept.move {c c' : ReadCall} (hp : c.pc.InProgress) (hs : c'.session = c.session)
    (ht : c'.took = c.took) : Kept s c c' :=
  ⟨hs, fun _ h => ht.trans h, fun _ h => .inl (ht.symm.trans h), fun hn => absurd hp hn,
    fun _ => hp⟩

/-- A step keeps every read or starts a new one. -/
theorem Effect.read_cases (hc : Calls s) (he : Effect s a s') (r : ReadId) :
    (s.reads r).Kept s (s'.reads r) ∨
      (r = s.nReads ∧ (s'.reads r).took = none ∧ (s'.reads r).session = s.session ∧
        s'.session = s.session) := by
  have hmove := he.read_move r
  generalize s'.reads r = c' at hmove
  cases hmove with
  | same => exact .inl ⟨rfl, fun _ h => h, fun _ h => .inl h, fun _ => rfl, id⟩
  | start f count hr =>
      cases he
      exact .inr ⟨hr, rfl, rfl, rfl⟩
  | signal hp => exact .inl (.move hp rfl rfl)
  | early _ pc hp _ => exact .inl (.move hp.inProgress rfl rfl)
  | take pick t hp ht =>
      have hnone := hc.early r hp
      exact .inl ⟨rfl, fun t' ht' => absurd (hnone.symm.trans ht') (by simp),
        fun t' ht' => .inr ⟨Option.some.inj ht' ▸ ht, hp.inProgress⟩,
        fun hn => absurd hp.inProgress hn, fun _ => hp.inProgress⟩
  | interrupted pick hp => exact .inl (.move hp.inProgress rfl rfl)
  | passOn pick fault hp => exact .inl (.move (by rw [hp]; trivial) rfl rfl)
  | copy fault t hp => exact .inl (.move (by rw [hp]; trivial) rfl rfl)
  | done t fault hp => exact .inl (.move (by rw [hp]; trivial) rfl rfl)
  | returns t fault hp => exact .inl (.move (by rw [hp]; trivial) rfl rfl)

/-! ## What a step does to a write -/

theorem checkHeader_claimed (f : FileId) (count : ℕ) (answers : Option ReadId)
    (header : Option Header) : (checkHeader f count answers header).claimed = none := by
  cases header with
  | none => rfl
  | some h =>
      simp only [checkHeader]
      split_ifs <;> rfl

/-- What a step does to a write: nothing, the claim, a move after it, or the start. -/
theorem Effect.write_cases (he : Effect s a s') (w : WriteId) :
    s'.writes w = s.writes w ∨
    (∃ pc, pc ≠ .lookup ∧ (∀ t, pc.Uses t → (s.writes w).pc.Uses t) ∧
      s'.writes w = { s.writes w with pc := pc }) ∨
    (∃ t, a = .writeLookup w ∧ (s.writes w).pc = .lookup ∧
      s.findReply (s.writes w).serial = some t ∧
      s'.writes w = { s.writes w with pc := .copying t, claimed := some t }) ∨
    (w = s.nWrites ∧ ∃ f count header answers, a = .writeEnter f count header answers ∧
      s'.writes w = checkHeader f count answers header) := by
  have hset : ∀ (s₁ : State) (w₀ : WriteId) (pc : WritePc), s₁.writes = s.writes → pc ≠ .lookup →
      (∀ t, pc.Uses t → (s.writes w₀).pc.Uses t) →
      (s₁.setWritePc w₀ pc).writes w = s.writes w ∨
      (∃ pc', pc' ≠ .lookup ∧ (∀ t, pc'.Uses t → (s.writes w).pc.Uses t) ∧
        (s₁.setWritePc w₀ pc).writes w = { s.writes w with pc := pc' }) := by
    intro s₁ w₀ pc hs₁ hpc huses
    by_cases hw : w = w₀
    · subst hw
      exact .inr ⟨pc, hpc, huses, by simp [State.setWritePc, State.setWrite, hs₁]⟩
    · exact .inl (by simp [State.setWritePc, State.setWrite, hs₁, hw])
  by_cases ha : a.Steady
  · exact .inl (congrFun (he.steady ha).writes w)
  cases he with
  | writeEnter f count header answers _ _ =>
      by_cases hw : w = s.nWrites
      · exact .inr (.inr (.inr ⟨hw, f, count, header, answers, rfl, by simp [hw]⟩))
      · exact .inl (by simp [hw])
  | writeMiss w₀ _ _ =>
      exact (hset s w₀ (.returned einval) rfl (by simp) fun _ h => h.elim).imp_right .inl
  | writeClaim w₀ t hp hfind =>
      by_cases hw : w = w₀
      · subst hw
        refine .inr (.inr (.inl ⟨t, rfl, hp, hfind, ?_⟩))
        simp [State.beginWriteCopy, State.setWrite]
      · exact .inl (by simp [State.beginWriteCopy, State.setWrite, State.setTrans,
          State.listDelInit, hw])
  | writeCopy w₀ data fault t hp m _ =>
      refine (hset (s.setTrans m _) w₀ (.copied t fault.isSome) rfl (by simp) ?_).imp_right .inl
      rw [hp]
      exact fun _ h => h
  | writeDone w₀ t fault _ m _ =>
      exact (hset (s.answer m) w₀ (.returned _) rfl (by simp) fun _ h => h.elim).imp_right .inl
  | release | releaseLast | newTransaction | readEnter => exact .inl rfl
  | _ => exact absurd trivial ha

end Uvfs.Driver
