import Uvfs.Driver.Queues

/-!
# Which call works on which transaction

* `Calls` : a read that works on a transaction took it from `Uvfs_requests`, and no other read did;
  a write that works on a transaction has unlinked it, and no other write did.
* `Reachable.calls` has the run.

Together with the board this says that a transaction in `Uvfs_requests` is used by nobody, and one
in `Uvfs_replies` at most by the read that took it.
-/

namespace Uvfs.Driver

open State Transition

variable {s s' : State} {a : Act} {G : State → Act → Prop}

/-- The transaction a read works on, up to its return. -/
def ReadPc.trans? : ReadPc → Option TransId
  | .copying t | .copied t _ | .finished t _ => some t
  | _ => none

/-- The read has not taken a request and may still do so, or delivers the shutdown message. -/
def ReadPc.Early : ReadPc → Prop
  | .entered | .asleep | .woken | .roused | .shutdown | .shutdownCopied _ => True
  | _ => False

theorem ReadPc.Uses.trans? {t : TransId} {pc : ReadPc} (h : pc.Uses t) : pc.trans? = some t := by
  cases pc with
  | copying t' | copied t' fault => exact congrArg some h
  | _ => exact h.elim

theorem ReadPc.Uses.inProgress {t : TransId} {pc : ReadPc} (h : pc.Uses t) : pc.InProgress := by
  cases pc with
  | returned v => exact h.elim
  | _ => trivial

theorem WritePc.Uses.inProgress {t : TransId} {pc : WritePc} (h : pc.Uses t) : pc.InProgress := by
  cases pc with
  | returned v => exact h.elim
  | _ => trivial

/-- Who works on what. -/
structure Calls (s : State) : Prop where
  took : ∀ r t, (s.reads r).pc.trans? = some t → (s.reads r).took = some t
  took_log : ∀ r t, (s.reads r).took = some t → t ∈ s.handOutLog
  took_inj : ∀ r r' t, (s.reads r).took = some t → (s.reads r').took = some t → r = r'
  early : ∀ r, (s.reads r).pc.Early → (s.reads r).took = none
  write_log : ∀ w t, (s.writes w).pc.Uses t → t ∈ s.handOutLog ∧ t ∉ s.uvfsReplies
  write_inj : ∀ w w' t, (s.writes w).pc.Uses t → (s.writes w').pc.Uses t → w = w'

namespace Calls

theorem init : Calls State.init where
  took _ _ h := by cases h
  took_log _ _ h := by cases h
  took_inj _ _ _ h := by cases h
  early _ h := h.elim
  write_log _ _ h := h.elim
  write_inj _ _ _ h := h.elim

theorem setTrans (h : Calls s) (t : TransId) (tr : Transaction) : Calls (s.setTrans t tr) :=
  ⟨h.took, h.took_log, h.took_inj, h.early, h.write_log, h.write_inj⟩

/-- A read call may move as long as it keeps what it took. -/
theorem setRead (h : Calls s) {r : ReadId} {c : ReadCall} (ht : c.took = (s.reads r).took)
    (hc : ∀ t, c.pc.trans? = some t → c.took = some t)
    (he : c.pc.Early → (s.reads r).pc.Early) : Calls (s.setRead r c) := by
  have htook : ∀ r', ((s.setRead r c).reads r').took = (s.reads r').took := by
    intro r'
    by_cases hr : r' = r
    · subst hr
      simp [State.setRead, ht]
    · simp [State.setRead, hr]
  refine ⟨fun r' t hr' => ?_, fun r' t hr' => ?_, fun r₁ r₂ t h₁ h₂ => ?_, fun r' hr' => ?_,
    h.write_log, h.write_inj⟩
  · by_cases hr : r' = r
    · subst hr
      simp only [State.setRead, Function.update_self] at hr' ⊢
      exact hc t hr'
    · simp only [State.setRead, Function.update_of_ne hr] at hr' ⊢
      exact h.took r' t hr'
  · exact h.took_log r' t (htook r' ▸ hr')
  · exact h.took_inj r₁ r₂ t (htook r₁ ▸ h₁) (htook r₂ ▸ h₂)
  · rw [htook r']
    refine h.early r' ?_
    by_cases hr : r' = r
    · subst hr
      simp only [State.setRead, Function.update_self] at hr'
      exact he hr'
    · simpa only [State.setRead, Function.update_of_ne hr] using hr'

/-- Moving a read call that works on nothing afterwards. -/
theorem setReadPc (h : Calls s) {r : ReadId} {pc : ReadPc}
    (hc : pc.trans? = none ∨ pc.trans? = (s.reads r).pc.trans?)
    (he : pc.Early → (s.reads r).pc.Early) : Calls (s.setReadPc r pc) := by
  refine h.setRead rfl (fun t ht => ?_) he
  rcases hc with hc | hc
  · rw [hc] at ht
    cases ht
  · exact h.took r t (hc ▸ ht)

/-- A write call may move as long as it works on nothing new. -/
theorem setWrite (h : Calls s) {w : WriteId} {c : WriteCall}
    (hc : ∀ t, c.pc.Uses t → (s.writes w).pc.Uses t) : Calls (s.setWrite w c) := by
  have huses : ∀ w' t, ((s.setWrite w c).writes w').pc.Uses t → (s.writes w').pc.Uses t := by
    intro w' t hw'
    by_cases hw : w' = w
    · subst hw
      simp only [State.setWrite, Function.update_self] at hw'
      exact hc t hw'
    · simpa only [State.setWrite, Function.update_of_ne hw] using hw'
  exact ⟨h.took, h.took_log, h.took_inj, h.early, fun w' t hw' => h.write_log w' t (huses w' t hw'),
    fun w₁ w₂ t h₁ h₂ => h.write_inj w₁ w₂ t (huses w₁ t h₁) (huses w₂ t h₂)⟩

theorem woke (h : Calls s) (hw : Woke s s') : Calls s' := by
  cases hw with
  | nobody => exact h
  | one r _ hr => exact h.setReadPc (.inl rfl) fun _ => by rw [hr]; trivial

/-- `list_del_init` takes nothing from a call. -/
theorem listDelInit (h : Calls s) (t : TransId) : Calls (s.listDelInit t) :=
  ⟨h.took, h.took_log, h.took_inj, h.early,
    fun w t' hw => ⟨(h.write_log w t' hw).1, fun hm =>
      (h.write_log w t' hw).2 (List.mem_of_mem_erase hm)⟩,
    h.write_inj⟩

/-- Handing out a transaction that has not been handed out. -/
theorem handOut (h : Calls s) {t : TransId} (rest : List TransId) (ht : t ∉ s.handOutLog) :
    Calls (s.handOut t rest) := by
  refine ⟨h.took, fun r t' hr => List.mem_append_left _ (h.took_log r t' hr), h.took_inj, h.early,
    fun w t' hw => ?_, h.write_inj⟩
  obtain ⟨hlog, hrep⟩ := h.write_log w t' hw
  refine ⟨List.mem_append_left _ hlog, fun hm => ?_⟩
  rcases List.mem_append.mp hm with hm | hm
  · exact hrep hm
  · rw [List.mem_singleton] at hm
    exact ht (hm ▸ hlog)

/-- A read takes a transaction that has been handed out and that nobody took. -/
theorem beginReadCopy (h : Calls s) (r : ReadId) {t : TransId} (ht : t ∈ s.handOutLog)
    (hnew : ∀ r, (s.reads r).took ≠ some t) : Calls (s.beginReadCopy r t) := by
  have htook : ∀ r' t', ((s.beginReadCopy r t).reads r').took = some t' →
      r' = r ∧ t' = t ∨ (s.reads r').took = some t' := by
    intro r' t' hr'
    by_cases hr : r' = r
    · subst hr
      simp only [State.beginReadCopy, State.setRead, State.setTrans, Function.update_self] at hr'
      exact .inl ⟨rfl, (Option.some.inj hr').symm⟩
    · simp only [State.beginReadCopy, State.setRead, State.setTrans,
        Function.update_of_ne hr] at hr'
      exact .inr hr'
  refine ⟨fun r' t' hr' => ?_, fun r' t' hr' => ?_, fun r₁ r₂ t' h₁ h₂ => ?_, fun r' hr' => ?_,
    h.write_log, h.write_inj⟩
  · by_cases hr : r' = r
    · subst hr
      simp only [State.beginReadCopy, State.setRead, State.setTrans, Function.update_self] at hr' ⊢
      exact hr'
    · simp only [State.beginReadCopy, State.setRead, State.setTrans,
        Function.update_of_ne hr] at hr' ⊢
      exact h.took r' t' hr'
  · rcases htook r' t' hr' with ⟨_, rfl⟩ | hold
    · exact ht
    · exact h.took_log r' t' hold
  · rcases htook r₁ t' h₁ with ⟨hr₁, ht₁⟩ | h₁ <;> rcases htook r₂ t' h₂ with ⟨hr₂, ht₂⟩ | h₂
    · exact hr₁.trans hr₂.symm
    · exact absurd (ht₁ ▸ h₂) (hnew r₂)
    · exact absurd (ht₂ ▸ h₁) (hnew r₁)
    · exact h.took_inj r₁ r₂ t' h₁ h₂
  · by_cases hr : r' = r
    · subst hr
      simp [State.beginReadCopy, State.setRead, ReadPc.Early] at hr'
    · simp only [State.beginReadCopy, State.setRead, State.setTrans,
        Function.update_of_ne hr] at hr' ⊢
      exact h.early r' hr'

/-- A write takes a transaction from `Uvfs_replies`. -/
theorem beginWriteCopy (h : Calls s) (w : WriteId) {t : TransId} (ht : t ∈ s.handOutLog)
    (hrep : t ∈ s.uvfsReplies) (hnd : s.uvfsReplies.Nodup) : Calls (s.beginWriteCopy w t) := by
  have huses : ∀ w' t', ((s.beginWriteCopy w t).writes w').pc.Uses t' →
      w' = w ∧ t' = t ∨ t' ≠ t ∧ (s.writes w').pc.Uses t' := by
    intro w' t' hw'
    by_cases hw : w' = w
    · subst hw
      simp only [State.beginWriteCopy, State.setWrite, State.setTrans, Function.update_self] at hw'
      exact .inl ⟨rfl, Eq.symm hw'⟩
    · simp only [State.beginWriteCopy, State.setWrite, State.setTrans,
        Function.update_of_ne hw] at hw'
      exact .inr ⟨fun htt => (h.write_log w' t' hw').2 (htt ▸ hrep), hw'⟩
  have h₁ := h.listDelInit t
  refine ⟨h₁.took, h₁.took_log, h₁.took_inj, h₁.early, fun w' t' hw' => ?_,
    fun w₁ w₂ t' h₁ h₂ => ?_⟩
  · rcases huses w' t' hw' with ⟨_, rfl⟩ | ⟨_, hold⟩
    · exact ⟨ht, hnd.not_mem_erase⟩
    · exact h₁.write_log w' t' hold
  · rcases huses w₁ t' h₁ with ⟨hw₁, ht₁⟩ | ⟨hne₁, h₁⟩ <;>
      rcases huses w₂ t' h₂ with ⟨hw₂, ht₂⟩ | ⟨hne₂, h₂⟩
    · exact hw₁.trans hw₂.symm
    · exact absurd ht₁ hne₂
    · exact absurd ht₂ hne₁
    · exact h.write_inj w₁ w₂ t' h₁ h₂

/-- The loop of `uvfsd_read` takes the first request, which nobody took before. -/
theorem readLoop (h : Calls s) {b : Board TransId} (hb : Shows s b) {r : ReadId}
    (he : (s.reads r).pc.Early) (hl : ReadLoop s r s') : Calls s' := by
  cases hl with
  | shutdown => exact h.setReadPc (.inl rfl) fun _ => he
  | sleep =>
      have h₁ : Calls (s.setReadPc r .asleep) := h.setReadPc (.inl rfl) fun _ => he
      exact ⟨h₁.took, h₁.took_log, h₁.took_inj, h₁.early, h₁.write_log, h₁.write_inj⟩
  | take t rest s₁ _ hr hw =>
      have hpend : t ∈ b.pending := by rw [← hb.pending, hr]; exact List.mem_cons_self
      have hnew : t ∉ s.handOutLog := hb.given ▸ b.not_mem_given hpend
      have h₁ : Calls s₁ := (h.handOut rest hnew).woke hw
      obtain ⟨reads, rfl, hreads⟩ := hw.exists_reads
      refine h₁.beginReadCopy r (List.mem_append_right _ (List.mem_singleton_self t))
        fun r' hr' => ?_
      refine hnew (h.took_log r' t ?_)
      rcases hreads r' with hsame | ⟨_, hwoken⟩
      · exact hsame ▸ hr'
      · simp only [hwoken] at hr'
        exact hr'

/-- Every step keeps who works on what. -/
theorem step (h : Calls s) {b : Board TransId} (hb : Shows s b) (he : Effect s a s') :
    Calls s' := by
  cases he with
  | releaseLast f _ _ _ =>
      exact ⟨h.took, h.took_log, h.took_inj, h.early,
        fun w t hw => ⟨(h.write_log w t hw).1, List.not_mem_nil⟩, h.write_inj⟩
  | enqueued t pick s' _ _ hw =>
      exact Calls.woke (s := s.enqueue t)
        ⟨h.took, h.took_log, h.took_inj, h.early, h.write_log, h.write_inj⟩ hw
  | checkUnlink t _ _ _ | withdraw t _ =>
      have h₁ := h.listDelInit t
      exact ⟨h₁.took, h₁.took_log, h₁.took_inj, h₁.early, h₁.write_log, h₁.write_inj⟩
  | readEnter f count _ =>
      have htook : ∀ r t, (Function.update s.reads s.nReads
          ⟨f, if count < sizeofUvfsRequestU then .returned eio else .entered, false, none,
            fun _ => 0, 0, s.session, 0⟩ r).took = some t → (s.reads r).took = some t := by
        intro r t hr
        by_cases hrr : r = s.nReads
        · subst hrr
          simp at hr
        · simpa [hrr] using hr
      refine ⟨fun r t hr => ?_, fun r t hr => h.took_log r t (htook r t hr),
        fun r₁ r₂ t h₁ h₂ => h.took_inj r₁ r₂ t (htook r₁ t h₁) (htook r₂ t h₂), fun r hr => ?_,
        h.write_log, h.write_inj⟩
      · by_cases hrr : r = s.nReads
        · subst hrr
          simp only [Function.update_self] at hr
          split_ifs at hr <;> cases hr
        · simp only [Function.update_of_ne hrr] at hr ⊢
          exact h.took r t hr
      · by_cases hrr : r = s.nReads
        · subst hrr
          simp
        · simp only [Function.update_of_ne hrr] at hr ⊢
          exact h.early r hr
  | readSignal r _ =>
      refine h.setRead rfl (fun t ht => h.took r t ?_) fun he => ?_
      · split_ifs at ht
        · cases ht
        · exact ht
      · split_ifs at he with hasleep
        · rw [hasleep]
          trivial
        · exact he
  | readSchedule r hr _ => exact h.setReadPc (.inl rfl) fun _ => by rw [hr]; trivial
  | readLockFirst r pick s' hr hl => exact h.readLoop hb (by rw [hr]; trivial) hl
  | readLockAgain r pick s' hr _ hl =>
      exact Calls.readLoop (s := { s with uvfsDriverQueue := s.uvfsDriverQueue.erase r })
        ⟨h.took, h.took_log, h.took_inj, h.early, h.write_log, h.write_inj⟩
        ⟨hb.posted, hb.pending, hb.given, hb.outstanding⟩
        (by rcases hr with hr | hr <;> simp only [hr] <;> trivial) hl
  | readLockSignal r pick _ _ =>
      exact Calls.setReadPc (s := { s with uvfsDriverQueue := s.uvfsDriverQueue.erase r })
        ⟨h.took, h.took_log, h.took_inj, h.early, h.write_log, h.write_inj⟩ (.inl rfl)
        fun he => he.elim
  | readCopyShutdown r fault hr => exact h.setReadPc (.inl rfl) fun _ => by rw [hr]; trivial
  | readPassOn r pick fault s₁ _ hw => exact (h.woke hw).setReadPc (.inl rfl) fun he => he.elim
  | readCopy r fault t hr =>
      refine h.setRead rfl (fun t' ht' => h.took r t' ?_) fun he => he.elim
      rw [hr]
      exact ht'
  | readDone r t fault hr m _ =>
      have hp : ReadPc.trans? (.finished t fault) = (s.reads r).pc.trans? := by rw [hr]; rfl
      exact Calls.setReadPc (s := s.clearInUse m)
        ⟨h.took, h.took_log, h.took_inj, h.early, h.write_log, h.write_inj⟩ (.inr hp)
        fun he => he.elim
  | readReturn r t fault _ => exact h.setReadPc (.inl rfl) fun he => he.elim
  | writeEnter f count header answers _ _ =>
      have huses : ∀ w t, (Function.update s.writes s.nWrites
          (checkHeader f count answers header) w).pc.Uses t → (s.writes w).pc.Uses t := by
        intro w t hw
        by_cases hww : w = s.nWrites
        · subst hww
          rw [Function.update_self] at hw
          exact absurd hw (checkHeader_not_uses _ _ _ _ _)
        · rwa [Function.update_of_ne hww] at hw
      exact ⟨h.took, h.took_log, h.took_inj, h.early, fun w t hw => h.write_log w t (huses w t hw),
        fun w₁ w₂ t h₁ h₂ => h.write_inj w₁ w₂ t (huses w₁ t h₁) (huses w₂ t h₂)⟩
  | writeMiss w _ _ => exact h.setWrite fun t ht => ht.elim
  | writeClaim w t _ hfind =>
      have hmem : t ∈ s.uvfsReplies := List.mem_of_find?_eq_some hfind
      have hlog : t ∈ s.handOutLog := by
        rw [hb.given]
        exact b.outstanding_sublist.subset (hb.outstanding ▸ hmem)
      exact h.beginWriteCopy w hlog hmem
        (hb.outstanding ▸ b.given_nodup.sublist b.outstanding_sublist)
  | writeCopy w data fault t hw m _ =>
      refine (h.setTrans m _).setWrite fun t' ht' => ?_
      simp only [State.setTrans, hw]
      exact ht'
  | writeDone w t fault _ m _ =>
      exact Calls.setWrite (s := s.answer m)
        ⟨h.took, h.took_log, h.took_inj, h.early, h.write_log, h.write_inj⟩ fun t' ht' => ht'.elim
  | ioctlShutdown f cmd mounted pick s' _ hw =>
      exact Calls.woke (s := { s with shuttingDown := true })
        ⟨h.took, h.took_log, h.took_inj, h.early, h.write_log, h.write_inj⟩ hw
  | _ => exact ⟨h.took, h.took_log, h.took_inj, h.early, h.write_log, h.write_inj⟩

end Calls

/-- In every reachable state each transaction has at most one read and one write working on it. -/
theorem Reachable.calls (h : Reachable G s) : Calls s := by
  refine Reach.invariant_of (I := fun s => ∃ b, Shows s b) ?_ Calls.init ?_ h
  · intro s hs
    obtain ⟨b, hb, _⟩ := Reachable.board hs
    exact ⟨b, hb⟩
  · rintro s a s' ⟨b, hb⟩ hc _ hs
    exact hc.step hb (step_effect hs)

end Uvfs.Driver
