import Uvfs.Driver.Replies

/-!
# What a call that fails has done

Both server calls change the queues before their unlocked user copy and look at its result after it.
A read that has taken a request, or a write that has claimed a transaction, may therefore still
return an error.

* `Act.OfRead`, `Act.OfWrite` : the steps of one call.
* `LeavesRequests`, `LeavesReplies` : what the steps of a failing call should not have done.
* `CopiesOut`, `CopiesIn` : the user copy of the call succeeds; for the read this includes that the
  size it finds in the transaction, at the copy and again after the unlock, is not negative.
* `failed_calls_lose_a_request_and_a_reply` : a fault in either copy loses the message.
* `errors_lose_nothing_iff` : in every run, a call that returns an error has lost nothing exactly
  when its copy did not go wrong.
-/

namespace Uvfs.Driver

open State Transition

variable {s s' : State} {a : Act} {t : TransId} {r : ReadId} {w : WriteId}

/-! ## The steps of a call -/

/-- The step belongs to the read `r`. -/
def Act.OfRead (s : State) (r : ReadId) : Act → Prop
  | .readEnter _ _ => s.nReads = r
  | .readSchedule r' | .readLock r' _ | .readCopyShutdown r' _ | .readPassOn r' _ | .readCopy r' _
  | .readDone r' | .readReturn r' => r' = r
  | _ => False

/-- The step belongs to the write `w`. -/
def Act.OfWrite (s : State) (w : WriteId) : Act → Prop
  | .writeEnter _ _ _ _ => s.nWrites = w
  | .writeLookup w' | .writeCopy w' _ _ | .writeDone w' => w' = w
  | _ => False

/-- If the step belongs to `r`, every request that was in `Uvfs_requests` still is. -/
def LeavesRequests (r : ReadId) (k : Taken State Act) : Prop :=
  k.act.OfRead k.pre r → k.pre.uvfsRequests ⊆ k.post.uvfsRequests

/-- If the step belongs to `w`, it takes nothing off `Uvfs_replies` and leaves the union and the
`answered` flag of every transaction. -/
def LeavesReplies (w : WriteId) (k : Taken State Act) : Prop :=
  k.act.OfWrite k.pre w → k.pre.uvfsReplies ⊆ k.post.uvfsReplies ∧
    ∀ t, (k.post.trans t).u = (k.pre.trans t).u ∧
      (k.post.trans t).answered = (k.pre.trans t).answered

/-- If the step is the copy of `r`, it does not fault and the size in the memory of the request is
not negative; if it reads the size again for the return value, it is not negative then. -/
def CopiesOut (r : ReadId) (k : Taken State Act) : Prop :=
  match k.act with
  | .readCopy r' fault => r' = r → fault = none ∧
      ∀ t, (k.pre.reads r).pc = .copying t → 0 ≤ (k.pre.trans (k.pre.owner t)).requestSize
  | .readReturn r' => r' = r → ∀ t, (k.pre.reads r).pc = .finished t false →
      0 ≤ (k.pre.trans (k.pre.owner t)).requestSize
  | _ => True

/-- If the step is the copy of `w`, it does not fault. -/
def CopiesIn (w : WriteId) (k : Taken State Act) : Prop :=
  match k.act with
  | .writeCopy w' _ fault => w' = w → fault = none
  | _ => True

/-! ## A fault after the commitment -/

/-- A read takes the only request, its copy faults after eight bytes, and it returns `-EIO`.  A
write claims the only transaction that waits for a reply, its copy faults after four bytes, and it
returns `-EIO` too. -/
theorem failed_calls_lose_a_request_and_a_reply :
    (∃ tr s, Trace step anyStep State.init tr s ∧ (s.reads 0).pc = .returned eio ∧
      ¬ ∀ k ∈ tr, LeavesRequests 0 k) ∧
    ∃ tr s, Trace step anyStep State.init tr s ∧ (s.writes 0).pc = .returned eio ∧
      ¬ ∀ k ∈ tr, LeavesReplies 0 k := by
  constructor
  · obtain ⟨s, hs, hreq, hrun⟩ := Reach.of_check step anyStep State.init
      [.uvfsdOpen 0, .newTransaction .zeroed none, .buildRequest 0 (getattrRequest 0),
        .makeRequest 0 none, .readEnter 0 sizeofUvfsRequestU]
      (fun s => 0 ∈ s.uvfsRequests ∧ (step s (.readLock 0 none)).any (fun s₁ : State =>
        decide (0 ∉ s₁.uvfsRequests) && (run step (fun s a => decide (anyStep s a)) s₁
          [.readCopy 0 (some 8), .readDone 0, .readReturn 0]).any
            (fun s₂ : State => decide ((s₂.reads 0).pc = .returned eio))) = true)
      (by decide +kernel)
    obtain ⟨s₁, hs₁, hrun⟩ := (Option.any_eq_true _ _).mp hrun
    obtain ⟨hgone, hrun⟩ := Bool.and_eq_true_iff.mp hrun
    obtain ⟨s₂, hs₂, hret⟩ := Reach.of_check step anyStep s₁ _
      (fun s => (s.reads 0).pc = .returned eio) hrun
    obtain ⟨tr, htr⟩ := Reach.exists_trace hs
    obtain ⟨tr', htr'⟩ := Reach.exists_trace hs₂
    refine ⟨_, s₂, (htr.cons trivial hs₁).append htr', hret, fun h => ?_⟩
    exact of_decide_eq_true hgone
      (h ⟨s, .readLock 0 none, s₁⟩ (List.mem_append_right _ List.mem_cons_self) rfl hreq)
  · obtain ⟨s, hs, hrep, hrun⟩ := Reach.of_check step anyStep State.init
      [.uvfsdOpen 0, .newTransaction .zeroed none, .buildRequest 0 (getattrRequest 0),
        .makeRequest 0 none, .readEnter 0 sizeofUvfsRequestU, .readLock 0 none, .readCopy 0 none,
        .readDone 0, .readReturn 0, .writeEnter 0 16 (some ⟨0, 16⟩) (some 0)]
      (fun s => 0 ∈ s.uvfsReplies ∧ (step s (.writeLookup 0)).any (fun s₁ : State =>
        decide (0 ∉ s₁.uvfsReplies) && (run step (fun s a => decide (anyStep s a)) s₁
          [.writeCopy 0 (fun _ => 0) (some 4), .writeDone 0]).any
            (fun s₂ : State => decide ((s₂.writes 0).pc = .returned eio))) = true)
      (by decide +kernel)
    obtain ⟨s₁, hs₁, hrun⟩ := (Option.any_eq_true _ _).mp hrun
    obtain ⟨hgone, hrun⟩ := Bool.and_eq_true_iff.mp hrun
    obtain ⟨s₂, hs₂, hret⟩ := Reach.of_check step anyStep s₁ _
      (fun s => (s.writes 0).pc = .returned eio) hrun
    obtain ⟨tr, htr⟩ := Reach.exists_trace hs
    obtain ⟨tr', htr'⟩ := Reach.exists_trace hs₂
    refine ⟨_, s₂, (htr.cons trivial hs₁).append htr', hret, fun h => ?_⟩
    exact of_decide_eq_true hgone
      ((h ⟨s, .writeLookup 0, s₁⟩ (List.mem_append_right _ List.mem_cons_self) rfl).1 hrep)

/-! ## The read -/

/-- The read is going to return an error, or has done so. -/
def ReadPc.Failed : ReadPc → Prop
  | .copied _ fault | .finished _ fault => fault = true
  | .returned v => v < 0
  | _ => False

/-- A step may do one of three things to a read: leave it without a request, give it one, or go on
with the one it has. -/
def ReadOutcome (s : State) (a : Act) (s' : State) (r : ReadId) : Prop :=
  ((s.reads r).took = none ∧ (s'.reads r).took = none ∧ LeavesRequests r ⟨s, a, s'⟩ ∧
    CopiesOut r ⟨s, a, s'⟩) ∨
  ((s.reads r).took = none ∧ (s'.reads r).took ≠ none ∧ ¬ LeavesRequests r ⟨s, a, s'⟩ ∧
    CopiesOut r ⟨s, a, s'⟩ ∧ ¬ (s'.reads r).pc.Failed) ∨
  ((s.reads r).took ≠ none ∧ (s'.reads r).took ≠ none ∧
    ((s'.reads r).pc.Failed ↔ (s.reads r).pc.Failed ∨ ¬ CopiesOut r ⟨s, a, s'⟩))

namespace ReadOutcome

/-- A read that keeps what it took. -/
theorem of_kept (htook : (s'.reads r).took = (s.reads r).took)
    (hleaves : (s.reads r).took = none → LeavesRequests r ⟨s, a, s'⟩ ∧ CopiesOut r ⟨s, a, s'⟩)
    (hfail : (s.reads r).took ≠ none →
      ((s'.reads r).pc.Failed ↔ (s.reads r).pc.Failed ∨ ¬ CopiesOut r ⟨s, a, s'⟩)) :
    ReadOutcome s a s' r := by
  by_cases hnone : (s.reads r).took = none
  · exact .inl ⟨hnone, htook.trans hnone, hleaves hnone⟩
  · exact .inr (.inr ⟨hnone, htook ▸ hnone, hfail hnone⟩)

/-- The loop of `uvfsd_read`, for the read that runs it. -/
theorem of_readLoop (pick : Option ReadId) (hnodup : s.uvfsRequests.Nodup)
    (hnone : (s.reads r).took = none) (hl : ReadLoop s r s') :
    ReadOutcome s (.readLock r pick) s' r := by
  cases hl with
  | shutdown => exact .inl ⟨hnone, by simpa [State.setReadPc, State.setRead] using hnone,
      fun _ => List.Subset.refl _, trivial⟩
  | sleep => exact .inl ⟨hnone, by simpa [State.setReadPc, State.setRead] using hnone,
      fun _ => List.Subset.refl _, trivial⟩
  | take t rest s₁ _ hreq hw =>
      obtain ⟨reads, rfl, _⟩ := hw.exists_reads
      rw [hreq] at hnodup
      refine .inr (.inl ⟨hnone, by simp [State.beginReadCopy, State.setRead], fun h => ?_, trivial,
        by simp [State.beginReadCopy, State.setRead, ReadPc.Failed]⟩)
      have ht : t ∈ rest := h rfl (by rw [hreq]; exact List.mem_cons_self)
      exact (List.nodup_cons.mp hnodup).1 ht

end ReadOutcome

theorem ReadPc.Early.not_failed {pc : ReadPc} (h : pc.Early) : ¬ pc.Failed := by
  cases pc with
  | copied _ _ | finished _ _ | returned _ => exact h.elim
  | _ => exact id

/-- A step of another party neither gives a read a request nor makes it fail. -/
theorem Effect.read_failed (he : Effect s a s') (hown : ¬ a.OfRead s r) :
    (s'.reads r).took = (s.reads r).took ∧ ((s'.reads r).pc.Failed ↔ (s.reads r).pc.Failed) := by
  have hmove := he.read_move r
  generalize s'.reads r = c' at hmove ⊢
  cases hmove with
  | same => exact ⟨rfl, Iff.rfl⟩
  | start f count hr => exact absurd hr.symm hown
  | signal hp =>
      refine ⟨rfl, ?_⟩
      dsimp only
      split_ifs with hasleep
      · rw [hasleep]
        exact Iff.rfl
      · exact Iff.rfl
  | early _ pc hp hpc => exact ⟨rfl, iff_of_false hpc.not_failed hp.not_failed⟩
  | take | interrupted | passOn | copy | done | returns => exact absurd rfl hown

theorem copiesOut_of_not_ofRead (hown : ¬ a.OfRead s r) : CopiesOut r ⟨s, a, s'⟩ := by
  cases a with
  | readCopy r' fault => exact fun hr => absurd hr hown
  | readReturn r' => exact fun hr => absurd hr hown
  | _ => trivial

/-- **What one step does to a read.** -/
theorem Effect.read_outcome (hs : Sound s) (hlt : ∀ t, (s.reads r).took = some t → r < s.nReads)
    (he : Effect s a s') : ReadOutcome s a s' r := by
  by_cases hown : a.OfRead s r
  swap
  · obtain ⟨htook, hfail⟩ := he.read_failed hown
    have hcopies : CopiesOut r ⟨s, a, s'⟩ := copiesOut_of_not_ofRead hown
    exact .of_kept htook (fun _ => ⟨fun h => absurd h hown, hcopies⟩) fun _ => by
      rw [hfail, or_iff_left (not_not.mpr hcopies)]
  have hearly : (s.reads r).pc.Early → (s.reads r).took = none := hs.calls.early r
  cases he with
  | readEnter f count _ =>
      obtain rfl : s.nReads = r := hown
      have hnone : (s.reads s.nReads).took = none :=
        Option.eq_none_iff_forall_ne_some.mpr fun t ht => lt_irrefl _ (hlt t ht)
      exact .inl ⟨hnone, by simp, fun _ => List.Subset.refl _, trivial⟩
  | readSchedule r₀ hp _ =>
      obtain rfl : r₀ = r := hown
      exact .of_kept (by simp [State.setReadPc, State.setRead])
        (fun _ => ⟨fun _ => List.Subset.refl _, trivial⟩)
        fun h => absurd (hearly (by rw [hp]; trivial)) h
  | readLockFirst r₀ pick s' hp hl =>
      obtain rfl : r₀ = r := hown
      exact .of_readLoop pick hs.requests_nodup (hearly (by rw [hp]; trivial)) hl
  | readLockAgain r₀ pick s' hp _ hl =>
      obtain rfl : r₀ = r := hown
      have hnone := hearly (by rcases hp with hp | hp <;> rw [hp] <;> trivial)
      exact ReadOutcome.of_readLoop
        (s := { s with uvfsDriverQueue := s.uvfsDriverQueue.erase r₀ }) pick hs.requests_nodup hnone
        hl
  | readLockSignal r₀ pick hp _ =>
      obtain rfl : r₀ = r := hown
      have hnone := hearly (by rcases hp with hp | hp <;> rw [hp] <;> trivial)
      exact .of_kept (by simp [State.setReadPc, State.setRead])
        (fun _ => ⟨fun _ => List.Subset.refl _, trivial⟩) fun h => absurd hnone h
  | readCopyShutdown r₀ fault hp =>
      obtain rfl : r₀ = r := hown
      exact .of_kept (by simp [State.setReadPc, State.setRead])
        (fun _ => ⟨fun _ => List.Subset.refl _, trivial⟩)
        fun h => absurd (hearly (by rw [hp]; trivial)) h
  | readPassOn r₀ pick fault s₁ hp hw =>
      obtain rfl : r₀ = r := hown
      obtain ⟨reads, rfl, hreads⟩ := hw.exists_reads
      have heq : reads r₀ = s.reads r₀ := (hreads r₀).resolve_right fun h => by simp [hp] at h
      exact .of_kept (by simp [State.setReadPc, State.setRead, heq])
        (fun _ => ⟨fun _ => List.Subset.refl _, trivial⟩)
        fun h => absurd (hearly (by rw [hp]; trivial)) h
  | readCopy r₀ fault t hp m hm =>
      obtain rfl : r₀ = r := hown
      subst hm
      have htook : (s.reads r₀).took = some t := hs.calls.took r₀ t (by rw [hp]; rfl)
      refine .of_kept (by simp [endReadCopy, State.setRead]) (fun h => by rw [htook] at h; cases h)
        fun _ => ?_
      have hcopies : ∀ s₁, CopiesOut r₀ ⟨s, .readCopy r₀ fault, s₁⟩ ↔
          fault = none ∧ 0 ≤ (s.trans (s.owner t)).requestSize := by
        intro s₁
        simp only [CopiesOut, hp, ReadPc.copying.injEq, forall_eq', forall_const]
      rw [hcopies, hp]
      simp only [endReadCopy, State.setRead, Function.update_self, ReadPc.Failed, false_or,
        Bool.or_eq_true, Option.isSome_iff_ne_none, decide_eq_true_eq, not_and_or, not_le]
  | readDone r₀ t fault hp m _ =>
      obtain rfl : r₀ = r := hown
      have htook : (s.reads r₀).took = some t := hs.calls.took r₀ t (by rw [hp]; rfl)
      refine .of_kept (by simp [State.setReadPc, State.setRead, clearInUse, State.wakeUpIf,
        State.setTrans])
        (fun h => by rw [htook] at h; cases h) fun _ => ?_
      simp [State.setReadPc, State.setRead, hp, ReadPc.Failed, CopiesOut]
  | readReturn r₀ t fault hp m hm =>
      obtain rfl : r₀ = r := hown
      subst hm
      have htook : (s.reads r₀).took = some t := hs.calls.took r₀ t (by rw [hp]; rfl)
      refine .of_kept (by simp [State.setReadPc, State.setRead])
        (fun h => by rw [htook] at h; cases h) fun _ => ?_
      cases fault with
      | true => simp [State.setReadPc, State.setRead, hp, ReadPc.Failed, eio]
      | false => simp [State.setReadPc, State.setRead, hp, ReadPc.Failed, CopiesOut]
  | _ => exact hown.elim

/-- A read that took something has started. -/
theorem Reachable.took_lt {G : State → Act → Prop} (h : Reachable G s) (r : ReadId) :
    ∀ t, (s.reads r).took = some t → r < s.nReads := by
  refine Reach.invariant_of (I := Sound)
    (P := fun s => ∀ t, (s.reads r).took = some t → r < s.nReads)
    (fun _ hr => Reachable.sound hr) (fun t ht => by cases ht)
    (fun s a s' hs hlt _ he t ht => ?_) h
  have he := step_effect he
  rcases he.read_cases hs.calls r with hk | ⟨_, hnone, _⟩
  · rcases hk.took t ht with ht | ⟨_, hp⟩
    · exact lt_of_lt_of_le (hlt t ht) he.counters_le.2.1
    · exact lt_of_lt_of_le (hs.files.read r hp).1 he.counters_le.2.1
  · exact absurd (hnone.symm.trans ht) (by simp)

/-! ## The write -/

/-- The write is going to return an error, or has done so. -/
def WritePc.Failed : WritePc → Prop
  | .copied _ fault => fault = true
  | .returned v => v < 0
  | _ => False

/-- A step may do one of three things to a write: leave it without a transaction, give it one, or go
on with the one it has. -/
def WriteOutcome (s : State) (a : Act) (s' : State) (w : WriteId) : Prop :=
  ((s.writes w).claimed = none ∧ (s'.writes w).claimed = none ∧ LeavesReplies w ⟨s, a, s'⟩ ∧
    CopiesIn w ⟨s, a, s'⟩) ∨
  ((s.writes w).claimed = none ∧ (s'.writes w).claimed ≠ none ∧ ¬ LeavesReplies w ⟨s, a, s'⟩ ∧
    CopiesIn w ⟨s, a, s'⟩ ∧ ¬ (s'.writes w).pc.Failed) ∨
  ((s.writes w).claimed ≠ none ∧ (s'.writes w).claimed ≠ none ∧
    ((s'.writes w).pc.Failed ↔ (s.writes w).pc.Failed ∨ ¬ CopiesIn w ⟨s, a, s'⟩))

/-- A step of another party leaves a write alone. -/
theorem Effect.writes_eq (he : Effect s a s') (hown : ¬ a.OfWrite s w) :
    s'.writes w = s.writes w := by
  by_cases ha : a.Steady
  · exact congrFun (he.steady ha).writes w
  cases he with
  | writeEnter f count header answers _ _ => exact Function.update_of_ne (Ne.symm hown) ..
  | writeMiss w₀ _ _ => exact Function.update_of_ne (Ne.symm hown) ..
  | writeClaim w₀ t _ _ => exact Function.update_of_ne (Ne.symm hown) ..
  | writeCopy w₀ data fault t _ => exact Function.update_of_ne (Ne.symm hown) ..
  | writeDone w₀ t fault _ => exact Function.update_of_ne (Ne.symm hown) ..
  | release | releaseLast | newTransaction | readEnter => rfl
  | _ => exact absurd trivial ha

theorem copiesIn_of_not_ofWrite (hown : ¬ a.OfWrite s w) : CopiesIn w ⟨s, a, s'⟩ := by
  cases a with
  | writeCopy w' data fault => exact fun hw => absurd hw hown
  | _ => trivial

/-- **What one step does to a write.** -/
theorem Effect.write_outcome (hs : Sound s) (ha : Addressed s w) (he : Effect s a s') :
    WriteOutcome s a s' w := by
  by_cases hown : a.OfWrite s w
  swap
  · have heq := he.writes_eq hown
    have hcopies : CopiesIn w ⟨s, a, s'⟩ := copiesIn_of_not_ofWrite hown
    by_cases hnone : (s.writes w).claimed = none
    · exact .inl ⟨hnone, heq ▸ hnone, fun h => absurd h hown, hcopies⟩
    · exact .inr (.inr ⟨hnone, heq ▸ hnone, by rw [heq, or_iff_left (not_not.mpr hcopies)]⟩)
  cases he with
  | writeEnter f count header answers _ _ =>
      obtain rfl : s.nWrites = w := hown
      have hnone : (s.writes s.nWrites).claimed = none :=
        Option.eq_none_iff_forall_ne_some.mpr fun t ht => lt_irrefl _ (ha.lt t ht)
      exact .inl ⟨hnone, by simp [checkHeader_claimed],
        fun _ => ⟨List.Subset.refl _, fun _ => ⟨rfl, rfl⟩⟩, trivial⟩
  | writeMiss w₀ hp _ =>
      obtain rfl : w₀ = w := hown
      have hnone := ha.lookup hp
      exact .inl ⟨hnone, by simpa [State.setWritePc, State.setWrite] using hnone,
        fun _ => ⟨List.Subset.refl _, fun _ => ⟨rfl, rfl⟩⟩, trivial⟩
  | writeClaim w₀ t hp hfind =>
      obtain rfl : w₀ = w := hown
      refine .inr (.inl ⟨ha.lookup hp, by simp [State.beginWriteCopy, State.setWrite], fun h => ?_,
        trivial, by simp [State.beginWriteCopy, State.setWrite, WritePc.Failed]⟩)
      have ht : t ∈ s.uvfsReplies.erase t := (h rfl).1 (List.mem_of_find?_eq_some hfind)
      exact hs.replies_nodup.not_mem_erase ht
  | writeCopy w₀ data fault t hp m _ =>
      obtain rfl : w₀ = w := hown
      have hclaim : (s.writes w₀).claimed = some t := ha.claimed t (by rw [hp]; rfl)
      refine .inr (.inr ⟨by simp [hclaim],
        by simp [State.setWritePc, State.setWrite, State.setTrans, hclaim], ?_⟩)
      simp [State.setWritePc, State.setWrite, hp, WritePc.Failed, CopiesIn,
        Option.isSome_iff_ne_none]
  | writeDone w₀ t fault hp m _ =>
      obtain rfl : w₀ = w := hown
      have hclaim : (s.writes w₀).claimed = some t := ha.claimed t (by rw [hp]; rfl)
      -- the size was compared with `count`, so the value returned on success is not negative
      have hsize : 0 ≤ (s.writes w₀).size.toInt :=
        le_trans (Int.natCast_nonneg _) (ha.size (by rw [hp]; trivial))
      refine .inr (.inr ⟨by simp [hclaim],
        by simp [State.setWritePc, State.setWrite, answer, State.wakeUp, State.setTrans,
          hclaim], ?_⟩)
      cases fault with
      | true => simp [State.setWritePc, State.setWrite, hp, WritePc.Failed, CopiesIn, eio]
      | false =>
          simp [State.setWritePc, State.setWrite, answer, State.wakeUp, State.setTrans, hp,
            WritePc.Failed, CopiesIn, hsize]
  | _ => exact hown.elim

/-! ## The run -/

/-- **When driver errors lose nothing**: in every run, a read that has returned an error has left
every request in `Uvfs_requests` exactly when its copy out went well, and a write that has returned
an error has left `Uvfs_replies`, the unions and the `answered` flags alone exactly when its copy in
went well. -/
theorem errors_lose_nothing_iff {tr : List (Taken State Act)}
    (h : Trace step anyStep State.init tr s) :
    (∀ r v, (s.reads r).pc = .returned v →
      ((v < 0 → ∀ k ∈ tr, LeavesRequests r k) ↔ ∀ k ∈ tr, CopiesOut r k)) ∧
    ∀ w v, (s.writes w).pc = .returned v →
      ((v < 0 → ∀ k ∈ tr, LeavesReplies w k) ↔ ∀ k ∈ tr, CopiesIn w k) := by
  constructor
  · intro r v hv
    have hfail := Trace.failed_imp_iff (fun s => (s.reads r).took ≠ none)
      (fun s => (s.reads r).pc.Failed) (LeavesRequests r) (CopiesOut r) (by simp [State.init]) ?_ h
    · simpa only [hv, ReadPc.Failed] using hfail
    · intro k hk hstep
      simp only [not_not]
      exact (step_effect hstep).read_outcome (Reachable.sound hk) (Reachable.took_lt hk r)
  · intro w v hv
    have hfail := Trace.failed_imp_iff (fun s => (s.writes w).claimed ≠ none)
      (fun s => (s.writes w).pc.Failed) (LeavesReplies w) (CopiesIn w) (by simp [State.init]) ?_ h
    · simpa only [hv, WritePc.Failed] using hfail
    · intro k hk hstep
      simp only [not_not]
      exact (step_effect hstep).write_outcome (Reachable.sound hk) (Reachable.addressed hk w)

/-- A read leaves by a signal, and a write finds no transaction with its serial. -/
theorem errors_lose_nothing_iff_signal : ∃ tr s, Trace step anyStep State.init tr s ∧
    (s.reads 0).pc = .returned erestartsys ∧ (s.writes 0).pc = .returned einval ∧
    ((∀ k ∈ tr, LeavesRequests 0 k) ↔ ∀ k ∈ tr, CopiesOut 0 k) ∧
    ((∀ k ∈ tr, LeavesReplies 0 k) ↔ ∀ k ∈ tr, CopiesIn 0 k) := by
  obtain ⟨s, hs, hr, hw⟩ := Reach.of_check step anyStep State.init
    [.uvfsdOpen 0, .readEnter 0 sizeofUvfsRequestU, .readLock 0 none, .readSignal 0,
      .readLock 0 none, .writeEnter 0 16 (some ⟨7, 16⟩) none, .writeLookup 0]
    (fun s => (s.reads 0).pc = .returned erestartsys ∧ (s.writes 0).pc = .returned einval)
    (by decide +kernel)
  obtain ⟨tr, htr⟩ := Reach.exists_trace hs
  obtain ⟨hread, hwrite⟩ := errors_lose_nothing_iff htr
  have hneg : erestartsys < 0 ∧ einval < 0 := by decide
  have hread := hread 0 _ hr
  have hwrite := hwrite 0 _ hw
  rw [forall_prop_of_true hneg.1] at hread
  rw [forall_prop_of_true hneg.2] at hwrite
  exact ⟨tr, s, htr, hr, hw, hread, hwrite⟩

end Uvfs.Driver
