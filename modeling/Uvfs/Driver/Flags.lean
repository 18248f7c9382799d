import Uvfs.Driver.Frame

/-!
# What the flags of a transaction say

`answered`, `in_use`, the two lists and the point its client has reached have to fit together in
every interleaving in which the calls work on memory of what they have taken.  `Flags s t` says how,
for one transaction:

* a listed transaction is not answered and its client is still inside `uvfs_make_request`;
* an enqueued one that is neither answered nor withdrawn is listed or a write works on it;
* a client goes on to leave only after a signal or an answer;
* `in_use` is set only while a call works on the transaction.

`Flags.step` goes through the steps that touch the transaction.  It asks that the calls work on
their own (`Owned`); that they do is known together with the flags, for the runs in which no write
claims a transaction out of turn (`Uvfs.Driver.Lifetime`).
-/

namespace Uvfs.Driver

open State Transition

variable {s s' : State} {a : Act} {t : TransId}

/-- The client is past its last critical section. -/
def ClientPc.Past : ClientPc → Prop
  | .leaving | .returned | .freed => True
  | _ => False

instance : (pc : ClientPc) → Decidable pc.Past
  | .leaving | .returned | .freed => isTrue trivial
  | .created | .built | .waiting | .checking | .aborting | .aborted => isFalse id

/-- A client that is past its last critical section is not in the middle of a request. -/
theorem ClientPc.Past.not_enqueued {pc : ClientPc} (h : pc.Past) : ¬ pc.Enqueued := by
  cases pc with
  | leaving | returned | freed => exact id
  | _ => exact h.elim

theorem ClientPc.Enqueued.not_halfStarted {pc : ClientPc} (h : pc.Enqueued) :
    ¬ pc.HalfStarted := by
  cases pc with
  | waiting | checking | aborting | aborted => exact id
  | _ => exact h.elim

/-- How the flags of a transaction, the lists and its client fit together. -/
structure Flags (s : State) (t : TransId) : Prop where
  fresh : (s.clients t).pc.HalfStarted → (s.trans t).inUse = 0 ∧ (s.trans t).answered = 0
  listed : s.Listed t → (s.clients t).pc.Enqueued ∧ (s.trans t).answered = 0
  copying : ∀ w, (s.writes w).pc = .copying t → (s.clients t).pc ≠ .freed →
    (s.trans t).answered = 0
  checking : (s.clients t).pc = .checking →
    (s.clients t).signalPending = true ∨ (s.trans t).answered ≠ 0
  aborting : (s.clients t).pc = .aborting ∨ (s.clients t).pc = .aborted →
    (s.clients t).signalPending = true
  withdrawn : (s.clients t).withdrawn = true → (s.clients t).pc.Past
  pending : t ∈ s.enqueueLog → (s.clients t).pc ≠ .freed → (s.clients t).withdrawn = false →
    (s.trans t).answered = 0 → s.Listed t ∨ ∃ w, (s.writes w).pc.Uses t
  inUse : (s.clients t).pc ≠ .freed → (s.trans t).inUse ≠ 0 → s.Held t
  left : t ∈ s.enqueueLog → (s.clients t).pc = .leaving ∨ (s.clients t).pc = .returned →
    (s.clients t).withdrawn = false → (s.trans t).answered ≠ 0
  requested : t ∈ s.uvfsRequests → (s.clients t).pc = .waiting ∨ (s.clients t).pc = .checking

namespace Flags

theorem init (t : TransId) : Flags State.init t where
  fresh h := h.elim
  listed h := by rcases h with h | h <;> exact absurd h List.not_mem_nil
  copying _ h := by cases h
  checking h := by cases h
  aborting h := by rcases h with h | h <;> cases h
  withdrawn h := by cases h
  pending h := absurd h List.not_mem_nil
  inUse h := absurd rfl h
  left h := absurd h List.not_mem_nil
  requested h := absurd h List.not_mem_nil

/-- What leaves the transaction alone keeps its flags. -/
theorem frame (h : Flags s t) (hf : Frame s s' t) : Flags s' t where
  fresh := by
    rw [hf.client, hf.trans]
    exact h.fresh
  listed := by
    rw [hf.client, hf.trans, hf.listed]
    exact h.listed
  copying w hw := by
    rw [hf.client, hf.trans]
    exact h.copying w ((hf.writes w (.inr (by rw [hw]; rfl))).symm.trans hw)
  checking := by
    rw [hf.client, hf.trans]
    exact h.checking
  aborting := by
    rw [hf.client]
    exact h.aborting
  withdrawn := by
    rw [hf.client]
    exact h.withdrawn
  pending := by
    rw [hf.client, hf.trans, hf.log, hf.listed]
    simp only [hf.write_uses]
    exact h.pending
  inUse := by
    rw [hf.client, hf.trans, hf.held]
    exact h.inUse
  left := by
    rw [hf.client, hf.trans, hf.log]
    exact h.left
  requested := by
    rw [hf.client, hf.requests]
    exact h.requested

/-- The wait queue of the readers plays no part. -/
theorem driverQueue (h : Flags s t) (q : List ReadId) : Flags { s with uvfsDriverQueue := q } t :=
  h.frame ⟨rfl, rfl, rfl, .rfl, .rfl, .rfl, fun _ => .rfl, fun _ _ => rfl⟩

/-- Neither does whether the client sleeps. -/
theorem setAsleep (h : Flags s t) (b : TransId → Bool) : Flags { s with asleep := b } t :=
  ⟨h.fresh, h.listed, h.copying, h.checking, h.aborting, h.withdrawn, h.pending, h.inUse, h.left,
    h.requested⟩

/-- The client moves on. -/
theorem setClient (h : Flags s t) {c : Client} (hfreed : (s.clients t).pc ≠ .freed)
    (fresh : c.pc.HalfStarted → (s.clients t).pc.HalfStarted)
    (listed : s.Listed t → c.pc.Enqueued)
    (checking : c.pc = .checking → c.signalPending = true ∨ (s.trans t).answered ≠ 0)
    (aborting : c.pc = .aborting ∨ c.pc = .aborted → c.signalPending = true)
    (withdrawn : c.withdrawn = true → c.pc.Past)
    (kept : c.withdrawn = (s.clients t).withdrawn)
    (left : c.pc = .leaving ∨ c.pc = .returned → t ∈ s.enqueueLog → c.withdrawn = false →
      (s.trans t).answered ≠ 0)
    (requested : t ∈ s.uvfsRequests → c.pc = .waiting ∨ c.pc = .checking) :
    Flags (s.setClient t c) t := by
  have hc : (s.setClient t c).clients t = c := Function.update_self ..
  refine ⟨?_, ?_, ?_, ?_, ?_, ?_, ?_, ?_, ?_, ?_⟩ <;> rw [hc]
  · exact fun hs => h.fresh (fresh hs)
  · exact fun hl => ⟨listed hl, (h.listed hl).2⟩
  · exact fun w hw _ => h.copying w hw hfreed
  · exact checking
  · exact aborting
  · exact withdrawn
  · exact fun hlog _ hwd => h.pending hlog hfreed (kept ▸ hwd)
  · exact fun _ => h.inUse hfreed
  · exact fun hlog hp hwd => left hp hlog hwd
  · exact requested

/-- The transaction changes and is answered no less and no more than before. -/
theorem setTrans (h : Flags s t) (tr : Transaction) (hans : tr.answered = (s.trans t).answered)
    (fresh : (s.clients t).pc.HalfStarted → tr.inUse = 0)
    (inUse : (s.clients t).pc ≠ .freed → tr.inUse ≠ 0 → s.Held t) :
    Flags (s.setTrans t tr) t := by
  have ht : (s.setTrans t tr).trans t = tr := Function.update_self ..
  refine ⟨?_, ?_, ?_, ?_, h.aborting, h.withdrawn, ?_, ?_, ?_, h.requested⟩ <;> rw [ht]
  · exact fun hs => ⟨fresh hs, hans ▸ (h.fresh hs).2⟩
  · exact fun hl => hans ▸ h.listed hl
  · exact fun w hw hf => hans ▸ h.copying w hw hf
  · exact fun hp => hans ▸ h.checking hp
  · exact fun hlog hf hwd ha => h.pending hlog hf hwd (hans ▸ ha)
  · exact inUse
  · exact fun hlog hp hwd => hans ▸ h.left hlog hp hwd

/-- A client that is not in the middle of a request has no listed transaction. -/
theorem not_listed (h : Flags s t) (hp : ¬ (s.clients t).pc.Enqueued) : ¬ s.Listed t :=
  fun hl => hp (h.listed hl).1

/-- The program counter of the client moves on. -/
theorem setClientPc (h : Flags s t) {pc : ClientPc} (hfreed : (s.clients t).pc ≠ .freed)
    (hpc : ¬ pc.HalfStarted) (listed : s.Listed t → pc.Enqueued)
    (checking : pc = .checking →
      (s.clients t).signalPending = true ∨ (s.trans t).answered ≠ 0)
    (aborting : pc = .aborting ∨ pc = .aborted → (s.clients t).signalPending = true)
    (withdrawn : (s.clients t).pc.Past → pc.Past)
    (left : pc = .leaving ∨ pc = .returned → t ∈ s.enqueueLog →
      (s.clients t).withdrawn = false → (s.trans t).answered ≠ 0)
    (requested : t ∈ s.uvfsRequests → pc = .waiting ∨ pc = .checking) :
    Flags (s.setClientPc t pc) t :=
  h.setClient hfreed (fun hs => absurd hs hpc) listed checking aborting
    (fun hw => withdrawn (h.withdrawn hw)) rfl left requested

theorem newTransaction (hs : Sound s) (junk : Transaction) (old : Option TransId) :
    Flags (s.addTransaction junk old) s.nTrans := by
  have hlog : s.nTrans ∉ s.enqueueLog := fun hm => lt_irrefl _ (hs.logged.log _ hm).1
  refine ⟨?_, ?_, ?_, ?_, ?_, ?_, ?_, ?_, ?_, ?_⟩ <;>
    simp only [addTransaction, Function.update_self]
  · exact fun _ => ⟨trivial, trivial⟩
  · exact fun hl => absurd (hs.enqueued_of_listed hl) hlog
  · exact fun _ _ _ => trivial
  · exact fun hp => by cases hp
  · exact fun hp => by rcases hp with hp | hp <;> cases hp
  · exact fun hw => by cases hw
  · exact fun hm => absurd hm hlog
  · exact fun _ hu => absurd rfl hu
  · exact fun hm => absurd hm hlog
  · exact fun hm => absurd (hs.enqueued_of_listed (.inl hm)) hlog

theorem enqueue (h : Flags s t) (ht : (s.clients t).pc = .built) : Flags (s.enqueue t) t := by
  obtain ⟨huse, hans⟩ := h.fresh (by rw [ht]; trivial)
  have hwd : (s.clients t).withdrawn ≠ true := fun hw => by
    have := h.withdrawn hw
    rw [ht] at this
    exact this
  have hc : (s.enqueue t).clients t = { s.clients t with pc := .waiting } :=
    Function.update_self ..
  refine ⟨?_, ?_, ?_, ?_, ?_, ?_, ?_, ?_, ?_, ?_⟩ <;> rw [hc]
  · exact fun hp => hp.elim
  · exact fun _ => ⟨trivial, hans⟩
  · exact fun _ _ _ => hans
  · exact fun hp => by cases hp
  · exact fun hp => by rcases hp with hp | hp <;> cases hp
  · exact fun hw => absurd hw hwd
  · exact fun _ _ _ _ => .inl (.inl (List.mem_append_right _ (List.mem_singleton_self t)))
  · exact fun _ hu => absurd huse hu
  · exact fun _ hp => by rcases hp with hp | hp <;> cases hp
  · exact fun _ => .inl rfl

theorem unlinkAborted (hs : Sound s) (h : Flags s t) (hfreed : (s.clients t).pc ≠ .freed) :
    Flags (s.unlinkAborted t) t := by
  have hlist : ¬ (s.unlinkAborted t).Listed t := by
    rintro (hm | hm)
    · exact hs.requests_nodup.not_mem_erase hm
    · exact hs.replies_nodup.not_mem_erase hm
  have hc : (s.unlinkAborted t).clients t =
      { s.clients t with pc := .leaving, withdrawn := true } :=
    Function.update_self ..
  have ht : (s.unlinkAborted t).trans t = (s.trans t).setError erestartsys :=
    Function.update_self ..
  refine ⟨?_, ?_, ?_, ?_, ?_, ?_, ?_, ?_, ?_, ?_⟩ <;> rw [hc]
  · exact fun hp => hp.elim
  · exact fun hl => absurd hl hlist
  · exact fun w hw _ => ht ▸ h.copying w hw hfreed
  · exact fun hp => by cases hp
  · exact fun hp => by rcases hp with hp | hp <;> cases hp
  · exact fun _ => trivial
  · exact fun _ _ hw => by cases hw
  · exact fun _ hu => h.inUse hfreed (by rw [ht] at hu; exact hu)
  · exact fun _ _ hw => by cases hw
  · exact fun hm => absurd (.inl hm) hlist

/-- A read takes the transaction. -/
theorem take (h : Flags s t) {rest : List TransId} {s₁ : State} {r : ReadId}
    (hreq : s.uvfsRequests = t :: rest) (hw : Woke (s.handOut t rest) s₁) :
    Flags (s₁.beginReadCopy r t) t := by
  have hlist : s.Listed t := .inl (by rw [hreq]; exact List.mem_cons_self)
  have h₀ : Flags (s.handOut t rest) t :=
    ⟨h.fresh, fun _ => h.listed hlist, h.copying, h.checking, h.aborting, h.withdrawn,
      fun _ _ _ _ => .inl (.inr (List.mem_append_right _ (List.mem_singleton_self t))), h.inUse,
      h.left, fun _ => h.requested (by rw [hreq]; exact List.mem_cons_self)⟩
  have h₁ : Flags s₁ t := h₀.frame (Frame.woke hw)
  have henq : (s₁.clients t).pc.Enqueued := by
    rw [(Frame.woke hw).client]
    exact (h.listed hlist).1
  have hheld : (s₁.setRead r { s₁.reads r with
        pc := .copying t, took := some t, size := (s₁.trans t).requestSize }).Held t :=
    .inl ⟨r, by simp [State.setRead, ReadPc.Uses]⟩
  have h₂ : Flags (s₁.setRead r { s₁.reads r with
        pc := .copying t, took := some t, size := (s₁.trans t).requestSize }) t :=
    ⟨h₁.fresh, h₁.listed, h₁.copying, h₁.checking, h₁.aborting, h₁.withdrawn, h₁.pending,
      fun _ _ => hheld, h₁.left, h₁.requested⟩
  exact h₂.setTrans { s₁.trans t with inUse := 1 } rfl
    (fun hp => absurd hp henq.not_halfStarted) fun _ _ => hheld

/-- A write unlinks the transaction and marks it. -/
theorem claim (hs : Sound s) (h : Flags s t) (w : WriteId) (hrep : t ∈ s.uvfsReplies) :
    Flags (s.beginWriteCopy w t) t := by
  obtain ⟨henq, hans⟩ := h.listed (.inr hrep)
  have huses : ((s.beginWriteCopy w t).writes w).pc.Uses t := by
    simp [State.beginWriteCopy, State.setWrite, WritePc.Uses]
  have ht : (s.beginWriteCopy w t).trans t = { s.trans t with inUse := 1 } :=
    Function.update_self ..
  refine ⟨fun hp => absurd hp henq.not_halfStarted, fun hl => ?_, fun _ _ _ => ht ▸ hans, ?_,
    h.aborting, h.withdrawn, fun _ _ _ _ => .inr ⟨w, huses⟩, fun _ _ => .inr ⟨w, huses⟩,
    fun _ hp => absurd henq (by rcases hp with hp | hp <;> exact hp ▸ id),
    fun hm => h.requested (List.mem_of_mem_erase hm)⟩
  · rcases hl with hm | hm
    · exact absurd (List.mem_of_mem_erase hm) fun hm' => hs.not_handedOut hm' (hs.handedOut hrep)
    · exact absurd hm hs.replies_nodup.not_mem_erase
  · rw [ht]
    exact h.checking

/-- The reply is copied over the transaction. -/
theorem writeCopy (hs : Sound s) (h : Flags s t) {w : WriteId} (hw : (s.writes w).pc = .copying t)
    (tr : Transaction) (fault : Bool) :
    Flags ((s.setTrans t tr).setWritePc w (.copied t fault)) t := by
  have huses : (s.writes w).pc.Uses t := by rw [hw]; rfl
  have huses' : (((s.setTrans t tr).setWritePc w (.copied t fault)).writes w).pc.Uses t := by
    simp [State.setWritePc, State.setWrite, WritePc.Uses]
  have hlog := hs.logged.log t (hs.enqueued_of_held (.inr ⟨w, huses⟩))
  refine ⟨fun hp => absurd hp hlog.2, fun hl => absurd hl (hs.not_listed_of_write huses),
    fun w' hw' _ => ?_, fun hp => .inl ?_, h.aborting, h.withdrawn,
    fun _ _ _ _ => .inr ⟨w, huses'⟩, fun _ _ => .inr ⟨w, huses'⟩, fun hlog hp hwd => ?_,
    h.requested⟩
  · -- No second write works on the transaction, and this one has finished its copy.
    by_cases hww : w' = w
    · subst hww
      simp [State.setWritePc, State.setWrite] at hw'
    · simp only [State.setWritePc, State.setWrite, State.setTrans, Function.update_of_ne hww] at hw'
      exact absurd (hs.calls.write_inj w' w t (by rw [hw']; rfl) huses) hww
  · -- The copy may overwrite `answered`, but until then it was zero, so there is a signal.
    have hp' : (s.clients t).pc = .checking := hp
    rcases h.checking hp' with hsig | hans
    · exact hsig
    · exact absurd (h.copying w hw (by rw [hp']; decide)) hans
  · have hne : (s.clients t).pc ≠ .freed := by rcases hp with hp | hp <;> exact hp ▸ by decide
    exact absurd (h.copying w hw hne) (h.left hlog hp hwd)

/-- A write answers the transaction. -/
theorem writeDone (hs : Sound s) (h : Flags s t) {w : WriteId} {fault : Bool}
    (hw : (s.writes w).pc = .copied t fault) {tr : Transaction} (huse : tr.inUse = 0)
    (hans : tr.answered = 1) (v : ℤ) :
    Flags ((s.setTrans t tr).setWritePc w (.returned v)) t := by
  have huses : (s.writes w).pc.Uses t := by rw [hw]; rfl
  have hlog := hs.logged.log t (hs.enqueued_of_held (.inr ⟨w, huses⟩))
  have ht : ((s.setTrans t tr).setWritePc w (.returned v)).trans t = tr := Function.update_self ..
  have hne : (((s.setTrans t tr).setWritePc w (.returned v)).trans t).answered ≠ 0 := by
    rw [ht, hans]
    decide
  refine ⟨fun hp => absurd hp hlog.2, fun hl => absurd hl (hs.not_listed_of_write huses),
    fun w' hw' _ => ?_, fun _ => .inr hne, h.aborting, h.withdrawn,
    fun _ _ _ ha => absurd ha hne, fun _ hu => absurd (by rw [ht, huse]) hu, fun _ _ _ => hne,
    h.requested⟩
  by_cases hww : w' = w
  · subst hww
    simp [State.setWritePc, State.setWrite] at hw'
  · simp only [State.setWritePc, State.setWrite, State.setTrans, Function.update_of_ne hww] at hw'
    exact absurd (hs.calls.write_inj w' w t (by rw [hw']; rfl) huses) hww

/-- The last release answers every listed transaction. -/
theorem drain (hs : Sound s) (h : Flags s t) (hl : s.Listed t) : Flags s.drain t := by
  have ht : s.drain.trans t = (s.trans t).fail := drain_trans_of_listed hs.nodup hl
  have hne : (s.drain.trans t).answered ≠ 0 := by
    rw [ht]
    exact (by decide : (1 : Word) ≠ 0)
  refine ⟨fun hp => ?_, fun hl' => ?_, fun w hw _ => ?_, fun _ => .inr hne, h.aborting,
    h.withdrawn, fun _ _ _ ha => absurd ha hne, fun hf hu => h.inUse hf ?_, fun _ _ _ => hne,
    fun hm => absurd hm List.not_mem_nil⟩
  · exact absurd hp (hs.logged.log t (hs.enqueued_of_listed hl)).2
  · rcases hl' with hm | hm <;> exact absurd hm List.not_mem_nil
  · exact absurd hl (hs.not_listed_of_write (w := w) (by
      have hw' : (s.writes w).pc = .copying t := hw
      rw [hw']
      rfl))
  · rw [ht] at hu
    exact hu

/-- The loop of `uvfsd_read` at the head of `Uvfs_requests`. -/
theorem readLoop (h : Flags s t) {r : ReadId} (ht : s.uvfsRequests.head? = some t)
    (hr : ¬ (s.reads r).pc.Uses t) (hl : ReadLoop s r s') : Flags s' t := by
  cases hl with
  | shutdown => exact h.frame (Frame.setRead (iff_of_false id hr))
  | sleep _ hreq =>
      rw [hreq] at ht
      cases ht
  | take t' rest s₁ _ hreq hw =>
      obtain rfl : t' = t := by
        rw [hreq] at ht
        exact Option.some.inj ht
      exact h.take hreq hw

/-- Freed memory says nothing. -/
theorem reuse (h : Flags s t) (hp : (s.clients t).pc = .freed) (tr : Transaction) :
    Flags (s.setTrans t tr) t where
  fresh hh := absurd hh (by simp only [State.setTrans, hp]; exact id)
  listed hl := absurd hl (h.not_listed (by rw [hp]; exact id))
  copying _ _ hf := absurd hp hf
  checking hc := by cases hp.symm.trans hc
  aborting := h.aborting
  withdrawn := h.withdrawn
  pending _ hf := absurd hp hf
  inUse hf := absurd hp hf
  left _ hpc := by rcases hpc with hpc | hpc <;> cases hp.symm.trans hpc
  requested := h.requested

/-- Every step keeps the flags when the calls work on their own. -/
theorem step (hs : Sound s) (ho : Owned s) (h : Flags s t) (he : Effect s a s') : Flags s' t := by
  by_cases ht : Touches s a t
  swap
  · exact h.frame (he.frame hs.files ht)
  cases he with
  | release f _ _ hc => exact absurd ht.1 hc
  | releaseLast f _ _ _ =>
      have h' := h.drain hs ht.2
      exact ⟨h'.fresh, h'.listed, h'.copying, h'.checking, h'.aborting, h'.withdrawn, h'.pending,
        h'.inUse, h'.left, h'.requested⟩
  | newTransaction junk old _ =>
      obtain rfl : t = s.nTrans := ht
      exact newTransaction hs junk old
  | buildRequest t' req hp _ =>
      obtain rfl : t = t' := ht
      have hhalf : (s.clients t).pc.HalfStarted := by rw [hp]; trivial
      have hfreed : (s.clients t).pc ≠ .freed := by rw [hp]; decide
      refine (h.setTrans { s.trans t with u := req } rfl (fun _ => (h.fresh hhalf).1)
        (h.inUse)).setClient hfreed (fun _ => hhalf) (fun hl => ?_) (fun hc => by cases hc)
        (fun hc => by rcases hc with hc | hc <;> cases hc) (fun hw => ?_) rfl
        (fun hc => by rcases hc with hc | hc <;> cases hc)
        (fun hm => absurd (.inl hm) (h.not_listed (by rw [hp]; exact id)))
      · exact absurd hl (h.not_listed (by rw [hp]; exact id))
      · exact absurd (h.withdrawn hw) (by rw [hp]; exact id)
  | refused t' pick hp _ =>
      obtain rfl : t = t' := ht
      have hhalf : (s.clients t).pc.HalfStarted := by rw [hp]; trivial
      have hfreed : (s.clients t).pc ≠ .freed := by rw [hp]; decide
      refine (h.setTrans ((s.trans t).setError eio) rfl (fun _ => (h.fresh hhalf).1)
        (h.inUse)).setClientPc hfreed id (fun hl => ?_) (fun hc => by cases hc)
        (fun hc => absurd hc (by decide)) (fun _ => trivial)
        (fun _ hlog => absurd hhalf (hs.logged.log t hlog).2)
        (fun hm => absurd (.inl hm) (h.not_listed (by rw [hp]; exact id)))
      exact absurd hl (h.not_listed (by rw [hp]; exact id))
  | enqueued t' pick s' hp _ hw =>
      obtain rfl : t = t' := ht
      exact (h.enqueue hp).frame (Frame.woke hw)
  | kill t' hp =>
      obtain rfl : t = t' := ht
      exact setClient (s := s.wakeUpIf ((s.clients t).pc = .waiting) t) (h.setAsleep _) hp id
        (fun hl => (h.listed hl).1) (fun _ => .inl rfl) (fun _ => rfl) h.withdrawn rfl
        (fun hp' hlog hwd => h.left hlog hp' hwd) h.requested
  | waitSleep t' _ _ => exact h.setAsleep _
  | waitAnswered t' hp hans =>
      obtain rfl : t = t' := ht
      exact h.setClientPc (by rw [hp]; decide) id (fun _ => trivial) (fun _ => .inr hans)
        (fun hc => absurd hc (by decide)) (by rw [hp]; exact False.elim)
        (fun hc => absurd hc (by decide)) (fun _ => .inr rfl)
  | waitSignal t' hp hsig =>
      obtain rfl : t = t' := ht
      exact h.setClientPc (by rw [hp]; decide) id (fun _ => trivial) (fun _ => .inl hsig)
        (fun hc => absurd hc (by decide)) (by rw [hp]; exact False.elim)
        (fun hc => absurd hc (by decide)) (fun _ => .inr rfl)
  | checkAbort t' hp hsig huse =>
      obtain rfl : t = t' := ht
      have hfreed : (s.clients t).pc ≠ .freed := by rw [hp]; decide
      exact (h.setTrans { s.trans t with abort := 1 } rfl (fun hs => (h.fresh hs).1)
        (h.inUse)).setClientPc hfreed id (fun _ => trivial) (fun hc => by cases hc)
        (fun _ => hsig) (by
          intro hpast
          have hpast' : (s.clients t).pc.Past := hpast
          rw [hp] at hpast'
          exact hpast'.elim) (fun hc => absurd hc (by decide))
        (fun hm => absurd (h.inUse hfreed huse) (hs.not_held_of_requested hm))
  | checkUnlink t' hp _ _ | withdraw t' hp =>
      obtain rfl : t = t' := ht
      exact h.unlinkAborted hs (by rw [hp]; decide)
  | checkLeave t' hp hsig =>
      obtain rfl : t = t' := ht
      -- Without a signal the client came out of its wait because it was answered.
      have hans : (s.trans t).answered ≠ 0 :=
        (h.checking hp).resolve_left fun hsig' => absurd (hsig.symm.trans hsig') (by decide)
      exact h.setClientPc (by rw [hp]; decide) id (fun hl => absurd (h.listed hl).2 hans)
        (fun hc => by cases hc) (fun hc => absurd hc (by decide)) (fun _ => trivial)
        (fun _ _ _ => hans) (fun hm => absurd (h.listed (.inl hm)).2 hans)
  | waitUnused t' hp _ =>
      obtain rfl : t = t' := ht
      exact h.setClientPc (by rw [hp]; decide) id (fun _ => trivial) (fun hc => by cases hc)
        (fun _ => h.aborting (.inl hp)) (by rw [hp]; exact False.elim)
        (fun hc => absurd hc (by decide)) fun hm => by
          rcases h.requested hm with hp' | hp' <;> cases hp.symm.trans hp'
  | leave t' hp =>
      obtain rfl : t = t' := ht
      exact h.setClientPc (by rw [hp]; decide) id
        (fun hl => absurd hl (h.not_listed (by rw [hp]; exact id))) (fun hc => by cases hc)
        (fun hc => absurd hc (by decide)) (fun _ => trivial)
        (fun _ hlog hwd => h.left hlog (.inl hp) hwd)
        (fun hm => absurd (.inl hm) (h.not_listed (by rw [hp]; exact id)))
  | kfree t' hp =>
      obtain rfl : t = t' := ht
      exact h.setClientPc (by rw [hp]; decide) id
        (fun hl => absurd hl (h.not_listed (by rw [hp]; exact id))) (fun hc => by cases hc)
        (fun hc => absurd hc (by decide)) (fun _ => trivial) (fun hc => absurd hc (by decide))
        (fun hm => absurd (.inl hm) (h.not_listed (by rw [hp]; exact id)))
  | reuse t' junk hre =>
      obtain rfl : t = t' := ht
      exact h.reuse hre.1 junk
  | readLockFirst r pick s' hr hl => exact h.readLoop ht (hr ▸ id) hl
  | readLockAgain r pick s' hr _ hl =>
      have hnot : ¬ (s.reads r).pc.Uses t := by rcases hr with hr | hr <;> exact hr ▸ id
      exact (h.driverQueue (s.uvfsDriverQueue.erase r)).readLoop ht hnot hl
  | readLockSignal r pick hr _ =>
      have hnot : ¬ (s.reads r).pc.Uses t := by rcases hr with hr | hr <;> exact hr ▸ id
      have h' := h.frame (Frame.setRead (r := r)
        (c := { s.reads r with pc := .returned erestartsys }) (iff_of_false id hnot))
      exact ⟨h'.fresh, h'.listed, h'.copying, h'.checking, h'.aborting, h'.withdrawn, h'.pending,
        h'.inUse, h'.left, h'.requested⟩
  | readDone r t' fault hr m hm =>
      obtain ⟨rfl, rfl⟩ := ho.of_readDone hr hm ht
      have h' := h.setTrans { s.trans m with inUse := 0 } rfl (fun _ => rfl)
        (fun _ hu => absurd rfl hu)
      exact ⟨h'.fresh, h'.listed, h'.copying, h'.checking, h'.aborting, h'.withdrawn, h'.pending,
        fun _ hu => absurd (by simp [State.setReadPc, State.setRead, clearInUse, State.wakeUpIf,
          State.setTrans]) hu, h'.left, h'.requested⟩
  | writeMiss w _ hfind => exact absurd (hfind.symm.trans ht) (by simp)
  | writeClaim w t' _ hfind =>
      obtain rfl : t = t' := Option.some.inj (Eq.trans (Eq.symm ht) hfind)
      exact h.claim hs w (List.mem_of_find?_eq_some hfind)
  | writeCopy w data fault t' hw m hm =>
      obtain ⟨rfl, rfl⟩ := ho.of_write (by rw [hw]; rfl) hm ht
      exact h.writeCopy hs hw _ _
  | writeDone w t' fault hw m hm =>
      obtain ⟨rfl, rfl⟩ := ho.of_write (by rw [hw]; rfl) hm ht
      have hdone : ∀ v, Flags ((s.setTrans m { s.trans m with
          inUse := 0, answered := 1 }).setWritePc w (.returned v)) m :=
        h.writeDone hs hw rfl rfl
      exact (hdone _).setAsleep _
  | _ => exact ht.elim

end Flags

end Uvfs.Driver
