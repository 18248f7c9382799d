import Uvfs.Driver.Lifetime

/-!
# The queue discipline

What the two lists promise, whatever serials the server writes, as long as no write works on a
transaction whose client is on its way out:

* `QueueDiscipline s` : a transaction is in the lists at most once; one that is enqueued and neither
  answered nor withdrawn has exactly one place; one whose client is past its last critical section
  is in neither list; requests are handed out at most once and in the order of enqueueing.
* `Effect.handsOut` : a step hands out nothing, or it is a read that takes the first request while
  `ShuttingDown` is not set.
* `late_reply_answers_queued_request` : a write that works on a transaction which is freed answers
  the next owner of the memory while that one is still queued.
* `queue_discipline` : the discipline holds in every run in which no write claims a transaction out
  of turn or copies over `in_use`.
-/

namespace Uvfs.Driver

open State Transition

variable {s s' : State} {a : Act} {t : TransId}

/-- The transaction is in exactly one list and no write works on it, or it is in neither list and
exactly one write works on it. -/
def State.Placed (s : State) (t : TransId) : Prop :=
  (t ∈ s.uvfsRequests ∧ t ∉ s.uvfsReplies ∧ ∀ w, ¬ (s.writes w).pc.Uses t) ∨
    (t ∉ s.uvfsRequests ∧ t ∈ s.uvfsReplies ∧ ∀ w, ¬ (s.writes w).pc.Uses t) ∨
    (t ∉ s.uvfsRequests ∧ t ∉ s.uvfsReplies ∧ ∃! w, (s.writes w).pc.Uses t)

/-- A read hands out the first request in this step. -/
def HandsOut (s : State) (a : Act) (s' : State) : Prop :=
  ∃ r pick t rest, a = .readLock r pick ∧ s.shuttingDown = false ∧ s.uvfsRequests = t :: rest ∧
    s'.handOutLog = s.handOutLog ++ [t] ∧ (s'.reads r).took = some t

/-- The discipline of the two lists. -/
structure QueueDiscipline (s : State) : Prop where
  /-- Each transaction occurs at most once in the two lists. -/
  nodup : (s.uvfsRequests ++ s.uvfsReplies).Nodup
  /-- A transaction that is enqueued and neither answered nor withdrawn has one place. -/
  placed : ∀ t ∈ s.enqueueLog, (s.clients t).pc ≠ .freed → (s.trans t).answered = 0 →
    (s.clients t).withdrawn = false → s.Placed t
  /-- When the client is past its last critical section its transaction is in neither list, and it
  leaves with an answer unless it has withdrawn. -/
  left : ∀ t, (s.clients t).pc.Past → ¬ s.Listed t ∧
    (t ∈ s.enqueueLog → (s.clients t).pc ≠ .freed → (s.clients t).withdrawn = false →
      (s.trans t).answered ≠ 0)
  /-- Nothing is handed out twice, and no two reads take the same transaction. -/
  once : s.handOutLog.Nodup ∧ (∀ r t, (s.reads r).took = some t → t ∈ s.handOutLog) ∧
    ∀ r r' t, (s.reads r).took = some t → (s.reads r').took = some t → r = r'
  /-- What has been handed out, and then what still waits, is in the order of enqueueing. -/
  order : (s.handOutLog ++ s.uvfsRequests).Sublist s.enqueueLog
  /-- What was skipped is withdrawn, or the last release has answered it. -/
  skipped : ∀ t ∈ s.enqueueLog, t ∉ s.handOutLog → t ∉ s.uvfsRequests →
    (s.clients t).pc ≠ .freed → (s.clients t).withdrawn = true ∨ (s.trans t).answered ≠ 0
  /-- Whatever a step hands out is the first request, given to the read that takes this step, and
  `ShuttingDown` is not set. -/
  handsOut : ∀ a s', step s a = some s' → s'.handOutLog = s.handOutLog ∨ HandsOut s a s'

/-- What a read hands out in the loop. -/
theorem ReadLoop.handsOut {r : ReadId} (pick : Option ReadId) (hl : ReadLoop s r s') :
    s'.handOutLog = s.handOutLog ∨ HandsOut s (.readLock r pick) s' := by
  cases hl with
  | shutdown => exact .inl rfl
  | sleep => exact .inl rfl
  | take t rest s₁ hsd hreq hw =>
      obtain ⟨reads, rfl, _⟩ := hw.exists_reads
      refine .inr ⟨r, pick, t, rest, rfl, hsd, hreq, rfl, ?_⟩
      simp [State.beginReadCopy, State.setRead]

/-- A step hands out nothing, or it is a read that takes the first request. -/
theorem Effect.handsOut (he : Effect s a s') :
    s'.handOutLog = s.handOutLog ∨ HandsOut s a s' := by
  cases he with
  | enqueued t pick s' _ _ hw =>
      obtain ⟨reads, rfl, _⟩ := hw.exists_reads
      exact .inl rfl
  | readLockFirst r pick s' _ hl => exact hl.handsOut pick
  | readLockAgain r pick s' _ _ hl => exact hl.handsOut pick
  | readPassOn r pick fault s₁ _ hw =>
      obtain ⟨reads, rfl, _⟩ := hw.exists_reads
      exact .inl rfl
  | ioctlShutdown f cmd mounted pick s' _ hw =>
      obtain ⟨reads, rfl, _⟩ := hw.exists_reads
      exact .inl rfl
  | _ => exact .inl rfl

/-- A transaction that is enqueued and neither answered nor withdrawn has one place. -/
theorem placed_of_pending (hs : Sound s) (h : Flags s t) (hlog : t ∈ s.enqueueLog)
    (hfreed : (s.clients t).pc ≠ .freed) (hans : (s.trans t).answered = 0)
    (hwd : (s.clients t).withdrawn = false) : s.Placed t := by
  have hnodup := (List.nodup_append.mp hs.nodup).2.2
  rcases h.pending hlog hfreed hwd hans with hl | ⟨w, hw⟩
  · have hfree : ∀ w, ¬ (s.writes w).pc.Uses t := fun w hw => hs.not_listed_of_write hw hl
    rcases hl with hm | hm
    · exact .inl ⟨hm, fun hm' => hnodup t hm t hm' rfl, hfree⟩
    · exact .inr (.inl ⟨fun hm' => hnodup t hm' t hm rfl, hm, hfree⟩)
  · obtain ⟨hreq, hrep⟩ := not_or.mp (hs.not_listed_of_write hw)
    exact .inr (.inr ⟨hreq, hrep, w, hw, fun w' hw' => hs.calls.write_inj w' w t hw' hw⟩)

/-- What was skipped is withdrawn or answered. -/
theorem skipped_of_pending (hs : Sound s) (h : Flags s t) (hlog : t ∈ s.enqueueLog)
    (hout : t ∉ s.handOutLog) (hreq : t ∉ s.uvfsRequests) (hfreed : (s.clients t).pc ≠ .freed) :
    (s.clients t).withdrawn = true ∨ (s.trans t).answered ≠ 0 := by
  by_contra hno
  obtain ⟨hwd, hans⟩ := not_or.mp hno
  rcases h.pending hlog hfreed (by simpa using hwd) (not_not.mp hans) with (hm | hm) | ⟨w, hw⟩
  · exact hreq hm
  · exact hout (hs.handedOut hm)
  · exact hout (hs.calls.write_log w t hw).1

/-- A killed client withdraws and frees its transaction while a write that has claimed it in between
is about to copy.  `kmalloc` gives the memory to the next client, which enqueues it; the write
copies its reply there and answers it, and `uvfs_make_request` returns with the transaction still in
`Uvfs_requests`.  The server has read the first request and answers it once. -/
theorem late_reply_answers_queued_request :
    ∃ s, Reachable (fun s a => RepliesToReads s a ∧ RepliesOnce s a) s ∧
      (s.clients 1).pc = .returned ∧ (s.clients 1).signalPending = false ∧ 1 ∈ s.uvfsRequests ∧
      (s.reads 0).took = some 0 ∧ (s.writes 0).answers = some 0 ∧ ¬ QueueDiscipline s := by
  obtain ⟨s, hs, hpc, hsig, hreq, htook, hans⟩ :=
    Reach.of_check step (fun s a => RepliesToReads s a ∧ RepliesOnce s a) State.init lateReplyRun
    (fun s => (s.clients 1).pc = .returned ∧ (s.clients 1).signalPending = false ∧
      1 ∈ s.uvfsRequests ∧ (s.reads 0).took = some 0 ∧ (s.writes 0).answers = some 0)
    (by decide +kernel)
  refine ⟨s, hs, hpc, hsig, hreq, htook, hans, fun h => ?_⟩
  exact (h.left 1 (by rw [hpc]; trivial)).1 (.inl hreq)

/-- **Queue discipline**: it holds in every run in which no write claims a transaction whose client
is past its unlocked test of `in_use` or that a read still works on, and no reply reaches over
`in_use`; for every number of clients and server calls and every interleaving of their steps. -/
theorem queue_discipline (h : Reachable ClaimsSafely s) : QueueDiscipline s := by
  have hs := Reachable.sound h
  obtain ⟨b, hb⟩ := hs.board
  refine ⟨hs.nodup, ?_, ?_, ⟨?_, hs.calls.took_log, hs.calls.took_inj⟩, ?_, ?_, ?_⟩
  · exact fun t hlog hfreed hans hwd =>
      placed_of_pending hs (Reachable.flags h t) hlog hfreed hans hwd
  · intro t hpast
    refine ⟨(Reachable.flags h t).not_listed hpast.not_enqueued, fun hlog hfreed hwd => ?_⟩
    refine (Reachable.flags h t).left hlog ?_ hwd
    revert hpast hfreed
    cases (s.clients t).pc <;> simp [ClientPc.Past]
  · rw [hb.given]
    exact b.given_nodup
  · rw [hb.given, hb.pending, hb.posted]
    exact b.order
  · exact fun t hlog hout hreq hfreed =>
      skipped_of_pending hs (Reachable.flags h t) hlog hout hreq hfreed
  · exact fun a s' hstep => (step_effect hstep).handsOut

/-- Two requests are enqueued, the first is handed out and its client then killed. -/
theorem queue_discipline_two : ∃ s, Reachable ClaimsSafely s ∧ s.uvfsRequests = [1] ∧
    s.handOutLog = [0] ∧ s.enqueueLog = [0, 1] ∧ (s.clients 0).withdrawn = true ∧
    QueueDiscipline s := by
  obtain ⟨s, hs, hp⟩ := Reach.of_check step ClaimsSafely State.init
    [.uvfsdOpen 0, .newTransaction .zeroed none, .newTransaction .zeroed none,
      .buildRequest 0 (getattrRequest 0), .buildRequest 1 (getattrRequest 1), .makeRequest 0 none,
      .makeRequest 1 none, .readEnter 0 sizeofUvfsRequestU, .readLock 0 none, .readCopy 0 none,
      .readDone 0, .readReturn 0, .kill 0, .waitSignal 0, .checkSignal 0]
    (fun s => s.uvfsRequests = [1] ∧ s.handOutLog = [0] ∧ s.enqueueLog = [0, 1] ∧
      (s.clients 0).withdrawn = true) (by decide +kernel)
  obtain ⟨h₁, h₂, h₃, h₄⟩ := hp
  exact ⟨s, hs, h₁, h₂, h₃, h₄, queue_discipline hs⟩

end Uvfs.Driver
