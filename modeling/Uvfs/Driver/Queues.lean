import Uvfs.Lib.Board
import Uvfs.Driver.Effect

/-!
# The two queues as a hand-over board

* `Logged` : what is in the log of enqueued transactions has been created and is past the first
  critical section of `uvfs_make_request`, so nothing is enqueued twice.
* `Owners` : a transaction that is in use or listed has its memory for itself.
* `Shows s b` : the two lists and the two logs of `s` are those of the board `b`.  `Effect.board`
  matches every step by a move of the board or by none, and `Reachable.board` has the run: the
  driver refines the board.
-/

namespace Uvfs.Driver

open State Transition

variable {s s' : State} {a : Act} {G : State → Act → Prop}

/-! ## The log of enqueued transactions -/

/-- A logged transaction exists and its caller is past the enqueueing. -/
structure Logged (s : State) : Prop where
  lt : ∀ t, (s.clients t).pc ≠ .freed → t < s.nTrans
  log : ∀ t ∈ s.enqueueLog, t < s.nTrans ∧ ¬ (s.clients t).pc.HalfStarted

namespace Logged

theorem init : Logged State.init where
  lt _ h := absurd rfl h
  log _ h := absurd h List.not_mem_nil

/-- A client may move as long as it neither comes back from `kfree` nor starts again. -/
theorem setClient (h : Logged s) {t : TransId} {c : Client}
    (hf : (s.clients t).pc ≠ .freed)
    (hh : c.pc.HalfStarted → (s.clients t).pc.HalfStarted) : Logged (s.setClient t c) := by
  refine ⟨fun t' ht' => ?_, fun t' ht' => ⟨(h.log t' ht').1, fun hs => ?_⟩⟩
  · simp only [State.setClient, Function.update_apply] at ht' ⊢
    split_ifs at ht' with htt
    · exact htt ▸ h.lt t hf
    · exact h.lt t' ht'
  · simp only [State.setClient, Function.update_apply] at hs
    split_ifs at hs with htt
    · exact (h.log t' ht').2 (htt ▸ hh hs)
    · exact (h.log t' ht').2 hs

/-- Moving a client past the enqueueing. -/
theorem setClientPc (h : Logged s) {t : TransId} {pc : ClientPc}
    (hf : (s.clients t).pc ≠ .freed) (hh : ¬ pc.HalfStarted) : Logged (s.setClientPc t pc) :=
  h.setClient hf fun hs => absurd hs hh

theorem woke (h : Logged s) (hw : Woke s s') : Logged s' := by
  obtain ⟨reads, rfl, _⟩ := hw.exists_reads
  exact ⟨h.lt, h.log⟩

theorem readLoop (h : Logged s) {r : ReadId} (hl : ReadLoop s r s') : Logged s' := by
  cases hl with
  | shutdown => exact ⟨h.lt, h.log⟩
  | sleep => exact ⟨h.lt, h.log⟩
  | take t rest s₁ _ _ hw =>
      have h₁ : Logged s₁ := Logged.woke (s := s.handOut t rest) ⟨h.lt, h.log⟩ hw
      exact ⟨h₁.lt, h₁.log⟩

theorem enqueue (h : Logged s) {t : TransId} (ht : (s.clients t).pc = .built) :
    Logged (s.enqueue t) := by
  have hf : (s.clients t).pc ≠ .freed := by rw [ht]; decide
  have h' : Logged (s.setClientPc t .waiting) := h.setClientPc hf id
  refine ⟨h'.lt, fun t' ht' => ?_⟩
  rcases List.mem_append.mp ht' with ht' | ht'
  · exact h'.log t' ht'
  · rw [List.mem_singleton] at ht'
    subst ht'
    refine ⟨h.lt t' hf, ?_⟩
    simp [State.enqueue, State.setClientPc, State.setClient, ClientPc.HalfStarted]

theorem unlinkAborted (h : Logged s) {t : TransId} (hf : (s.clients t).pc ≠ .freed) :
    Logged (s.unlinkAborted t) :=
  Logged.setClient (s := (s.listDelInit t).setTrans t _) ⟨h.lt, h.log⟩ hf fun hs => hs.elim

theorem newTransaction (h : Logged s) (junk : Transaction) (old : Option TransId) :
    Logged (s.addTransaction junk old) := by
  refine ⟨fun t ht => ?_, fun t ht => ?_⟩
  · simp only [addTransaction, Function.update_apply] at ht ⊢
    split_ifs at ht with htt
    · exact htt ▸ Nat.lt_succ_self _
    · exact Nat.lt_succ_of_lt (h.lt t ht)
  · obtain ⟨hlt, hh⟩ := h.log t ht
    refine ⟨Nat.lt_succ_of_lt hlt, ?_⟩
    simpa [addTransaction, Function.update_of_ne (Nat.ne_of_lt hlt)] using hh

/-- Every step keeps the log. -/
theorem step (h : Logged s) (he : Effect s a s') : Logged s' := by
  cases he with
  | newTransaction junk old _ => exact h.newTransaction junk old
  | buildRequest t req ht _ =>
      exact Logged.setClient (s := s.setTrans t _) ⟨h.lt, h.log⟩
        (by rw [State.setTrans, ht]; decide)
        fun _ => by rw [State.setTrans, ht]; trivial
  | refused t pick ht _ =>
      exact Logged.setClientPc (s := s.setTrans t _) ⟨h.lt, h.log⟩
        (by rw [State.setTrans, ht]; decide) id
  | enqueued t pick s' ht _ hw => exact (h.enqueue ht).woke hw
  | kill t ht =>
      exact Logged.setClient (s := s.wakeUpIf ((s.clients t).pc = .waiting) t) ⟨h.lt, h.log⟩ ht id
  | waitAnswered t ht _ | waitSignal t ht _ | checkLeave t ht _ | waitUnused t ht _ | leave t ht
  | kfree t ht =>
      exact h.setClientPc (by rw [ht]; decide) id
  | checkAbort t ht _ _ =>
      exact Logged.setClientPc (s := s.setTrans t _) ⟨h.lt, h.log⟩
        (by rw [State.setTrans, ht]; decide) id
  | checkUnlink t ht _ _ | withdraw t ht => exact h.unlinkAborted (by rw [ht]; decide)
  | readLockFirst r pick s' _ hl => exact h.readLoop hl
  | readLockAgain r pick s' _ _ hl =>
      exact Logged.readLoop (s := { s with uvfsDriverQueue := s.uvfsDriverQueue.erase r })
        ⟨h.lt, h.log⟩ hl
  | readPassOn r pick fault s₁ _ hw =>
      have h₁ := h.woke hw
      exact ⟨h₁.lt, h₁.log⟩
  | ioctlShutdown f cmd mounted pick s' _ hw =>
      exact Logged.woke (s := { s with shuttingDown := true }) ⟨h.lt, h.log⟩ hw
  | _ => exact ⟨h.lt, h.log⟩

end Logged

/-- In every reachable state the log holds what has been enqueued. -/
theorem Reachable.logged (h : Reachable G s) : Logged s :=
  Reach.invariant Logged.init (fun _ _ _ hf _ hs => hf.step (step_effect hs)) h

/-! ## Whose memory it is -/

/-- The memory of a transaction is its own until its caller has freed it, and as long as it is
listed; after that it may be the memory of another transaction that exists. -/
structure Owners (s : State) : Prop where
  live : ∀ t, (s.clients t).pc ≠ .freed → s.owner t = t
  listed : ∀ t, s.Listed t → s.owner t = t
  fresh : ∀ t, s.nTrans ≤ t → s.owner t = t
  lt : ∀ t < s.nTrans, s.owner t < s.nTrans

namespace Owners

theorem init : Owners State.init where
  live _ _ := rfl
  listed _ _ := rfl
  fresh _ _ := rfl
  lt t ht := absurd ht (Nat.not_lt_zero t)

/-- Nobody comes back from `kfree`, and what is listed was listed or is in use. -/
theorem keep (h : Owners s) (howner : s'.owner = s.owner) (hn : s'.nTrans = s.nTrans)
    (hlive : ∀ t, (s'.clients t).pc ≠ .freed → (s.clients t).pc ≠ .freed)
    (hlisted : ∀ t, s'.Listed t → s.Listed t ∨ (s.clients t).pc ≠ .freed) : Owners s' where
  live t ht := by
    rw [howner]
    exact h.live t (hlive t ht)
  listed t ht := by
    rw [howner]
    exact (hlisted t ht).elim (h.listed t) (h.live t)
  fresh t ht := by
    rw [howner]
    exact h.fresh t (hn ▸ ht)
  lt t ht := by
    rw [howner, hn]
    exact h.lt t (hn ▸ ht)

/-- A client moves that has not freed its transaction. -/
theorem setClient (h : Owners s) {t : TransId} (c : Client) (hf : (s.clients t).pc ≠ .freed) :
    Owners (s.setClient t c) := by
  refine h.keep rfl rfl (fun t' ht' => ?_) fun _ => .inl
  by_cases htt : t' = t
  · exact htt ▸ hf
  · simpa only [State.setClient, Function.update_of_ne htt] using ht'

theorem woke (h : Owners s) (hw : Woke s s') : Owners s' := by
  obtain ⟨reads, rfl, _⟩ := hw.exists_reads
  exact ⟨h.live, h.listed, h.fresh, h.lt⟩

/-- Handing out moves a transaction from one list to the other. -/
theorem readLoop (h : Owners s) {r : ReadId} (hl : ReadLoop s r s') : Owners s' := by
  cases hl with
  | shutdown => exact ⟨h.live, h.listed, h.fresh, h.lt⟩
  | sleep => exact ⟨h.live, h.listed, h.fresh, h.lt⟩
  | take t rest s₁ _ hreq hw =>
      have h₀ : Owners (s.handOut t rest) := by
        refine h.keep rfl rfl (fun _ => id) fun t' ht' => .inl ?_
        rcases ht' with ht' | ht'
        · exact .inl (hreq ▸ List.mem_cons_of_mem t ht')
        · rcases List.mem_append.mp ht' with ht' | ht'
          · exact .inr ht'
          · exact .inl (by simp [hreq, List.mem_singleton.mp ht'])
      have h₁ := h₀.woke hw
      exact ⟨h₁.live, h₁.listed, h₁.fresh, h₁.lt⟩

/-- What is left in the lists was listed. -/
theorem listDelInit (h : Owners s) (t : TransId) : Owners (s.listDelInit t) :=
  h.keep rfl rfl (fun _ => id) fun _ ht' =>
    .inl (ht'.imp List.mem_of_mem_erase List.mem_of_mem_erase)

theorem enqueue (h : Owners s) {t : TransId} (hf : (s.clients t).pc ≠ .freed) :
    Owners (s.enqueue t) := by
  have h₁ : Owners (s.setClientPc t .waiting) := h.setClient _ hf
  refine ⟨h₁.live, fun t' ht' => ?_, h₁.fresh, h₁.lt⟩
  rcases ht' with ht' | ht'
  · rcases List.mem_append.mp ht' with ht' | ht'
    · exact h.listed t' (.inl ht')
    · rw [List.mem_singleton.mp ht']
      exact h.live t hf
  · exact h.listed t' (.inr ht')

/-- The memory that `kmalloc` returns was free and unlinked. -/
theorem newTransaction (h : Owners s) (junk : Transaction) {old : Option TransId}
    (hold : ∀ t ∈ old, s.Reusable t) : Owners (s.addTransaction junk old) := by
  have hkept : ∀ t, s.owner t = t → ¬ s.Reusable t → (s.addTransaction junk old).owner t = t := by
    intro t ht hno
    have hne : some (s.owner t) ≠ old := fun he => hno (hold t (ht ▸ he.symm))
    exact (if_neg hne).trans ht
  refine ⟨fun t ht => ?_, fun t ht => ?_, fun t ht => ?_, fun t ht => ?_⟩
  · by_cases htn : t = s.nTrans
    · subst htn
      exact hkept _ (h.fresh _ le_rfl) fun hre => lt_irrefl _ hre.2.1
    · have ht' : (s.clients t).pc ≠ .freed := by
        simpa only [addTransaction, Function.update_of_ne htn] using ht
      exact hkept t (h.live t ht') fun hre => ht' hre.1
  · exact hkept t (h.listed t ht) fun hre => hre.2.2.2 ht
  · have hle : s.nTrans ≤ t := (Nat.le_succ _).trans ht
    exact hkept t (h.fresh t hle) fun hre => absurd hre.2.1 (not_lt.mpr hle)
  · simp only [addTransaction]
    split_ifs
    · exact Nat.lt_succ_self _
    · rcases Nat.lt_succ_iff_lt_or_eq.mp ht with hlt | rfl
      · exact Nat.lt_succ_of_lt (h.lt t hlt)
      · rw [h.fresh _ le_rfl]
        exact Nat.lt_succ_self _

/-- Every step keeps the owners. -/
theorem step (h : Owners s) (he : Effect s a s') : Owners s' := by
  cases he with
  | releaseLast f _ _ _ =>
      exact ⟨h.live, fun t ht => absurd ht (not_or.mpr ⟨List.not_mem_nil, List.not_mem_nil⟩),
        h.fresh, h.lt⟩
  | newTransaction junk old hold => exact h.newTransaction junk hold
  | buildRequest t req ht _ =>
      exact Owners.setClient (s := s.setTrans t _) ⟨h.live, h.listed, h.fresh, h.lt⟩ _
        (by rw [State.setTrans, ht]; decide)
  | refused t pick ht _ =>
      exact Owners.setClient (s := s.setTrans t _) ⟨h.live, h.listed, h.fresh, h.lt⟩ _
        (by rw [State.setTrans, ht]; decide)
  | enqueued t pick s' ht _ hw => exact (h.enqueue (by rw [ht]; decide)).woke hw
  | kill t ht =>
      exact Owners.setClient (s := s.wakeUpIf ((s.clients t).pc = .waiting) t)
        ⟨h.live, h.listed, h.fresh, h.lt⟩ _ ht
  | waitAnswered t ht _ | waitSignal t ht _ | checkLeave t ht _ | waitUnused t ht _ | leave t ht
  | kfree t ht => exact h.setClient _ (by rw [ht]; decide)
  | checkAbort t ht _ _ =>
      exact Owners.setClient (s := s.setTrans t _) ⟨h.live, h.listed, h.fresh, h.lt⟩ _
        (by rw [State.setTrans, ht]; decide)
  | checkUnlink t ht _ _ | withdraw t ht =>
      have h₁ := h.listDelInit t
      exact Owners.setClient (s := (s.listDelInit t).setTrans t _)
        ⟨h₁.live, h₁.listed, h₁.fresh, h₁.lt⟩ _
        (by rw [State.setTrans, State.listDelInit, ht]; decide)
  | readLockFirst r pick s' _ hl => exact h.readLoop hl
  | readLockAgain r pick s' _ _ hl =>
      exact Owners.readLoop (s := { s with uvfsDriverQueue := s.uvfsDriverQueue.erase r })
        ⟨h.live, h.listed, h.fresh, h.lt⟩ hl
  | readPassOn r pick fault s₁ _ hw =>
      have h₁ := h.woke hw
      exact ⟨h₁.live, h₁.listed, h₁.fresh, h₁.lt⟩
  | writeClaim w t _ _ =>
      have h₁ := h.listDelInit t
      exact ⟨h₁.live, h₁.listed, h₁.fresh, h₁.lt⟩
  | ioctlShutdown f cmd mounted pick s' _ hw =>
      exact Owners.woke (s := { s with shuttingDown := true }) ⟨h.live, h.listed, h.fresh, h.lt⟩ hw
  | _ => exact ⟨h.live, h.listed, h.fresh, h.lt⟩

end Owners

/-- In every reachable state what is in use or listed has its memory for itself. -/
theorem Reachable.owners (h : Reachable G s) : Owners s :=
  Reach.invariant Owners.init (fun _ _ _ ho _ hs => ho.step (step_effect hs)) h

/-! ## The board -/

/-- The lists and logs of the driver are those of the board. -/
structure Shows (s : State) (b : Board TransId) : Prop where
  posted : s.enqueueLog = b.posted
  pending : s.uvfsRequests = b.pending
  given : s.handOutLog = b.given
  outstanding : s.uvfsReplies = b.outstanding

namespace Shows

variable {b : Board TransId}

theorem init : Shows State.init Board.empty := ⟨rfl, rfl, rfl, rfl⟩

theorem woke (h : Shows s b) (hw : Woke s s') : Shows s' b := by
  obtain ⟨reads, rfl, _⟩ := hw.exists_reads
  exact ⟨h.posted, h.pending, h.given, h.outstanding⟩

/-- `list_del_init` takes the job off the board. -/
theorem listDelInit (h : Shows s b) (t : TransId) : Shows (s.listDelInit t) (b.drop t) where
  posted := h.posted
  pending := congrArg (List.erase · t) h.pending
  given := h.given
  outstanding := congrArg (List.erase · t) h.outstanding

/-- The loop of `uvfsd_read` hands out the first job or does nothing to the board. -/
theorem readLoop (h : Shows s b) {r : ReadId} (hl : ReadLoop s r s') :
    ∃ b', Shows s' b' ∧ (b' = b ∨ Board.Move b b') := by
  cases hl with
  | shutdown => exact ⟨b, ⟨h.posted, h.pending, h.given, h.outstanding⟩, .inl rfl⟩
  | sleep => exact ⟨b, ⟨h.posted, h.pending, h.given, h.outstanding⟩, .inl rfl⟩
  | take t rest s₁ _ hr hw =>
      have hp : b.pending = t :: rest := h.pending ▸ hr
      have h₁ : Shows s₁ (b.give t rest hp) := Shows.woke (s := s.handOut t rest)
        ⟨h.posted, rfl, congrArg (· ++ [t]) h.given, congrArg (· ++ [t]) h.outstanding⟩ hw
      exact ⟨_, ⟨h₁.posted, h₁.pending, h₁.given, h₁.outstanding⟩, .inr (.give b t rest hp)⟩

end Shows

/-- **Every step is a move of the board or none.** -/
theorem Effect.board {b : Board TransId} (hl : Logged s) (h : Shows s b) (he : Effect s a s') :
    ∃ b', Shows s' b' ∧ (b' = b ∨ Board.Move b b') := by
  cases he with
  | releaseLast f _ _ _ => exact ⟨b.clear, ⟨h.posted, rfl, h.given, rfl⟩, .inr (.clear b)⟩
  | enqueued t pick s' ht _ hw =>
      have hnew : t ∉ b.posted := by
        intro hm
        refine (hl.log t (h.posted ▸ hm)).2 ?_
        rw [ht]
        trivial
      have h₁ : Shows (s.enqueue t) (b.post t hnew) :=
        ⟨congrArg (· ++ [t]) h.posted, congrArg (· ++ [t]) h.pending, h.given, h.outstanding⟩
      exact ⟨_, h₁.woke hw, .inr (.post b t hnew)⟩
  | checkUnlink t _ _ _ | withdraw t _ =>
      have h₁ := h.listDelInit t
      exact ⟨_, ⟨h₁.posted, h₁.pending, h₁.given, h₁.outstanding⟩, .inr (.drop b t)⟩
  | writeClaim w t _ _ =>
      have h₁ := h.listDelInit t
      exact ⟨_, ⟨h₁.posted, h₁.pending, h₁.given, h₁.outstanding⟩, .inr (.drop b t)⟩
  | readLockFirst r pick s' _ hr => exact h.readLoop hr
  | readLockAgain r pick s' _ _ hr =>
      exact Shows.readLoop (s := { s with uvfsDriverQueue := s.uvfsDriverQueue.erase r })
        ⟨h.posted, h.pending, h.given, h.outstanding⟩ hr
  | readPassOn r pick fault s₁ _ hw =>
      have h₁ := h.woke hw
      exact ⟨b, ⟨h₁.posted, h₁.pending, h₁.given, h₁.outstanding⟩, .inl rfl⟩
  | ioctlShutdown f cmd mounted pick s' _ hw =>
      exact ⟨b, Shows.woke (s := { s with shuttingDown := true })
        ⟨h.posted, h.pending, h.given, h.outstanding⟩ hw, .inl rfl⟩
  | _ => exact ⟨b, ⟨h.posted, h.pending, h.given, h.outstanding⟩, .inl rfl⟩

/-- **The driver refines the board**: the lists and logs of every reachable state are those of a
board that its moves lead to. -/
theorem Reachable.board (h : Reachable G s) :
    ∃ b, Shows s b ∧ Relation.ReflTransGen Board.Move Board.empty b :=
  Reach.simulate Shows.init
    (fun _ _ _ _ hr hb _ hs => (step_effect hs).board (Reachable.logged hr) hb) h

end Uvfs.Driver
