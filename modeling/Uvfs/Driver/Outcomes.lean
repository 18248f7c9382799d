import Uvfs.Driver.Lifetime
import Uvfs.Driver.Intact

/-!
# What a client finds when it returns

To the functions of the file system `uvfs_make_request` is a remote call: a request goes in and the
same memory comes back with a reply in it.  Between the two stand a read, a write, a release that
may come in between and a signal that may come at any time.  Here the whole call is put together.

* `Reply`, `copies t tr` : the replies that were copied into `t` in a run.
* `outcome req reply withdrawn` : what the caller is told to expect, from the request, at most one
  reply and whether it was interrupted.
* `Open s t` : the transaction still holds its request.
* `Told s t cs` : how far the call has come, with the copies so far; `Told.step`.
* `client_finds_one_outcome` : at most one reply is copied, and the client finds the outcome.
* `Effect.client_of_other`, `Effect.freed` : what the steps of others leave of a client.
-/

namespace Uvfs.Driver

open State Transition

variable {s s' : State} {a : Act} {t : TransId} {w : WriteId}

/-! ## Outcomes -/

/-- A reply: how many bytes of the union it covers, and the bytes. -/
structure Reply where
  /-- How many bytes. -/
  size : ℕ
  /-- The bytes. -/
  data : Mem

/-- The union after the call.  Without a reply the driver has said `-EIO`, because no server was
there or the last one went away; an interrupted client has said `-ERESTARTSYS` itself, over whatever
was there. -/
def outcome (request : Mem) (reply : Option Reply) (withdrawn : Bool) : Mem :=
  let m := match reply with
    | none => request.setWord offsetofError (BitVec.ofInt 32 eio)
    | some c => request.overlay 0 c.size c.data
  if withdrawn then m.setWord offsetofError (BitVec.ofInt 32 erestartsys) else m

/-- The reply that a step copies into the memory of `t`. -/
def copyOf (t : TransId) (s : State) : Act → Option Reply
  | .writeCopy w data fault =>
      match (s.writes w).pc with
      | .copying t' =>
          if s.owner t' = t then some ⟨min (s.writes w).size.toNat sizeofU, userBytes data fault⟩
          else none
      | _ => none
  | _ => none

/-- The replies that were copied into `t`, the last one first. -/
def copies (t : TransId) (tr : List (Taken State Act)) : List Reply :=
  tr.filterMap fun k => copyOf t k.pre k.act

@[simp] theorem copies_nil (t : TransId) : copies t [] = [] := rfl

theorem copies_cons (t : TransId) (k : Taken State Act) (tr : List (Taken State Act)) :
    copies t (k :: tr) = (copyOf t k.pre k.act).toList ++ copies t tr := by
  unfold copies
  cases h : copyOf t k.pre k.act with
  | none => simp [h]
  | some c => simp [h]

/-- A copied reply comes from a write that works on the memory of the transaction. -/
theorem exists_of_copyOf {c : Reply} (h : copyOf t s a = some c) : ∃ w data fault t',
    a = .writeCopy w data fault ∧ (s.writes w).pc = .copying t' ∧ s.owner t' = t ∧
      c = ⟨min (s.writes w).size.toNat sizeofU, userBytes data fault⟩ := by
  cases a with
  | writeCopy w data fault =>
      simp only [copyOf] at h
      split at h
      · rename_i t' hpc
        split_ifs at h with hm
        exact ⟨w, data, fault, t', rfl, hpc, hm, (Option.some.inj h).symm⟩
      · cases h
  | _ => cases h

/-- A step that leaves `t` alone copies nothing into it. -/
theorem copyOf_eq_none (ht : ¬ Touches s a t) : copyOf t s a = none := by
  refine Option.eq_none_iff_forall_ne_some.mpr fun c hc => ?_
  obtain ⟨w, data, fault, t', rfl, hpc, hm, -⟩ := exists_of_copyOf hc
  exact ht ⟨t', by rw [hpc]; rfl, .inr hm.symm⟩

/-! ## How far a call has come -/

/-- The transaction still holds its request: it is built, listed, or claimed by a write that has not
copied. -/
def Open (s : State) (t : TransId) : Prop :=
  (s.clients t).pc = .built ∨ s.Listed t ∨ ∃ w, (s.writes w).pc = .copying t

/-- How far the call of `t` has come, when `cs` are the copies so far. -/
structure Told (s : State) (t : TransId) (cs : List Reply) : Prop where
  fresh : t ∉ s.enqueueLog → cs = []
  opened : (s.clients t).pc ≠ .freed → Open s t →
    cs = [] ∧ (s.trans t).u = (s.clients t).request ∧ (s.clients t).withdrawn = false
  closed : (s.clients t).pc ≠ .created → (s.clients t).pc ≠ .freed → ¬ Open s t →
    ∃ reply : Option Reply, cs = reply.toList ∧
      (s.trans t).u = outcome (s.clients t).request reply (s.clients t).withdrawn

namespace Told

variable {cs : List Reply}

theorem init (t : TransId) : Told State.init t [] where
  fresh _ := rfl
  opened h _ := absurd rfl h
  closed _ h _ := absurd rfl h

/-- A step that leaves `t` alone. -/
theorem frame (h : Told s t cs) (hf : Frame s s' t) : Told s' t cs := by
  have hopen : Open s' t ↔ Open s t := by
    unfold Open
    rw [hf.client, hf.listed]
    refine or_congr Iff.rfl (or_congr Iff.rfl (exists_congr fun w => ?_))
    constructor
    · intro hw
      rw [← hf.writes w (.inr (by rw [hw]; rfl))]
      exact hw
    · intro hw
      rw [hf.writes w (.inl (by rw [hw]; rfl))]
      exact hw
  refine ⟨?_, ?_, ?_⟩
  · rw [hf.log]
    exact h.fresh
  · rw [hopen, hf.client, hf.trans]
    exact h.opened
  · rw [hopen, hf.client, hf.trans]
    exact h.closed

/-- The wait queue of the readers plays no part. -/
theorem driverQueue (h : Told s t cs) (q : List ReadId) :
    Told { s with uvfsDriverQueue := q } t cs := ⟨h.fresh, h.opened, h.closed⟩

/-- The request of a client that has not started is not in the log. -/
theorem eq_nil_of_halfStarted (hs : Sound s) (h : Told s t cs)
    (hp : (s.clients t).pc.HalfStarted) : cs = [] :=
  h.fresh fun hm => (hs.logged.log t hm).2 hp

/-- The transaction keeps its request. -/
theorem of_open (hfresh : t ∉ s.enqueueLog → cs = []) (hopen : Open s t) (hnil : cs = [])
    (hu : (s.trans t).u = (s.clients t).request) (hwd : (s.clients t).withdrawn = false) :
    Told s t cs :=
  ⟨hfresh, fun _ _ => ⟨hnil, hu, hwd⟩, fun _ _ hno => absurd hopen hno⟩

/-- The outcome is there. -/
theorem of_closed (hfresh : t ∉ s.enqueueLog → cs = []) (hopen : ¬ Open s t)
    (reply : Option Reply) (hcs : cs = reply.toList)
    (hu : (s.trans t).u = outcome (s.clients t).request reply (s.clients t).withdrawn) :
    Told s t cs :=
  ⟨hfresh, fun _ h => absurd h hopen, fun _ _ _ => ⟨reply, hcs, hu⟩⟩

/-- The client moves on, past the building of the request. -/
theorem move (h : Told s t cs) (hlog : s'.enqueueLog = s.enqueueLog)
    (hu : (s'.trans t).u = (s.trans t).u) (hopen : Open s' t ↔ Open s t)
    (hreq : (s'.clients t).request = (s.clients t).request)
    (hwd : (s'.clients t).withdrawn = (s.clients t).withdrawn)
    (hcreated : (s.clients t).pc ≠ .created) (hfreed : (s.clients t).pc ≠ .freed) :
    Told s' t cs := by
  refine ⟨?_, fun _ ho => ?_, fun _ _ hno => ?_⟩
  · rw [hlog]
    exact h.fresh
  · rw [hu, hreq, hwd]
    exact h.opened hfreed (hopen.mp ho)
  · rw [hu, hreq, hwd]
    exact h.closed hcreated hfreed (hopen.not.mp hno)

/-- An interrupted client says `-ERESTARTSYS`, whether there was a reply or not. -/
theorem interrupted (h : Told s t cs) (hcreated : (s.clients t).pc ≠ .created)
    (hfreed : (s.clients t).pc ≠ .freed) (hwd : (s.clients t).withdrawn = false) :
    ∃ reply : Option Reply, cs = reply.toList ∧
      (s.trans t).u.setWord offsetofError (BitVec.ofInt 32 erestartsys) =
        outcome (s.clients t).request reply true := by
  by_cases hopen : Open s t
  · obtain ⟨hnil, hu, _⟩ := h.opened hfreed hopen
    refine ⟨none, hnil, ?_⟩
    rw [hu]
    exact (Mem.setWord_setWord _ _ _ _).symm
  · obtain ⟨reply, hcs, hu⟩ := h.closed hcreated hfreed hopen
    refine ⟨reply, hcs, ?_⟩
    rw [hu, hwd]
    rfl

/-- No write works on a transaction that is not in the log. -/
theorem not_copying_of_not_logged (hs : Sound s) (hlog : t ∉ s.enqueueLog) (w : WriteId) :
    (s.writes w).pc ≠ .copying t := fun hw =>
  hlog (hs.enqueued_of_held (.inr ⟨w, by rw [hw]; rfl⟩))

/-- The client withdraws a transaction that nobody works on. -/
theorem unlinkAborted (hs : Sound s) (hheld : ¬ s.Held t) (h : Told s t cs)
    (hp : (s.clients t).pc.Enqueued) (hwd : (s.clients t).withdrawn = false) :
    Told (s.unlinkAborted t) t cs := by
  have hcreated : (s.clients t).pc ≠ .created := fun h => by rw [h] at hp; exact hp
  have hfreed : (s.clients t).pc ≠ .freed := fun h => by rw [h] at hp; exact hp
  obtain ⟨reply, hcs, hu⟩ := h.interrupted hcreated hfreed hwd
  refine of_closed h.fresh ?_ reply hcs ?_
  · rintro (hb | (hm | hm) | ⟨w, hw⟩)
    · simp [State.unlinkAborted, State.setClient] at hb
    · exact hs.requests_nodup.not_mem_erase hm
    · exact hs.replies_nodup.not_mem_erase hm
    · exact hheld (.inr ⟨w, by rw [show (s.writes w).pc = .copying t from hw]; rfl⟩)
  · simpa [State.unlinkAborted, State.setClient, State.setTrans, Transaction.setError] using hu

/-- The read at the head of `Uvfs_requests` takes the transaction; it stays listed. -/
theorem readLoop (hfl : Flags s t) (h : Told s t cs) {r : ReadId}
    (ht : s.uvfsRequests.head? = some t) (hl : ReadLoop s r s') : Told s' t cs := by
  cases hl with
  | shutdown => exact ⟨h.fresh, h.opened, h.closed⟩
  | sleep => exact ⟨h.fresh, h.opened, h.closed⟩
  | take t' rest s₁ _ hreq hw =>
      obtain ⟨reads, rfl, -⟩ := hw.exists_reads
      obtain rfl : t' = t := by
        rw [hreq] at ht
        exact Option.some.inj ht
      have hm : t' ∈ s.uvfsRequests := by rw [hreq]; exact .head _
      have hpc := (hfl.listed (.inl hm)).1
      have hfreed : (s.clients t').pc ≠ .freed := fun h => by rw [h] at hpc; exact hpc
      obtain ⟨hnil, hu, hwd⟩ := h.opened hfreed (.inr (.inl (.inl hm)))
      refine of_open h.fresh (.inr (.inl (.inr ?_))) hnil ?_ hwd
      · exact List.mem_append_right _ (List.mem_singleton_self t')
      · simpa [State.beginReadCopy, State.setRead, State.setTrans, State.handOut] using hu

/-- A write claims the transaction; it has not copied. -/
theorem claim (hfl : Flags s t) (h : Told s t cs) (w : WriteId) (hm : t ∈ s.uvfsReplies) :
    Told (s.beginWriteCopy w t) t cs := by
  have hpc := (hfl.listed (.inr hm)).1
  have hfreed : (s.clients t).pc ≠ .freed := fun h => by rw [h] at hpc; exact hpc
  obtain ⟨hnil, hu, hwd⟩ := h.opened hfreed (.inr (.inl (.inr hm)))
  refine of_open h.fresh (.inr (.inr ⟨w, ?_⟩)) hnil ?_ hwd
  · simp [State.beginWriteCopy, State.setWrite]
  · simpa [State.beginWriteCopy, State.setWrite, State.setTrans, State.listDelInit] using hu

/-- Once a write has copied, nobody holds the request any more. -/
theorem not_open_of_copied (hs : Sound s) (hg : Guarded s t)
    (hw : (s.writes w).pc.Uses t) {tr : Transaction} {pc : WritePc} (hpc : pc ≠ .copying t) :
    ¬ Open ((s.setTrans t tr).setWritePc w pc) t := by
  rintro (hb | hl | ⟨w', hw'⟩)
  · have hwaits := (hg.held (.inr ⟨w, hw⟩)).2.2
    rw [show (s.clients t).pc = .built from hb] at hwaits
    exact hwaits
  · exact hs.not_listed_of_write hw hl
  · by_cases hww : w' = w
    · subst hww
      exact hpc (by simpa [State.setWritePc, State.setWrite] using hw')
    · simp only [State.setWritePc, State.setWrite, State.setTrans, Function.update_of_ne hww] at hw'
      exact hww (hs.calls.write_inj w' w t (by rw [hw']; rfl) hw)

/-- The copy closes the transaction with the reply. -/
theorem writeCopy (hs : Sound s) (hg : Guarded s t) (h : Told s t cs)
    (hw : (s.writes w).pc = .copying t) (data : Mem) (fault : Bool) :
    Told ((s.setTrans t ((s.trans t).copyFromUser (s.writes w).size.toNat data)).setWritePc w
      (.copied t fault)) t (⟨min (s.writes w).size.toNat sizeofU, data⟩ :: cs) := by
  have huses : (s.writes w).pc.Uses t := by rw [hw]; rfl
  have hwaits := (hg.held (.inr ⟨w, huses⟩)).2.2
  have hfreed : (s.clients t).pc ≠ .freed := fun h => by rw [h] at hwaits; exact hwaits
  obtain ⟨rfl, hu, hwd⟩ := h.opened hfreed (.inr (.inr ⟨w, hw⟩))
  refine of_closed (fun hlog => absurd (hs.enqueued_of_held (.inr ⟨w, huses⟩)) hlog)
    (not_open_of_copied hs hg huses (by simp))
    (some ⟨min (s.writes w).size.toNat sizeofU, data⟩) rfl ?_
  simp [State.setWritePc, State.setWrite, State.setTrans, Transaction.copyFromUser, outcome, hu,
    hwd]

/-- Every step that meets the guard takes the call further, and what it copies is counted. -/
theorem step (hs : Sound s) (ho : Owned s) (hfl : Flags s t) (hg : Guarded s t) (h : Told s t cs)
    (he : Effect s a s') : Told s' t ((copyOf t s a).toList ++ cs) := by
  by_cases ht : Touches s a t
  swap
  · rw [copyOf_eq_none ht]
    exact h.frame (he.frame hs.files ht)
  -- a client that is enqueued has not withdrawn
  have hstays : (s.clients t).pc.Enqueued → (s.clients t).withdrawn = false := fun hp => by
    by_contra hwd
    exact (hfl.withdrawn (by simpa using hwd)).not_enqueued hp
  cases he with
  | release f _ _ hne => exact absurd ht.1 hne
  | releaseLast f hf hb hc =>
      have hl := ht.2
      have hpc := (hfl.listed hl).1
      have hfreed : (s.clients t).pc ≠ .freed := fun h => by rw [h] at hpc; exact hpc
      obtain ⟨rfl, hu, hwd⟩ := h.opened hfreed (.inr (.inl hl))
      have htrans := drain_trans_of_listed
        (s := { s with opened := s.opened.erase f, uvfsUseCount := s.uvfsUseCount - 1 }) hs.nodup
        hl
      refine of_closed (fun _ => rfl) ?_ none rfl ?_
      · rintro (hb | (hm | hm) | ⟨w, hw⟩)
        · rw [show (s.clients t).pc = .built from hb] at hpc
          exact hpc
        · exact absurd hm List.not_mem_nil
        · exact absurd hm List.not_mem_nil
        · exact hs.not_held_of_last hf hb hc (.inr ⟨w, by
            rw [show (s.writes w).pc = .copying t from hw]; rfl⟩)
      · rw [htrans]
        simp [Transaction.fail, Transaction.setError, drain, outcome, hu, hwd]
  | newTransaction junk old _ =>
      obtain rfl : t = s.nTrans := ht
      have hlog : s.nTrans ∉ s.enqueueLog := fun hm => lt_irrefl _ (hs.logged.log _ hm).1
      obtain rfl := h.fresh hlog
      refine ⟨fun _ => rfl, fun _ hopen => ?_, fun hcreated => ?_⟩
      · rcases hopen with hb | hl | ⟨w, hw⟩
        · simp [addTransaction] at hb
        · exact absurd (hs.enqueued_of_listed hl) hlog
        · exact absurd hw (not_copying_of_not_logged hs hlog w)
      · exact absurd (by simp [addTransaction]) hcreated
  | buildRequest t' req hp _ =>
      obtain rfl : t = t' := ht
      obtain rfl := h.eq_nil_of_halfStarted hs (by rw [hp]; trivial)
      have hwd : (s.clients t).withdrawn = false := by
        by_contra hwd
        have hpast := hfl.withdrawn (by simpa using hwd)
        rw [hp] at hpast
        exact hpast
      refine of_open (fun _ => rfl) (.inl ?_) rfl ?_ ?_ <;>
        simp [State.setClient, State.setTrans, hwd]
  | refused t' pick hp _ =>
      obtain rfl : t = t' := ht
      have hlog : t ∉ s.enqueueLog := fun hm => (hs.logged.log t hm).2 (by rw [hp]; trivial)
      obtain ⟨rfl, hu, hwd⟩ := h.opened (by rw [hp]; simp) (.inl hp)
      refine of_closed (fun _ => rfl) ?_ none rfl ?_
      · rintro (hb | hl | ⟨w, hw⟩)
        · simp [State.setClientPc, State.setClient] at hb
        · exact hlog (hs.enqueued_of_listed hl)
        · exact not_copying_of_not_logged hs hlog w hw
      · simp [State.setClientPc, State.setClient, State.setTrans, Transaction.setError, outcome, hu,
          hwd]
  | enqueued t' pick s' hp _ hw =>
      obtain rfl : t = t' := ht
      obtain ⟨rfl, hu, hwd⟩ := h.opened (by rw [hp]; simp) (.inl hp)
      obtain ⟨reads, rfl, -⟩ := hw.exists_reads
      refine of_open (fun _ => rfl) (.inr (.inl (.inl ?_))) rfl ?_ ?_
      · exact List.mem_append_right _ (List.mem_singleton_self t)
      · simpa [State.enqueue, State.setClientPc, State.setClient] using hu
      · simpa [State.enqueue, State.setClientPc, State.setClient] using hwd
  | kill t' hfreed =>
      obtain rfl : t = t' := ht
      have hc : ((s.wakeUpIf ((s.clients t).pc = .waiting) t).setClient t
          { s.clients t with signalPending := true }).clients t =
          { s.clients t with signalPending := true } := Function.update_self ..
      have hopen : Open ((s.wakeUpIf ((s.clients t).pc = .waiting) t).setClient t
          { s.clients t with signalPending := true }) t ↔ Open s t := by
        unfold Open
        rw [hc]
        rfl
      refine ⟨h.fresh, ?_, ?_⟩
      · rw [hopen, hc]
        exact h.opened
      · rw [hopen, hc]
        exact h.closed
  | waitSleep t' _ _ => exact ⟨h.fresh, h.opened, h.closed⟩
  | waitAnswered t' hp _ | waitSignal t' hp _ | checkAbort t' hp _ _ | checkLeave t' hp _
  | waitUnused t' hp _ | leave t' hp =>
      obtain rfl : t = t' := ht
      refine h.move rfl ?_ ?_ ?_ ?_ (by rw [hp]; simp) (by rw [hp]; simp) <;>
        simp [Open, State.Listed, State.setClientPc, State.setClient, State.setTrans, hp]
  | checkUnlink t' hp _ huse =>
      obtain rfl : t = t' := ht
      have henq : (s.clients t).pc.Enqueued := by rw [hp]; trivial
      exact h.unlinkAborted hs (hg.not_held_of_unused huse) henq (hstays henq)
  | withdraw t' hp =>
      obtain rfl : t = t' := ht
      have henq : (s.clients t).pc.Enqueued := by rw [hp]; trivial
      refine h.unlinkAborted hs (fun hh => ?_) henq (hstays henq)
      have hwaits := (hg.held hh).2.2
      rw [hp] at hwaits
      exact hwaits
  | kfree t' hp =>
      obtain rfl : t = t' := ht
      have hfreed : ((s.setClientPc t .freed).clients t).pc = .freed := by
        simp [State.setClientPc, State.setClient]
      exact ⟨h.fresh, fun hne => absurd hfreed hne, fun _ hne => absurd hfreed hne⟩
  | reuse t' junk hre =>
      obtain rfl : t = t' := ht
      exact ⟨h.fresh, fun hne => absurd hre.1 hne, fun _ hne => absurd hre.1 hne⟩
  | readLockFirst r pick s' _ hl => exact h.readLoop hfl ht hl
  | readLockAgain r pick s' _ _ hl =>
      exact readLoop (s := { s with uvfsDriverQueue := s.uvfsDriverQueue.erase r })
        (hfl.driverQueue _) (h.driverQueue _) ht hl
  | readLockSignal r pick _ _ => exact ⟨h.fresh, h.opened, h.closed⟩
  | readDone r t' fault hr m hm =>
      obtain ⟨rfl, rfl⟩ := ho.of_readDone hr hm ht
      have hu : ((s.clearInUse m).trans m).u = (s.trans m).u := by
        simp [clearInUse, State.wakeUpIf, State.setTrans]
      have hh : Told (s.clearInUse m) m cs :=
        ⟨h.fresh, by rw [hu]; exact h.opened, by rw [hu]; exact h.closed⟩
      exact ⟨hh.fresh, hh.opened, hh.closed⟩
  | writeMiss w _ hnone => exact absurd (hnone.symm.trans ht) (by simp)
  | writeClaim w t' _ hfind =>
      obtain rfl : t' = t := Option.some.inj (hfind.symm.trans ht)
      exact h.claim hfl w (List.mem_of_find?_eq_some hfind)
  | writeCopy w data fault t' hw m hm =>
      have hown := hm
      obtain ⟨rfl, rfl⟩ := ho.of_write (by rw [hw]; rfl) hm ht
      simp only [copyOf, hw, if_pos hown]
      exact h.writeCopy hs hg hw _ _
  | writeDone w t' fault hw m hm =>
      obtain ⟨rfl, rfl⟩ := ho.of_write (by rw [hw]; rfl) hm ht
      have huses : (s.writes w).pc.Uses m := by rw [hw]; rfl
      have hwaits := (hg.held (.inr ⟨w, huses⟩)).2.2
      have hcreated : (s.clients m).pc ≠ .created := fun h => by rw [h] at hwaits; exact hwaits
      have hfreed : (s.clients m).pc ≠ .freed := fun h => by rw [h] at hwaits; exact hwaits
      have hopen : ¬ Open s m := by
        rintro (hb | hl | ⟨w', hw'⟩)
        · rw [hb] at hwaits
          exact hwaits
        · exact hs.not_listed_of_write huses hl
        · have hww := hs.calls.write_inj w' w m (by rw [hw']; rfl) huses
          rw [hww, hw] at hw'
          cases hw'
      obtain ⟨reply, hcs, hu⟩ := h.closed hcreated hfreed hopen
      have hclosed : ¬ Open ((s.setTrans m { s.trans m with inUse := 0, answered := 1 }).setWritePc
          w (.returned (if fault then eio else (s.writes w).size.toInt))) m :=
        not_open_of_copied hs hg huses (by simp)
      refine of_closed h.fresh hclosed reply hcs ?_
      simpa [State.setWritePc, State.setWrite, answer, State.wakeUp, State.setTrans] using hu
  | _ => exact ht.elim

end Told

/-- How far each call has come in a run that meets the guard. -/
theorem Trace.told {tr : List (Taken State Act)}
    (h : Trace Driver.step ClaimsSafely State.init tr s) (t : TransId) :
    Told s t (copies t tr) := by
  induction h with
  | nil => exact Told.init t
  | @cons s s' a tr htr hG hstep ih =>
      have hr : Reachable ClaimsSafely s := htr.reach
      rw [copies_cons]
      exact ih.step (Reachable.sound hr) (Reachable.owned hr) (Reachable.flags hr t)
        (Reachable.guarded hr t) (step_effect hstep)

/-- The outcome that a client finds, from how far its call has come. -/
theorem Trace.outcome_of_returned {tr : List (Taken State Act)}
    (h : Trace Driver.step ClaimsSafely State.init tr s) (hp : (s.clients t).pc = .returned) :
    ∃ reply : Option Reply, copies t tr = reply.toList ∧
      (s.trans t).u = outcome (s.clients t).request reply (s.clients t).withdrawn := by
  have hr : Reachable ClaimsSafely s := h.reach
  refine (Trace.told h t).closed (by rw [hp]; simp) (by rw [hp]; simp) ?_
  rintro (hb | hl | ⟨w, hw⟩)
  · exact absurd (hp.symm.trans hb) (by simp)
  · have henq := ((Reachable.flags hr t).listed hl).1
    rw [hp] at henq
    exact henq
  · have hwaits := ((Reachable.guarded hr t).held (.inr ⟨w, by rw [hw]; rfl⟩)).2.2
    rw [hp] at hwaits
    exact hwaits

/-- **The outcome of a call.**  In every run in which no write claims a transaction whose client is
past its unlocked test of `in_use` or that a read still works on, and no reply reaches over
`in_use`: when `uvfs_make_request` returns, at most one reply has been copied into the transaction,
and the union is the request with that reply over it, or with `-EIO` when there was none; an
interrupted client finds `-ERESTARTSYS` in it.  It stays so until the transaction is freed. -/
theorem client_finds_one_outcome {tr : List (Taken State Act)}
    (h : Trace step ClaimsSafely State.init tr s) (hp : (s.clients t).pc = .returned) :
    ∃ reply : Option Reply, copies t tr = reply.toList ∧
      (s.trans t).u = outcome (s.clients t).request reply (s.clients t).withdrawn :=
  Trace.outcome_of_returned h hp

/-- One client is answered and one is interrupted while its request waits. -/
theorem client_finds_one_outcome_two : ∃ tr s, Trace step ClaimsSafely State.init tr s ∧
    ((s.clients 0).pc = .returned ∧ (s.clients 1).pc = .returned ∧
      (s.clients 1).withdrawn = true) ∧
    (∃ c, copies 0 tr = [c] ∧ (s.trans 0).u = outcome (s.clients 0).request (some c) false) ∧
    ∃ reply : Option Reply, copies 1 tr = reply.toList ∧
      (s.trans 1).u = outcome (s.clients 1).request reply true := by
  obtain ⟨s, hs, hp⟩ := Reach.of_check step ClaimsSafely State.init
    [.uvfsdOpen 0, .newTransaction .zeroed none, .newTransaction .zeroed none,
      .buildRequest 0 (getattrRequest 0), .buildRequest 1 (getattrRequest 1), .makeRequest 0 none,
      .makeRequest 1 none, .readEnter 0 sizeofUvfsRequestU, .readLock 0 none, .readCopy 0 none,
      .readDone 0, .readReturn 0, .kill 1, .waitSignal 1, .checkSignal 1, .leave 1,
      .writeEnter 0 16 (some ⟨0, 16⟩) (some 0), .writeLookup 0, .writeCopy 0 (fun _ => 0) none,
      .writeDone 0, .waitAnswered 0, .checkSignal 0, .leave 0]
    (fun s => ((s.clients 0).pc = .returned ∧ (s.clients 1).pc = .returned ∧
      (s.clients 1).withdrawn = true) ∧ (s.clients 0).withdrawn = false ∧
      (s.trans 0).u.word offsetofError = 0) (by decide +kernel)
  obtain ⟨tr, htr⟩ := Reach.exists_trace hs
  obtain ⟨hret, hwd, herror⟩ := hp
  obtain ⟨reply, hcs, hu⟩ := client_finds_one_outcome htr hret.1
  obtain ⟨reply₁, hcs₁, hu₁⟩ := client_finds_one_outcome htr hret.2.1
  rw [hwd] at hu
  rw [hret.2.2] at hu₁
  refine ⟨tr, s, htr, hret, ?_, reply₁, hcs₁, hu₁⟩
  cases reply with
  | none =>
      rw [hu] at herror
      exact absurd ((Mem.word_setWord _ _ _).symm.trans herror) (by decide)
  | some c => exact ⟨c, hcs, hu⟩

/-! ## What others leave alone -/

/-- What a step leaves of a client that does not build or free: the request, the serial, and where
it has begun or ended. -/
theorem Effect.client_of_other (hs : Sound s) (he : Effect s a s') (hlt : t < s.nTrans)
    (hbuild : ∀ req, a ≠ .buildRequest t req) (hfree : a ≠ .kfree t) :
    (s'.clients t).request = (s.clients t).request ∧
      ((s'.clients t).pc = .created ↔ (s.clients t).pc = .created) ∧
      ((s.clients t).pc = .returned → (s'.clients t).pc = .returned) ∧
      ((s'.clients t).pc = .freed ↔ (s.clients t).pc = .freed) := by
  by_cases ht : Touches s a t
  swap
  · rw [(he.frame hs.files ht).client]
    exact ⟨rfl, .rfl, id, .rfl⟩
  cases he with
  | newTransaction junk old _ =>
      exact absurd hlt (by rw [show t = s.nTrans from ht]; exact lt_irrefl _)
  | buildRequest t' req _ _ => exact absurd (by rw [show t = t' from ht]) (hbuild req)
  | kfree t' _ => exact absurd (by rw [show t = t' from ht]) hfree
  | enqueued t' pick s' hp _ hw =>
      obtain rfl : t = t' := ht
      obtain ⟨reads, rfl, _⟩ := hw.exists_reads
      simp [State.enqueue, State.setClientPc, State.setClient, hp]
  | refused t' pick hp _ | waitAnswered t' hp _ | waitSignal t' hp _ | checkAbort t' hp _ _
  | checkLeave t' hp _ | waitUnused t' hp _ | leave t' hp =>
      obtain rfl : t = t' := ht
      simp [State.setClientPc, State.setClient, State.setTrans, hp]
  | kill t' _ =>
      obtain rfl : t = t' := ht
      simp [State.setClient]
  | checkUnlink t' hp _ _ | withdraw t' hp =>
      obtain rfl : t = t' := ht
      simp [State.unlinkAborted, State.setClient, hp]
  | readLockFirst r pick s' _ hl | readLockAgain r pick s' _ _ hl =>
      cases hl with
      | shutdown => exact ⟨rfl, .rfl, id, .rfl⟩
      | sleep => exact ⟨rfl, .rfl, id, .rfl⟩
      | take t' rest s₁ _ _ hw =>
          obtain ⟨reads, rfl, _⟩ := hw.exists_reads
          exact ⟨rfl, .rfl, id, .rfl⟩
  | readPassOn r pick fault s₁ _ _ => exact ht.elim
  | ioctlShutdown f cmd mounted pick s' _ _ => exact ht.elim
  | _ => exact ⟨rfl, .rfl, id, .rfl⟩

/-- A client that has freed its transaction is done. -/
theorem Effect.freed (hs : Sound s) (he : Effect s a s') (hlt : t < s.nTrans)
    (hp : (s.clients t).pc = .freed) : (s'.clients t).pc = .freed := by
  by_cases hbuild : ∃ req, a = .buildRequest t req
  · obtain ⟨req, rfl⟩ := hbuild
    cases he with
    | buildRequest _ _ hc _ => exact absurd (hp.symm.trans hc) (by simp)
  · by_cases hfree : a = .kfree t
    · subst hfree
      cases he with
      | kfree _ hc => exact absurd (hp.symm.trans hc) (by simp)
    · exact (he.client_of_other hs hlt (fun req h => hbuild ⟨req, h⟩) hfree).2.2.2.mpr hp

/-- A request is enqueued by its own client, with the request that it has built. -/
theorem Effect.enqueued_cases (hs : Sound s) (he : Effect s a s') (hlog : t ∈ s'.enqueueLog) :
    t ∈ s.enqueueLog ∨ ∃ pick, a = .makeRequest t pick ∧
      (s'.clients t).request = (s.clients t).request := by
  by_cases ht : Touches s a t
  swap
  · exact .inl ((he.frame hs.files ht).log.mp hlog)
  cases he with
  | enqueued t' pick s' _ _ hw =>
      obtain rfl : t = t' := ht
      obtain ⟨reads, rfl, _⟩ := hw.exists_reads
      exact .inr ⟨pick, rfl, by simp [State.enqueue, State.setClientPc, State.setClient]⟩
  | readLockFirst r pick s' _ hl | readLockAgain r pick s' _ _ hl =>
      cases hl with
      | shutdown | sleep => exact .inl hlog
      | take t' rest s₁ _ _ hw =>
          obtain ⟨reads, rfl, _⟩ := hw.exists_reads
          exact .inl hlog
  | readPassOn | ioctlShutdown => exact ht.elim
  | _ => exact .inl hlog

/-- Where a client has returned, it had returned before or leaves now. -/
theorem Effect.returned_cases (hs : Sound s) (he : Effect s a s')
    (hp : (s'.clients t).pc = .returned) :
    (s'.clients t).request = (s.clients t).request ∧
      (s'.clients t).withdrawn = (s.clients t).withdrawn ∧
      ((s.clients t).pc = .returned ∨ a = .leave t) := by
  by_cases ht : Touches s a t
  swap
  · rw [(he.frame hs.files ht).client] at hp ⊢
    exact ⟨rfl, rfl, .inl hp⟩
  cases he with
  | newTransaction junk old _ =>
      obtain rfl : t = s.nTrans := ht
      simp [addTransaction] at hp
  | leave t' _ =>
      obtain rfl : t = t' := ht
      simp [State.setClientPc, State.setClient]
  | kill t' _ =>
      obtain rfl : t = t' := ht
      simpa [State.setClient] using hp
  | buildRequest t' | refused t' | waitAnswered t' | waitSignal t' | checkAbort t' | checkLeave t'
  | waitUnused t' | kfree t' =>
      obtain rfl : t = t' := ht
      simp [State.setClientPc, State.setClient, State.setTrans] at hp
  | enqueued t' pick s' _ _ hw =>
      obtain rfl : t = t' := ht
      obtain ⟨reads, rfl, _⟩ := hw.exists_reads
      simp [State.enqueue, State.setClientPc, State.setClient] at hp
  | checkUnlink t' | withdraw t' =>
      obtain rfl : t = t' := ht
      simp [State.unlinkAborted, State.setClient] at hp
  | readLockFirst r pick s' _ hl | readLockAgain r pick s' _ _ hl =>
      cases hl with
      | shutdown | sleep => exact ⟨rfl, rfl, .inl hp⟩
      | take t' rest s₁ _ _ hw =>
          obtain ⟨reads, rfl, _⟩ := hw.exists_reads
          exact ⟨rfl, rfl, .inl hp⟩
  | readPassOn | ioctlShutdown => exact ht.elim
  | _ => exact ⟨rfl, rfl, .inl hp⟩

theorem Effect.nTrans_le (he : Effect s a s') : s.nTrans ≤ s'.nTrans := by
  cases he with
  | newTransaction junk old _ => exact Nat.le_succ _
  | enqueued t pick s' _ _ hw =>
      obtain ⟨reads, rfl, _⟩ := hw.exists_reads
      exact le_rfl
  | readLockFirst r pick s' _ hl | readLockAgain r pick s' _ _ hl =>
      cases hl with
      | shutdown => exact le_rfl
      | sleep => exact le_rfl
      | take t' rest s₁ _ _ hw =>
          obtain ⟨reads, rfl, _⟩ := hw.exists_reads
          exact le_rfl
  | readPassOn r pick fault s₁ _ hw | ioctlShutdown f cmd mounted pick s₁ _ hw =>
      obtain ⟨reads, rfl, _⟩ := hw.exists_reads
      exact le_rfl
  | _ => exact le_rfl

end Uvfs.Driver
