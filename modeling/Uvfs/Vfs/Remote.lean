import Uvfs.Driver.Errors
import Uvfs.Driver.Serials
import Uvfs.Lib.Linear
import Uvfs.Vfs.OverDriver

/-!
# The remote call

A server reads requests, works on one after the other and writes the replies, from as many threads
and in whatever order it likes.  To the callers of `uvfs_make_request` all this is one object: a
call hands over the union with a request in it and gets it back with the reply over it.  Calls of
many callers overlap, requests wait in one list and their replies in another, and still each call
takes effect at one moment between its start and its return.

The moment is the one at which the server works on the request.  That it comes after the call has
started and before it returns is what the two lists, the serials and the flags are for.

They are for that as long as two things do not happen that no server can prevent: the device is not
closed while a client has a transaction that is not enqueued yet, and no write claims a transaction
whose client is about to leave (`AvoidsRaces`).

* `remote serve` : the object.
* `Job` : a request that the server has worked on; `KeepsPart` : what the server promises.
* `ServedRun` : the server at work, beside a run of the driver.
* `events` : what the callers see; `history` : what the server has done for them.
* `Attributed` : what holds on the way; `Attributed.act`, `Attributed.work`.
* `make_request_linearizable` : the calls are calls of that object.
* `ServedAnswer`, `operation_served` : what an operation is told is what the server has done with
  the requests of the operation. -/

namespace Uvfs.Vfs

open Transition Linear
open Uvfs.Driver (State Act TransId ReadId ReadCall Effect copies copyOf ClaimsSafely KeepsSerials
  AvoidsRaces AnswersRequests)

/-! ## The object -/

/-- The union with a reply over the request. -/
def overlaid (request : Mem) (c : Driver.Reply) : Mem := request.overlay 0 c.size c.data

/-- What the server finds in its buffer after a call of `uvfsd_read`. -/
def messageOf (c : ReadCall) : List Byte := c.buf.toList c.len

section

variable {σ : Type}

/-- A call of `uvfs_make_request`, when the server does `serve` with the bytes of a request. -/
def remote (serve : σ → List Byte → σ × Driver.Reply) (x : σ) (request : Mem) : σ × Mem :=
  ((serve x (delivered request)).1, overlaid request (serve x (delivered request)).2)

/-! ## The server at work -/

/-- A request that the server has worked on. -/
structure Job where
  /-- The call of `uvfsd_read` that has brought it. -/
  read : ReadId
  /-- The reply. -/
  reply : Driver.Reply

/-- What the server writes for a request is the reply that it has worked out. -/
def WritesJob (jobs : List Job) (s : State) (a : Act) : Prop :=
  ∀ p ∈ a.copy?, ∃ j ∈ jobs, (s.writes p.1).answers = some j.read ∧
    j.reply.size = min (s.writes p.1).size.toNat sizeofU ∧
    ∀ i < j.reply.size, p.2 i = j.reply.data i

instance (jobs : List Job) (s : State) (a : Act) : Decidable (WritesJob jobs s a) :=
  inferInstanceAs (Decidable (∀ p ∈ a.copy?, ∃ j ∈ jobs, _))

/-- What the server promises: it answers what it has read, each request once, with its serial and
before the device is closed, and writes what it has worked out. -/
def KeepsPart (jobs : List Job) (s : State) (a : Act) : Prop :=
  AnswersRequests s a ∧ WritesJob jobs s a

instance (jobs : List Job) (s : State) (a : Act) : Decidable (KeepsPart jobs s a) :=
  inferInstanceAs (Decidable (_ ∧ _))

/-- The server keeps its part, and the step is none of those that it cannot prevent. -/
def GoesWell (jobs : List Job) (s : State) (a : Act) : Prop :=
  KeepsPart jobs s a ∧ AvoidsRaces s a

instance (jobs : List Job) (s : State) (a : Act) : Decidable (GoesWell jobs s a) :=
  inferInstanceAs (Decidable (_ ∧ _))

/-- A run of the driver with such a server, in which the clients and the schedule avoid the races.
-/
inductive ServedRun (serve : σ → List Byte → σ × Driver.Reply) (x₀ : σ) :
    List (Taken State Act) → State → List Job → σ → Prop
  | start : ServedRun serve x₀ [] State.init [] x₀
  /-- A step of the driver. -/
  | act {tr : List (Taken State Act)} {s s' : State} {jobs : List Job} {x : σ} {a : Act}
      (h : ServedRun serve x₀ tr s jobs x) (hpart : KeepsPart jobs s a) (hraces : AvoidsRaces s a)
      (hstep : Driver.step s a = some s') : ServedRun serve x₀ (⟨s, a, s'⟩ :: tr) s' jobs x
  /-- The server works on a request that it has read. -/
  | work {tr : List (Taken State Act)} {s : State} {jobs : List Job} {x : σ} {r : ReadId}
      (h : ServedRun serve x₀ tr s jobs x) (hread : (s.reads r).serial?.isSome)
      (hnew : ∀ j ∈ jobs, j.read ≠ r) :
      ServedRun serve x₀ tr s (jobs ++ [⟨r, (serve x (messageOf (s.reads r))).2⟩])
        (serve x (messageOf (s.reads r))).1

/-! ## What the callers see -/

/-- What the callers see of a step, after the steps `tr`: a call starts, or returns with an answer.
A call that was interrupted, or for which no reply was copied, returns without one. -/
def eventOf (tr : List (Taken State Act)) (k : Taken State Act) : List (Event TransId Mem Mem) :=
  match k.act with
  | .makeRequest t _ => [.call t (k.pre.clients t).request]
  | .leave t =>
      if (k.pre.clients t).withdrawn || (copies t tr).isEmpty then []
      else [.ret t (k.pre.trans t).u]
  | _ => []

/-- What the callers see, the first event first. -/
def events : List (Taken State Act) → List (Event TransId Mem Mem)
  | [] => []
  | k :: tr => events tr ++ eventOf tr k

/-- What a job is to the caller whose request it was. -/
def Job.entry? (s : State) (j : Job) : Option (Linear.Entry TransId Mem Mem) :=
  (s.reads j.read).took.map fun t =>
    ⟨t, (s.clients t).request, overlaid (s.clients t).request j.reply⟩

/-- What the server has done for the callers. -/
def history (s : State) (jobs : List Job) : List (Linear.Entry TransId Mem Mem) :=
  jobs.filterMap (Job.entry? s)

variable {serve : σ → List Byte → σ × Driver.Reply} {x₀ x : σ} {tr : List (Taken State Act)}
  {s s' : State} {jobs : List Job} {a : Act} {t : TransId} {r : ReadId} {j : Job}
  {c : Driver.Reply}

theorem mem_history {e : Linear.Entry TransId Mem Mem} :
    e ∈ history s jobs ↔ ∃ j ∈ jobs, (s.reads j.read).took = some e.id ∧
      e = ⟨e.id, (s.clients e.id).request, overlaid (s.clients e.id).request j.reply⟩ := by
  simp only [history, List.mem_filterMap, Job.entry?, Option.map_eq_some_iff]
  constructor
  · rintro ⟨j, hj, t, htook, rfl⟩
    exact ⟨j, hj, htook, rfl⟩
  · rintro ⟨j, hj, htook, heq⟩
    exact ⟨j, hj, e.id, htook, heq.symm⟩

/-- Replies that agree as far as they go. -/
theorem overlaid_congr {c c' : Driver.Reply} (hsize : c.size = c'.size)
    (hdata : ∀ i < c.size, c.data i = c'.data i) (m : Mem) : overlaid m c = overlaid m c' := by
  funext i
  by_cases hi : i < c.size
  · rw [overlaid, overlaid, Mem.overlay_of_mem (Nat.zero_le i) (by omega),
      Mem.overlay_of_mem (Nat.zero_le i) (by omega)]
    exact hdata _ (by omega)
  · rw [overlaid, overlaid, Mem.overlay_of_not_mem (by omega), Mem.overlay_of_not_mem (by omega)]

/-- Only the call and the return of a caller are seen. -/
theorem eventOf_eq_nil (hcall : ∀ t pick, a ≠ .makeRequest t pick) (hleave : ∀ t, a ≠ .leave t) :
    eventOf tr ⟨s, a, s'⟩ = [] := by
  cases a with
  | makeRequest t pick => exact absurd rfl (hcall t pick)
  | leave t => exact absurd rfl (hleave t)
  | _ => rfl

namespace ServedRun

theorem trace (h : ServedRun serve x₀ tr s jobs x) :
    Trace Driver.step ClaimsSafely State.init tr s := by
  induction h with
  | start => exact .nil
  | act _ _ hraces hstep ih => exact ih.cons hraces.2 hstep
  | work _ _ _ ih => exact ih

theorem reachable (h : ServedRun serve x₀ tr s jobs x) : Driver.Reachable KeepsSerials s := by
  induction h with
  | start => exact .refl
  | act _ hpart hraces hstep ih => exact ih.tail ⟨hraces, hpart.1⟩ hstep
  | work _ _ _ ih => exact ih

/-- What the server reads is what the client has built. -/
theorem messageOf_eq (h : ServedRun serve x₀ tr s jobs x) (hread : (s.reads r).serial?.isSome) :
    ∃ t, (s.reads r).took = some t ∧ messageOf (s.reads r) = delivered (s.clients t).request := by
  obtain ⟨serial, hserial⟩ := Option.isSome_iff_exists.mp hread
  obtain ⟨v, t, hpc, htook, hv, _⟩ := Driver.ReadCall.serial?_eq_some hserial
  obtain ⟨hbuf, hlen⟩ :=
    Driver.Reachable.delivered h.trace.reach r t ⟨htook, by rw [hpc]; exact hv⟩
  refine ⟨t, htook, ?_⟩
  rw [messageOf, hbuf, hlen]
  rfl

end ServedRun

/-! ## What holds on the way -/

/-- The calls so far are put down to the server's jobs. -/
structure Attributed (serve : σ → List Byte → σ × Driver.Reply) (x₀ : σ)
    (tr : List (Taken State Act)) (s : State) (jobs : List Job) (x : σ) : Prop where
  linear : Linearizes (remote serve) x₀ x (events tr) (history s jobs)
  /-- A job is for a request that was taken. -/
  took : ∀ j ∈ jobs, ∃ t, (s.reads j.read).took = some t
  /-- What is enqueued was called. -/
  called : ∀ t ∈ s.enqueueLog, Event.call t (s.clients t).request ∈ events tr
  /-- What was copied into a transaction is the reply of a job for it. -/
  copied : ∀ t, ∀ c ∈ copies t tr, ∃ j ∈ jobs, (s.reads j.read).took = some t ∧
    ∀ m, overlaid m c = overlaid m j.reply
  /-- A call that has returned with a reply was seen to return with it. -/
  returned : ∀ t, (s.clients t).pc = .returned → (s.clients t).withdrawn = false →
    ∀ c ∈ copies t tr, Event.ret t (overlaid (s.clients t).request c) ∈ events tr

namespace Attributed

theorem start (x₀ : σ) : Attributed serve x₀ [] State.init [] x₀ where
  linear := .start x₀
  took _ h := absurd h List.not_mem_nil
  called _ h := absurd h List.not_mem_nil
  copied _ _ h := absurd h List.not_mem_nil
  returned _ _ _ _ h := absurd h List.not_mem_nil

/-- A transaction that nobody has taken has no job. -/
theorem id_ne (hr : ∀ j ∈ jobs, (s.reads j.read).took ≠ some t) :
    ∀ e ∈ history s jobs, e.id ≠ t := by
  rintro e he rfl
  obtain ⟨j, hj, htook, _⟩ := mem_history.mp he
  exact hr j hj htook

/-- **The server works on a request.**  This is where the call takes effect. -/
theorem work (h : Attributed serve x₀ tr s jobs x) (hs : Driver.Sound s)
    (htook : (s.reads r).took = some t)
    (hmessage : messageOf (s.reads r) = delivered (s.clients t).request)
    (hnew : ∀ j ∈ jobs, j.read ≠ r) :
    Attributed serve x₀ tr s (jobs ++ [⟨r, (serve x (messageOf (s.reads r))).2⟩])
      (serve x (messageOf (s.reads r))).1 where
  linear := by
    have heffect := h.linear.effect (h.called t (hs.enqueued_of_took htook))
      (id_ne fun j hj htook' => hnew j hj (hs.calls.took_inj _ _ t htook' htook))
    have hhistory : history s (jobs ++ [⟨r, (serve x (messageOf (s.reads r))).2⟩]) =
        history s jobs ++
          [⟨t, (s.clients t).request, (remote serve x (s.clients t).request).2⟩] := by
      simp [history, Job.entry?, htook, remote, hmessage]
    rw [hhistory, hmessage]
    exact heffect
  took j hj := by
    rcases List.mem_append.mp hj with hj | hj
    · exact h.took j hj
    · rw [List.mem_singleton.mp hj]
      exact ⟨t, htook⟩
  called := h.called
  copied t' c hc := by
    obtain ⟨j, hj, hfor⟩ := h.copied t' c hc
    exact ⟨j, List.mem_append_left _ hj, hfor⟩
  returned := h.returned

/-- A step of the driver leaves the jobs what they are to the callers. -/
theorem history_eq (h : Attributed serve x₀ tr s jobs x) (hs : Driver.Sound s)
    (hlt : ∀ r t, (s.reads r).took = some t → r < s.nReads) (he : Effect s a s') :
    history s' jobs = history s jobs := by
  refine List.filterMap_congr fun j hj => ?_
  obtain ⟨t, htook⟩ := h.took j hj
  have hrequest := (he.record_eq hs (hs.enqueued_of_took htook)).1
  simp only [Job.entry?, htook, he.took_eq hs (hlt _ _ htook) htook, Option.map_some, hrequest]

/-- A client that leaves with a reply finds it over its request. -/
theorem eq_overlaid_of_leave
    (htr : Trace Driver.step ClaimsSafely State.init (⟨s, .leave t, s'⟩ :: tr) s')
    (he : Effect s (.leave t) s') (hwd : (s.clients t).withdrawn = false) (hc : c ∈ copies t tr) :
    (s.trans t).u = overlaid (s.clients t).request c := by
  cases he with
  | leave _ _ =>
      have hp : ((s.setClientPc t .returned).clients t).pc = .returned := by
        simp [State.setClientPc, State.setClient]
      obtain ⟨reply, hreply, hu⟩ := Driver.Trace.outcome_of_returned htr hp
      rw [show copies t tr = reply.toList from hreply, Option.mem_toList] at hc
      obtain rfl : reply = some c := hc
      simpa [State.setClientPc, State.setClient, Driver.outcome, overlaid, hwd] using hu

/-- What is seen of a step is what the jobs have prepared. -/
theorem linear_act (h : Attributed serve x₀ tr s jobs x) (hs : Driver.Sound s)
    (htr : Trace Driver.step ClaimsSafely State.init (⟨s, a, s'⟩ :: tr) s') (he : Effect s a s') :
    Linearizes (remote serve) x₀ x (events (⟨s, a, s'⟩ :: tr)) (history s jobs) := by
  by_cases hcall : ∃ t pick, a = .makeRequest t pick
  · -- the caller has built its request, so that nobody has taken it
    obtain ⟨t, pick, rfl⟩ := hcall
    have hbuilt : (s.clients t).pc = .built := by
      cases he with
      | refused _ _ hp _ => exact hp
      | enqueued _ _ _ hp _ _ => exact hp
    refine h.linear.call _ (id_ne fun j _ htook => ?_)
    refine (hs.logged.log t (hs.enqueued_of_took htook)).2 ?_
    rw [hbuilt]
    trivial
  by_cases hleave : ∃ t, a = .leave t
  · obtain ⟨t, rfl⟩ := hleave
    simp only [events, eventOf]
    split
    · rw [List.append_nil]
      exact h.linear
    · rename_i hanswer
      simp only [Bool.or_eq_true, List.isEmpty_iff, not_or, Bool.not_eq_true] at hanswer
      obtain ⟨c, hc⟩ := List.exists_mem_of_ne_nil _ hanswer.2
      obtain ⟨j, hj, htook, hover⟩ := h.copied t c hc
      have hentry : ⟨t, (s.clients t).request, overlaid (s.clients t).request j.reply⟩ ∈
          history s jobs := mem_history.mpr ⟨j, hj, htook, rfl⟩
      rw [eq_overlaid_of_leave htr he hanswer.1 hc, hover]
      exact h.linear.ret hentry
  · push Not at hcall hleave
    rw [events, eventOf_eq_nil hcall hleave, List.append_nil]
    exact h.linear

/-- What a step copies into a transaction is the reply of a job for it. -/
theorem copied_act (hm : Driver.Matched s) (ha : ∀ w, Driver.Addressed s w)
    (ho : Driver.Owned s) (hwrites : WritesJob jobs s a) (hc : copyOf t s a = some c) :
    ∃ j ∈ jobs, (s.reads j.read).took = some t ∧ ∀ m, overlaid m c = overlaid m j.reply := by
  obtain ⟨w, data, fault, t', rfl, hpc, howner, rfl⟩ := Driver.exists_of_copyOf hc
  obtain rfl : t' = t := (ho t' (.inr ⟨w, by rw [hpc]; rfl⟩)).symm.trans howner
  obtain ⟨j, hj, hanswers, hsize, hdata⟩ := hwrites _ rfl
  obtain ⟨r, _, hanswers', htook⟩ := hm.claimed w t' ((ha w).claimed t' (by rw [hpc]; rfl))
  obtain rfl : j.read = r := Option.some.inj (hanswers.symm.trans hanswers')
  exact ⟨j, hj, htook, overlaid_congr hsize.symm fun i hi => hdata i (hsize ▸ hi)⟩

/-- **A step of the driver.** -/
theorem act (h : Attributed serve x₀ tr s jobs x) (hrun : ServedRun serve x₀ tr s jobs x)
    (hlt : s.nTrans < 2 ^ 32) (hpart : KeepsPart jobs s a) (hraces : AvoidsRaces s a)
    (hstep : Driver.step s a = some s') : Attributed serve x₀ (⟨s, a, s'⟩ :: tr) s' jobs x := by
  obtain ⟨_, hwrites⟩ := hpart
  have hclaims := hraces.2
  have hs := Driver.Reachable.sound hrun.reachable
  have he := Driver.step_effect hstep
  have hreads := Driver.Reachable.took_lt hrun.reachable
  have htook : ∀ {r t}, (s.reads r).took = some t → (s'.reads r).took = some t := fun ht =>
    he.took_eq hs (hreads _ _ ht) ht
  have hnew : ∀ {t c}, copyOf t s a = some c → ∃ j ∈ jobs, (s.reads j.read).took = some t ∧
      ∀ m, overlaid m c = overlaid m j.reply :=
    copied_act (Driver.Reachable.matched hrun.reachable hlt)
      (Driver.Reachable.addressed hrun.reachable) (Driver.Reachable.owned hrun.trace.reach) hwrites
  refine ⟨?_, fun j hj => ?_, fun t ht => ?_, fun t c hc => ?_, fun t hp hwd c hc => ?_⟩
  · rw [h.history_eq hs hreads he]
    exact h.linear_act hs (hrun.trace.cons hclaims hstep) he
  · obtain ⟨t, ht⟩ := h.took j hj
    exact ⟨t, htook ht⟩
  · rcases he.enqueued_cases hs ht with ht | ⟨pick, rfl, hrequest⟩
    · rw [(he.record_eq hs ht).1]
      exact List.mem_append_left _ (h.called t ht)
    · rw [hrequest]
      exact List.mem_append_right _ (List.mem_singleton_self _)
  · rw [Driver.copies_cons, List.mem_append, Option.mem_toList] at hc
    rcases hc with hc | hc
    · obtain ⟨j, hj, hfor, hover⟩ := hnew hc
      exact ⟨j, hj, htook hfor, hover⟩
    · obtain ⟨j, hj, hfor, hover⟩ := h.copied t c hc
      exact ⟨j, hj, htook hfor, hover⟩
  · obtain ⟨hrequest, hwithdrawn, hcase⟩ := he.returned_cases hs hp
    rw [hrequest]
    rw [hwithdrawn] at hwd
    rw [Driver.copies_cons, List.mem_append, Option.mem_toList] at hc
    rcases hcase with hp | rfl
    · -- nothing is copied into the transaction of a client that has returned
      rcases hc with hc | hc
      · obtain ⟨w, _, _, t', _, hpc, howner, _⟩ := Driver.exists_of_copyOf hc
        have hheld : s.Held t' := .inr ⟨w, by rw [hpc]; rfl⟩
        obtain rfl : t' = t := (Driver.Reachable.owned hrun.trace.reach t' hheld).symm.trans howner
        have hwaits := ((Driver.Reachable.guarded hrun.trace.reach t').held hheld).2.2
        rw [hp] at hwaits
        exact hwaits.elim
      · exact List.mem_append_left _ (h.returned t hp hwd c hc)
    · rcases hc with hc | hc
      · cases hc
      · refine List.mem_append_right _ ?_
        have hne : copies t tr ≠ [] := List.ne_nil_of_mem hc
        simp [eventOf, hwd, hne, eq_overlaid_of_leave (hrun.trace.cons hclaims hstep) he hwd hc]

end Attributed

/-- Every such run is attributed. -/
theorem ServedRun.attributed (h : ServedRun serve x₀ tr s jobs x) (hlt : s.nTrans < 2 ^ 32) :
    Attributed serve x₀ tr s jobs x := by
  induction h with
  | start => exact .start x₀
  | act h hpart hraces hstep ih =>
      have hlt' := lt_of_le_of_lt (Driver.step_effect hstep).nTrans_le hlt
      exact (ih hlt').act h hlt' hpart hraces hstep
  | work h hread hnew ih =>
      obtain ⟨t, htook, hmessage⟩ := h.messageOf_eq hread
      exact (ih hlt).work (Driver.Reachable.sound h.reachable) htook hmessage hnew

/-- What an outcome is to the client: a reply, or one of two errors. -/
theorem outcome_cases {tr : Driver.Transaction} {request : Mem} {reply : Option Driver.Reply}
    {withdrawn : Bool} (hu : tr.u = Driver.outcome request reply withdrawn) :
    (withdrawn = false ∧ ∃ c, reply = some c ∧ tr.u = overlaid request c) ∨
      tr.error = eio ∨ tr.error = erestartsys := by
  cases withdrawn with
  | true =>
      refine .inr (.inr ?_)
      simp [Driver.Transaction.error, hu, Driver.outcome, erestartsys]
  | false =>
      cases reply with
      | none =>
          refine .inr (.inl ?_)
          simp [Driver.Transaction.error, hu, Driver.outcome, eio]
      | some c => exact .inl ⟨rfl, c, rfl, hu⟩

end

/-- A server that numbers its replies. -/
def numbering (n : ℕ) (message : List Byte) : ℕ × Driver.Reply :=
  (n + 1, ⟨20, Mem.ofWords [Word.ofList message, Word.ofList (message.drop offsetofSerial), 20, 0,
    BitVec.ofNat 32 n]⟩)

/-- What is written for a request. -/
def numberedReply (k : RequestType) (serial n : Word) : Mem :=
  Mem.ofWords [BitVec.ofNat 32 k.code, serial, 20, 0, n]

section

variable {σ Q α : Type} {R : Q → Type} {serve : σ → List Byte → σ × Driver.Reply} {x₀ x : σ}
  {tr : List (Taken State Act)} {jobs : List Job}

/-- The answer is what the server has done with the request of this call, which it has read as it
was meant; or the call has failed. -/
def ServedAnswer (kind : (q : Q) → Use (Word → Mem → Mem) Driver.Transaction (R q))
    (mine : List TransId) (history : List (Linear.Entry TransId Mem Mem)) (y : (q : Q) × R q) :
    Prop :=
  ∀ b read, kind y.1 = .use b read → ∃ t ∈ mine, ∃ trans serial stale,
    y.2 = read trans ∧
    (∃ (r : VfsRequest) (l : LongWidth) (c : Cred),
      (b = fun serial stale => (r.built l c serial).store stale) ∧
      decode (delivered (b serial stale)) = some (serial, r.message l c)) ∧
    (⟨t, b serial stale, trans.u⟩ ∈ history ∨ trans.error = eio ∨ trans.error = erestartsys)

/-- **An operation and the server.**  In every run in which an operation takes part, the server
keeps its part and neither of the races of `AvoidsRaces` happens, with any other clients in between:
the answers from which the operation has its result are those that the server has given, in one
history of all callers, to the very requests of the operation; or the calls have failed with `-EIO`
or `-ERESTARTSYS`. -/
theorem operation_served {kind : (q : Q) → Use (Word → Mem → Mem) Driver.Transaction (R q)}
    {d : Dialogue Q R α} (hop : VfsOperation kind d) {o : Process Q R α}
    (h : ProcessRun ClaimsSafely kind d tr o) (hserved : ServedRun serve x₀ tr o.driver jobs x)
    (hlt : o.driver.nTrans < 2 ^ 32) {a : α} (hend : o.prog = .result a) :
    Linearizes (remote serve) x₀ x (events tr) (history o.driver jobs) ∧
      ∃ as, d.Led as (.result a) ∧
        ∀ y ∈ as, ServedAnswer kind o.mine (history o.driver jobs) y := by
  have hattr := hserved.attributed hlt
  obtain ⟨as, hled, hexplained⟩ := h.ledTo hop.obeys
  refine ⟨hattr.linear, as, hend ▸ hled, fun y hy b read hq => ?_⟩
  obtain ⟨hb, t, ht, trans, serial, stale, reply, withdrawn, hbuilt, hread, hu, hreply⟩ :=
    hexplained y hy b read hq
  refine ⟨t, ht, trans, serial, stale, hread, ?_, ?_⟩
  · obtain ⟨r, l, c, hr, rfl⟩ := hb
    exact ⟨r, l, c, rfl, VfsRequest.decode_delivered hr⟩
  · refine (outcome_cases hu).imp_left fun ⟨_, c, hc, hover⟩ => ?_
    obtain ⟨j, hj, htook, hsame⟩ := hattr.copied t c (hreply c hc)
    rw [hover, hsame, ← hbuilt.2.2]
    exact mem_history.mpr ⟨j, hj, htook, rfl⟩

end

/-- Others go on for a while, and the server works on nothing. -/
theorem ProcessRun.others_served {σ Q α : Type} {R : Q → Type}
    {serve : σ → List Byte → σ × Driver.Reply} {x₀ x : σ} {tr : List (Taken State Act)}
    {jobs : List Job} {kind : (q : Q) → Use (Word → Mem → Mem) Driver.Transaction (R q)}
    {d : Dialogue Q R α} {o : Process Q R α} {s : State}
    (h : ProcessRun ClaimsSafely kind d tr o) (hserved : ServedRun serve x₀ tr o.driver jobs x)
    (hreach : Reach Driver.step (fun s a => GoesWell jobs s a ∧ ¬ Own o.hold a) o.driver s) :
    ∃ tr, ProcessRun ClaimsSafely kind d tr { o with driver := s } ∧
      ServedRun serve x₀ tr s jobs x := by
  induction hreach with
  | refl => exact ⟨tr, h, hserved⟩
  | tail _ hG hstep ih =>
      obtain ⟨tr, hrun, hserved⟩ := ih
      exact ⟨_, hrun.act (.other hG.2 hstep) hG.1.2.2, hserved.act hG.1.1 hG.1.2 hstep⟩

/-- The server has worked on the one request that it has read. -/
def statfsJobs (s : State) : List Job := [⟨0, (numbering 0 (messageOf (s.reads 0))).2⟩]

/-- The server works on the request of `uvfs_statfs`, which returns zero. -/
theorem operation_served_statfs : ∃ tr o jobs y,
    (ProcessRun ClaimsSafely (wireUse .w64 ⟨1, 2⟩) (uvfsStatfs setgidDir.fh) tr o ∧
      ServedRun numbering 0 tr o.driver jobs 1) ∧
    (o.driver.nTrans < 2 ^ 32 ∧ o.prog = .result (0, some y) ∧ jobs.map Job.read = [0]) ∧
    Linearizes (remote numbering) 0 1 (events tr) (history o.driver jobs) ∧
      ∃ as, (uvfsStatfs setgidDir.fh).Led as (.result (0, some y)) ∧
        ∀ z ∈ as, ServedAnswer (wireUse .w64 ⟨1, 2⟩) o.mine (history o.driver jobs) z := by
  -- the device is opened, and `uvfs_statfs` gets a transaction and builds its request
  have hopen : ServedRun numbering 0 [⟨State.init, .uvfsdOpen 0, served⟩] served [] 0 :=
    ServedRun.start.act (by decide) (by decide) rfl
  have hget := @ProcessStep.get _ _ _ (wireUse .w64 ⟨1, 2⟩)
    ⟨served, uvfsStatfs setgidDir.fh, .none, []⟩ _ _ _ .zeroed none _ rfl rfl
    (Driver.step_newTransaction_none _ _)
  have haccepted : (VfsRequest.statfs setgidDir.fh).Accepted := trivial
  have hstep : Driver.step (served.addTransaction .zeroed none) (.buildRequest 0 statfsBuilt) =
      some servedOne := by
    show State.buildRequest _ _ _ = _
    unfold State.buildRequest
    rw [if_pos ⟨rfl, (VfsRequest.buildsRequest haccepted).isRequest 0 _⟩]
    rfl
  have hbuild := @ProcessStep.build _ _ _ (wireUse .w64 ⟨1, 2⟩) statfsFresh 0 _ _ _ _ servedOne rfl
    rfl rfl hstep
  have hrun := ((ProcessRun.start hopen.trace).act hget (.of_other rfl rfl)).act hbuild
    (.of_other rfl rfl)
  have hserved := (hopen.act (by decide) (by decide) hget.driver_step).act (by decide) (by decide)
    hbuild.driver_step
  -- the server reads the request, works on it and writes the reply
  obtain ⟨s, hs, hread, hrest⟩ := Reach.of_check Driver.step
    (fun s a => GoesWell [] s a ∧ ¬ Own (.fresh 0) a) servedOne
    [.makeRequest 0 none, .readEnter 0 sizeofUvfsRequestU, .readLock 0 none, .readCopy 0 none,
      .readDone 0, .readReturn 0]
    (fun s => (s.reads 0).serial?.isSome ∧
      (run Driver.step (fun s' a => decide (GoesWell (statfsJobs s) s' a ∧ ¬ Own (.fresh 0) a)) s
        [.writeEnter 0 20 (some ⟨0, 20⟩) (some 0), .writeLookup 0,
          .writeCopy 0 (numberedReply .statfs 0 0) none, .writeDone 0, .waitAnswered 0,
          .checkSignal 0, .leave 0]).any (fun s' => decide (s'.nTrans < 2 ^ 32 ∧
            (s'.clients 0).pc = .returned ∧ replyError (flat (s'.trans 0)) = 0)) = true)
    (by decide +kernel)
  obtain ⟨s', hs', hp⟩ := (Option.any_eq_true _ _).mp hrest
  obtain ⟨hlt, hret, herror⟩ := of_decide_eq_true hp
  obtain ⟨_, hrun, hserved⟩ := hrun.others_served hserved hs
  obtain ⟨_, hrun, hserved⟩ := hrun.others_served
    (hserved.work hread fun _ h => absurd h List.not_mem_nil)
    (Reach.of_run (fun _ _ => of_decide_eq_true) hs')
  -- `uvfs_statfs` reads the reply and frees the transaction
  have hkfree : Driver.step s' (.kfree 0) = some (s'.setClientPc 0 .freed) := if_pos hret
  have hend := (hrun.silent (.answer rfl rfl rfl hret)).act (.give rfl rfl rfl hkfree)
    (.of_other rfl rfl)
  have hres : (Dialogue.result (replyError (flat (s'.trans 0)),
      some (kstatfsOf (flat (s'.trans 0)))) : Wire _) =
        .result (0, some (kstatfsOf (flat (s'.trans 0)))) := by rw [herror]
  have hpart : KeepsPart (statfsJobs s) s' (.kfree 0) := by
    refine ⟨⟨?_, ?_⟩, ?_⟩ <;> intro p hp <;> cases hp
  have hraces : AvoidsRaces s' (.kfree 0) := ⟨fun h => (by cases h), .of_other rfl rfl⟩
  have hservedEnd := hserved.act hpart hraces hkfree
  exact ⟨_, _, statfsJobs s, _, ⟨hend, hservedEnd⟩, ⟨hlt, hres, rfl⟩,
    operation_served (.once .statfs) hend hservedEnd hlt hres⟩

end Uvfs.Vfs
