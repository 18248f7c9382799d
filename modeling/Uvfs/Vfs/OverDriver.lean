import Uvfs.Driver.Outcomes
import Uvfs.Lib.Session
import Uvfs.Vfs.Attributes
import Uvfs.Vfs.Encoding
import Uvfs.Vfs.Parents
import Uvfs.Vfs.Stale

/-!
# The operations over the driver

So far an operation was a program that is answered, and the driver a system of calls that anyone may
make.  Here an operation runs on the driver: its calls are steps of the driver's system, and between
two of them other clients, the server's threads, signals and the last close of the device may come.

An operation gets a transaction, has it answered and frees it, perhaps many times over, so that
nothing of what happens to the transactions of others reaches it.  What it reads was put there for
its own request, as long as no write claims a transaction out of turn and no reply is so long that
its copy runs over `in_use`.

* `wireUse`, `fileUse` : what the calls of the operations are to the driver.
* `Process`, `ProcessStep`, `ProcessRun` : an operation on its way, and everything that may happen
  meanwhile.
* `Placed` : the order of its calls and where its transactions stand; `Placed.step`,
  `Placed.of_run`.
* `Explained` : an answer is an outcome of the request that the operation has built.
* `OneRequest`, `VfsOperation` : the operations; `VfsOperation.obeys` : each keeps the order of
  calls.
* `operation_over_driver` : what it has got and what it leaves when it ends.
* `operation_goes_on` : it is never stuck but inside of `uvfs_make_request`.
-/

namespace Uvfs.Vfs

open Transition
open Uvfs.Driver (State Act Transaction TransId copies outcome ClaimsSafely)

/-! ## The calls -/

/-- What the calls of the operations in `dir.c`, `super.c` and `symlink.c`, of `uvfs_setattr` and of
`uvfs_permission` are to the driver: a request is built over what the memory held. -/
def wireUse (l : LongWidth) (c : Cred) :
    (q : WireCall) → Use (Word → Mem → Mem) Transaction q.Answer
  | .newTransaction => .get id
  | .makeRequest r => .use (fun serial stale => (r.built l c serial).store stale) flat
  | .kfree => .give ()

/-- What the calls of the page operations in `file.c` are to the driver. -/
def fileUse : (q : DriverCall) → Use (Word → Mem → Mem) Transaction q.Answer
  | .newTransaction => .get id
  | .makeRequest (.write r) =>
      .use (fun serial stale => (r.built serial).store stale) fun tr => fileReplyAt (flat tr)
  | .makeRequest (.read r) =>
      .use (fun serial stale => (r.built serial).store stale) fun tr => fileReplyAt (flat tr)
  | .kfree => .give ()

/-- What is built is a request of an operation that has checked its lengths, whatever the serial and
the memory. -/
def BuildsRequest (b : Word → Mem → Mem) : Prop :=
  ∃ (r : VfsRequest) (l : LongWidth) (c : Cred), r.Accepted ∧
    b = fun serial stale => (r.built l c serial).store stale

theorem VfsRequest.buildsRequest {l : LongWidth} {c : Cred} {r : VfsRequest} (h : r.Accepted) :
    BuildsRequest fun serial stale => (r.built l c serial).store stale := ⟨r, l, c, h, rfl⟩

/-- It is one that the driver takes. -/
theorem BuildsRequest.isRequest {b : Word → Mem → Mem} (h : BuildsRequest b) (serial : Word)
    (stale : Mem) : Driver.IsRequest (b serial stale) serial := by
  obtain ⟨r, l, c, hr, rfl⟩ := h
  refine ⟨?_, VfsRequest.word_serial, ?_⟩
  · have hcode : ∀ k : RequestType, k ≠ .shutdown →
        1 ≤ (BitVec.ofNat 32 k.code).toInt ∧ (BitVec.ofNat 32 k.code).toInt ≤ 15 := by
      intro k
      cases k <;> decide
    rw [VfsRequest.word_type]
    refine hcode _ ?_
    cases r <;> exact RequestType.noConfusion
  · rw [VfsRequest.toInt_word_size hr]
    have hmin : offsetofSize + 4 ≤ r.size := VfsRequest.header_le_size
    have hmax := VfsRequest.size_le hr
    unfold offsetofSize at hmin
    omega

/-- What an operation has. -/
inductive Hold
  | none
  /-- A transaction whose request is to be made. -/
  | fresh (t : TransId)
  /-- A transaction whose reply is to be read. -/
  | used (t : TransId)

/-- The phase of an operation. -/
def Hold.phase : Hold → Phase
  | .none => .none
  | .fresh _ => .fresh
  | .used _ => .used

/-- The transaction that it has. -/
def Hold.trans : Hold → Option TransId
  | .none => Option.none
  | .fresh t | .used t => some t

section

variable {Q : Type} {R : Q → Type} {α : Type}

/-- An operation on its way. -/
structure Process (Q : Type) (R : Q → Type) (α : Type) where
  /-- The driver. -/
  driver : State
  /-- What is left of the operation. -/
  prog : Dialogue Q R α
  /-- What it has. -/
  hold : Hold
  /-- History: the transactions it has got. -/
  mine : List TransId

/-- The transaction that a caller works on outside of `uvfs_make_request`: it builds the request or
frees the transaction. -/
def caller? : Act → Option TransId
  | .buildRequest t _ | .kfree t => some t
  | _ => none

/-- Only the operation itself builds its request and frees its transaction. -/
def Own (h : Hold) (a : Act) : Prop := ∃ t ∈ caller? a, t ∈ h.trans

instance (h : Hold) (a : Act) : Decidable (Own h a) :=
  inferInstanceAs (Decidable (∃ t ∈ caller? a, t ∈ h.trans))

/-- What may happen, with the step of the driver if it is one. -/
inductive ProcessStep (kind : (q : Q) → Use (Word → Mem → Mem) Transaction (R q)) :
    Process Q R α → Option Act → Process Q R α → Prop
  /-- Anyone else, or `uvfs_make_request` of the operation goes on. -/
  | other {o : Process Q R α} {a : Act} {s : State} (hown : ¬ Own o.hold a)
      (hstep : Driver.step o.driver a = some s) : ProcessStep kind o (some a) { o with driver := s }
  /-- `uvfs_new_transaction`. -/
  | get {o : Process Q R α} {q : Q} {k : R q → Dialogue Q R α} {ok : Bool → R q}
      {junk : Transaction} {old : Option TransId} {s : State} (hprog : o.prog = .send q k)
      (hq : kind q = .get ok) (hstep : Driver.step o.driver (.newTransaction junk old) = some s) :
      ProcessStep kind o (some (.newTransaction junk old))
        ⟨s, k (ok true), .fresh o.driver.nTrans, o.driver.nTrans :: o.mine⟩
  /-- `uvfs_new_transaction` without memory. -/
  | getNone {o : Process Q R α} {q : Q} {k : R q → Dialogue Q R α} {ok : Bool → R q}
      (hprog : o.prog = .send q k) (hq : kind q = .get ok) :
      ProcessStep kind o none { o with prog := k (ok false) }
  /-- The request is built. -/
  | build {o : Process Q R α} {t : TransId} {q : Q} {k : R q → Dialogue Q R α}
      {b : Word → Mem → Mem} {read : Transaction → R q} {s : State} (hhold : o.hold = .fresh t)
      (hprog : o.prog = .send q k) (hq : kind q = .use b read)
      (hstep : Driver.step o.driver
        (.buildRequest t (b (o.driver.trans t).serial (o.driver.trans t).u)) = some s) :
      ProcessStep kind o (some (.buildRequest t (b (o.driver.trans t).serial (o.driver.trans t).u)))
        { o with driver := s }
  /-- `uvfs_make_request` has returned, and the operation reads the reply. -/
  | answer {o : Process Q R α} {t : TransId} {q : Q} {k : R q → Dialogue Q R α}
      {b : Word → Mem → Mem} {read : Transaction → R q} (hhold : o.hold = .fresh t)
      (hprog : o.prog = .send q k) (hq : kind q = .use b read)
      (hpc : (o.driver.clients t).pc = .returned) :
      ProcessStep kind o none { o with prog := k (read (o.driver.trans t)), hold := .used t }
  /-- `kfree`. -/
  | give {o : Process Q R α} {t : TransId} {q : Q} {k : R q → Dialogue Q R α} {a : R q} {s : State}
      (hhold : o.hold = .used t) (hprog : o.prog = .send q k) (hq : kind q = .give a)
      (hstep : Driver.step o.driver (.kfree t) = some s) :
      ProcessStep kind o (some (.kfree t)) ⟨s, k a, .none, o.mine⟩

/-- The steps of the driver while the operation `d` runs, the last one first; what has happened
before it started is among them. -/
inductive ProcessRun (G : State → Act → Prop)
    (kind : (q : Q) → Use (Word → Mem → Mem) Transaction (R q)) (d : Dialogue Q R α) :
    List (Taken State Act) → Process Q R α → Prop
  /-- It starts in any state of the driver. -/
  | start {tr : List (Taken State Act)} {s : State} (h : Trace Driver.step G State.init tr s) :
      ProcessRun G kind d tr ⟨s, d, .none, []⟩
  /-- A step of the driver. -/
  | act {tr : List (Taken State Act)} {o o' : Process Q R α} {a : Act}
      (h : ProcessRun G kind d tr o) (hstep : ProcessStep kind o (some a) o')
      (hG : G o.driver a) : ProcessRun G kind d (⟨o.driver, a, o'.driver⟩ :: tr) o'
  /-- A step of the operation alone. -/
  | silent {tr : List (Taken State Act)} {o o' : Process Q R α} (h : ProcessRun G kind d tr o)
      (hstep : ProcessStep kind o none o') : ProcessRun G kind d tr o'

/-- The request of the transaction is built, and it is this one. -/
def HasBuilt (s : State) (t : TransId) (request : Mem) : Prop :=
  t < s.nTrans ∧ (s.clients t).pc ≠ .created ∧ (s.clients t).request = request

/-- The answer is read off a transaction of the operation in which this very request was built, and
which has the outcome of the call in it; a reply in it was written by the server. -/
def Explained (kind : (q : Q) → Use (Word → Mem → Mem) Transaction (R q)) (s : State)
    (mine : List TransId) (tr : List (Taken State Act)) (x : (q : Q) × R q) : Prop :=
  ∀ b read, kind x.1 = .use b read → BuildsRequest b ∧
    ∃ t ∈ mine, ∃ trans serial stale reply withdrawn, HasBuilt s t (b serial stale) ∧
      x.2 = read trans ∧ trans.u = outcome (b serial stale) reply withdrawn ∧
      ∀ c ∈ reply, c ∈ copies t tr

/-! ## What holds on the way -/

variable {G : State → Act → Prop} {kind : (q : Q) → Use (Word → Mem → Mem) Transaction (R q)}
  {d : Dialogue Q R α} {tr : List (Taken State Act)} {o o' : Process Q R α} {a : Act} {t : TransId}
  {s : State}

theorem ProcessStep.driver_step (h : ProcessStep kind o (some a) o') :
    Driver.step o.driver a = some o'.driver := by
  cases h with
  | other _ hstep => exact hstep
  | get _ _ hstep => exact hstep
  | build _ _ _ hstep => exact hstep
  | give _ _ _ hstep => exact hstep

theorem ProcessStep.driver_eq (h : ProcessStep kind o none o') : o'.driver = o.driver := by
  cases h with
  | getNone _ _ => rfl
  | answer _ _ _ _ => rfl

namespace ProcessRun

/-- The others go on for a while. -/
theorem others (h : ProcessRun G kind d tr o)
    (hreach : Reach Driver.step (fun s a => G s a ∧ ¬ Own o.hold a) o.driver s) :
    ∃ tr, ProcessRun G kind d tr { o with driver := s } := by
  induction hreach with
  | refl => exact ⟨tr, h⟩
  | tail _ hG hstep ih =>
      obtain ⟨tr, ih⟩ := ih
      exact ⟨_, ih.act (.other hG.2 hstep) hG.1⟩

/-- The steps of the driver are a run of it. -/
theorem trace (h : ProcessRun G kind d tr o) : Trace Driver.step G State.init tr o.driver := by
  induction h with
  | start htr => exact htr
  | act _ hstep hG ih => exact ih.cons hG hstep.driver_step
  | silent _ hstep ih =>
      rw [hstep.driver_eq]
      exact ih

theorem sound (h : ProcessRun G kind d tr o) : Driver.Sound o.driver := by
  have hr : Driver.Reachable G o.driver := h.trace.reach
  exact Driver.Reachable.sound hr

end ProcessRun

/-- An operation on its way: the order of its calls, and where its transactions stand. -/
structure Placed (kind : (q : Q) → Use (Word → Mem → Mem) Transaction (R q))
    (o : Process Q R α) : Prop where
  obeys : o.prog.Obeys BuildsRequest kind o.hold.phase
  live : ∀ t ∈ o.hold.trans, t ∈ o.mine ∧ (o.driver.clients t).pc ≠ .freed
  used : ∀ t, o.hold = .used t → (o.driver.clients t).pc = .returned
  request : ∀ t, o.hold = .fresh t → (o.driver.clients t).pc ≠ .created →
    ∀ q k b read, o.prog = .send q k → kind q = .use b read →
      ∃ serial stale, (o.driver.clients t).request = b serial stale
  mine : ∀ t ∈ o.mine, t < o.driver.nTrans ∧
    (o.hold.trans = some t ∨ (o.driver.clients t).pc = .freed)

namespace Placed

theorem start (hd : d.Obeys BuildsRequest kind .none) (s : State) :
    Placed kind ⟨s, d, .none, []⟩ where
  obeys := hd
  live _ ht := by cases ht
  used _ ht := by cases ht
  request _ ht := by cases ht
  mine _ ht := absurd ht List.not_mem_nil

/-- The transaction that the operation has is an old one. -/
theorem lt (h : Placed kind o) (ht : t ∈ o.hold.trans) : t < o.driver.nTrans :=
  (h.mine t (h.live t ht).1).1

/-- The operation has nothing. -/
theorem trans_eq_none (h : o.hold.phase = .none) : o.hold.trans = none := by
  cases hh : o.hold with
  | none => rfl
  | fresh t | used t =>
      rw [hh] at h
      cases h

/-- The freed transactions of the operation stay freed. -/
theorem freed (h : Placed kind o) (hs : Driver.Sound o.driver)
    (hstep : Driver.step o.driver a = some s) (ht : t ∈ o.mine)
    (hp : (o.driver.clients t).pc = .freed) : t < s.nTrans ∧ (s.clients t).pc = .freed := by
  have he := Driver.step_effect hstep
  exact ⟨lt_of_lt_of_le (h.mine t ht).1 he.nTrans_le, he.freed hs (h.mine t ht).1 hp⟩

/-- What a step of somebody else leaves of the transaction that the operation has. -/
theorem kept (h : Placed kind o) (hs : Driver.Sound o.driver) (hown : ¬ Own o.hold a)
    (hstep : Driver.step o.driver a = some s) (ht : t ∈ o.hold.trans) :
    (s.clients t).request = (o.driver.clients t).request ∧
      ((s.clients t).pc = .created ↔ (o.driver.clients t).pc = .created) ∧
      ((o.driver.clients t).pc = .returned → (s.clients t).pc = .returned) ∧
      ((s.clients t).pc = .freed ↔ (o.driver.clients t).pc = .freed) :=
  (Driver.step_effect hstep).client_of_other hs (h.lt ht)
    (fun req hb => hown ⟨t, by rw [hb]; rfl, ht⟩) fun hf => hown ⟨t, by rw [hf]; rfl, ht⟩

/-- A step of somebody else. -/
theorem other (h : Placed kind o) (hs : Driver.Sound o.driver) (hown : ¬ Own o.hold a)
    (hstep : Driver.step o.driver a = some s) : Placed kind { o with driver := s } := by
  have he := Driver.step_effect hstep
  refine ⟨h.obeys, fun t ht => ?_, fun t ht => ?_, fun t ht hp => ?_, fun t ht => ?_⟩
  · obtain ⟨hmine, hp⟩ := h.live t ht
    exact ⟨hmine, fun hf => hp ((h.kept hs hown hstep ht).2.2.2.mp hf)⟩
  · have ht' : o.hold = .used t := ht
    exact (h.kept hs hown hstep (by rw [ht']; rfl)).2.2.1 (h.used t ht)
  · have ht' : o.hold = .fresh t := ht
    obtain ⟨hreq, hcreated, _⟩ := h.kept hs hown hstep (t := t) (by rw [ht']; rfl)
    intro q k b read hprog hq
    obtain ⟨serial, stale, hb⟩ := h.request t ht (fun hc => hp (hcreated.mpr hc)) q k b read
      hprog hq
    exact ⟨serial, stale, hreq.trans hb⟩
  · obtain ⟨hlt, hhold | hp⟩ := h.mine t ht
    · exact ⟨lt_of_lt_of_le hlt he.nTrans_le, .inl hhold⟩
    · exact ⟨(h.freed hs hstep ht hp).1, .inr (h.freed hs hstep ht hp).2⟩

/-- The operation gets a transaction. -/
theorem get (h : Placed kind o) (hs : Driver.Sound o.driver) {q : Q} {k : R q → Dialogue Q R α}
    {ok : Bool → R q} {junk : Transaction} {old : Option TransId} (hprog : o.prog = .send q k)
    (hq : kind q = .get ok) (hstep : Driver.step o.driver (.newTransaction junk old) = some s) :
    Placed kind ⟨s, k (ok true), .fresh o.driver.nTrans, o.driver.nTrans :: o.mine⟩ := by
  have hobeys := h.obeys
  rw [hprog] at hobeys
  obtain ⟨hphase, hok, _⟩ := hobeys.of_get hq
  have hs' : s = o.driver.addTransaction junk old := by
    cases Driver.step_effect hstep
    rfl
  have hpc : (s.clients o.driver.nTrans).pc = .created := by simp [hs', State.addTransaction]
  have hlt : o.driver.nTrans < s.nTrans := by simp [hs', State.addTransaction]
  refine ⟨hok, fun t ht => ?_, fun t ht => ?_, fun t ht hp => ?_, fun t ht => ?_⟩
  · cases ht
    exact ⟨.head _, by rw [hpc]; simp⟩
  · cases ht
  · cases ht
    exact absurd hpc hp
  · rcases List.mem_cons.mp ht with rfl | ht
    · exact ⟨hlt, .inl rfl⟩
    · obtain ⟨_, hhold | hp⟩ := h.mine t ht
      · rw [trans_eq_none hphase] at hhold
        cases hhold
      · exact ⟨(h.freed hs hstep ht hp).1, .inr (h.freed hs hstep ht hp).2⟩

/-- There is no transaction for it. -/
theorem getNone (h : Placed kind o) {q : Q} {k : R q → Dialogue Q R α} {ok : Bool → R q}
    (hprog : o.prog = .send q k) (hq : kind q = .get ok) :
    Placed kind { o with prog := k (ok false) } := by
  have hobeys := h.obeys
  rw [hprog] at hobeys
  obtain ⟨hphase, _, hok⟩ := hobeys.of_get hq
  refine ⟨hphase ▸ hok, h.live, h.used, fun t ht => ?_, h.mine⟩
  rw [show o.hold = .fresh t from ht] at hphase
  cases hphase

/-- The operation builds its request. -/
theorem build (h : Placed kind o) (hs : Driver.Sound o.driver) {q : Q} {k : R q → Dialogue Q R α}
    {b : Word → Mem → Mem} {read : Transaction → R q} (hhold : o.hold = .fresh t)
    (hprog : o.prog = .send q k) (hq : kind q = .use b read) {serial : Word} {stale : Mem}
    (hstep : Driver.step o.driver (.buildRequest t (b serial stale)) = some s) :
    Placed kind { o with driver := s } := by
  have he := Driver.step_effect hstep
  have hs' : s = ((o.driver.setTrans t { o.driver.trans t with u := b serial stale }).setClient t
      { o.driver.clients t with pc := .built, request := b serial stale }) := by
    cases he
    rfl
  have hclient : s.clients t =
      { o.driver.clients t with pc := .built, request := b serial stale } := by
    simp [hs', State.setClient]
  refine ⟨h.obeys, fun t' ht' => ?_, fun t' ht' => ?_, fun t' ht' _ => ?_, fun t' ht' => ?_⟩
  · obtain rfl : t = t' := by
      have hh : t' ∈ o.hold.trans := ht'
      rw [hhold] at hh
      exact Option.some.inj hh
    refine ⟨(h.live t (by rw [hhold]; rfl)).1, ?_⟩
    rw [hclient]
    simp
  · have hh : o.hold = .used t' := ht'
    rw [hhold] at hh
    cases hh
  · have hh : o.hold = .fresh t' := ht'
    rw [hhold] at hh
    cases hh
    intro q' k' b' read' hprog' hq'
    obtain ⟨rfl, _⟩ := Dialogue.send.inj (hprog.symm.trans hprog')
    obtain ⟨rfl, _⟩ := Use.use.inj (hq.symm.trans hq')
    refine ⟨serial, stale, ?_⟩
    change (s.clients t).request = _
    rw [hclient]
  · obtain ⟨hlt, hh | hp⟩ := h.mine t' ht'
    · exact ⟨lt_of_lt_of_le hlt he.nTrans_le, .inl hh⟩
    · exact ⟨(h.freed hs hstep ht' hp).1, .inr (h.freed hs hstep ht' hp).2⟩

/-- The operation reads the reply. -/
theorem answer (h : Placed kind o) {q : Q} {k : R q → Dialogue Q R α} {b : Word → Mem → Mem}
    {read : Transaction → R q} (hhold : o.hold = .fresh t) (hprog : o.prog = .send q k)
    (hq : kind q = .use b read) (hpc : (o.driver.clients t).pc = .returned) :
    Placed kind { o with prog := k (read (o.driver.trans t)), hold := .used t } := by
  have hobeys := h.obeys
  rw [hprog] at hobeys
  refine ⟨(hobeys.of_use hq).2.2 _, fun t' ht' => ?_, fun t' ht' => ?_, fun t' ht' => ?_,
    fun t' ht' => ?_⟩
  · cases ht'
    exact h.live t (by rw [hhold]; rfl)
  · cases ht'
    exact hpc
  · cases ht'
  · obtain ⟨hlt, hh | hp⟩ := h.mine t' ht'
    · rw [hhold] at hh
      exact ⟨hlt, .inl hh⟩
    · exact ⟨hlt, .inr hp⟩

/-- The operation frees its transaction. -/
theorem give (h : Placed kind o) (hs : Driver.Sound o.driver) {q : Q} {k : R q → Dialogue Q R α}
    {r : R q} (hhold : o.hold = .used t) (hprog : o.prog = .send q k) (hq : kind q = .give r)
    (hstep : Driver.step o.driver (.kfree t) = some s) : Placed kind ⟨s, k r, .none, o.mine⟩ := by
  have hobeys := h.obeys
  rw [hprog] at hobeys
  have he := Driver.step_effect hstep
  have hpc : (s.clients t).pc = .freed := by
    cases he
    simp [State.setClientPc, State.setClient]
  refine ⟨(hobeys.of_give hq).2, fun t' ht' => ?_, fun t' ht' => ?_, fun t' ht' => ?_,
    fun t' ht' => ?_⟩
  · cases ht'
  · cases ht'
  · cases ht'
  · obtain ⟨hlt, hh | hp⟩ := h.mine t' ht'
    · rw [hhold] at hh
      cases hh
      exact ⟨lt_of_lt_of_le hlt he.nTrans_le, .inr hpc⟩
    · exact ⟨(h.freed hs hstep ht' hp).1, .inr (h.freed hs hstep ht' hp).2⟩

/-- **One step**, of anyone. -/
theorem step (h : Placed kind o) (hs : Driver.Sound o.driver) {x : Option Act}
    (hstep : ProcessStep kind o x o') : Placed kind o' := by
  cases hstep with
  | other hown hstep => exact h.other hs hown hstep
  | get hprog hq hstep => exact h.get hs hprog hq hstep
  | getNone hprog hq => exact h.getNone hprog hq
  | build hhold hprog hq hstep => exact h.build hs hhold hprog hq hstep
  | answer hhold hprog hq hpc => exact h.answer hhold hprog hq hpc
  | give hhold hprog hq hstep => exact h.give hs hhold hprog hq hstep

/-- **On the way**, whatever happens. -/
theorem of_run (hd : d.Obeys BuildsRequest kind .none) (h : ProcessRun G kind d tr o) :
    Placed kind o := by
  induction h with
  | start _ => exact .start hd _
  | act h hstep _ ih => exact ih.step h.sound hstep
  | silent h hstep ih => exact ih.step h.sound hstep

end Placed

/-! ## The answers -/

/-- What was built stays built. -/
theorem HasBuilt.step {request : Mem} (h : HasBuilt s t request) (hs : Driver.Sound s) {s' : State}
    (hstep : Driver.step s a = some s') : HasBuilt s' t request := by
  obtain ⟨hlt, hcreated, hrequest⟩ := h
  have he := Driver.step_effect hstep
  refine ⟨lt_of_lt_of_le hlt he.nTrans_le, ?_⟩
  by_cases hbuild : ∃ req, a = .buildRequest t req
  · obtain ⟨req, rfl⟩ := hbuild
    cases he with
    | buildRequest _ _ hc _ => exact absurd hc hcreated
  by_cases hfree : a = .kfree t
  · subst hfree
    cases he with
    | kfree _ _ => simpa [State.setClientPc, State.setClient] using hrequest
  · push Not at hbuild
    obtain ⟨hsame, hiff, _⟩ := he.client_of_other hs hlt hbuild hfree
    exact ⟨hiff.not.mpr hcreated, hsame.trans hrequest⟩

/-- What the server has written stays written. -/
theorem Explained.cons {x : (q : Q) × R q} {mine mine' : List TransId} {s' : State}
    (h : Explained kind s mine tr x) (hs : Driver.Sound s) (hsub : mine ⊆ mine')
    (hstep : Driver.step s a = some s') : Explained kind s' mine' (⟨s, a, s'⟩ :: tr) x := by
  intro b read hq
  obtain ⟨hb, t, ht, trans, serial, stale, reply, withdrawn, hbuilt, hread, hu, hreply⟩ :=
    h b read hq
  refine ⟨hb, t, hsub ht, trans, serial, stale, reply, withdrawn, hbuilt.step hs hstep, hread, hu,
    fun c hc => ?_⟩
  rw [Driver.copies_cons]
  exact List.mem_append_right _ (hreply c hc)

/-- The program has come to `p` by answers that are explained. -/
def LedTo (kind : (q : Q) → Use (Word → Mem → Mem) Transaction (R q)) (d : Dialogue Q R α)
    (s : State) (mine : List TransId) (tr : List (Taken State Act)) (p : Dialogue Q R α) : Prop :=
  ∃ as, d.Led as p ∧ ∀ x ∈ as, Explained kind s mine tr x

/-- After a step of the driver. -/
theorem LedTo.cons {mine mine' : List TransId} {p : Dialogue Q R α} {s' : State}
    (h : LedTo kind d s mine tr p) (hs : Driver.Sound s) (hsub : mine ⊆ mine')
    (hstep : Driver.step s a = some s') : LedTo kind d s' mine' (⟨s, a, s'⟩ :: tr) p := by
  obtain ⟨as, hled, hexp⟩ := h
  exact ⟨as, hled, fun x hx => (hexp x hx).cons hs hsub hstep⟩

/-- One more answer. -/
theorem LedTo.next {mine : List TransId} {q : Q} {k : R q → Dialogue Q R α} {r : R q}
    (h : LedTo kind d s mine tr (.send q k)) (hr : Explained kind s mine tr ⟨q, r⟩) :
    LedTo kind d s mine tr (k r) := by
  obtain ⟨as, hled, hexp⟩ := h
  exact ⟨_, hled.next r, List.forall_mem_cons.mpr ⟨hr, hexp⟩⟩

/-- An answer of another call needs no explanation. -/
theorem explained_of_ne {mine : List TransId} {q : Q} {r : R q}
    (hq : ∀ b read, kind q ≠ .use b read) : Explained kind s mine tr ⟨q, r⟩ :=
  fun b read hb => absurd hb (hq b read)

/-- The answer that is read off the transaction when `uvfs_make_request` has returned. -/
theorem explained_of_returned (hd : d.Obeys BuildsRequest kind .none)
    (h : ProcessRun ClaimsSafely kind d tr o) {q : Q} {k : R q → Dialogue Q R α}
    {b : Word → Mem → Mem} {read : Transaction → R q} (hhold : o.hold = .fresh t)
    (hprog : o.prog = .send q k) (hq : kind q = .use b read)
    (hpc : (o.driver.clients t).pc = .returned) :
    Explained kind o.driver o.mine tr ⟨q, read (o.driver.trans t)⟩ := by
  have hplaced := Placed.of_run hd h
  have hmine : t ∈ o.hold.trans := by rw [hhold]; rfl
  have hcreated : (o.driver.clients t).pc ≠ .created := by rw [hpc]; simp
  have hobeys := hplaced.obeys
  rw [hprog] at hobeys
  obtain ⟨serial, stale, hreq⟩ := hplaced.request t hhold hcreated q k b read hprog hq
  obtain ⟨reply, hcopies, hu⟩ := Driver.Trace.outcome_of_returned h.trace hpc
  intro b' read' hq'
  obtain ⟨rfl, hread⟩ := Use.use.inj (hq.symm.trans hq')
  refine ⟨(hobeys.of_use hq).2.1, t, (hplaced.live t hmine).1, o.driver.trans t, serial, stale,
    reply, _, ⟨hplaced.lt hmine, hcreated, hreq⟩, by rw [← hread], hreq ▸ hu, fun c hc => ?_⟩
  rw [hcopies]
  exact Option.mem_toList.mpr hc

/-- **What the operation has been told**, in a run that meets the guard. -/
theorem ProcessRun.ledTo (hd : d.Obeys BuildsRequest kind .none)
    (h : ProcessRun ClaimsSafely kind d tr o) : LedTo kind d o.driver o.mine tr o.prog := by
  induction h with
  | start _ => exact ⟨[], .start, fun _ hx => absurd hx List.not_mem_nil⟩
  | act h hstep _ ih =>
      cases hstep with
      | other _ hstep => exact ih.cons h.sound (List.Subset.refl _) hstep
      | build _ _ _ hstep => exact ih.cons h.sound (List.Subset.refl _) hstep
      | get hprog hq hstep =>
          rw [hprog] at ih
          exact (ih.next (explained_of_ne (by rw [hq]; simp))).cons h.sound
            (List.subset_cons_self _ _) hstep
      | give _ hprog hq hstep =>
          rw [hprog] at ih
          exact (ih.next (explained_of_ne (by rw [hq]; simp))).cons h.sound (List.Subset.refl _)
            hstep
  | silent h hstep ih =>
      cases hstep with
      | getNone hprog hq =>
          rw [hprog] at ih
          exact ih.next (explained_of_ne (by rw [hq]; simp))
      | answer hhold hprog hq hpc =>
          have hr := explained_of_returned hd h hhold hprog hq hpc
          rw [hprog] at ih
          exact ih.next hr

end

/-! ## The operations -/

section

variable {l : LongWidth} {c : Cred} {α : Type}

/-- One request whose lengths were checked. -/
theorem obeys_request {r : VfsRequest} (h : r.Accepted) (noMemory : α) (read : Mem → α) :
    (Wire.request r noMemory read).Obeys BuildsRequest (wireUse l c) .none :=
  ⟨⟨VfsRequest.buildsRequest h, fun _ => rfl⟩, rfl⟩

/-- A check before the request. -/
theorem obeys_ite {Q : Type} {R : Q → Type}
    {kind : (q : Q) → Use (Word → Mem → Mem) Transaction (R q)} {p : Prop} [Decidable p]
    {d d' : Dialogue Q R α} {ph : Phase} (h : p → d.Obeys BuildsRequest kind ph)
    (h' : ¬ p → d'.Obeys BuildsRequest kind ph) :
    (if p then d else d').Obeys BuildsRequest kind ph := by
  split
  · exact h ‹_›
  · exact h' ‹_›

theorem obeys_uvfsLookupByName (dir : Inode) (name : List Byte) :
    (uvfsLookupByName dir name).Obeys BuildsRequest (wireUse l c) .none := by
  refine obeys_ite (fun _ => rfl) fun hlen => obeys_request ?_ _ _
  exact not_lt.mp hlen

theorem obeys_uvfsLookupName (hash : ℕ → ℕ → ℕ) (cache : InodeCache) (dir : Slot ℕ CachedInode)
    (memory : Bool) (name : List Byte) :
    (uvfsLookupName hash l c.fsuid cache dir memory name).Obeys BuildsRequest (wireUse l c)
      .none :=
  (obeys_uvfsLookupByName _ _).bind fun _ => rfl

/-- The loop of `uvfs_readdir`: each round frees its transaction, however it goes on. -/
theorem obeys_uvfsReaddir (dir : Inode) (before : Mem) (filldir : Filldir) (fuel : ℕ) (fPos : ℤ)
    (out : List Dirent) :
    (uvfsReaddir dir before filldir fuel fPos out).Obeys BuildsRequest (wireUse l c) .none := by
  induction fuel generalizing fPos out with
  | zero => rfl
  | succ fuel ih =>
      have hreq : BuildsRequest fun serial stale =>
          ((VfsRequest.readdir dir fPos).built l c serial).store stale :=
        VfsRequest.buildsRequest trivial
      refine ⟨⟨hreq, fun x => ?_⟩, rfl⟩
      refine obeys_ite (fun _ => rfl) fun _ => obeys_ite (fun _ => rfl) fun _ => ?_
      split
      · rfl
      · exact ih _ _

/-- `uvfs_write`, of at most a page. -/
theorem obeys_uvfsWrite (inode : Inode) (buff : Mem) (offset : Word) {count : Word}
    (h : count.toNat ≤ pageCacheSize) :
    (uvfsWrite c inode buff offset count).Obeys BuildsRequest fileUse .none := by
  have hreq : BuildsRequest fun serial stale =>
      ((VfsRequest.write inode buff offset count).built .w64 c serial).store stale :=
    VfsRequest.buildsRequest h
  exact ⟨⟨hreq, fun _ => rfl⟩, rfl⟩

theorem obeys_writePageBytes (inode : Inode) (pg : Page) {count : Word}
    (h : count.toNat ≤ pageCacheSize) :
    (writePageBytes l c inode pg count).Obeys BuildsRequest fileUse .none :=
  (obeys_uvfsWrite _ _ _ h).bind fun _ => rfl

/-- What lies in the last page is no more than a page. -/
theorem toNat_lastCount_le (size : ℤ) :
    (BitVec.ofInt 32 (size % pageCacheSize)).toNat ≤ pageCacheSize := by
  unfold pageCacheSize
  rw [BitVec.toNat_ofInt]
  omega

/-- The part of a page has at most its bytes. -/
theorem toNat_commitCount_le {offset upto : ℕ} (h : offset ≤ upto) (hupto : upto ≤ pageCacheSize) :
    (commitCount offset upto).toNat ≤ pageCacheSize := by
  unfold commitCount pageCacheSize at *
  rw [BitVec.toNat_sub, BitVec.toNat_ofNat, BitVec.toNat_ofNat]
  omega

theorem obeys_uvfsCommitWrite (inode : Inode) (pg : Page) {offset upto : ℕ} (h : offset ≤ upto)
    (hupto : upto ≤ pageCacheSize) :
    (uvfsCommitWrite l c inode pg offset upto).Obeys BuildsRequest fileUse .none :=
  (obeys_uvfsWrite _ _ _ (toNat_commitCount_le h hupto)).bind fun _ => rfl

/-- The operations that make one request at most, with the meaning of their calls.  The generic
write path stays inside the page. -/
inductive OneRequest : {Q : Type} → {R : Q → Type} → {α : Type} →
    ((q : Q) → Use (Word → Mem → Mem) Transaction (R q)) → Dialogue Q R α → Prop
  | create {hash l c cache dir memory name mode} :
      OneRequest (wireUse l c) (uvfsCreate hash l c.fsuid cache dir memory name mode)
  | symlink {hash l c cache dir memory name path} :
      OneRequest (wireUse l c) (uvfsSymlink hash l c.fsuid cache dir memory name path)
  | mkdir {hash l c cache dir memory name mode} :
      OneRequest (wireUse l c) (uvfsMkdir hash l c.fsuid cache dir memory name mode)
  | unlink {l c cache dir name inode} :
      OneRequest (wireUse l c) (uvfsUnlink cache dir name inode)
  | rmdir {l c cache dir name inode} :
      OneRequest (wireUse l c) (uvfsRmdir cache dir name inode)
  | rename {l c cache dir srcname src dstdir dstname dst} :
      OneRequest (wireUse l c) (uvfsRename cache dir srcname src dstdir dstname dst)
  | lookupByName {l c dir name} : OneRequest (wireUse l c) (uvfsLookupByName dir name)
  | lookup {k hash l c cache dir memory name} :
      OneRequest (wireUse l c) (uvfsLookupEntry k hash l c.fsuid cache dir memory name)
  | getParent {hash l c cache child memory} :
      OneRequest (wireUse l c) (uvfsGetParent hash l c.fsuid cache child memory)
  | permission {l c who flags inode mask} :
      OneRequest (wireUse l c) (uvfsPermission who flags inode mask)
  | setattr {l c k inode attr} : OneRequest (wireUse l c) (uvfsSetattr k inode attr)
  | revalidate {l c inode} : OneRequest (wireUse l c) (uvfsRevalidateInode l c.fsuid inode)
  | getDentry {hash l c cache later sb fh memory} :
      OneRequest (wireUse l c) (uvfsGetDentryWire hash l c.fsuid cache later sb fh memory)
  | statfs {l c fh} : OneRequest (wireUse l c) (uvfsStatfs fh)
  | readSuper {hash l c cache sb memory data} :
      OneRequest (wireUse l c) (uvfsReadSuper hash l c.fsuid cache sb memory data)
  | readlink {l c fh buflen} : OneRequest (wireUse l c) (uvfsReadlink fh buflen)
  | followLink {l c fh} : OneRequest (wireUse l c) (uvfsFollowLink fh)
  | readpage {l c inode pg} : OneRequest fileUse (uvfsReadpage l c inode pg)
  | writepage {l c inode pg} : OneRequest fileUse (uvfsWritepage l c inode pg)
  | commitWrite {l c inode pg offset upto} (h : offset ≤ upto) (hupto : upto ≤ pageCacheSize) :
      OneRequest fileUse (uvfsCommitWrite l c inode pg offset upto)
  | writeEnd {l c inode pg pos len copied} (h : pos % pageCacheSize + copied ≤ pageCacheSize) :
      OneRequest fileUse (uvfsWriteEnd l c inode pg pos len copied)

/-- The operations that talk to the server: `uvfs_readdir` alone has a loop around its request. -/
inductive VfsOperation : {Q : Type} → {R : Q → Type} → {α : Type} →
    ((q : Q) → Use (Word → Mem → Mem) Transaction (R q)) → Dialogue Q R α → Prop
  | once {Q : Type} {R : Q → Type} {α : Type}
      {kind : (q : Q) → Use (Word → Mem → Mem) Transaction (R q)} {d : Dialogue Q R α}
      (h : OneRequest kind d) : VfsOperation kind d
  | readdir {l c dir before filldir fuel fPos out} :
      VfsOperation (wireUse l c) (uvfsReaddir dir before filldir fuel fPos out)

theorem OneRequest.obeys {Q : Type} {R : Q → Type}
    {kind : (q : Q) → Use (Word → Mem → Mem) Transaction (R q)} {d : Dialogue Q R α}
    (h : OneRequest kind d) : d.Obeys BuildsRequest kind .none := by
  cases h with
  | create | mkdir | unlink | rmdir =>
      refine obeys_ite (fun _ => rfl) fun hlen => obeys_request ?_ _ _
      exact not_lt.mp hlen
  | symlink =>
      refine obeys_ite (fun _ => rfl) fun hname => obeys_ite (fun _ => rfl) fun hpath =>
        obeys_request ?_ _ _
      exact ⟨not_lt.mp hname, not_lt.mp hpath⟩
  | rename =>
      refine obeys_ite (fun _ => rfl) fun hlen => obeys_request ?_ _ _
      rw [not_or] at hlen
      exact ⟨not_lt.mp hlen.1, not_lt.mp hlen.2⟩
  | lookupByName => exact obeys_uvfsLookupByName _ _
  | lookup => exact (obeys_uvfsLookupName _ _ _ _ _).bind fun _ => rfl
  | getParent =>
      refine (obeys_uvfsLookupByName _ _).bind fun o => obeys_ite (fun _ => rfl) fun _ => ?_
      split <;> rfl
  | permission =>
      refine obeys_ite (fun _ => rfl) fun _ => obeys_ite (fun _ => rfl) fun _ =>
        obeys_ite (fun _ => obeys_request ?_ _ _) fun _ => rfl
      trivial
  | setattr =>
      refine obeys_ite (fun _ => rfl) fun _ => obeys_ite (fun _ => rfl) fun _ =>
        obeys_request ?_ _ _
      trivial
  | revalidate | statfs | readlink | followLink =>
      refine obeys_request ?_ _ _
      trivial
  | getDentry =>
      unfold uvfsGetDentryWire
      split
      · rfl
      · refine obeys_request ?_ _ _
        trivial
  | readSuper =>
      unfold uvfsReadSuper
      split
      · rfl
      · refine obeys_ite (fun _ => rfl) fun hlen => obeys_request ?_ _ _
        exact not_le.mp hlen
  | @readpage l c inode pg =>
      have hreq : BuildsRequest fun serial stale =>
          ((VfsRequest.readpage inode pg).built l c serial).store stale :=
        VfsRequest.buildsRequest trivial
      exact ⟨⟨hreq, fun _ => obeys_ite (fun _ => rfl) fun _ => rfl⟩, rfl⟩
  | writepage =>
      exact obeys_ite (fun _ => obeys_writePageBytes _ _ le_rfl) fun _ =>
        obeys_ite (fun _ => rfl) fun _ => obeys_writePageBytes _ _ (toNat_lastCount_le _)
  | commitWrite h hupto => exact obeys_uvfsCommitWrite _ _ h hupto
  | writeEnd h =>
      exact (obeys_uvfsCommitWrite _ _ (Nat.le_add_right _ _) h).bind fun _ => rfl

/-- **Each operation keeps the order of calls**, whatever the driver and the server answer. -/
theorem VfsOperation.obeys {Q : Type} {R : Q → Type}
    {kind : (q : Q) → Use (Word → Mem → Mem) Transaction (R q)} {d : Dialogue Q R α}
    (h : VfsOperation kind d) : d.Obeys BuildsRequest kind .none := by
  cases h with
  | once h => exact h.obeys
  | readdir => exact obeys_uvfsReaddir _ _ _ _ _ _

/-- **An operation over the driver.**  In every run of the driver in which no write claims a
transaction out of turn or copies over `in_use`, with any other clients, server threads, signals and
closes of the device in between: when an operation has ended, it has freed every transaction that it
got, and its result comes from answers each of which is the outcome of a request that it has built
itself: the request with one reply of the server over it, or with `-EIO` or `-ERESTARTSYS`. -/
theorem operation_over_driver {Q : Type} {R : Q → Type}
    {kind : (q : Q) → Use (Word → Mem → Mem) Transaction (R q)} {d : Dialogue Q R α}
    (hop : VfsOperation kind d) {tr : List (Taken State Act)} {o : Process Q R α}
    (h : ProcessRun ClaimsSafely kind d tr o) {a : α} (hend : o.prog = .result a) :
    (∀ t ∈ o.mine, (o.driver.clients t).pc = .freed) ∧
      ∃ as, d.Led as (.result a) ∧ ∀ x ∈ as, Explained kind o.driver o.mine tr x := by
  have hplaced := Placed.of_run hop.obeys h
  have hphase := hplaced.obeys
  rw [hend] at hphase
  refine ⟨fun t ht => ?_, hend ▸ h.ledTo hop.obeys⟩
  obtain ⟨_, hhold | hp⟩ := hplaced.mine t ht
  · rw [Placed.trans_eq_none hphase] at hhold
    cases hhold
  · exact hp

/-- The driver when the server has the device open. -/
def served : State := { State.init with opened := [0], uvfsUseCount := 1 }

/-- The calls of `uvfs_statfs` after the first. -/
def statfsRest : Wire (ℤ × Option Kstatfs) := do
  let reply ← Wire.makeRequest (.statfs setgidDir.fh)
  Wire.kfree
  return (replyError reply, some (kstatfsOf reply))

/-- `uvfs_statfs` when it has got a transaction. -/
def statfsFresh : Process WireCall WireCall.Answer (ℤ × Option Kstatfs) :=
  ⟨served.addTransaction .zeroed none, statfsRest, .fresh 0, [0]⟩

/-- It comes so far. -/
theorem exists_run_statfsFresh :
    ∃ tr, ProcessRun ClaimsSafely (wireUse .w64 ⟨1, 2⟩) (uvfsStatfs setgidDir.fh) tr
      statfsFresh := by
  have hopen : Trace Driver.step ClaimsSafely State.init
      [⟨State.init, .uvfsdOpen 0, served⟩] served := .cons .nil (.of_other rfl rfl) rfl
  have hstep : Driver.step served (.newTransaction .zeroed none) =
      some (served.addTransaction .zeroed none) := Driver.step_newTransaction_none _ _
  have hget := @ProcessStep.get _ _ _ (wireUse .w64 ⟨1, 2⟩)
    ⟨served, uvfsStatfs setgidDir.fh, .none, []⟩ _ _ _ .zeroed none _ rfl rfl hstep
  exact ⟨_, (ProcessRun.start hopen).act hget (.of_other rfl rfl)⟩

/-- The request of `uvfs_statfs`. -/
def statfsBuilt : Mem := ((VfsRequest.statfs setgidDir.fh).built .w64 ⟨1, 2⟩ 0).store fun _ => 0

/-- The driver when the request is built. -/
def servedOne : State :=
  let s := served.addTransaction .zeroed none
  (s.setTrans 0 { s.trans 0 with u := statfsBuilt }).setClient 0
    { s.clients 0 with pc := .built, request := statfsBuilt }

/-- The server answers, and `uvfs_statfs` returns zero. -/
theorem operation_over_driver_statfs : ∃ tr o x,
    ProcessRun ClaimsSafely (wireUse .w64 ⟨1, 2⟩) (uvfsStatfs setgidDir.fh) tr o ∧
      (o.prog = .result (0, some x) ∧ o.mine = [0]) ∧
      (∀ t ∈ o.mine, (o.driver.clients t).pc = .freed) ∧
      ∃ as, (uvfsStatfs setgidDir.fh).Led as (.result (0, some x)) ∧
        ∀ y ∈ as, Explained (wireUse .w64 ⟨1, 2⟩) o.driver o.mine tr y := by
  obtain ⟨tr, hrun⟩ := exists_run_statfsFresh
  have haccepted : (VfsRequest.statfs setgidDir.fh).Accepted := trivial
  have hstep : Driver.step (served.addTransaction .zeroed none) (.buildRequest 0 statfsBuilt) =
      some servedOne := by
    show State.buildRequest _ _ _ = _
    unfold State.buildRequest
    rw [if_pos ⟨rfl, (VfsRequest.buildsRequest haccepted).isRequest 0 _⟩]
    rfl
  have hbuild := @ProcessStep.build _ _ _ (wireUse .w64 ⟨1, 2⟩) statfsFresh 0 _ _ _ _ servedOne rfl
    rfl rfl hstep
  obtain ⟨s, hs, hret, herror⟩ := Reach.of_check Driver.step
    (fun s a => ClaimsSafely s a ∧ ¬ Own (.fresh 0) a) servedOne
    [.makeRequest 0 none, .readEnter 0 sizeofUvfsRequestU, .readLock 0 none, .readCopy 0 none,
      .readDone 0, .readReturn 0, .writeEnter 0 16 (some ⟨0, 16⟩) (some 0), .writeLookup 0,
      .writeCopy 0 (fun _ => 0) none, .writeDone 0, .waitAnswered 0, .checkSignal 0, .leave 0]
    (fun s => (s.clients 0).pc = .returned ∧ replyError (flat (s.trans 0)) = 0) (by decide +kernel)
  obtain ⟨tr', hrun'⟩ := (hrun.act hbuild (.of_other rfl rfl)).others hs
  have hkfree : Driver.step s (.kfree 0) = some (s.setClientPc 0 .freed) := if_pos hret
  have hread := hrun'.silent (.answer rfl rfl rfl hret)
  have hend := hread.act (.give rfl rfl rfl hkfree) (.of_other rfl rfl)
  have hres : (Dialogue.result (replyError (flat (s.trans 0)),
      some (kstatfsOf (flat (s.trans 0)))) : Wire _) =
        .result (0, some (kstatfsOf (flat (s.trans 0)))) := by rw [herror]
  refine ⟨_, _, _, hend, ⟨hres, rfl⟩, operation_over_driver (.once .statfs) hend hres⟩

/-- The operation has come further: it has got, has an answer, has freed, or has built its request.
-/
def Process.Advances {Q : Type} {R : Q → Type} (o o' : Process Q R α) : Prop :=
  o'.hold.phase ≠ o.hold.phase ∨ ∃ t, o.hold = .fresh t ∧ (o.driver.clients t).pc = .created ∧
    (o'.driver.clients t).pc = .built

/-- **An operation never gets stuck.**  Whatever has happened, it has ended, or it is inside of
`uvfs_make_request`, or it can go on at once: the driver takes every request that it builds. -/
theorem operation_goes_on {Q : Type} {R : Q → Type}
    {kind : (q : Q) → Use (Word → Mem → Mem) Transaction (R q)} {d : Dialogue Q R α}
    (hop : VfsOperation kind d) {G : State → Act → Prop} {tr : List (Taken State Act)}
    {o : Process Q R α} (h : ProcessRun G kind d tr o) :
    (∃ a, o.prog = .result a) ∨
      (∃ t, o.hold = .fresh t ∧ (o.driver.clients t).pc ≠ .created ∧
        (o.driver.clients t).pc ≠ .returned) ∨
      ∃ a o', ProcessStep kind o a o' ∧ o.Advances o' := by
  have hplaced := Placed.of_run hop.obeys h
  have hobeys := hplaced.obeys
  cases hprog : o.prog with
  | result a => exact .inl ⟨a, rfl⟩
  | send q k =>
      refine .inr ?_
      rw [hprog] at hobeys
      cases hq : kind q with
      | get ok =>
          obtain ⟨hphase, _⟩ := hobeys.of_get hq
          have hstep := Driver.step_newTransaction_none o.driver .zeroed
          refine .inr ⟨_, _, .get hprog hq hstep, .inl ?_⟩
          rw [hphase]
          exact Phase.noConfusion
      | use b read =>
          obtain ⟨hphase, hfits, _⟩ := hobeys.of_use hq
          cases hh : o.hold with
          | none | used t =>
              rw [hh] at hphase
              cases hphase
          | fresh t =>
              by_cases hcreated : (o.driver.clients t).pc = .created
              · refine .inr ⟨_, _, .build hh hprog hq (if_pos ⟨hcreated, hfits.isRequest _ _⟩),
                  .inr ⟨t, hh, hcreated, ?_⟩⟩
                simp [State.setClient]
              · by_cases hret : (o.driver.clients t).pc = .returned
                · refine .inr ⟨_, _, .answer hh hprog hq hret, .inl ?_⟩
                  rw [hphase]
                  exact Phase.noConfusion
                · exact .inl ⟨t, rfl, hcreated, hret⟩
      | give a =>
          obtain ⟨hphase, _⟩ := hobeys.of_give hq
          cases hh : o.hold with
          | none | fresh t =>
              rw [hh] at hphase
              cases hphase
          | used t =>
              refine .inr ⟨_, _, .give hh hprog hq (if_pos (hplaced.used t hh)), .inl ?_⟩
              rw [hphase]
              exact Phase.noConfusion

/-- `uvfs_statfs` with its transaction builds its request. -/
theorem operation_goes_on_statfs : ∃ tr,
    ProcessRun ClaimsSafely (wireUse .w64 ⟨1, 2⟩) (uvfsStatfs setgidDir.fh) tr statfsFresh ∧
      ∃ a o', ProcessStep (wireUse .w64 ⟨1, 2⟩) statfsFresh a o' ∧ statfsFresh.Advances o' := by
  obtain ⟨tr, hrun⟩ := exists_run_statfsFresh
  refine ⟨tr, hrun, ?_⟩
  rcases operation_goes_on (.once .statfs) hrun with ⟨a, ha⟩ | ⟨t, ht, hcreated, _⟩ | h
  · cases ha
  · cases ht
    exact absurd rfl hcreated
  · exact h

end

end Uvfs.Vfs
