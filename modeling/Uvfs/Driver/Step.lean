import Uvfs.Lib.Run
import Uvfs.Driver.State

/-!
# The driver's steps

Each function of `driver.c` is cut at its lock operations: what happens between a `spin_lock` and
the next `spin_unlock` is one step, and so is each unlocked access in between (the user copies, the
two wait conditions that are tested without the lock, the last read of `request->size`).  A step is
a partial function of the state; `none` says that the call is not at that point.

The environment chooses which step comes next.  What it decides is in the step's arguments: the
memory `kmalloc` returns, the request a caller builds, whether and where a user copy faults, the
bytes a server writes, and which sleeping reader `wake_up_interruptible` picks.

* `Act` : the steps.
* `step` : what each of them does.
* `Reachable G s` : the states of the runs whose steps meet the guard `G`.
* `Act.uvfsdRelease` carries the one promise of the VFS that the driver relies on: a file is
  released once, when no read or write on it is in progress.
* `Act.reply?`, `Act.lookup?`, .. : what a guard that is about few kinds of steps looks at.
-/

namespace Uvfs.Driver

open Transition

/-- The header of a reply as `uvfsd_write` first copies it. -/
structure Header where
  /-- `serial`. -/
  serial : Word
  /-- `size`. -/
  size : Word
  deriving DecidableEq

/-- A request as the VFS operations build it in `trans->u`: one of the fifteen types, the serial of
the transaction, and a size between the generic header and the union. -/
structure IsRequest (req : Mem) (serial : Word) : Prop where
  /-- `type` is one of `UVFS_WRITE` .. `UVFS_READLINK`. -/
  type : 1 ≤ (req.word offsetofType).toInt ∧ (req.word offsetofType).toInt ≤ 15
  /-- `request->serial = trans->serial`. -/
  serial_eq : req.word offsetofSerial = serial
  /-- `size` covers the header and fits the union. -/
  size : 12 ≤ (req.word offsetofSize).toInt ∧ (req.word offsetofSize).toInt ≤ sizeofUvfsRequestU

instance (req : Mem) (serial : Word) : Decidable (IsRequest req serial) :=
  decidable_of_iff
    ((1 ≤ (req.word offsetofType).toInt ∧ (req.word offsetofType).toInt ≤ 15) ∧
      req.word offsetofSerial = serial ∧
      12 ≤ (req.word offsetofSize).toInt ∧ (req.word offsetofSize).toInt ≤ sizeofUvfsRequestU)
    ⟨fun ⟨h₁, h₂, h₃⟩ => ⟨h₁, h₂, h₃⟩, fun ⟨h₁, h₂, h₃⟩ => ⟨h₁, h₂, h₃⟩⟩

/-- The steps. -/
inductive Act
  /-- `uvfsd_open`. -/
  | uvfsdOpen (f : FileId)
  /-- `uvfsd_release`. -/
  | uvfsdRelease (f : FileId)
  /-- `uvfs_new_transaction`; `junk` is what the memory holds that `kmalloc` returns, and `old` the
  transaction that had it before, if one had. -/
  | newTransaction (junk : Transaction) (old : Option TransId)
  /-- The caller builds its request in `trans->u`. -/
  | buildRequest (t : TransId) (req : Mem)
  /-- `uvfs_make_request`, lines 349–358. -/
  | makeRequest (t : TransId) (pick : Option ReadId)
  /-- `SIGKILL` reaches the caller. -/
  | kill (t : TransId)
  /-- The condition of the wait is false and the caller goes to sleep. -/
  | waitSleep (t : TransId)
  /-- The unlocked test of `trans->answered` succeeds. -/
  | waitAnswered (t : TransId)
  /-- `wait_event_interruptible` is interrupted. -/
  | waitSignal (t : TransId)
  /-- Lines 371–384 up to the first unlock. -/
  | checkSignal (t : TransId)
  /-- The unlocked test of `!trans->in_use` succeeds. -/
  | waitUnused (t : TransId)
  /-- Lines 379–384. -/
  | withdraw (t : TransId)
  /-- `uvfs_make_request` returns. -/
  | leave (t : TransId)
  /-- The caller is done with the reply and frees the transaction. -/
  | kfree (t : TransId)
  /-- The freed memory gets other contents. -/
  | reuse (t : TransId) (junk : Transaction)
  /-- `uvfsd_read` is called. -/
  | readEnter (f : FileId) (count : ℕ)
  /-- A signal reaches the reader. -/
  | readSignal (r : ReadId)
  /-- `schedule` returns at once because a signal was pending already. -/
  | readSchedule (r : ReadId)
  /-- The reader takes the lock at line 152 or 180 and goes on to the next unlock. -/
  | readLock (r : ReadId) (pick : Option ReadId)
  /-- The copy of the shutdown message. -/
  | readCopyShutdown (r : ReadId) (fault : Bool)
  /-- Lines 165–171. -/
  | readPassOn (r : ReadId) (pick : Option ReadId)
  /-- `copy_to_user` of the request; `fault` is the number of bytes before a fault. -/
  | readCopy (r : ReadId) (fault : Option ℕ)
  /-- Lines 204–208. -/
  | readDone (r : ReadId)
  /-- Lines 212–215. -/
  | readReturn (r : ReadId)
  /-- `uvfsd_write` is called and checks the header; `header` is `none` when its copy faults. -/
  | writeEnter (f : FileId) (count : ℕ) (header : Option Header) (answers : Option ReadId)
  /-- Lines 249–271. -/
  | writeLookup (w : WriteId)
  /-- `copy_from_user` of the reply; `fault` is the number of bytes before a fault. -/
  | writeCopy (w : WriteId) (data : Mem) (fault : Option ℕ)
  /-- Lines 273–282. -/
  | writeDone (w : WriteId)
  /-- `uvfsd_ioctl`; `mounted` says whether `Uvfs_file_system_type.fs_supers` is non-empty. -/
  | ioctl (f : FileId) (cmd : ℕ) (mounted : Bool) (pick : Option ReadId)

namespace State

/-! ## Opening and releasing the device -/

/-- `uvfsd_open`, for a file that is not open yet.
Source: `driver.c`, `uvfsd_open`. -/
def uvfsdOpen (s : State) (f : FileId) : Option State :=
  if f ∈ s.opened then none
  else some { s with opened := f :: s.opened, uvfsUseCount := s.uvfsUseCount + 1 }

/-- One of the two loops of `uvfsd_release`, over the list it empties: the transactions. -/
def drainLoop : List TransId → (TransId → Transaction) → TransId → Transaction
  | [], trans => trans
  | t :: rest, trans => drainLoop rest (Function.update trans t (trans t).fail)

/-- The same loop: `wake_up(&trans->fs_queue)` for each transaction. -/
def wakeLoop : List TransId → (TransId → Bool) → TransId → Bool
  | [], asleep => asleep
  | t :: rest, asleep => wakeLoop rest (Function.update asleep t false)

/-- What `uvfsd_release` does when the count has reached zero. -/
def drain (s : State) : State :=
  { s with
    trans := drainLoop s.uvfsReplies (drainLoop s.uvfsRequests s.trans)
    asleep := wakeLoop s.uvfsReplies (wakeLoop s.uvfsRequests s.asleep)
    uvfsRequests := []
    uvfsReplies := []
    shuttingDown := false
    serialNumber := 0
    session := s.session + 1
    sessionBase := s.nTrans }

/-- `uvfsd_release`.  The VFS calls it for an open file on which no read or write is in progress.
Source: `driver.c`, `uvfsd_release`. -/
def uvfsdRelease (s : State) (f : FileId) : Option State :=
  if f ∈ s.opened ∧ ¬ s.Busy f then
    let s' := { s with opened := s.opened.erase f, uvfsUseCount := s.uvfsUseCount - 1 }
    if s'.uvfsUseCount = 0 then some s'.drain else some s'
  else none

/-! ## The wait queue of the readers -/

/-- `wake_up_interruptible(&Uvfs_driver_queue)`: one waiter that is still asleep becomes runnable,
when there is one.  Waiters are exclusive and stay queued until they remove themselves. -/
def wakeUpInterruptible (s : State) : Option ReadId → Option State
  | some r =>
      if r ∈ s.uvfsDriverQueue ∧ (s.reads r).pc = .asleep then some (s.setReadPc r .woken) else none
  | none => if ∀ r ∈ s.uvfsDriverQueue, (s.reads r).pc ≠ .asleep then some s else none

/-! ## Clients -/

/-- `kmalloc` can return the memory of `t`: it was a transaction's, it is free and nobody has got it
since.  Memory that is still linked in a list stays with its transaction. -/
def Reusable (s : State) (t : TransId) : Prop :=
  (s.clients t).pc = .freed ∧ t < s.nTrans ∧ s.owner t = t ∧ ¬ s.Listed t

instance (s : State) (t : TransId) : Decidable (s.Reusable t) :=
  inferInstanceAs (Decidable (_ ∧ _))

/-- The new transaction, in memory that `old` had before; who has a pointer into that memory has
one into the new transaction. -/
def addTransaction (s : State) (junk : Transaction) (old : Option TransId) : State :=
  { s with
    nTrans := s.nTrans + 1
    serialNumber := s.serialNumber + 1
    trans := Function.update s.trans s.nTrans
      { junk with serial := s.serialNumber, inUse := 0, abort := 0, answered := 0 }
    owner := fun t => if some (s.owner t) = old then s.nTrans else s.owner t
    asleep := Function.update s.asleep s.nTrans false
    clients := Function.update s.clients s.nTrans
      ⟨.created, false, junk.u, s.serialNumber, false⟩ }

/-- `uvfs_new_transaction`.
Source: `driver.c`, `uvfs_new_transaction`. -/
def uvfsNewTransaction (s : State) (junk : Transaction) (old : Option TransId) : Option State :=
  if ∀ t ∈ old, s.Reusable t then some (s.addTransaction junk old) else none

/-- The caller writes its request into the union. -/
def buildRequest (s : State) (t : TransId) (req : Mem) : Option State :=
  if (s.clients t).pc = .created ∧ IsRequest req (s.trans t).serial then
    some ((s.setTrans t { s.trans t with u := req }).setClient t
      { s.clients t with pc := .built, request := req })
  else none

/-- `list_add_tail(&trans->list, &Uvfs_requests)`. -/
def enqueue (s : State) (t : TransId) : State :=
  { s.setClientPc t .waiting with
    uvfsRequests := s.uvfsRequests ++ [t]
    enqueueLog := s.enqueueLog ++ [t] }

/-- The first critical section of `uvfs_make_request`: with no server the reply is `-EIO`, else the
request is queued and a reader is woken.
Source: `driver.c`, `uvfs_make_request`, lines 349–358. -/
def uvfsMakeRequest (s : State) (t : TransId) (pick : Option ReadId) : Option State :=
  if (s.clients t).pc = .built then
    if s.uvfsUseCount = 0 then
      some ((s.setTrans t ((s.trans t).setError eio)).setClientPc t .leaving)
    else (s.enqueue t).wakeUpInterruptible pick
  else none

/-- `SIGKILL` becomes pending and stays pending while the call lasts; it makes a caller runnable
that sleeps in the interruptible wait, and none that sleeps in the other one. -/
def kill (s : State) (t : TransId) : Option State :=
  if (s.clients t).pc ≠ .freed then
    some ((s.wakeUpIf ((s.clients t).pc = .waiting) t).setClient t
      { s.clients t with signalPending := true })
  else none

/-- What keeps the caller in the wait that it is in: the transaction is not answered and no signal
is pending, or the transaction is in use. -/
def MustWait (s : State) (t : TransId) : Prop :=
  (s.clients t).pc = .waiting ∧ (s.trans t).answered = 0 ∧ (s.clients t).signalPending = false ∨
    (s.clients t).pc = .aborting ∧ (s.trans t).inUse ≠ 0

instance (s : State) (t : TransId) : Decidable (s.MustWait t) :=
  inferInstanceAs (Decidable (_ ∨ _))

/-- `wait_event_interruptible` or `wait_event` tests its condition, being on the wait queue already,
and calls `schedule`.  A wake-up that comes between the two makes `schedule` return at once, so the
test and the sleep are one step. -/
def waitSleep (s : State) (t : TransId) : Option State :=
  if s.asleep t = false ∧ s.MustWait t then some (s.sleep t) else none

/-- `wait_event_interruptible(trans->fs_queue, trans->answered)` ends with the condition true.  A
caller that sleeps does not get here before it is woken. -/
def waitAnswered (s : State) (t : TransId) : Option State :=
  if (s.clients t).pc = .waiting ∧ s.asleep t = false ∧ (s.trans t).answered ≠ 0 then
    some (s.setClientPc t .checking)
  else none

/-- `wait_event_interruptible` ends with a signal. -/
def waitSignal (s : State) (t : TransId) : Option State :=
  if (s.clients t).pc = .waiting ∧ s.asleep t = false ∧ (s.clients t).signalPending then
    some (s.setClientPc t .checking)
  else none

/-- Lines 381–382, with the lock held, and the unlock: the interrupted client unlinks its
transaction. -/
def unlinkAborted (s : State) (t : TransId) : State :=
  ((s.listDelInit t).setTrans t ((s.trans t).setError erestartsys)).setClient t
    { s.clients t with pc := .leaving, withdrawn := true }

/-- The critical section after the wait: an interrupted client withdraws its transaction, unless a
reader or writer uses it; then it sets `abort` and waits again.
Source: `driver.c`, `uvfs_make_request`, lines 371–384. -/
def checkSignal (s : State) (t : TransId) : Option State :=
  if (s.clients t).pc = .checking then
    if (s.clients t).signalPending then
      if (s.trans t).inUse ≠ 0 then
        some ((s.setTrans t { s.trans t with abort := 1 }).setClientPc t .aborting)
      else some (s.unlinkAborted t)
    else some (s.setClientPc t .leaving)
  else none

/-- `wait_event(trans->fs_queue, !trans->in_use)` ends. -/
def waitUnused (s : State) (t : TransId) : Option State :=
  if (s.clients t).pc = .aborting ∧ s.asleep t = false ∧ (s.trans t).inUse = 0 then
    some (s.setClientPc t .aborted)
  else none

/-- The critical section after the second wait.
Source: `driver.c`, `uvfs_make_request`, lines 379–384. -/
def withdraw (s : State) (t : TransId) : Option State :=
  if (s.clients t).pc = .aborted then some (s.unlinkAborted t) else none

/-- `uvfs_make_request` restores the signal mask and returns. -/
def leave (s : State) (t : TransId) : Option State :=
  if (s.clients t).pc = .leaving then some (s.setClientPc t .returned) else none

/-- The caller has read the reply and calls `kfree(trans)`. -/
def kfree (s : State) (t : TransId) : Option State :=
  if (s.clients t).pc = .returned then some (s.setClientPc t .freed) else none

/-- The allocator gives freed memory to someone else, for anything but a transaction. -/
def reuse (s : State) (t : TransId) (junk : Transaction) : Option State :=
  if s.Reusable t then some (s.setTrans t junk) else none

/-! ## `uvfsd_read` -/

/-- The call and its check of `count`.
Source: `driver.c`, `uvfsd_read`, lines 145–150. -/
def uvfsdReadEnter (s : State) (f : FileId) (count : ℕ) : Option State :=
  if f ∈ s.opened then
    some { s with
      nReads := s.nReads + 1
      reads := Function.update s.reads s.nReads
        ⟨f, if count < sizeofUvfsRequestU then .returned eio else .entered, false, none, fun _ => 0,
          0, s.session, 0⟩ }
  else none

/-- A signal becomes pending for the reader; a sleeping reader becomes runnable by it. -/
def readSignal (s : State) (r : ReadId) : Option State :=
  if (s.reads r).pc.InProgress then
    some (s.setRead r { s.reads r with
      signalPending := true
      pc := if (s.reads r).pc = .asleep then .roused else (s.reads r).pc })
  else none

/-- `schedule` does not put a task to sleep that has a signal pending. -/
def readSchedule (s : State) (r : ReadId) : Option State :=
  if (s.reads r).pc = .asleep ∧ (s.reads r).signalPending then some (s.setReadPc r .roused)
  else none

/-- `list_del_init` and `list_add_tail`: the first request moves to the end of `Uvfs_replies`. -/
def handOut (s : State) (t : TransId) (rest : List TransId) : State :=
  { s with
    uvfsRequests := rest
    uvfsReplies := s.uvfsReplies ++ [t]
    handOutLog := s.handOutLog ++ [t] }

/-- `trans->in_use = 1` and the unlock of line 201. -/
def beginReadCopy (s : State) (r : ReadId) (t : TransId) : State :=
  (s.setTrans t { s.trans t with inUse := 1 }).setRead r
    { s.reads r with pc := .copying t, took := some t, size := (s.trans t).requestSize }

/-- The head of the `while` loop with the lock held, and what follows up to the unlock: go and
deliver the shutdown message, go to sleep, or take the first request and wake the next reader.
Source: `driver.c`, `uvfsd_read`, lines 154–201. -/
def uvfsdReadLoop (s : State) (r : ReadId) (pick : Option ReadId) : Option State :=
  if s.shuttingDown then some (s.setReadPc r .shutdown)
  else
    match s.uvfsRequests with
    | [] => some { s.setReadPc r .asleep with uvfsDriverQueue := s.uvfsDriverQueue ++ [r] }
    | t :: rest => ((s.handOut t rest).wakeUpInterruptible pick).map fun s' => s'.beginReadCopy r t

/-- The reader gets the lock, for the first time or after `schedule`; in the second case it leaves
the wait queue and returns when a signal is pending.
Source: `driver.c`, `uvfsd_read`, lines 151–201. -/
def uvfsdReadLock (s : State) (r : ReadId) (pick : Option ReadId) : Option State :=
  match (s.reads r).pc with
  | .entered => s.uvfsdReadLoop r pick
  | .woken | .roused =>
      let s' := { s with uvfsDriverQueue := s.uvfsDriverQueue.erase r }
      if (s.reads r).signalPending then some (s'.setReadPc r (.returned erestartsys))
      else s'.uvfsdReadLoop r pick
  | _ => none

/-- The copy of the shutdown message, without the lock.
Source: `driver.c`, `uvfsd_read`, lines 162–164. -/
def readCopyShutdown (s : State) (r : ReadId) (fault : Bool) : Option State :=
  if (s.reads r).pc = .shutdown then some (s.setReadPc r (.shutdownCopied fault)) else none

/-- The wake-up is passed on to the next reader and the call returns.
Source: `driver.c`, `uvfsd_read`, lines 165–171. -/
def readPassOn (s : State) (r : ReadId) (pick : Option ReadId) : Option State :=
  match (s.reads r).pc with
  | .shutdownCopied fault =>
      (s.wakeUpInterruptible pick).map fun s' =>
        s'.setReadPc r (.returned (if fault then eio else (requestLayout .shutdown).sum))
  | _ => none

/-- What a read has after `copy_to_user` from the transaction `tr`. -/
def endReadCopy (s : State) (r : ReadId) (t : TransId) (tr : Transaction) (fault : Option ℕ) :
    State :=
  s.setRead r { s.reads r with
    pc := .copied t (fault.isSome || decide (tr.requestSize < 0))
    buf := tr.u
    len := fault.getD tr.requestSize.toNat }

/-- `trans->in_use = 0`, and `wake_up(&trans->fs_queue)` if `trans->abort` is set. -/
def clearInUse (s : State) (t : TransId) : State :=
  (s.setTrans t { s.trans t with inUse := 0 }).wakeUpIf ((s.trans t).abort ≠ 0) t

/-- `copy_to_user(buff, request, request->size)`, without the lock.  A negative size is a huge
`unsigned long` and makes the copy fail.
Source: `driver.c`, `uvfsd_read`, lines 202–203. -/
def uvfsdReadCopy (s : State) (r : ReadId) (fault : Option ℕ) : Option State :=
  match (s.reads r).pc with
  | .copying t => some (s.endReadCopy r t (s.trans (s.owner t)) fault)
  | _ => none

/-- `in_use` is cleared; a client that has set `abort` is woken.
Source: `driver.c`, `uvfsd_read`, lines 204–208. -/
def uvfsdReadDone (s : State) (r : ReadId) : Option State :=
  match (s.reads r).pc with
  | .copied t fault => some ((s.clearInUse (s.owner t)).setReadPc r (.finished t fault))
  | _ => none

/-- The return value is read from the transaction, after the unlock.
Source: `driver.c`, `uvfsd_read`, lines 212–215. -/
def uvfsdReadReturn (s : State) (r : ReadId) : Option State :=
  match (s.reads r).pc with
  | .finished t fault =>
      some (s.setReadPc r (.returned (if fault then eio else (s.trans (s.owner t)).requestSize)))
  | _ => none

/-! ## `uvfsd_write` -/

/-- The checks of `count` and of the header. -/
def checkHeader (f : FileId) (count : ℕ) (answers : Option ReadId) : Option Header → WriteCall
  | none =>
      ⟨f, .returned (if count < sizeofGenericRep then eio else efault), 0, 0, answers, none⟩
  | some h =>
      if count < sizeofGenericRep then ⟨f, .returned eio, 0, 0, answers, none⟩
      else if h.size.toInt ≠ count then ⟨f, .returned einval, h.serial, h.size, answers, none⟩
      else ⟨f, .lookup, h.serial, h.size, answers, none⟩

/-- The call, the copy of the header and its checks.  The VFS passes no `count` of `2 ^ 31` or more,
so the comparison of `reply.size` with `count` is one of non-negative numbers.
Source: `driver.c`, `uvfsd_write`, lines 230–248. -/
def uvfsdWriteEnter (s : State) (f : FileId) (count : ℕ) (header : Option Header)
    (answers : Option ReadId) : Option State :=
  if f ∈ s.opened ∧ count < 2 ^ 31 then
    some { s with
      nWrites := s.nWrites + 1
      writes := Function.update s.writes s.nWrites (checkHeader f count answers header) }
  else none

/-- The search of `Uvfs_replies` for the reply's serial. -/
def findReply (s : State) (serial : Word) : Option TransId :=
  s.uvfsReplies.find? fun t => (s.trans t).serial = serial

/-- The found transaction is unlinked and marked in use. -/
def beginWriteCopy (s : State) (w : WriteId) (t : TransId) : State :=
  ((s.listDelInit t).setTrans t { s.trans t with inUse := 1 }).setWrite w
    { s.writes w with pc := .copying t, claimed := some t }

/-- The lookup: a transaction that is found is unlinked and marked in use.
Source: `driver.c`, `uvfsd_write`, lines 249–271. -/
def uvfsdWriteLookup (s : State) (w : WriteId) : Option State :=
  match (s.writes w).pc with
  | .lookup =>
      match s.findReply (s.writes w).serial with
      | none => some (s.setWritePc w (.returned einval))
      | some t => some (s.beginWriteCopy w t)
  | _ => none

/-- What `copy_from_user` stores: when the copy faults, the rest of the target is filled with
zeros. -/
def userBytes (data : Mem) : Option ℕ → Mem
  | none => data
  | some k => fun i => if i < k then data i else 0

/-- `copy_from_user(&trans->u.reply, buff, reply.size)`, without the lock.  The bytes come from the
server's buffer a second time.
Source: `driver.c`, `uvfsd_write`, line 272. -/
def uvfsdWriteCopy (s : State) (w : WriteId) (data : Mem) (fault : Option ℕ) : Option State :=
  match (s.writes w).pc with
  | .copying t =>
      some ((s.setTrans (s.owner t)
        ((s.trans (s.owner t)).copyFromUser (s.writes w).size.toNat
          (userBytes data fault))).setWritePc w (.copied t fault.isSome))
  | _ => none

/-- `in_use = 0`, `answered = 1` and `wake_up(&trans->fs_queue)`. -/
def answer (s : State) (t : TransId) : State :=
  (s.setTrans t { s.trans t with inUse := 0, answered := 1 }).wakeUp t

/-- `in_use` is cleared, the transaction is answered and its client is woken.
Source: `driver.c`, `uvfsd_write`, lines 273–282. -/
def uvfsdWriteDone (s : State) (w : WriteId) : Option State :=
  match (s.writes w).pc with
  | .copied t fault =>
      some ((s.answer (s.owner t)).setWritePc w
        (.returned (if fault then eio else (s.writes w).size.toInt)))
  | _ => none

/-! ## `uvfsd_ioctl` -/

/-- The lines the status ioctl prints for a list: each serial with the name of the request's type,
`none` where `Op_names` is indexed outside its bounds. -/
def statusLines (s : State) (l : List TransId) : List (Word × Option String) :=
  l.map fun t =>
    ((s.trans t).serial,
      if 0 ≤ ((s.trans t).u.word offsetofType).toInt then
        opNames[((s.trans t).u.word offsetofType).toInt.toNat]?
      else none)

/-- `uvfsd_ioctl`: the new state and the returned value.  The comment above the function gives the
shutdown the number 0; the code tests for `UVFS_IOCTL_SHUTDOWN` and answers 0 with the use count.
Source: `driver.c`, `uvfsd_ioctl`. -/
def uvfsdIoctl (s : State) (cmd : ℕ) (mounted : Bool) (pick : Option ReadId) : Option (State × ℤ) :=
  if cmd = uvfsIoctlShutdown then
    (wakeUpInterruptible { s with shuttingDown := true } pick).map fun s' => (s', 0)
  else if cmd = uvfsIoctlStatus then some (s, 0)
  else if cmd = uvfsIoctlMount then some (s, if mounted then 1 else 0)
  else some (s, s.uvfsUseCount)

end State

/-! ## The transition system -/

/-- One step of the driver. -/
def step (s : State) : Act → Option State
  | .uvfsdOpen f => s.uvfsdOpen f
  | .uvfsdRelease f => s.uvfsdRelease f
  | .newTransaction junk old => s.uvfsNewTransaction junk old
  | .buildRequest t req => s.buildRequest t req
  | .makeRequest t pick => s.uvfsMakeRequest t pick
  | .kill t => s.kill t
  | .waitSleep t => s.waitSleep t
  | .waitAnswered t => s.waitAnswered t
  | .waitSignal t => s.waitSignal t
  | .checkSignal t => s.checkSignal t
  | .waitUnused t => s.waitUnused t
  | .withdraw t => s.withdraw t
  | .leave t => s.leave t
  | .kfree t => s.kfree t
  | .reuse t junk => s.reuse t junk
  | .readEnter f count => s.uvfsdReadEnter f count
  | .readSignal r => s.readSignal r
  | .readSchedule r => s.readSchedule r
  | .readLock r pick => s.uvfsdReadLock r pick
  | .readCopyShutdown r fault => s.readCopyShutdown r fault
  | .readPassOn r pick => s.readPassOn r pick
  | .readCopy r fault => s.uvfsdReadCopy r fault
  | .readDone r => s.uvfsdReadDone r
  | .readReturn r => s.uvfsdReadReturn r
  | .writeEnter f count header answers => s.uvfsdWriteEnter f count header answers
  | .writeLookup w => s.uvfsdWriteLookup w
  | .writeCopy w data fault => s.uvfsdWriteCopy w data fault
  | .writeDone w => s.uvfsdWriteDone w
  | .ioctl f cmd mounted pick =>
      if f ∈ s.opened then (s.uvfsdIoctl cmd mounted pick).map Prod.fst else none

/-- The states of the runs whose steps all meet the guard `G`. -/
def Reachable (G : State → Act → Prop) (s : State) : Prop := Reach step G State.init s

/-- The guard that every step meets. -/
def anyStep : State → Act → Prop := fun _ _ => True

instance (s : State) (a : Act) : Decidable (anyStep s a) := isTrue trivial

/-! ## What guards look at

A guard that is about one kind of step is stated of what that step carries. -/

namespace Act

/-- The header of the reply that a server passes to `uvfsd_write`, with the read call whose request
it means to answer. -/
def reply? : Act → Option (Header × Option ReadId)
  | .writeEnter _ _ (some h) answers => some (h, answers)
  | _ => none

/-- The call of `uvfsd_write` that looks its transaction up. -/
def lookup? : Act → Option WriteId
  | .writeLookup w => some w
  | _ => none

/-- The call of `uvfsd_write` that copies its reply, with the bytes that the copy stores. -/
def copy? : Act → Option (WriteId × Mem)
  | .writeCopy w data fault => some (w, State.userBytes data fault)
  | _ => none

/-- The file that `uvfsd_release` is called for. -/
def release? : Act → Option FileId
  | .uvfsdRelease f => some f
  | _ => none

/-- The call of `uvfsd_read` that takes the lock. -/
def readLock? : Act → Option ReadId
  | .readLock r _ => some r
  | _ => none

end Act

/-! ## Values for runs that are written out -/

/-- Memory as `kmalloc` may return it. -/
def Transaction.zeroed : Transaction := ⟨fun _ => 0, 0, 0, 0, 0, fun _ => 0⟩

/-- The request of `uvfs_revalidate_inode`, for a handle that is all zero. -/
def getattrRequest (serial : Word) : Mem :=
  ((Mem.setWord (fun _ => 0) offsetofType (RequestType.code .getattr)).setWord offsetofSerial
    serial).setWord offsetofSize (requestLayout .getattr).sum

end Uvfs.Driver
