import Uvfs.Protocol

/-!
# The driver's state

`driver.c` keeps two queues of transactions under one spin lock and a wait queue of server threads.
The state below holds

* the driver's own variables (`Uvfs_requests`, `Uvfs_replies`, `ShuttingDown`, `Serial_number`,
  `uvfs_use_count`, `Uvfs_driver_queue`);
* the transactions (`uvfs_transaction_s`), with the flags that are laid out behind the union `u` and
  the memory behind the struct, because a copy into `u` can run over its end;
* the calls in progress: one `Client` for each transaction (the caller that got it from
  `uvfs_new_transaction` and takes it through `uvfs_make_request`), and one record for each call of
  `uvfsd_read` and of `uvfsd_write`.

Transactions and calls are numbered in the order in which they begin and are never renumbered.  A
program counter names the point between two steps; a step is a critical section of `Uvfs_lock`, or
one of the unlocked accesses between them.

`kmalloc` can return memory that was freed while a read or write still had a pointer to it.  Such a
call keeps the number of the transaction that it took, and `State.owner` says which transaction has
that memory now: what the call does to the memory, it does to the owner.  Where no call works on a
transaction whose client has returned, the owner of what a call works on is that transaction itself,
so there a number stands for one object (`Uvfs.Driver.Lifetime`).  Two things the state leaves out:
memory that is freed while it is still linked in a list is not given to anyone else, and a copy that
runs past the end of the struct changes no neighbouring object.  Both need a transaction that is
answered out of turn or a reply that is longer than the union, and the statements that such a run
would break exclude them.

Some fields are *history*: they record what happened and no step of the driver reads them.  They are
marked so.
-/

namespace Uvfs.Driver

/-- A transaction, numbered by its creation. -/
abbrev TransId := ℕ

/-- An open `struct file` of the driver's device. -/
abbrev FileId := ℕ

/-- A call of `uvfsd_read`, numbered by its start. -/
abbrev ReadId := ℕ

/-- A call of `uvfsd_write`, numbered by its start. -/
abbrev WriteId := ℕ

/-! ## Transactions -/

/-- `uvfs_transaction_s`, without the list node and the wait queue.  `behind` is the memory after
the last field.
Source: `uvfs.h`, `struct _uvfs_transaction_s`. -/
structure Transaction where
  /-- The union of request and reply; offsets below `sizeofU` belong to it. -/
  u : Mem
  /-- `serial`. -/
  serial : Word
  /-- `in_use`. -/
  inUse : Word
  /-- `abort`. -/
  abort : Word
  /-- `answered`. -/
  answered : Word
  /-- The bytes behind the struct. -/
  behind : Mem

namespace Transaction

/-- Offset of `serial`, from the start of `u`. -/
def offsetofSerial : ℕ := sizeofU

/-- Offset of `in_use`, from the start of `u`. -/
def offsetofInUse : ℕ := sizeofU + 4

/-- Offset of `abort`, from the start of `u`. -/
def offsetofAbort : ℕ := sizeofU + 8

/-- Offset of `answered`, from the start of `u`. -/
def offsetofAnswered : ℕ := sizeofU + 12

/-- Offset of the first byte behind the struct, from the start of `u`. -/
def offsetofBehind : ℕ := sizeofU + 16

/-- `copy_from_user(&trans->u.reply, buff, n)`: the `n` bytes land at the start of `u` and go on
into the fields behind it when there are more than `u` holds. -/
def copyFromUser (tr : Transaction) (n : ℕ) (data : Mem) : Transaction where
  u := tr.u.overlay 0 (min n sizeofU) data
  serial := tr.serial.overlay offsetofSerial n data
  inUse := tr.inUse.overlay offsetofInUse n data
  abort := tr.abort.overlay offsetofAbort n data
  answered := tr.answered.overlay offsetofAnswered n data
  behind i := if offsetofBehind + i < n then data (offsetofBehind + i) else tr.behind i

/-- `trans->u.reply.generic.error = e`. -/
def setError (tr : Transaction) (e : ℤ) : Transaction :=
  { tr with u := tr.u.setWord offsetofError (BitVec.ofInt 32 e) }

/-- `trans->u.reply.generic.error`, as the callers of `uvfs_make_request` read it. -/
def error (tr : Transaction) : ℤ := (tr.u.word offsetofError).toInt

/-- `trans->u.request.generic.size`. -/
def requestSize (tr : Transaction) : ℤ := (tr.u.word offsetofSize).toInt

/-- The body of the two loops of `uvfsd_release`: the reply is `-EIO` and the transaction is
answered. -/
def fail (tr : Transaction) : Transaction := { tr.setError eio with answered := 1 }

end Transaction

/-! ## Clients -/

/-- Where the caller of `uvfs_new_transaction` and `uvfs_make_request` stands. -/
inductive ClientPc
  /-- It has a transaction and has not built the request. -/
  | created
  /-- The request is built; `uvfs_make_request` has not taken the lock. -/
  | built
  /-- Enqueued; in `wait_event_interruptible(trans->fs_queue, trans->answered)`. -/
  | waiting
  /-- Out of that wait, before the lock of line 371. -/
  | checking
  /-- `abort` is set; in `wait_event(trans->fs_queue, !trans->in_use)`. -/
  | aborting
  /-- Out of that wait, before the lock of line 379. -/
  | aborted
  /-- Past the last critical section, inside `uvfs_make_request`. -/
  | leaving
  /-- `uvfs_make_request` has returned. -/
  | returned
  /-- The caller has freed the transaction. -/
  | freed
  deriving DecidableEq, Repr

/-- The caller that works on a transaction. -/
structure Client where
  /-- Its program counter. -/
  pc : ClientPc
  /-- `signal_pending(current)`; only `SIGKILL` gets through the mask while it waits. -/
  signalPending : Bool
  /-- History: the union as the caller built it. -/
  request : Mem
  /-- History: the serial the transaction was given. -/
  issued : Word
  /-- History: the client was interrupted and has unlinked its transaction. -/
  withdrawn : Bool

/-- The client is inside `uvfs_make_request`, past the enqueueing and before its last critical
section. -/
def ClientPc.Enqueued : ClientPc → Prop
  | .waiting | .checking | .aborting | .aborted => True
  | _ => False

instance : (pc : ClientPc) → Decidable pc.Enqueued
  | .waiting | .checking | .aborting | .aborted => isTrue trivial
  | .created | .built | .leaving | .returned | .freed => isFalse id

/-- The caller holds the transaction and has not passed it to `uvfs_make_request` yet. -/
def ClientPc.HalfStarted : ClientPc → Prop
  | .created | .built => True
  | _ => False

instance : (pc : ClientPc) → Decidable pc.HalfStarted
  | .created | .built => isTrue trivial
  | .waiting | .checking | .aborting | .aborted | .leaving | .returned | .freed => isFalse id

/-! ## Server calls -/

/-- Where a call of `uvfsd_read` stands. -/
inductive ReadPc
  /-- Past the check of `count`, before the lock of line 152. -/
  | entered
  /-- On `Uvfs_driver_queue`, `TASK_INTERRUPTIBLE`. -/
  | asleep
  /-- Picked by `wake_up_interruptible`, before the lock of line 180. -/
  | woken
  /-- Out of `schedule` because of a signal alone, before the lock of line 180. -/
  | roused
  /-- Has seen `ShuttingDown`, before the copy of the shutdown message. -/
  | shutdown
  /-- After that copy (did it fault?), before the lock of line 165. -/
  | shutdownCopied (fault : Bool)
  /-- `in_use` is set; before `copy_to_user`. -/
  | copying (t : TransId)
  /-- After `copy_to_user` (did it fault?), before the lock of line 204. -/
  | copied (t : TransId) (fault : Bool)
  /-- `in_use` is cleared and the lock is released; before the `return`. -/
  | finished (t : TransId) (fault : Bool)
  /-- The call has returned `v`. -/
  | returned (v : ℤ)
  deriving DecidableEq, Repr

/-- A call of `uvfsd_read`. -/
structure ReadCall where
  /-- The open file it runs on. -/
  file : FileId
  /-- Its program counter. -/
  pc : ReadPc
  /-- `signal_pending(current)`. -/
  signalPending : Bool
  /-- History: the transaction it took from `Uvfs_requests`. -/
  took : Option TransId
  /-- History: the bytes `copy_to_user` gave the server. -/
  buf : Mem
  /-- History: how many of them. -/
  len : ℕ
  /-- History: the session (see `State.session`) it started in. -/
  session : ℕ
  /-- History: `request->size` when it took the transaction. -/
  size : ℤ

/-- The call is between setting `in_use` and clearing it on `t`. -/
def ReadPc.Uses (t : TransId) : ReadPc → Prop
  | .copying t' | .copied t' _ => t' = t
  | _ => False

instance (t : TransId) : (pc : ReadPc) → Decidable (pc.Uses t)
  | .copying t' | .copied t' _ => inferInstanceAs (Decidable (t' = t))
  | .entered | .asleep | .woken | .roused | .shutdown | .shutdownCopied _ | .finished _ _
  | .returned _ => isFalse id

/-- The call has not returned. -/
def ReadPc.InProgress : ReadPc → Prop
  | .returned _ => False
  | _ => True

instance : (pc : ReadPc) → Decidable pc.InProgress
  | .returned _ => isFalse id
  | .entered | .asleep | .woken | .roused | .shutdown | .shutdownCopied _ | .copying _
  | .copied _ _ | .finished _ _ => isTrue trivial

/-- Where a call of `uvfsd_write` stands. -/
inductive WritePc
  /-- The header is checked, before the lock of line 249. -/
  | lookup
  /-- The transaction is unlinked and `in_use` is set; before the second `copy_from_user`. -/
  | copying (t : TransId)
  /-- After that copy (did it fault?), before the lock of line 273. -/
  | copied (t : TransId) (fault : Bool)
  /-- The call has returned `v`. -/
  | returned (v : ℤ)
  deriving DecidableEq, Repr

/-- A call of `uvfsd_write`. -/
structure WriteCall where
  /-- The open file it runs on. -/
  file : FileId
  /-- Its program counter. -/
  pc : WritePc
  /-- `reply.serial`, from the header. -/
  serial : Word
  /-- `reply.size`, from the header. -/
  size : Word
  /-- History: the read call whose request the server means to answer. -/
  answers : Option ReadId
  /-- History: the transaction the lookup found. -/
  claimed : Option TransId

/-- The call is between setting `in_use` and clearing it on `t`. -/
def WritePc.Uses (t : TransId) : WritePc → Prop
  | .copying t' | .copied t' _ => t' = t
  | _ => False

instance (t : TransId) : (pc : WritePc) → Decidable (pc.Uses t)
  | .copying t' | .copied t' _ => inferInstanceAs (Decidable (t' = t))
  | .lookup | .returned _ => isFalse id

/-- The call has not returned. -/
def WritePc.InProgress : WritePc → Prop
  | .returned _ => False
  | _ => True

instance : (pc : WritePc) → Decidable pc.InProgress
  | .returned _ => isFalse id
  | .lookup | .copying _ | .copied _ _ => isTrue trivial

/-! ## The state -/

/-- The driver with everything that runs in it. -/
structure State where
  /-- `uvfs_use_count`. -/
  uvfsUseCount : ℤ
  /-- `Uvfs_requests`, first to last. -/
  uvfsRequests : List TransId
  /-- `Uvfs_replies`, first to last. -/
  uvfsReplies : List TransId
  /-- `ShuttingDown`. -/
  shuttingDown : Bool
  /-- `Serial_number`. -/
  serialNumber : Word
  /-- `Uvfs_driver_queue`: the reads that have added themselves and not removed themselves. -/
  uvfsDriverQueue : List ReadId
  /-- The files that are open on the device, kept by the VFS. -/
  opened : List FileId
  /-- How many transactions have been created. -/
  nTrans : ℕ
  /-- The transactions. -/
  trans : TransId → Transaction
  /-- Whose memory the transaction's memory is now: its own, or that of the transaction which
  `kmalloc` has given it to after it was freed. -/
  owner : TransId → TransId
  /-- The transaction's caller sleeps on `fs_queue`, in one of its two waits. -/
  asleep : TransId → Bool
  /-- Their callers. -/
  clients : TransId → Client
  /-- How many reads have started. -/
  nReads : ℕ
  /-- The calls of `uvfsd_read`. -/
  reads : ReadId → ReadCall
  /-- How many writes have started. -/
  nWrites : ℕ
  /-- The calls of `uvfsd_write`. -/
  writes : WriteId → WriteCall
  /-- History: the transactions in the order in which they were enqueued. -/
  enqueueLog : List TransId
  /-- History: the transactions in the order in which reads took them. -/
  handOutLog : List TransId
  /-- History: how often the last open file has been released. -/
  session : ℕ
  /-- History: `nTrans` when that happened last. -/
  sessionBase : ℕ

namespace State

/-- A read or write on the file has not returned. -/
def Busy (s : State) (f : FileId) : Prop :=
  (∃ r < s.nReads, (s.reads r).file = f ∧ (s.reads r).pc.InProgress) ∨
    ∃ w < s.nWrites, (s.writes w).file = f ∧ (s.writes w).pc.InProgress

instance (s : State) (f : FileId) : Decidable (s.Busy f) :=
  inferInstanceAs (Decidable (_ ∨ _))

/-- A call that has taken `t` is between setting `in_use` and clearing it. -/
def Held (s : State) (t : TransId) : Prop :=
  (∃ r, (s.reads r).pc.Uses t) ∨ ∃ w, (s.writes w).pc.Uses t

/-- The transaction is in one of the two lists. -/
def Listed (s : State) (t : TransId) : Prop := t ∈ s.uvfsRequests ∨ t ∈ s.uvfsReplies

instance (s : State) (t : TransId) : Decidable (s.Listed t) :=
  inferInstanceAs (Decidable (_ ∨ _))

/-- Replace a transaction. -/
def setTrans (s : State) (t : TransId) (tr : Transaction) : State :=
  { s with trans := Function.update s.trans t tr }

/-- The caller of `t` goes to sleep on `trans->fs_queue`. -/
def sleep (s : State) (t : TransId) : State :=
  { s with asleep := Function.update s.asleep t true }

/-- `wake_up(&trans->fs_queue)`: the caller of `t` is made runnable, if it sleeps there. -/
def wakeUp (s : State) (t : TransId) : State :=
  { s with asleep := Function.update s.asleep t false }

/-- A wake-up of the caller of `t` that has a condition. -/
def wakeUpIf (s : State) (c : Prop) [Decidable c] (t : TransId) : State :=
  { s with asleep := if c then Function.update s.asleep t false else s.asleep }

/-- Replace a client. -/
def setClient (s : State) (t : TransId) (c : Client) : State :=
  { s with clients := Function.update s.clients t c }

/-- Move a client. -/
def setClientPc (s : State) (t : TransId) (pc : ClientPc) : State :=
  s.setClient t { s.clients t with pc := pc }

/-- Replace a read call. -/
def setRead (s : State) (r : ReadId) (c : ReadCall) : State :=
  { s with reads := Function.update s.reads r c }

/-- Move a read call. -/
def setReadPc (s : State) (r : ReadId) (pc : ReadPc) : State :=
  s.setRead r { s.reads r with pc := pc }

/-- Replace a write call. -/
def setWrite (s : State) (w : WriteId) (c : WriteCall) : State :=
  { s with writes := Function.update s.writes w c }

/-- Move a write call. -/
def setWritePc (s : State) (w : WriteId) (pc : WritePc) : State :=
  s.setWrite w { s.writes w with pc := pc }

/-- `list_del_init(&trans->list)`: a node that is in neither list is left alone. -/
def listDelInit (s : State) (t : TransId) : State :=
  { s with uvfsRequests := s.uvfsRequests.erase t, uvfsReplies := s.uvfsReplies.erase t }

/-- The driver as `uvfs_init` leaves it. -/
def init : State where
  uvfsUseCount := 0
  uvfsRequests := []
  uvfsReplies := []
  shuttingDown := false
  serialNumber := 0
  uvfsDriverQueue := []
  opened := []
  nTrans := 0
  trans _ := ⟨fun _ => 0, 0, 0, 0, 0, fun _ => 0⟩
  owner t := t
  asleep _ := false
  clients _ := ⟨.freed, false, fun _ => 0, 0, false⟩
  nReads := 0
  reads _ := ⟨0, .returned 0, false, none, fun _ => 0, 0, 0, 0⟩
  nWrites := 0
  writes _ := ⟨0, .returned 0, 0, 0, none, none⟩
  enqueueLog := []
  handOutLog := []
  session := 0
  sessionBase := 0

end State

end Uvfs.Driver
