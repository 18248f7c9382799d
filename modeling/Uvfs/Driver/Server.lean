import Uvfs.Driver.Step

/-!
# What a server promises

The driver takes replies from user space.  Some of its properties rest on what the server does; the
promises are guards on the steps, so that a run of a well-behaved server is a run whose steps meet
them.

* `RepliesToReads` : a reply carries a serial that one of the completed reads returned.
* `RepliesOnce` : no serial is answered twice.
* `AnswersReads` : each reply answers one completed read with the serial that read returned, and no
  read is answered twice.
* `AnswersCurrent` : a reply answers a request that was read since the device was last closed by
  all.
-/

namespace Uvfs.Driver

/-- The serial in the bytes of a completed read, when it has delivered a request. -/
def ReadCall.serial? (c : ReadCall) : Option Word :=
  match c.pc, c.took with
  | .returned v, some _ => if 0 ≤ v then some (c.buf.word offsetofSerial) else none
  | _, _ => none

/-- The server writes a reply only for a serial that one of its completed reads returned. -/
def RepliesToReads (s : State) (a : Act) : Prop :=
  ∀ p ∈ a.reply?, ∃ r < s.nReads, (s.reads r).serial? = some p.1.serial

instance (s : State) (a : Act) : Decidable (RepliesToReads s a) :=
  inferInstanceAs (Decidable (∀ p ∈ a.reply?, _))

/-- The server answers no serial twice. -/
def RepliesOnce (s : State) (a : Act) : Prop :=
  ∀ p ∈ a.reply?, ∀ w < s.nWrites, (s.writes w).serial ≠ p.1.serial

instance (s : State) (a : Act) : Decidable (RepliesOnce s a) :=
  inferInstanceAs (Decidable (∀ p ∈ a.reply?, _))

/-- The server answers each request it has read at most once, with the serial of that request. -/
def AnswersReads (s : State) (a : Act) : Prop :=
  ∀ p ∈ a.reply?, ∃ r < s.nReads, p.2 = some r ∧ (s.reads r).serial? = some p.1.serial ∧
    ∀ w < s.nWrites, (s.writes w).answers ≠ some r

instance (s : State) (a : Act) : Decidable (AnswersReads s a) :=
  inferInstanceAs (Decidable (∀ p ∈ a.reply?, _))

/-- The request that is answered was read since the last release that closed the device. -/
def AnswersCurrent (s : State) (a : Act) : Prop :=
  ∀ p ∈ a.reply?, ∀ r ∈ p.2, (s.reads r).session = s.session

instance (s : State) (a : Act) : Decidable (AnswersCurrent s a) :=
  inferInstanceAs (Decidable (∀ p ∈ a.reply?, _))

end Uvfs.Driver
