import Mathlib.Data.Finset.Basic

/-!
# Events of the server

The vocabulary the listening thread and its callback share: the jobs of
`job_type_t`, the bits of an `epoll_event`, and the order in which
`IGenericServer::listen` tests those bits.

The tests are made in one place, `connectionBranch`, for an entry of a
descriptor that is not the listening socket.  A hang-up is looked at first, then
an error, and only an entry with neither is a readiness event; an entry with none
of the bits the code knows is skipped without a callback.
-/

namespace Nbuss

/-- `job_type_t`. -/
inductive Job where
  | availableForRead
  | closeSocket
  | availableForWrite
  | newSocket
  | availableForReadAndWrite
  | socketIsClosed
  deriving DecidableEq, Repr

/-- The three jobs that report readiness and end nothing. -/
def Job.isReady : Job → Bool
  | .availableForRead | .availableForWrite | .availableForReadAndWrite => true
  | _ => false

/-- The two jobs that end a connection. -/
def Job.isFinal : Job → Bool
  | .closeSocket | .socketIsClosed => true
  | _ => false

/-! ## Event masks -/

def EPOLLIN : UInt32 := 0x001
def EPOLLOUT : UInt32 := 0x004
def EPOLLERR : UInt32 := 0x008
def EPOLLHUP : UInt32 := 0x010
def EPOLLRDHUP : UInt32 := 0x2000

/-- The test `events & bit`. -/
def has (events bit : UInt32) : Bool := (events &&& bit) != 0

/-- The peer has hung up: `(events & EPOLLRDHUP) || (events & EPOLLHUP)`. -/
def hungUp (events : UInt32) : Bool := has events EPOLLRDHUP || has events EPOLLHUP

/-- What the connection branch of `listen` does with an entry. -/
inductive Branch where
  /-- `close(fd)` by the server itself, then `SOCKET_IS_CLOSED`. -/
  | smartClose
  /-- One call of the callback. -/
  | callback (job : Job)
  /-- No bit the code looks at is set. -/
  | skip
  deriving DecidableEq, Repr

/-- The connection branch of `listen`.  `isIo` is what `is_IO(fd)` answers; it is
asked for only under `use_smart_close`. -/
def connectionBranch (useSmartClose isIo : Bool) (events : UInt32) : Branch :=
  if hungUp events then
    if useSmartClose then
      if !isIo then .smartClose else .callback .closeSocket
    else
      .callback .closeSocket
  else if has events EPOLLERR then
    .callback .closeSocket
  else if has events EPOLLIN && has events EPOLLOUT then
    .callback .availableForReadAndWrite
  else if has events EPOLLOUT then
    .callback .availableForWrite
  else if has events EPOLLIN then
    .callback .availableForRead
  else
    .skip

/-- The server closes a connection itself only on a hang-up, with smart close on
and no I/O recorded. -/
theorem connectionBranch_eq_smartClose_iff {useSmartClose isIo : Bool} {events : UInt32} :
    connectionBranch useSmartClose isIo events = .smartClose ↔
      hungUp events = true ∧ useSmartClose = true ∧ isIo = false := by
  cases h : hungUp events
  · simp only [connectionBranch, h]
    simp only [Bool.false_eq_true, if_false, false_and, iff_false]
    split_ifs <;> simp
  · cases useSmartClose <;> cases isIo <;> simp [connectionBranch, h]

/-- A callback out of the connection branch is a readiness event or
`CLOSE_SOCKET`. -/
theorem job_of_connectionBranch {useSmartClose isIo : Bool} {events : UInt32} {job : Job}
    (h : connectionBranch useSmartClose isIo events = .callback job) :
    job = .closeSocket ∨ job.isReady = true := by
  unfold connectionBranch at h
  split_ifs at h <;> cases h <;> simp [Job.isReady]

/-- `CLOSE_SOCKET` is handed out for a hang-up or an error. -/
theorem hungUp_of_closeSocket {useSmartClose isIo : Bool} {events : UInt32}
    (h : connectionBranch useSmartClose isIo events = .callback .closeSocket) :
    hungUp events = true ∨ has events EPOLLERR = true := by
  unfold connectionBranch at h
  split_ifs at h with hup _ _ herr
  all_goals first | exact .inl hup | exact .inr herr | cases h

/-! ## Through `ThreadedServer2::internal_callback` -/

/-- The job `internal_callback` hands on to the callback given to `start`.  The
write half of an event stays inside: the worker is told, the callback is not. -/
def forwardedJob : Job → Option Job
  | .availableForReadAndWrite => some .availableForRead
  | .newSocket => some .newSocket
  | .closeSocket => some .closeSocket
  | .availableForWrite => none
  | .availableForRead => some .availableForRead
  | .socketIsClosed => some .socketIsClosed

end Nbuss
