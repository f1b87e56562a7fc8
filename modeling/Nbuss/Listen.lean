import Mathlib.Data.Finset.Card
import Mathlib.Data.Finset.SDiff
import Mathlib.Data.List.Infix
import Mathlib.Logic.Function.Basic
import Nbuss.Events
import Nbuss.Transition.Runs

/-!
# The listening thread

`IGenericServer::listen` runs on one thread, but what it works on is shared: other
threads call `close`, `remove_from_epoll`, `read`, `write` and `terminate`, the peers
send and hang up, and the kernel hands out descriptor numbers.  The model is one step
function over all of them.  The listening thread is cut between any two places where
somebody else can be noticed: around `epoll_wait`, around each test of `stop_server`,
around `accept4`, the insertion into `incoming_conn_fd` and `epoll_ctl`, between
`is_IO(fd)` and the `close(fd)` that may follow, around the callback, and between the
parts of `closeSockets`.  `IGenericServer::close` and the loop of `closeSockets` hold
`incoming_conn_fd_mtx`, so each of them is one step.

## Numbers and connections

An `epoll_event` holds a descriptor number, and a number is given out again after it
has been closed.  The properties of the server are about connections, so the kernel
part of the state remembers which file a number was last given to, and every entry of
a batch carries the file for which the kernel reported it.  The code never reads these
fields; they are there to say what goes wrong when it mistakes one connection for
another.  The same holds of the other fields that only record what happened: the
callbacks made, the `CLOSE_SOCKET` events not yet answered by a `close`, how often a
connection has been passed to `::close`, and the calls that set an I/O flag.

## What the kernel may do

`epoll_wait` reports at most `MAX_EVENTS` entries, for distinct numbers that are
registered and open, with any masks; the command pipe is reported only when it holds a
byte.  `accept4` returns any number that is not open.  Whatever else a property needs
from the kernel, from the callback or from the threads that call `terminate` is stated
as a guard on the steps of a run.
-/

namespace Nbuss

namespace Listen

/-! ## Descriptors -/

/-- What a descriptor number can stand for.  Connections are numbered in the order in
which they were accepted. -/
inductive File where
  | listener
  | epoll
  | pipe
  | conn (c : ℕ)
  deriving DecidableEq, Repr

/-- The descriptor table and the interest list of the epoll instance. -/
structure Kernel where
  /-- The file a number was last given to, closed or not. -/
  file : ℕ → Option File
  openFds : Finset ℕ
  registered : Finset ℕ
  nextConn : ℕ

namespace Kernel

/-- `epoll_create1` answers `epollFd`, and the pipe and the listening socket are
registered. -/
def watch (k : Kernel) (epollFd pipeFd listenSock : ℕ) : Kernel :=
  { k with
    file := Function.update k.file epollFd (some .epoll)
    openFds := insert epollFd k.openFds
    registered := {pipeFd, listenSock} }

/-- `accept4` answers `fd`. -/
def accept (k : Kernel) (fd : ℕ) : Kernel :=
  { k with
    file := Function.update k.file fd (some (.conn k.nextConn))
    openFds := insert fd k.openFds
    nextConn := k.nextConn + 1 }

/-- `EPOLL_CTL_ADD`. -/
def add (k : Kernel) (fd : ℕ) : Kernel := { k with registered := insert fd k.registered }

/-- `EPOLL_CTL_DEL`. -/
def del (k : Kernel) (fd : ℕ) : Kernel := { k with registered := k.registered.erase fd }

/-- `::close` of every number in `fds`; closing a number ends its registration. -/
def close (k : Kernel) (fds : Finset ℕ) : Kernel :=
  { k with openFds := k.openFds \ fds, registered := k.registered \ fds }

/-- The connection that is open under `fd`. -/
def conn? (k : Kernel) (fd : ℕ) : Option ℕ :=
  if fd ∈ k.openFds then
    match k.file fd with
    | some (.conn c) => some c
    | _ => none
  else none

/-- The number of members of `fds` that were last given to connection `c`. -/
def held (k : Kernel) (fds : Finset ℕ) (c : ℕ) : ℕ :=
  (fds.filter fun fd => k.file fd = some (.conn c)).card

theorem conn?_eq_some {k : Kernel} {fd c : ℕ} :
    k.conn? fd = some c ↔ fd ∈ k.openFds ∧ k.file fd = some (.conn c) := by
  unfold conn?
  split_ifs with h
  · constructor
    · intro hc
      split at hc
      · next hfile => exact ⟨h, by rw [hfile, ← Option.some_inj.mp hc]⟩
      · cases hc
    · rintro ⟨-, hfile⟩
      rw [hfile]
  · simp [h]

theorem watch_file_of_ne (k : Kernel) {epollFd pipeFd listenSock fd : ℕ} (h : fd ≠ epollFd) :
    (k.watch epollFd pipeFd listenSock).file fd = k.file fd := Function.update_of_ne h ..

/-- The epoll instance is no connection. -/
theorem watch_file_eq_conn {k : Kernel} {epollFd pipeFd listenSock fd c : ℕ}
    (h : (k.watch epollFd pipeFd listenSock).file fd = some (.conn c)) :
    fd ≠ epollFd ∧ k.file fd = some (.conn c) := by
  by_cases hfd : fd = epollFd
  · simp [hfd, watch] at h
  · rw [k.watch_file_of_ne hfd] at h
    exact ⟨hfd, h⟩

@[simp] theorem accept_file_self (k : Kernel) (fd : ℕ) :
    (k.accept fd).file fd = some (.conn k.nextConn) := Function.update_self ..

theorem accept_file_of_ne (k : Kernel) {fd fd' : ℕ} (h : fd' ≠ fd) :
    (k.accept fd).file fd' = k.file fd' := Function.update_of_ne h ..

/-- An open number keeps its file when another one is given out. -/
theorem accept_file_of_open {k : Kernel} {fd fd' : ℕ} (hfd : fd ∉ k.openFds)
    (h : fd' ∈ k.openFds) : (k.accept fd).file fd' = k.file fd' := by
  refine k.accept_file_of_ne ?_
  rintro rfl
  exact hfd h

/-- Apart from the new connection, the table holds what it held. -/
theorem accept_file_eq_conn {k : Kernel} {fd fd' c : ℕ}
    (h : (k.accept fd).file fd' = some (.conn c)) :
    fd' = fd ∧ c = k.nextConn ∨ fd' ≠ fd ∧ k.file fd' = some (.conn c) := by
  by_cases heq : fd' = fd
  · subst heq
    rw [accept_file_self, Option.some_inj, File.conn.injEq] at h
    exact .inl ⟨rfl, h.symm⟩
  · rw [k.accept_file_of_ne heq] at h
    exact .inr ⟨heq, h⟩

/-- Connections are numbered in the order in which they arrive, and each is given one
descriptor number. -/
structure Wf (k : Kernel) : Prop where
  inj : ∀ fd fd' c, k.file fd = some (.conn c) → k.file fd' = some (.conn c) → fd = fd'
  numbered : ∀ fd c, k.file fd = some (.conn c) → c < k.nextConn

theorem Wf.accept {k : Kernel} (h : k.Wf) (fd : ℕ) : (k.accept fd).Wf := by
  constructor
  · intro fd₁ fd₂ c h₁ h₂
    rcases accept_file_eq_conn h₁ with ⟨h₁, hc₁⟩ | ⟨-, h₁⟩ <;>
      rcases accept_file_eq_conn h₂ with ⟨h₂, hc₂⟩ | ⟨-, h₂⟩
    · rw [h₁, h₂]
    · have hlt := h.numbered fd₂ c h₂
      omega
    · have hlt := h.numbered fd₁ c h₁
      omega
    · exact h.inj fd₁ fd₂ c h₁ h₂
  · intro fd' c hc
    show c < k.nextConn + 1
    rcases accept_file_eq_conn hc with ⟨-, hc⟩ | ⟨-, hc⟩
    · omega
    · have hlt := h.numbered fd' c hc
      omega

/-- Numbers that no longer stand for a connection do no harm. -/
theorem Wf.of_file {k k' : Kernel} (h : k.Wf) (hnext : k'.nextConn = k.nextConn)
    (hfile : ∀ fd c, k'.file fd = some (.conn c) → k.file fd = some (.conn c)) : k'.Wf where
  inj fd fd' c h₁ h₂ := h.inj fd fd' c (hfile fd c h₁) (hfile fd' c h₂)
  numbered fd c hc := hnext ▸ h.numbered fd c (hfile fd c hc)

theorem mem_openFds_close {k : Kernel} {fd fd' : ℕ} :
    fd' ∈ (k.close {fd}).openFds ↔ fd' ∈ k.openFds ∧ fd' ≠ fd := by
  simp [close]

theorem mem_registered_close {k : Kernel} {fd fd' : ℕ} :
    fd' ∈ (k.close {fd}).registered ↔ fd' ∈ k.registered ∧ fd' ≠ fd := by
  simp [close]

end Kernel

/-- The descriptors of one server, and its setting. -/
structure Setup where
  listenSock : ℕ
  epollFd : ℕ
  pipeFd : ℕ
  useSmartClose : Bool
  listenSock_ne_epollFd : listenSock ≠ epollFd := by decide
  listenSock_ne_pipeFd : listenSock ≠ pipeFd := by decide
  epollFd_ne_pipeFd : epollFd ≠ pipeFd := by decide

/-! ## Termination -/

/-- Where a call of `terminate` stands. -/
inductive TermPc where
  | idle
  | foundListening
  | stopStored
  | waiting
  /-- At the label `end`, having waited. -/
  | atEnd
  | cleared
  /-- At the label `end`, the server having been found not listening. -/
  | foundStopped
  | stoppedCleared
  | done
  deriving DecidableEq, Repr

/-- The flags and the pipe by which `terminate` talks to `listen`, and the calls of
`terminate`, numbered. -/
structure Signals where
  stopServer : Bool := false
  isListening : Bool := false
  pipeBytes : ℕ := 0
  calls : ℕ → TermPc := fun _ => .idle

namespace Signals

def moveTo (g : Signals) (t : ℕ) (p : TermPc) : Signals :=
  { g with calls := Function.update g.calls t p }

/-- The next step of call `t` of `terminate`.  Only the wait for `is_listening` can
block. -/
def terminate (g : Signals) (t : ℕ) : Option Signals :=
  match g.calls t with
  | .idle => some (g.moveTo t (if g.isListening then .foundListening else .foundStopped))
  | .foundListening => some { g.moveTo t .stopStored with stopServer := true }
  | .stopStored => some { g.moveTo t .waiting with pipeBytes := g.pipeBytes + 1 }
  | .waiting => if g.isListening then none else some (g.moveTo t .atEnd)
  | .atEnd => some { g.moveTo t .cleared with stopServer := false }
  | .cleared => some { g.moveTo t .done with isListening := false }
  | .foundStopped => some { g.moveTo t .stoppedCleared with stopServer := false }
  | .stoppedCleared => some { g.moveTo t .done with isListening := false }
  | .done => none

end Signals

/-! ## The peers -/

/-- What the peer of each connection has done: bytes sent, bytes the server has not
read yet, and whether the peer has shut down. -/
structure Peers where
  sent : ℕ → ℕ := fun _ => 0
  unread : ℕ → ℕ := fun _ => 0
  shut : ℕ → Bool := fun _ => false

namespace Peers

/-- A connection arrives; its peer may have sent and shut down before `accept4`. -/
def connect (p : Peers) (c sent : ℕ) (shut : Bool) : Peers where
  sent := Function.update p.sent c sent
  unread := Function.update p.unread c sent
  shut := Function.update p.shut c shut

def send (p : Peers) (c n : ℕ) : Peers :=
  { p with
    sent := Function.update p.sent c (p.sent c + n)
    unread := Function.update p.unread c (p.unread c + n) }

def shutdown (p : Peers) (c : ℕ) : Peers := { p with shut := Function.update p.shut c true }

/-- The server reads up to `n` bytes of the connection open under the number it
uses, if there is one. -/
def read (p : Peers) (c : Option ℕ) (n : ℕ) : Peers :=
  match c with
  | none => p
  | some c => { p with unread := Function.update p.unread c (p.unread c - n) }

end Peers

/-! ## The state -/

/-- `MAX_EVENTS`. -/
def maxEvents : ℕ := 32

/-- An `epoll_event`, with the file for which it was reported. -/
structure Entry where
  fd : ℕ
  events : UInt32
  file : File
  deriving DecidableEq, Repr

/-- A `ListenEvent`, with the file it is about. -/
structure Callback where
  fd : ℕ
  job : Job
  events : UInt32
  file : File
  deriving DecidableEq, Repr

/-- What `epoll_wait` returns. -/
inductive Wakeup where
  | batch (l : List Entry)
  | interrupted
  | failed
  deriving DecidableEq, Repr

/-- Where the listening thread stands.  Lists are the entries of the current batch
that have not been looked at. -/
inductive Pc where
  | starting
  | announcing
  | loopHead
  | waiting
  /-- `epoll_wait` has returned, `stop_server` has not been tested. -/
  | woken (w : Wakeup)
  | batch (rest : List Entry)
  | accepting (rest : List Entry)
  /-- `accept4` has returned connection `c` as `fd`. -/
  | inserting (fd c : ℕ) (rest : List Entry)
  | adding (fd c : ℕ) (rest : List Entry)
  /-- `is_IO(fd)` has answered no. -/
  | smartClosing (e : Entry) (rest : List Entry)
  /-- In the callback; the flag says whether it has called `close(fd)` itself. -/
  | calling (cb : Callback) (answered : Bool) (rest : List Entry)
  | leaving
  | closedConns
  | closedEpoll
  | closedListen
  | left
  deriving DecidableEq, Repr

/-- The entries of the batch that have not been acted on. -/
def Pc.pending : Pc → List Entry
  | .woken (.batch l) => l
  | .batch rest | .accepting rest | .inserting _ _ rest | .adding _ _ rest
  | .calling _ _ rest => rest
  | .smartClosing e rest => e :: rest
  | _ => []

/-- The entry whose descriptor `listen` is about to close itself. -/
def Pc.closing : Pc → Option Entry
  | .smartClosing e _ => some e
  | _ => none

/-- The entry that is looked at next. -/
def Pc.upNext : Pc → Option Entry
  | .batch (e :: _) => some e
  | _ => none

/-- `closeSockets` has emptied `incoming_conn_fd`, or `listen` has not begun. -/
def Pc.outside : Pc → Bool
  | .starting | .closedConns | .closedEpoll | .closedListen | .left => true
  | _ => false

/-- The number that `accept4` has returned and that is not in `incoming_conn_fd` yet. -/
def Pc.arriving : Pc → Option (ℕ × ℕ)
  | .inserting fd c _ => some (fd, c)
  | _ => none

structure State where
  pc : Pc := .starting
  /-- `listen_sock.fd`, with `none` for `-1`. -/
  listenSock : Option ℕ
  /-- `epollfd.fd`, with `none` for `-1`. -/
  epollfd : Option ℕ := none
  /-- `incoming_conn_fd`. -/
  incoming : Finset ℕ := ∅
  activeConnections : ℤ := 0
  isSocketIo : ℕ → Bool := fun _ => false
  signals : Signals := {}
  kernel : Kernel
  peers : Peers := {}
  /-- The callbacks made, oldest first. -/
  trace : List Callback := []
  /-- For each number, the `CLOSE_SOCKET` events not yet answered by `close`. -/
  unanswered : ℕ → ℕ := fun _ => 0
  /-- For each connection, how often its number has been passed to `::close`. -/
  timesClosed : ℕ → ℕ := fun _ => 0
  /-- The calls of `::close` on a number that was not in `incoming_conn_fd`. -/
  strayCloses : ℕ := 0
  /-- The calls of `read`, `read_one_buffer`, `read_one_buffer_t` and `write`: the
  number, and the connection open under it. -/
  ioLog : List (ℕ × Option ℕ) := []

/-- A server that has been set up and never listened. -/
def init (cfg : Setup) : State where
  listenSock := some cfg.listenSock
  kernel :=
    { file := fun fd =>
        if fd = cfg.listenSock then some .listener
        else if fd = cfg.pipeFd then some .pipe
        else none
      openFds := {cfg.listenSock, cfg.pipeFd}
      registered := ∅
      nextConn := 0 }

/-! ## The functions of the server -/

namespace State

/-- `IGenericServer::close`. -/
def close (s : State) (fd : ℕ) : State :=
  { s with
    kernel := s.kernel.close {fd}
    incoming := s.incoming.erase fd
    activeConnections := s.activeConnections - 1
    timesClosed := fun c => s.timesClosed c + s.kernel.held {fd} c
    strayCloses := if fd ∈ s.incoming then s.strayCloses else s.strayCloses + 1 }

/-- The loop of `closeSockets`, under its mutex.  `activeConnections` is not touched. -/
def closeConns (s : State) : State :=
  { s with
    kernel := s.kernel.close s.incoming
    incoming := ∅
    timesClosed := fun c => s.timesClosed c + s.kernel.held s.incoming c }

/-- One `CLOSE_SOCKET` for `fd` has got its answer. -/
def answered (s : State) (fd : ℕ) : State :=
  { s with unanswered := Function.update s.unanswered fd (s.unanswered fd - 1) }

/-- `set_IO`. -/
def setIo (cfg : Setup) (s : State) (fd : ℕ) : State :=
  { s with
    isSocketIo :=
      if cfg.useSmartClose then Function.update s.isSocketIo fd true else s.isSocketIo }

/-- `unset_IO`. -/
def unsetIo (cfg : Setup) (s : State) (fd : ℕ) : State :=
  { s with
    isSocketIo :=
      if cfg.useSmartClose then Function.update s.isSocketIo fd false else s.isSocketIo }

/-- `is_IO`. -/
def isIo (cfg : Setup) (s : State) (fd : ℕ) : Bool :=
  if cfg.useSmartClose then s.isSocketIo fd else true

/-- The callback is called; the batch goes on when it returns. -/
def call (s : State) (cb : Callback) (rest : List Entry) : State :=
  { s with
    pc := .calling cb false rest
    trace := s.trace ++ [cb]
    unanswered :=
      if cb.job = .closeSocket then
        Function.update s.unanswered cb.fd (s.unanswered cb.fd + 1)
      else s.unanswered }

/-- `EPOLL_CTL_ADD` has succeeded for connection `c` as `fd`: it is counted and
announced.  `unset_IO` is called with the number of the entry, which is the listening
socket's, and not with the new number. -/
def registered (cfg : Setup) (s : State) (fd c : ℕ) (rest : List Entry) : State :=
  (unsetIo cfg
    { s with
      kernel := s.kernel.add fd
      activeConnections := s.activeConnections + 1 } cfg.listenSock).call
    ⟨fd, .newSocket, 0, .conn c⟩ rest

/-- One entry of a batch, up to the first point where another thread can interfere. -/
def dispatch (cfg : Setup) (s : State) (e : Entry) (rest : List Entry) : State :=
  if s.listenSock = some e.fd then
    { s with pc := if has e.events EPOLLIN then .accepting rest else .batch rest }
  else
    match connectionBranch cfg.useSmartClose (s.isIo cfg e.fd) e.events with
    | .smartClose => { s with pc := .smartClosing e rest }
    | .callback job => s.call ⟨e.fd, job, e.events, e.file⟩ rest
    | .skip => { s with pc := .batch rest }

/-- What `epoll_wait` may report. -/
def Reports (s : State) (l : List Entry) : Prop :=
  l.length ≤ maxEvents ∧ (l.map Entry.fd).Nodup ∧
    ∀ e ∈ l, e.fd ∈ s.kernel.registered ∧ e.fd ∈ s.kernel.openFds ∧
      s.kernel.file e.fd = some e.file ∧ (e.file = .pipe → 0 < s.signals.pipeBytes)

instance (s : State) (l : List Entry) : Decidable (s.Reports l) :=
  inferInstanceAs (Decidable (_ ∧ _ ∧ _))

end State

/-! ## Steps -/

/-- The answers of `accept4`.  The peer of a new connection may already have sent
bytes and shut down. -/
inductive AcceptAnswer where
  | conn (fd sent : ℕ) (shut : Bool)
  | wouldBlock
  | failed
  deriving DecidableEq, Repr

inductive Act where
  -- the listening thread
  /-- `::listen`, `epoll_create1` and the registration of the pipe and the socket. -/
  | prepare (ok : Bool)
  /-- `is_listening = true`. -/
  | announce
  /-- The test at the head of the loop. -/
  | test
  | wait (w : Wakeup)
  /-- The test of `stop_server` after `epoll_wait`, and of its return value. -/
  | check
  | next
  | accept4 (r : AcceptAnswer)
  | insert
  | epollAdd (ok : Bool)
  /-- `close(fd)` in the hang-up branch, and `SOCKET_IS_CLOSED`. -/
  | smartClose
  /-- The callback, on the listening thread, calls `close` on its descriptor. -/
  | answer
  | ret
  | closeConns
  | closeEpoll
  | closeListen
  | quit
  -- everybody else
  | close (fd : ℕ)
  | removeFromEpoll (fd : ℕ)
  /-- A call of `read` or `write` that takes up to `n` bytes from the connection. -/
  | io (fd n : ℕ)
  | terminate (t : ℕ)
  | peerSend (c n : ℕ)
  | peerShutdown (c : ℕ)
  deriving DecidableEq, Repr

def step (cfg : Setup) (s : State) : Act → Option State
  | .prepare ok =>
    match s.pc with
    | .starting =>
      if ok then
        some { s with
          pc := .announcing
          epollfd := some cfg.epollFd
          incoming := ∅
          kernel := s.kernel.watch cfg.epollFd cfg.pipeFd cfg.listenSock }
      else some { s with pc := .leaving, incoming := ∅ }
    | _ => none
  | .announce =>
    match s.pc with
    | .announcing =>
      some { s with pc := .loopHead, signals := { s.signals with isListening := true } }
    | _ => none
  | .test =>
    match s.pc with
    | .loopHead => some { s with pc := if s.signals.stopServer then .leaving else .waiting }
    | _ => none
  | .wait w =>
    match s.pc with
    | .waiting =>
      match w with
      | .batch l => if s.Reports l then some { s with pc := .woken (.batch l) } else none
      | w => some { s with pc := .woken w }
    | _ => none
  | .check =>
    match s.pc with
    | .woken w =>
      if s.signals.stopServer then some { s with pc := .leaving }
      else
        match w with
        | .interrupted => some { s with pc := .loopHead }
        | .failed => some { s with pc := .leaving }
        | .batch l => some { s with pc := .batch l }
    | _ => none
  | .next =>
    match s.pc with
    | .batch [] => some { s with pc := .loopHead }
    | .batch (e :: rest) => some (s.dispatch cfg e rest)
    | _ => none
  | .accept4 r =>
    match s.pc with
    | .accepting rest =>
      match r with
      | .conn fd sent shut =>
        if fd ∈ s.kernel.openFds then none
        else
          some { s with
            pc := .inserting fd s.kernel.nextConn rest
            kernel := s.kernel.accept fd
            peers := s.peers.connect s.kernel.nextConn sent shut }
      | .wouldBlock => some { s with pc := .batch rest }
      | .failed => some { s with pc := .leaving }
    | _ => none
  | .insert =>
    match s.pc with
    | .inserting fd c rest =>
      some { s with pc := .adding fd c rest, incoming := Insert.insert fd s.incoming }
    | _ => none
  | .epollAdd ok =>
    match s.pc with
    | .adding fd c rest =>
      if ok then
        if fd ∈ s.kernel.openFds then some (s.registered cfg fd c rest) else none
      else some { s with pc := .leaving }
    | _ => none
  | .smartClose =>
    match s.pc with
    | .smartClosing e rest =>
      some ((s.close e.fd).call ⟨e.fd, .socketIsClosed, e.events, e.file⟩ rest)
    | _ => none
  | .answer =>
    match s.pc with
    | .calling cb false rest =>
      some { (s.close cb.fd).answered cb.fd with pc := .calling cb true rest }
    | _ => none
  | .ret =>
    match s.pc with
    | .calling _ _ rest => some { s with pc := .batch rest }
    | _ => none
  | .closeConns =>
    match s.pc with
    | .leaving => some { s.closeConns with pc := .closedConns }
    | _ => none
  | .closeEpoll =>
    match s.pc with
    | .closedConns =>
      some { s with
        pc := .closedEpoll
        epollfd := none
        kernel := { s.kernel.close {cfg.epollFd} with registered := ∅ } }
    | _ => none
  | .closeListen =>
    match s.pc with
    | .closedEpoll =>
      some { s with
        pc := .closedListen
        listenSock := none
        kernel := s.kernel.close {cfg.listenSock} }
    | _ => none
  | .quit =>
    match s.pc with
    | .closedListen =>
      some { s with pc := .left, signals := { s.signals with isListening := false } }
    | _ => none
  | .close fd => some ((s.close fd).answered fd)
  | .removeFromEpoll fd =>
    -- the error branch stores through `_errno`, which is null for the callers in the
    -- library, and does not return
    if s.epollfd = none ∨ fd = cfg.epollFd ∨ fd = cfg.pipeFd ∨ s.listenSock = some fd then none
    else some { s with kernel := s.kernel.del fd }
  | .io fd n =>
    some { s.setIo cfg fd with
      peers := s.peers.read (s.kernel.conn? fd) n
      ioLog := s.ioLog ++ [(fd, s.kernel.conn? fd)] }
  | .terminate t => (s.signals.terminate t).map fun g => { s with signals := g }
  | .peerSend c n =>
    if c < s.kernel.nextConn ∧ s.peers.shut c = false then
      some { s with peers := s.peers.send c n }
    else none
  | .peerShutdown c =>
    if c < s.kernel.nextConn then some { s with peers := s.peers.shutdown c } else none

/-! ## What a step does -/

/-- The steps that move the listening thread and change nothing else. -/
inductive Moves (cfg : Setup) (s : State) : Act → Pc → Prop
  | testStop : s.pc = .loopHead → s.signals.stopServer = true → Moves cfg s .test .leaving
  | testGo : s.pc = .loopHead → s.signals.stopServer = false → Moves cfg s .test .waiting
  | interrupted : s.pc = .waiting → Moves cfg s (.wait .interrupted) (.woken .interrupted)
  | failed : s.pc = .waiting → Moves cfg s (.wait .failed) (.woken .failed)
  | checkStop {w} : s.pc = .woken w → s.signals.stopServer = true → Moves cfg s .check .leaving
  | checkInterrupted : s.pc = .woken .interrupted → s.signals.stopServer = false →
      Moves cfg s .check .loopHead
  | checkFailed : s.pc = .woken .failed → s.signals.stopServer = false →
      Moves cfg s .check .leaving
  | checkBatch {l} : s.pc = .woken (.batch l) → s.signals.stopServer = false →
      Moves cfg s .check (.batch l)
  | batchDone : s.pc = .batch [] → Moves cfg s .next .loopHead
  | incoming {e rest} : s.pc = .batch (e :: rest) → s.listenSock = some e.fd →
      Moves cfg s .next (.accepting rest)
  | noIncoming {e rest} : s.pc = .batch (e :: rest) → s.listenSock = some e.fd →
      Moves cfg s .next (.batch rest)
  | smart {e rest} : s.pc = .batch (e :: rest) → s.listenSock ≠ some e.fd →
      hungUp e.events = true → cfg.useSmartClose = true → s.isSocketIo e.fd = false →
      Moves cfg s .next (.smartClosing e rest)
  | skip {e rest} : s.pc = .batch (e :: rest) → s.listenSock ≠ some e.fd →
      Moves cfg s .next (.batch rest)
  | wouldBlock {rest} : s.pc = .accepting rest → Moves cfg s (.accept4 .wouldBlock) (.batch rest)
  | acceptFailed {rest} : s.pc = .accepting rest → Moves cfg s (.accept4 .failed) .leaving
  | addFailed {fd c rest} : s.pc = .adding fd c rest → Moves cfg s (.epollAdd false) .leaving
  | ret {cb b rest} : s.pc = .calling cb b rest → Moves cfg s .ret (.batch rest)

/-- What a step does, with the state it leads to. -/
inductive Step (cfg : Setup) (s : State) : Act → State → Prop
  | moves {a pc} : Moves cfg s a pc → Step cfg s a { s with pc := pc }
  | prepared : s.pc = .starting → Step cfg s (.prepare true)
      { s with
        pc := .announcing
        epollfd := some cfg.epollFd
        incoming := ∅
        kernel := s.kernel.watch cfg.epollFd cfg.pipeFd cfg.listenSock }
  | notPrepared : s.pc = .starting →
      Step cfg s (.prepare false) { s with pc := .leaving, incoming := ∅ }
  | announce : s.pc = .announcing → Step cfg s .announce
      { s with pc := .loopHead, signals := { s.signals with isListening := true } }
  | wait {l} : s.pc = .waiting → s.Reports l →
      Step cfg s (.wait (.batch l)) { s with pc := .woken (.batch l) }
  | callback {e rest job} : s.pc = .batch (e :: rest) → s.listenSock ≠ some e.fd →
      connectionBranch cfg.useSmartClose (s.isIo cfg e.fd) e.events = .callback job →
      Step cfg s .next (s.call ⟨e.fd, job, e.events, e.file⟩ rest)
  | accept {fd sent shut rest} : s.pc = .accepting rest → fd ∉ s.kernel.openFds →
      Step cfg s (.accept4 (.conn fd sent shut))
        { s with
          pc := .inserting fd s.kernel.nextConn rest
          kernel := s.kernel.accept fd
          peers := s.peers.connect s.kernel.nextConn sent shut }
  | insert {fd c rest} : s.pc = .inserting fd c rest → Step cfg s .insert
      { s with pc := .adding fd c rest, incoming := Insert.insert fd s.incoming }
  | registered {fd c rest} : s.pc = .adding fd c rest → fd ∈ s.kernel.openFds →
      Step cfg s (.epollAdd true) (s.registered cfg fd c rest)
  | smartClose {e rest} : s.pc = .smartClosing e rest → Step cfg s .smartClose
      ((s.close e.fd).call ⟨e.fd, .socketIsClosed, e.events, e.file⟩ rest)
  | answer {cb rest} : s.pc = .calling cb false rest → Step cfg s .answer
      { (s.close cb.fd).answered cb.fd with pc := .calling cb true rest }
  | closeConns : s.pc = .leaving →
      Step cfg s .closeConns { s.closeConns with pc := .closedConns }
  | closeEpoll : s.pc = .closedConns → Step cfg s .closeEpoll
      { s with
        pc := .closedEpoll
        epollfd := none
        kernel := { s.kernel.close {cfg.epollFd} with registered := ∅ } }
  | closeListen : s.pc = .closedEpoll → Step cfg s .closeListen
      { s with
        pc := .closedListen
        listenSock := none
        kernel := s.kernel.close {cfg.listenSock} }
  | quit : s.pc = .closedListen → Step cfg s .quit
      { s with pc := .left, signals := { s.signals with isListening := false } }
  | close (fd) : Step cfg s (.close fd) ((s.close fd).answered fd)
  | removeFromEpoll (fd) : Step cfg s (.removeFromEpoll fd) { s with kernel := s.kernel.del fd }
  | io (fd n) : Step cfg s (.io fd n)
      { s.setIo cfg fd with
        peers := s.peers.read (s.kernel.conn? fd) n
        ioLog := s.ioLog ++ [(fd, s.kernel.conn? fd)] }
  | terminate {t g} : s.signals.terminate t = some g →
      Step cfg s (.terminate t) { s with signals := g }
  | peerSend {c n} : c < s.kernel.nextConn → s.peers.shut c = false →
      Step cfg s (.peerSend c n) { s with peers := s.peers.send c n }
  | peerShutdown {c} : c < s.kernel.nextConn →
      Step cfg s (.peerShutdown c) { s with peers := s.peers.shutdown c }

theorem Step.of_dispatch {cfg : Setup} {s : State} {e : Entry} {rest : List Entry}
    (hpc : s.pc = .batch (e :: rest)) : Step cfg s .next (s.dispatch cfg e rest) := by
  unfold State.dispatch
  split_ifs with hlisten hin
  · exact .moves (.incoming hpc hlisten)
  · exact .moves (.noIncoming hpc hlisten)
  · cases hb : connectionBranch cfg.useSmartClose (s.isIo cfg e.fd) e.events with
    | smartClose =>
      obtain ⟨hup, hsmart, hio⟩ := connectionBranch_eq_smartClose_iff.mp hb
      rw [State.isIo, if_pos hsmart] at hio
      exact .moves (.smart hpc hlisten hup hsmart hio)
    | callback job => exact .callback hpc hlisten hb
    | skip => exact .moves (.skip hpc hlisten)

/-- **What a step can do**, every guard included.  All invariants are derived from
this. -/
theorem Step.of_step {cfg : Setup} {s s' : State} {a : Act} (h : step cfg s a = some s') :
    Step cfg s a s' := by
  cases a with
  | prepare ok =>
    simp only [step] at h
    split at h
    · next hpc =>
      split_ifs at h with hok <;> cases h
      · exact hok ▸ .prepared hpc
      · exact (Bool.not_eq_true _ ▸ hok : ok = false) ▸ .notPrepared hpc
    · cases h
  | announce =>
    simp only [step] at h
    split at h <;> cases h
    exact .announce ‹_›
  | test =>
    simp only [step] at h
    split at h <;> cases h
    cases hstop : s.signals.stopServer with
    | true => exact .moves (.testStop ‹_› hstop)
    | false => exact .moves (.testGo ‹_› hstop)
  | wait w =>
    simp only [step] at h
    split at h
    · next hpc =>
      cases w with
      | batch l =>
        dsimp only at h
        split_ifs at h with hl
        cases h
        exact .wait hpc hl
      | interrupted => cases h; exact .moves (.interrupted hpc)
      | failed => cases h; exact .moves (.failed hpc)
    · cases h
  | check =>
    simp only [step] at h
    split at h
    · next w hpc =>
      split_ifs at h with hstop
      · cases h
        exact .moves (.checkStop hpc hstop)
      · rw [Bool.not_eq_true] at hstop
        cases w with
        | batch l => cases h; exact .moves (.checkBatch hpc hstop)
        | interrupted => cases h; exact .moves (.checkInterrupted hpc hstop)
        | failed => cases h; exact .moves (.checkFailed hpc hstop)
    · cases h
  | next =>
    simp only [step] at h
    split at h <;> cases h
    · exact .moves (.batchDone ‹_›)
    · exact .of_dispatch ‹_›
  | accept4 r =>
    simp only [step] at h
    split at h
    · next rest hpc =>
      cases r with
      | conn fd sent shut =>
        dsimp only at h
        split_ifs at h with hfd
        cases h
        exact .accept hpc hfd
      | wouldBlock => cases h; exact .moves (.wouldBlock hpc)
      | failed => cases h; exact .moves (.acceptFailed hpc)
    · cases h
  | insert =>
    simp only [step] at h
    split at h <;> cases h
    exact .insert ‹_›
  | epollAdd ok =>
    simp only [step] at h
    split at h
    · next fd c rest hpc =>
      split_ifs at h with hok hfd <;> cases h
      · exact hok ▸ .registered hpc hfd
      · exact (Bool.not_eq_true _ ▸ hok : ok = false) ▸ .moves (.addFailed hpc)
    · cases h
  | smartClose =>
    simp only [step] at h
    split at h <;> cases h
    exact .smartClose ‹_›
  | answer =>
    simp only [step] at h
    split at h <;> cases h
    exact .answer ‹_›
  | ret =>
    simp only [step] at h
    split at h <;> cases h
    exact .moves (.ret ‹_›)
  | closeConns =>
    simp only [step] at h
    split at h <;> cases h
    exact .closeConns ‹_›
  | closeEpoll =>
    simp only [step] at h
    split at h <;> cases h
    exact .closeEpoll ‹_›
  | closeListen =>
    simp only [step] at h
    split at h <;> cases h
    exact .closeListen ‹_›
  | quit =>
    simp only [step] at h
    split at h <;> cases h
    exact .quit ‹_›
  | close fd => cases h; exact .close fd
  | removeFromEpoll fd =>
    simp only [step] at h
    split_ifs at h
    cases h
    exact .removeFromEpoll fd
  | io fd n => cases h; exact .io fd n
  | terminate t =>
    obtain ⟨g, hg, rfl⟩ := Option.map_eq_some_iff.mp h
    exact .terminate hg
  | peerSend c n =>
    simp only [step] at h
    split_ifs at h with hc
    cases h
    exact .peerSend hc.1 hc.2
  | peerShutdown c =>
    simp only [step] at h
    split_ifs at h with hc
    cases h
    exact .peerShutdown hc

/-- A move drops entries of the batch from the front, or all of them. -/
theorem Moves.pending_suffix {cfg : Setup} {s : State} {a : Act} {pc : Pc}
    (h : Moves cfg s a pc) : pc.pending <:+ s.pc.pending := by
  cases h <;> simp [*, Pc.pending]

/-- No new connection is in hand, and no callback is running. -/
def Pc.bare : Pc → Bool
  | .inserting _ _ _ | .adding _ _ _ | .calling _ _ _ => false
  | _ => true

theorem Moves.bare {cfg : Setup} {s : State} {a : Act} {pc : Pc} (h : Moves cfg s a pc) :
    pc.bare = true := by
  cases h <;> rfl

/-! ## What the listening thread carries -/

/-- The numbers the listening thread has in its hands, with the files they were named
for: the entries not yet acted on, and the descriptor of a new connection or of the
callback in progress. -/
def Pc.carried : Pc → List (ℕ × File)
  | .inserting fd c rest | .adding fd c rest => (fd, .conn c) :: rest.map fun e => (e.fd, e.file)
  | .calling cb _ rest => (cb.fd, cb.file) :: rest.map fun e => (e.fd, e.file)
  | pc => pc.pending.map fun e => (e.fd, e.file)

theorem Pc.carried_of_bare {pc : Pc} (h : pc.bare = true) :
    pc.carried = pc.pending.map fun e => (e.fd, e.file) := by
  cases pc <;> first | rfl | cases h

theorem Pc.pending_carried {pc : Pc} {e : Entry} (h : e ∈ pc.pending) :
    (e.fd, e.file) ∈ pc.carried := by
  have hmem : (e.fd, e.file) ∈ pc.pending.map fun e => (e.fd, e.file) := List.mem_map_of_mem h
  cases pc <;> first | exact hmem | exact List.mem_cons_of_mem _ hmem

/-- What is carried after a step was carried before, or the kernel has just named it:
`epoll_wait` for a file that the number stands for, or `accept4` for a new connection. -/
theorem carried_step {cfg : Setup} {s s' : State} {a : Act} (hs : step cfg s a = some s')
    {p : ℕ × File} (hp : p ∈ s'.pc.carried) :
    p ∈ s.pc.carried ∨ s'.kernel = s.kernel ∧ s.kernel.file p.1 = some p.2 ∨
      ∃ fd, s'.kernel = s.kernel.accept fd ∧ p = (fd, .conn s.kernel.nextConn) := by
  cases Step.of_step hs with
  | moves hm =>
    rw [Pc.carried_of_bare hm.bare] at hp
    obtain ⟨e, he, rfl⟩ := List.mem_map.mp hp
    exact .inl (Pc.pending_carried (hm.pending_suffix.subset he))
  | wait hpc hl =>
    obtain ⟨e, he, rfl⟩ := List.mem_map.mp hp
    exact .inr (.inl ⟨rfl, (hl.2.2 e he).2.2.1⟩)
  | accept hpc _ =>
    rcases List.mem_cons.mp hp with rfl | hp
    · exact .inr (.inr ⟨_, rfl, rfl⟩)
    · rw [hpc]
      exact .inl hp
  | callback hpc _ _ | insert hpc | registered hpc _ | smartClose hpc | answer hpc =>
    rw [hpc]
    exact .inl hp
  | prepared | notPrepared | announce | closeConns | closeEpoll | closeListen | quit => cases hp
  | close | removeFromEpoll | io | terminate | peerSend | peerShutdown => exact .inl hp

/-- If `f` is a connection, it has arrived, and `fd` is the only number that can still
stand for it. -/
def Kernel.Names (k : Kernel) (fd : ℕ) (f : File) : Prop :=
  ∀ c, f = .conn c → c < k.nextConn ∧ ∀ fd', k.file fd' = some (.conn c) → fd' = fd

theorem Kernel.Wf.names {k : Kernel} (h : k.Wf) {fd : ℕ} {f : File} (hf : k.file fd = some f) :
    k.Names fd f := by
  rintro c rfl
  exact ⟨h.numbered fd c hf, fun fd' hfd' => h.inj fd' fd c hfd' hf⟩

/-- A connection keeps its number for good. -/
theorem Kernel.Names.step {cfg : Setup} {s s' : State} {a : Act} {fd : ℕ} {f : File}
    (h : s.kernel.Names fd f) (hs : step cfg s a = some s') : s'.kernel.Names fd f := by
  intro c hc
  obtain ⟨hlt, hnum⟩ := h c hc
  cases Step.of_step hs with
  | accept =>
    refine ⟨Nat.lt_succ_of_lt hlt, fun fd' hfd' => ?_⟩
    rcases Kernel.accept_file_eq_conn hfd' with ⟨-, heq⟩ | ⟨-, hfile⟩
    · omega
    · exact hnum fd' hfile
  | prepared => exact ⟨hlt, fun fd' hfd' => hnum fd' (Kernel.watch_file_eq_conn hfd').2⟩
  | _ => exact ⟨hlt, hnum⟩

theorem Moves.arriving {cfg : Setup} {s : State} {a : Act} {pc : Pc} (h : Moves cfg s a pc) :
    s.pc.arriving = none ∧ pc.arriving = none ∧ pc.outside = false := by
  cases h <;> simp [*, Pc.arriving, Pc.outside]

/-- The numbering of connections is never disturbed, whoever closes what. -/
theorem wf_step {cfg : Setup} {s s' : State} {a : Act} (h : s.kernel.Wf)
    (hs : step cfg s a = some s') : s'.kernel.Wf := by
  cases Step.of_step hs with
  | prepared => exact h.of_file rfl fun _ _ hc => (Kernel.watch_file_eq_conn hc).2
  | @accept fd => exact h.accept fd
  | _ => exact h.of_file rfl fun _ _ hc => hc

theorem wf_init (cfg : Setup) : (init cfg).kernel.Wf := by
  have hfile : ∀ fd c, (init cfg).kernel.file fd ≠ some (.conn c) := by
    intro fd c
    simp only [init]
    split_ifs <;> simp
  exact ⟨fun fd _ c h => absurd h (hfile fd c), fun fd c h => absurd h (hfile fd c)⟩

end Listen

end Nbuss
