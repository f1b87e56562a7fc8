import Nbuss.Barrier
import Nbuss.BufferedWrite

/-!
# A second life for `ThreadedServer2`

`terminate` resets its flags "so server can be started again".  What a second `start`
would need is spread over three classes, and most of it is not reset.

* `closeSockets` closes `listen_sock`, and only the constructors of the servers open it.
  The second `listen` throws, on a thread where nobody catches, and the process ends.
* `ThreadedServer2::stop` sets `stopServer` and nothing clears it.  The second write
  worker ends at its first test.
* The byte in the command pipe, the counter of connections and the I/O flags stay as
  they are.

Each of the first two is enough: in no run does a `start` after a `stop` that has come
back reach the state in which the first one left the server
(`never_operating_after_stop`).

`stop` may be called at any moment, from another thread than `start`.  What the listening
thread, the peers and the callers of `close`, `read` and `write` do is everything that
`Listen.step` and `Ts2.step` allow, in any order.  A `listen` that is left by one of its
later exceptions also ends the process; the thread ends here as if it had returned, and so
there are more runs.
-/

namespace Nbuss

namespace Restart

open Transition Listen

/-- `listenWorkerThread`. -/
inductive Listener where
  /-- Not joinable. -/
  | none
  /-- At the test at the head of `listen`. -/
  | created
  /-- Past it. -/
  | running
  | ended
  deriving DecidableEq, Repr

/-- `writerWorkerThread`. -/
inductive Worker where
  /-- Not joinable. -/
  | none
  /-- At the head of the loop of `write_queue_worker`. -/
  | entering
  /-- In the inner loop, which waits for `readyToWriteSet`. -/
  | waiting
  | ended
  deriving DecidableEq, Repr

/-- Where `start` stands. -/
inductive StartPc where
  | idle
  /-- The write worker has been started. -/
  | spawning
  | waiting
  /-- `wait_for_server_ready` has returned. -/
  | ready
  deriving DecidableEq, Repr

/-- Where `stop` stands. -/
inductive StopPc where
  | idle
  | terminating
  /-- The listening thread has been joined. -/
  | joining
  /-- The write worker has been joined. -/
  | finishing
  deriving DecidableEq, Repr

structure Sys where
  server : State
  buffers : Ts2 := Ts2.init
  running : Bool := false
  stopServer : Bool := false
  listener : Listener := .none
  worker : Worker := .none
  starting : StartPc := .idle
  stopping : StopPc := .idle
  /-- The calls of `stop`, and those that have come back without an exception. -/
  stopCalls : ℕ := 0
  stops : ℕ := 0
  /-- `std::terminate` has been called. -/
  aborted : Bool := false

inductive Act where
  | server (a : Listen.Act)
  /-- A call of `write`, or an event that reports a writable descriptor. -/
  | buffers (op : Ts2.Op)
  /-- The part of `close`, or of the event `SOCKET_IS_CLOSED`, that empties a queue. -/
  | cleanup (fd : ℕ)
  /-- The test of `listen_sock` at the head of `listen`. -/
  | enter
  /-- `listen_worker` is through with `listen`. -/
  | listenerEnds
  /-- A test of `stopServer` by the write worker. -/
  | worker
  /-- The write worker takes a descriptor and drains its queue. -/
  | pass (answers : List WriteAnswer)
  | start
  | spawnListener
  | ready
  | setRunning
  | stop
  | terminate
  | joinListener
  | joinWriter
  | finish

def isPass : Ts2.Op → Bool
  | .workerPass _ => true
  | _ => false

/-- What the listening thread and the threads of the callers do to the server and to the
queues. -/
def Sys.serve (cfg : Setup) (s : Sys) : Act → Option Sys
  | .server a =>
    if isTerminate a ∨ ofListener a ∧ s.listener ≠ .running then none
    else (Listen.step cfg s.server a).map fun v => { s with server := v }
  | .buffers op =>
    if isPass op then none else (Ts2.step s.buffers op).map fun b => { s with buffers := b }
  | .cleanup fd => (s.buffers.cleanup fd).map fun b => { s with buffers := b }
  | .enter =>
    match s.listener, s.server.listenSock with
    -- the exception "server socket is not open", which nobody catches
    | .created, none => some { s with aborted := true }
    | .created, some _ =>
      some { s with listener := .running, server := { s.server with pc := .starting } }
    | _, _ => none
  | .listenerEnds =>
    match s.listener, s.server.pc with
    | .running, .left => some { s with listener := .ended }
    | _, _ => none
  | .worker =>
    match s.worker with
    | .entering => some { s with worker := if s.stopServer then .ended else .waiting }
    | .waiting => if s.stopServer then some { s with worker := .ended } else none
    | _ => none
  | .pass answers =>
    match s.worker with
    | .waiting =>
      if s.stopServer then none
      else (s.buffers.workerPass answers).map fun b => { s with buffers := b, worker := .entering }
    | _ => none
  | _ => none

/-- `ThreadedServer2::start` and `ThreadedServer2::stop`. -/
def Sys.control (cfg : Setup) (s : Sys) : Act → Option Sys
  | .start =>
    match s.starting with
    | .idle =>
      -- `start` throws when the server is running
      if s.running then some s
      else if s.worker = .none then
        some { s with
          buffers := { s.buffers with readyToWriteSet := ∅ }
          worker := .entering
          starting := .spawning }
      else some { s with aborted := true }
    | _ => none
  | .spawnListener =>
    match s.starting with
    | .spawning =>
      if s.listener = .none then
        some { s with listener := .created, starting := .waiting }
      else some { s with aborted := true }
    | _ => none
  | .ready =>
    match s.starting with
    | .waiting => if s.server.signals.isListening then some { s with starting := .ready } else none
    | _ => none
  | .setRunning =>
    match s.starting with
    | .ready => some { s with starting := .idle, running := true }
    | _ => none
  | .stop =>
    match s.stopping with
    | .idle => some { s with stopServer := true, stopping := .terminating }
    | _ => none
  | .terminate =>
    match s.stopping with
    | .terminating =>
      (Listen.step cfg s.server (.terminate s.stopCalls)).map fun v => { s with server := v }
    | _ => none
  | .joinListener =>
    match s.stopping, s.server.signals.calls s.stopCalls, s.listener with
    | .terminating, .done, .ended => some { s with listener := .none, stopping := .joining }
    -- `join` throws when there is nothing to join
    | .terminating, .done, .none => some { s with stopping := .idle, stopCalls := s.stopCalls + 1 }
    | _, _, _ => none
  | .joinWriter =>
    match s.stopping, s.worker with
    | .joining, .ended => some { s with worker := .none, stopping := .finishing }
    | .joining, .none => some { s with stopping := .idle, stopCalls := s.stopCalls + 1 }
    | _, _ => none
  | .finish =>
    match s.stopping with
    | .finishing =>
      some { s with
        running := false
        stopping := .idle
        stopCalls := s.stopCalls + 1
        stops := s.stops + 1 }
    | _ => none
  | _ => none

def step (cfg : Setup) (s : Sys) (a : Act) : Option Sys :=
  if s.aborted then none else (s.serve cfg a).or (s.control cfg a)

def init (cfg : Setup) : Sys where
  server := Listen.init cfg

/-- The state in which the first `start` leaves the server. -/
structure Operating (s : Sys) : Prop where
  alive : s.aborted = false
  isListening : s.server.signals.isListening = true
  running : s.running = true
  worker : s.worker = .waiting
  stop_server : s.server.signals.stopServer = false
  stopServer : s.stopServer = false
  pipe : s.server.signals.pipeBytes = 0
  activeConnections : s.server.activeConnections = 0
  writeQueue : ∀ fd, (s.buffers.internalSocketData fd).writeQueue = []
  isSocketIo : ∀ fd, s.server.isSocketIo fd = false

/-- What `stop` leaves behind and nothing restores. -/
structure Spent (s : Sys) : Prop where
  left : s.server.pc = .left
  stopServer : s.stopServer = true

/-- Where the server can be when the listening thread is not inside `listen`. -/
def Listener.Agrees : Listener → Pc → Prop
  | .none, pc | .created, pc => pc = .starting ∨ pc = .left
  | .running, _ => True
  | .ended, pc => pc = .left

structure Inv (cfg : Setup) (s : Sys) : Prop where
  stages : Stages cfg s.server
  thread : s.listener.Agrees s.server.pc
  stopping : s.stopping ≠ .idle → s.stopServer = true
  joined : s.stopping = .joining ∨ s.stopping = .finishing → s.server.pc = .left
  stopped : 0 < s.stops → Spent s

theorem inv_init (cfg : Setup) : Inv cfg (init cfg) where
  stages := stages_init
  thread := .inl rfl
  stopping h := absurd rfl h
  joined h := by rcases h with h | h <;> cases h
  stopped h := absurd h (Nat.lt_irrefl 0)

variable {cfg : Setup} {s s' : Sys} {a : Act}

/-- The server is closed for good. -/
theorem Inv.not_operating (h : Inv cfg s) (hstops : 0 < s.stops) : ¬ Operating s := by
  intro hop
  have hin := h.stages.listening hop.isListening
  rw [(h.stopped hstops).left] at hin
  cases hin

theorem Inv.server {v : State} {b : Listen.Act} (h : Inv cfg s)
    (hs : Listen.step cfg s.server b = some v) (hb : ofListener b = true → s.listener = .running) :
    Inv cfg { s with server := v } where
  stages := h.stages.step hs
  thread := by
    show s.listener.Agrees v.pc
    cases hof : ofListener b with
    | true =>
      rw [hb hof]
      trivial
    | false =>
      rw [pc_step hs hof]
      exact h.thread
  stopping := h.stopping
  joined hjoined := (left_step hs (h.joined hjoined)).1
  stopped hstops := ⟨(left_step hs (h.stopped hstops).left).1, (h.stopped hstops).stopServer⟩

/-- A step that concerns neither the server nor `stop`. -/
theorem Inv.frame (h : Inv cfg s) (hserver : s'.server = s.server)
    (hthread : s'.listener.Agrees s.server.pc) (hstop : s'.stopServer = s.stopServer)
    (hstopping : s'.stopping = s.stopping) (hstops : s'.stops = s.stops) : Inv cfg s' where
  stages := hserver ▸ h.stages
  thread := hserver ▸ hthread
  stopping hne := hstop.trans (h.stopping (hstopping ▸ hne))
  joined hjoined := hserver ▸ h.joined (hstopping ▸ hjoined)
  stopped hpos :=
    ⟨hserver ▸ (h.stopped (hstops ▸ hpos)).left, hstop.trans (h.stopped (hstops ▸ hpos)).stopServer⟩

/-- A thread finds `listen_sock` open only when `listen` is called for the first time. -/
theorem Inv.starting (h : Inv cfg s) (hlistener : s.listener = .created) {fd : ℕ}
    (hsock : s.server.listenSock = some fd) : s.server.pc = .starting := by
  have hthread := h.thread
  rw [hlistener] at hthread
  rcases hthread with hpc | hpc
  · exact hpc
  · rw [h.stages.listenClosed (by rw [hpc]; rfl)] at hsock
    cases hsock

theorem Inv.serve (h : Inv cfg s) (hs : s.serve cfg a = some s') :
    Inv cfg s' ∧ s.stops ≤ s'.stops := by
  cases a with
  | server b =>
    simp only [Sys.serve] at hs
    split_ifs at hs with hmay
    obtain ⟨v, hv, rfl⟩ := Option.map_eq_some_iff.mp hs
    exact ⟨h.server hv fun hof => by_contra fun hl => hmay (.inr ⟨hof, hl⟩), le_rfl⟩
  | buffers op =>
    simp only [Sys.serve] at hs
    split_ifs at hs
    obtain ⟨b, -, rfl⟩ := Option.map_eq_some_iff.mp hs
    exact ⟨h.frame rfl h.thread rfl rfl rfl, le_rfl⟩
  | cleanup fd =>
    obtain ⟨b, -, rfl⟩ := Option.map_eq_some_iff.mp hs
    exact ⟨h.frame rfl h.thread rfl rfl rfl, le_rfl⟩
  | enter =>
    simp only [Sys.serve] at hs
    split at hs
    · cases hs
      exact ⟨h.frame rfl h.thread rfl rfl rfl, le_rfl⟩
    · next hlistener hsock =>
      cases hs
      have hserver : { s.server with pc := .starting } = s.server := by
        rw [← h.starting hlistener hsock]
      exact ⟨h.frame hserver trivial rfl rfl rfl, le_rfl⟩
    · cases hs
  | listenerEnds =>
    simp only [Sys.serve] at hs
    split at hs
    · next hleft =>
      cases hs
      exact ⟨h.frame rfl hleft rfl rfl rfl, le_rfl⟩
    · cases hs
  | worker =>
    simp only [Sys.serve] at hs
    split at hs
    · cases hs
      exact ⟨h.frame rfl h.thread rfl rfl rfl, le_rfl⟩
    · split_ifs at hs
      cases hs
      exact ⟨h.frame rfl h.thread rfl rfl rfl, le_rfl⟩
    · cases hs
  | pass answers =>
    simp only [Sys.serve] at hs
    split at hs
    · split_ifs at hs
      obtain ⟨b, -, rfl⟩ := Option.map_eq_some_iff.mp hs
      exact ⟨h.frame rfl h.thread rfl rfl rfl, le_rfl⟩
    · cases hs
  | _ => cases hs

/-- `stop` is left by an exception. -/
theorem Inv.stopThrows (h : Inv cfg s) (n : ℕ) :
    Inv cfg { s with stopping := .idle, stopCalls := n } where
  stages := h.stages
  thread := h.thread
  stopping hne := absurd rfl hne
  joined hj := by rcases hj with hj | hj <;> cases hj
  stopped hpos := ⟨(h.stopped hpos).left, (h.stopped hpos).stopServer⟩

/-- `start` resets nothing that matters, and `stop` comes back only when the listening
thread has been joined. -/
theorem Inv.control (h : Inv cfg s) (hs : s.control cfg a = some s') :
    Inv cfg s' ∧ s.stops ≤ s'.stops := by
  cases a with
  | start =>
    simp only [Sys.control] at hs
    split at hs
    · split_ifs at hs <;> cases hs
      · exact ⟨h, le_rfl⟩
      all_goals exact ⟨h.frame rfl h.thread rfl rfl rfl, le_rfl⟩
    · cases hs
  | spawnListener =>
    simp only [Sys.control] at hs
    split at hs
    · split_ifs at hs with hnone <;> cases hs
      · have hthread := h.thread
        rw [hnone] at hthread
        exact ⟨h.frame rfl hthread rfl rfl rfl, le_rfl⟩
      · exact ⟨h.frame rfl h.thread rfl rfl rfl, le_rfl⟩
    · cases hs
  | ready =>
    simp only [Sys.control] at hs
    split at hs
    · split_ifs at hs
      cases hs
      exact ⟨h.frame rfl h.thread rfl rfl rfl, le_rfl⟩
    · cases hs
  | setRunning =>
    simp only [Sys.control] at hs
    split at hs <;> cases hs
    exact ⟨h.frame rfl h.thread rfl rfl rfl, le_rfl⟩
  | stop =>
    simp only [Sys.control] at hs
    split at hs <;> cases hs
    refine ⟨⟨h.stages, h.thread, fun _ => rfl, fun hj => ?_, fun hpos => ?_⟩, le_rfl⟩
    · rcases hj with hj | hj <;> cases hj
    · exact ⟨(h.stopped hpos).left, rfl⟩
  | terminate =>
    simp only [Sys.control] at hs
    split at hs
    · obtain ⟨v, hv, rfl⟩ := Option.map_eq_some_iff.mp hs
      exact ⟨h.server hv nofun, le_rfl⟩
    · cases hs
  | joinListener =>
    simp only [Sys.control] at hs
    split at hs
    · next hstopping _ hended =>
      cases hs
      have hstop := h.stopping (by simp [hstopping])
      have hleft : s.server.pc = .left := by
        have hthread := h.thread
        rwa [hended] at hthread
      refine ⟨⟨h.stages, .inr hleft, fun _ => hstop, fun _ => hleft, fun hpos => ?_⟩, le_rfl⟩
      exact ⟨(h.stopped hpos).left, hstop⟩
    · cases hs
      exact ⟨h.stopThrows _, le_rfl⟩
    · cases hs
  | joinWriter =>
    simp only [Sys.control] at hs
    split at hs
    · next hstopping _ =>
      cases hs
      have hstop := h.stopping (by simp [hstopping])
      refine ⟨⟨h.stages, h.thread, fun _ => hstop, fun _ => h.joined (.inl hstopping),
        fun hpos => ?_⟩, le_rfl⟩
      exact ⟨(h.stopped hpos).left, hstop⟩
    · cases hs
      exact ⟨h.stopThrows _, le_rfl⟩
    · cases hs
  | finish =>
    simp only [Sys.control] at hs
    split at hs
    · next hstopping =>
      cases hs
      have hstop := h.stopping (by simp [hstopping])
      have hleft := h.joined (.inr hstopping)
      refine ⟨⟨h.stages, h.thread, fun hne => absurd rfl hne, fun hj => ?_, fun _ => ?_⟩,
        Nat.le_succ _⟩
      · rcases hj with hj | hj <;> cases hj
      · exact ⟨hleft, hstop⟩
    · cases hs
  | _ => cases hs

theorem Inv.step (h : Inv cfg s) (hs : step cfg s a = some s') :
    Inv cfg s' ∧ s.stops ≤ s'.stops := by
  unfold Restart.step at hs
  split_ifs at hs
  rcases Option.or_eq_some_iff.mp hs with hserve | ⟨-, hcontrol⟩
  · exact h.serve hserve
  · exact h.control hcontrol

/-- **No second life.**  Once a call of `stop` has come back, nothing that follows, a call
of `start` included, leads to a server that operates: `listen_sock` is closed, so
`listen` would throw, and `stopServer` is up, so a write worker ends at once. -/
theorem never_operating_after_stop (cfg : Setup) (acts later : List Act) (s s' : Sys)
    (hrun : run (step cfg) (init cfg) acts = some s) (hstopped : 0 < s.stops)
    (hlater : run (step cfg) s later = some s') :
    s'.server.listenSock = none ∧ s'.stopServer = true ∧ ¬ Operating s' := by
  have hinv : Inv cfg s := invariant_of_run (fun _ _ _ h hs => (h.step hs).1) (inv_init cfg) hrun
  obtain ⟨hinv', hstops⟩ : Inv cfg s' ∧ s.stops ≤ s'.stops := by
    refine invariant_of_run (I := fun u => Inv cfg u ∧ s.stops ≤ u.stops) ?_ ⟨hinv, le_rfl⟩ hlater
    rintro u a u' ⟨hu, hle⟩ hs
    exact ⟨(hu.step hs).1, hle.trans (hu.step hs).2⟩
  have hpos : 0 < s'.stops := Nat.lt_of_lt_of_le hstopped hstops
  obtain ⟨hleft, hstop⟩ := hinv'.stopped hpos
  exact ⟨hinv'.stages.listenClosed (by rw [hleft]; rfl), hstop, hinv'.not_operating hpos⟩

/-- A server without smart close. -/
def plain : Setup := ⟨3, 5, 4, false, by decide, by decide, by decide⟩

/-- `start`, up to the return. -/
def firstLife : List Act :=
  [.start, .spawnListener, .enter, .server (.prepare true), .server .announce, .ready, .setRunning, .worker]

/-- `stop`, up to the return. -/
def toStop : List Act :=
  [.stop, .terminate, .terminate, .terminate, .server .test, .server .closeConns,
    .server .closeEpoll, .server .closeListen, .server .quit, .listenerEnds, .worker, .terminate,
    .terminate, .terminate, .joinListener, .joinWriter, .finish]

theorem never_operating_without_connections :
    ∃ s s', run (step plain) (init plain) (firstLife ++ toStop) = some s ∧ 0 < s.stops ∧
      run (step plain) s [.start, .spawnListener] = some s' ∧ s'.server.listenSock = none ∧
      s'.stopServer = true ∧ ¬ Operating s' := by
  obtain ⟨s, s', hrun, hstopped, hlater⟩ : ∃ s s', run (step plain) (init plain)
      (firstLife ++ toStop) = some s ∧ 0 < s.stops ∧
      run (step plain) s [.start, .spawnListener] = some s' := by
    refine ⟨_, _, rfl, ?_, rfl⟩
    exact Nat.one_pos
  exact ⟨s, s', hrun, hstopped, hlater,
    never_operating_after_stop plain _ _ s s' hrun hstopped hlater⟩

/-- The first `start` leads to a server that operates; after `stop` the second one ends
the process, and its write worker has ended. -/
theorem second_start_aborts :
    ∃ s s' s'', run (step plain) (init plain) firstLife = some s ∧ Operating s ∧
      run (step plain) s toStop = some s' ∧ s'.stops = 1 ∧
      run (step plain) s' [.start, .spawnListener, .worker, .enter] = some s'' ∧
      s''.worker = .ended ∧ s''.aborted = true ∧ ¬ Operating s'' := by
  refine ⟨_, _, _, rfl, ⟨rfl, rfl, rfl, rfl, rfl, rfl, rfl, rfl, fun _ => rfl, fun _ => rfl⟩, rfl,
    rfl, rfl, rfl, rfl, fun h => ?_⟩
  cases h.alive

end Restart

end Nbuss
