import Nbuss.Barrier

/-!
# `ThreadedServer` and the server it decorates

A `ThreadedServer` refers to an `IGenericServer`, and it is one: it inherits a second copy
of every field.  `start` and `stop` work on the server it refers to, except for one line.
The test "server is already listening" looks at the inherited `is_listening`, which
nothing ever sets; and `get_active_connections` answers from the inherited counter,
which nothing ever changes.

So the two agree just as long as the server has done nothing that shows: until it
announces that it listens, or a `close` is counted (`faithful_iff`).  After that `start`
does not refuse.  It creates a second thread that calls `listen` on the same server, and
the assignment to `workerThread`, which is still joinable, ends the process.

What the second thread does to the server before the process ends is not followed, for
the property is lost when the thread exists.  `listen` can also be left by an exception,
which nobody catches; the model lets the thread end as if it had returned, and so has
more runs.
-/

namespace Nbuss

namespace Decorator

open Transition Listen

/-- The inherited fields that the public functions of a `ThreadedServer` look at. -/
structure Inherited where
  isListening : Bool := false
  activeConnections : ℤ := 0
  deriving DecidableEq, Repr

/-- Where the thread that calls `start` and `stop` stands. -/
inductive Caller where
  | idle
  /-- In `start`, past the test. -/
  | spawning
  /-- In `start`; the new thread runs and is to be assigned to `workerThread`. -/
  | assigning
  /-- In `start`, in `wait_for_server_ready`. -/
  | waiting
  /-- In `stop`. -/
  | stopping
  deriving DecidableEq, Repr

structure Sys where
  server : State
  own : Inherited := {}
  caller : Caller := .idle
  /-- `workerThread.joinable()`. -/
  joinable : Bool := false
  /-- The threads that run `listen_worker`. -/
  threads : ℕ := 0
  /-- A thread has come back from `listen`. -/
  served : Bool := false
  /-- The calls of `stop` that have come back. -/
  stops : ℕ := 0
  /-- The exceptions "server is already listening". -/
  refused : ℕ := 0
  /-- `std::terminate` has been called. -/
  aborted : Bool := false

inductive Act where
  /-- The listening thread, the peers, and the threads that call `close` and the like. -/
  | server (a : Listen.Act)
  /-- A thread that runs `listen_worker` is through with `listen`. -/
  | ended
  | start
  | spawn
  | assign
  | ready
  | stop
  | terminate
  | join
  deriving DecidableEq, Repr

/-- What a `ThreadedServer` and its server do while the process lives. -/
def Sys.move (cfg : Setup) (s : Sys) : Act → Option Sys
  | .server a =>
    if isTerminate a ∨ ofListener a ∧ s.threads = 0 then none
    else (Listen.step cfg s.server a).map fun v => { s with server := v }
  | .ended =>
    if s.server.pc = .left ∧ 0 < s.threads then
      -- a later thread finds `listen_sock` closed, and `listen` throws
      if s.served then some { s with aborted := true }
      else some { s with threads := s.threads - 1, served := true }
    else none
  | .start =>
    match s.caller with
    | .idle =>
      if s.own.isListening then some { s with refused := s.refused + 1 }
      else some { s with caller := .spawning }
    | _ => none
  | .spawn =>
    match s.caller with
    | .spawning => some { s with caller := .assigning, threads := s.threads + 1 }
    | _ => none
  | .assign =>
    match s.caller with
    | .assigning =>
      if s.joinable then some { s with aborted := true }
      else some { s with caller := .waiting, joinable := true }
    | _ => none
  | .ready =>
    match s.caller with
    | .waiting => if s.server.signals.isListening then some { s with caller := .idle } else none
    | _ => none
  | .stop =>
    match s.caller with
    | .idle => some { s with caller := .stopping }
    | _ => none
  | .terminate =>
    match s.caller with
    | .stopping => (Listen.step cfg s.server (.terminate s.stops)).map fun v => { s with server := v }
    | _ => none
  | .join =>
    -- `join` throws when there is nothing to join
    match s.caller, s.server.signals.calls s.stops with
    | .stopping, .done =>
      if s.joinable ∧ s.threads ≠ 0 then none
      else some { s with caller := .idle, joinable := false, stops := s.stops + 1 }
    | _, _ => none

def step (cfg : Setup) (s : Sys) (a : Act) : Option Sys :=
  if s.aborted then none else s.move cfg a

def init (cfg : Setup) : Sys where
  server := Listen.init cfg

/-- `ThreadedServer` is a faithful decorator of the server. -/
structure Faithful (cfg : Setup) (s : Sys) : Prop where
  isListening : s.own.isListening = s.server.signals.isListening
  activeConnections : s.own.activeConnections = s.server.activeConnections
  /-- `start` on a server that is listening throws and changes nothing. -/
  refuses : s.aborted = false → s.caller = .idle → s.server.signals.isListening = true →
    step cfg s .start = some { s with refused := s.refused + 1 }
  single : s.threads ≤ 1

/-- The step is neither the announcement of the server nor a `close`. -/
def Unnoticed (_ : Sys) : Act → Prop
  | .server .announce | .server (.close _) => False
  | _ => True

/-! ## A server that has not announced itself -/

/-- The thread is not between the announcement and the end of the loop. -/
def unannounced : Pc → Bool
  | .starting | .announcing | .leaving | .closedConns | .closedEpoll | .closedListen | .left => true
  | _ => false

theorem not_moves {cfg : Setup} {s : State} {a : Listen.Act} {pc : Pc}
    (h : unannounced s.pc = true) : ¬ Moves cfg s a pc := by
  intro hm
  cases hm <;> simp_all [unannounced]

/-- Nothing that shows happens before the announcement, but for a `close`. -/
theorem unannounced_step {cfg : Setup} {s s' : State} {a : Listen.Act}
    (hs : Listen.step cfg s a = some s') (hpc : unannounced s.pc = true)
    (hdown : s.signals.isListening = false) (hannounce : a ≠ .announce)
    (hclose : ∀ fd, a ≠ .close fd) :
    unannounced s'.pc = true ∧ s'.signals.isListening = false ∧
      s'.activeConnections = s.activeConnections := by
  cases Step.of_step hs with
  | moves hm => exact absurd hm (not_moves hpc)
  | announce => exact absurd rfl hannounce
  | close fd => exact absurd rfl (hclose fd)
  | wait h | callback h | accept h | insert h | registered h | smartClose h | answer h =>
    rw [h] at hpc
    cases hpc
  | prepared | notPrepared | closeConns | closeEpoll | closeListen => exact ⟨rfl, hdown, rfl⟩
  | quit => exact ⟨rfl, rfl, rfl⟩
  | terminate hg =>
    refine ⟨hpc, ?_, rfl⟩
    by_contra hup
    rw [Signals.terminate_isListening hg (by simpa using hup)] at hdown
    cases hdown
  | removeFromEpoll | io | peerSend | peerShutdown => exact ⟨hpc, hdown, rfl⟩

/-! ## Runs -/

/-- The threads that the caller of `start` may have created. -/
def Caller.created : Caller → ℕ
  | .assigning | .waiting => 1
  | _ => 0

structure Inv (s : Sys) : Prop where
  own : s.own = {}
  pc : unannounced s.server.pc = true
  isListening : s.server.signals.isListening = false
  activeConnections : s.server.activeConnections = 0
  threads : s.threads ≤ s.caller.created

theorem inv_init (cfg : Setup) : Inv (init cfg) := ⟨rfl, rfl, rfl, rfl, le_rfl⟩

variable {cfg : Setup} {s s' : Sys} {a : Act}

theorem Inv.faithful (h : Inv s) : Faithful cfg s where
  isListening := by rw [h.own, h.isListening]
  activeConnections := by rw [h.own, h.activeConnections]
  refuses _ _ hup := by
    rw [h.isListening] at hup
    cases hup
  single := by
    have hthreads := h.threads
    cases hcaller : s.caller <;> rw [hcaller] at hthreads <;> simp only [Caller.created] at hthreads <;>
      omega

/-- The server moves, and the caller with it. -/
theorem Inv.server {v : State} {b : Listen.Act} (h : Inv s)
    (hs : Listen.step cfg s.server b = some v) (hannounce : b ≠ .announce)
    (hclose : ∀ fd, b ≠ .close fd) : Inv { s with server := v } := by
  obtain ⟨hpc, hdown, hactive⟩ := unannounced_step hs h.pc h.isListening hannounce hclose
  exact ⟨h.own, hpc, hdown, hactive.trans h.activeConnections, h.threads⟩

/-- The caller moves, and the threads are accounted for. -/
theorem Inv.frame (h : Inv s) (hown : s'.own = s.own) (hserver : s'.server = s.server)
    (hthreads : s'.threads ≤ s'.caller.created) : Inv s' where
  own := hown.trans h.own
  pc := hserver ▸ h.pc
  isListening := hserver ▸ h.isListening
  activeConnections := hserver ▸ h.activeConnections
  threads := hthreads

theorem Inv.move (h : Inv s) (hg : Unnoticed s a) (hs : s.move cfg a = some s') : Inv s' := by
  have hthreads := h.threads
  cases a with
  | server b =>
    simp only [Sys.move] at hs
    split_ifs at hs
    obtain ⟨v, hv, rfl⟩ := Option.map_eq_some_iff.mp hs
    refine h.server hv ?_ ?_
    · rintro rfl
      exact hg
    · rintro fd rfl
      exact hg
  | ended =>
    simp only [Sys.move] at hs
    split_ifs at hs <;> cases hs
    · exact h.frame rfl rfl hthreads
    · exact h.frame rfl rfl ((Nat.sub_le ..).trans hthreads)
  | start =>
    simp only [Sys.move] at hs
    split at hs
    · next hcaller =>
      rw [hcaller] at hthreads
      split_ifs at hs <;> cases hs
      · exact h.frame rfl rfl h.threads
      · exact h.frame rfl rfl hthreads
    · cases hs
  | spawn =>
    simp only [Sys.move] at hs
    split at hs
    · next hcaller =>
      cases hs
      rw [hcaller] at hthreads
      exact h.frame rfl rfl (Nat.succ_le_succ hthreads)
    · cases hs
  | assign =>
    simp only [Sys.move] at hs
    split at hs
    · next hcaller =>
      rw [hcaller] at hthreads
      split_ifs at hs <;> cases hs
      · exact h.frame rfl rfl h.threads
      · exact h.frame rfl rfl hthreads
    · cases hs
  | ready =>
    simp only [Sys.move] at hs
    split at hs
    · rw [h.isListening] at hs
      cases hs
    · cases hs
  | stop =>
    simp only [Sys.move] at hs
    split at hs
    · next hcaller =>
      cases hs
      rw [hcaller] at hthreads
      exact h.frame rfl rfl hthreads
    · cases hs
  | terminate =>
    simp only [Sys.move] at hs
    split at hs
    · obtain ⟨v, hv, rfl⟩ := Option.map_eq_some_iff.mp hs
      exact h.server hv (fun hb => by cases hb) (fun _ hb => by cases hb)
    · cases hs
  | join =>
    simp only [Sys.move] at hs
    split at hs
    · next hcaller _ =>
      rw [hcaller] at hthreads
      split_ifs at hs
      cases hs
      exact h.frame rfl rfl hthreads
    · cases hs

theorem Inv.step (h : Inv s) (hg : Unnoticed s a) (hs : step cfg s a = some s') : Inv s' := by
  unfold Decorator.step at hs
  split_ifs at hs
  exact h.move hg hs

/-- The announcement and a `close` are seen in the server only. -/
theorem Inv.not_faithful (h : Inv s) (hg : ¬ Unnoticed s a)
    (hs : Decorator.step cfg s a = some s') : ¬ Faithful cfg s' := by
  unfold Decorator.step at hs
  split_ifs at hs
  cases a with
  | server b =>
    simp only [Sys.move] at hs
    split_ifs at hs
    obtain ⟨v, hv, rfl⟩ := Option.map_eq_some_iff.mp hs
    intro hfaithful
    cases Step.of_step hv with
    | announce =>
      have heq : s.own.isListening = true := hfaithful.isListening
      rw [h.own] at heq
      cases heq
    | close fd =>
      have heq : s.own.activeConnections = s.server.activeConnections - 1 :=
        hfaithful.activeConnections
      rw [h.own, h.activeConnections] at heq
      cases heq
    | moves hm => exact not_moves h.pc hm
    | _ => exact hg trivial
  | _ => exact absurd trivial hg

/-- **When `ThreadedServer` is a faithful decorator**: exactly as long as the server has
not announced itself and no `close` has been called on it. -/
theorem faithful_iff (cfg : Setup) (acts : List Act) :
    Always (step cfg) (Faithful cfg) (init cfg) acts ↔
      Guarded (step cfg) Unnoticed (init cfg) acts :=
  always_iff_guarded (fun _ h => h.faithful) (fun _ _ _ h hg hs => h.step hg hs)
    (fun _ _ _ h hg hs => h.not_faithful hg hs) (inv_init cfg)

/-- `start` is called on a server that is listening: it does not throw, and two threads
run `listen` on the server. -/
theorem second_start_not_refused :
    let cfg : Setup := ⟨3, 5, 4, false, by decide, by decide, by decide⟩
    let acts : List Act :=
      [.start, .spawn, .assign, .server (.prepare true), .server .announce, .ready, .start, .spawn]
    ∃ s, run (step cfg) (init cfg) acts = some s ∧ s.own.isListening = false ∧
      s.server.signals.isListening = true ∧ s.refused = 0 ∧ s.threads = 2 ∧
      ¬ Faithful cfg s := by
  refine ⟨_, rfl, rfl, rfl, rfl, rfl, fun h => ?_⟩
  cases h.isListening

end Decorator

end Nbuss
