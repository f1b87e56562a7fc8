import Mathlib.Data.Fintype.Option
import Nbuss.Barrier
import Nbuss.Transition.Threads

/-!
# `terminate` comes back

`terminate` waits for the listening thread to lower `is_listening`.  That thread may be anywhere
in its loop, while peers, callbacks and other threads go on.  Three things decide whether the call
comes back.

* Once the order to stop has been given, every step of the listening thread takes it nearer to its
  end, whatever the others do in between.  The distance is the rest of the batch it is working on,
  at most `MAX_EVENTS` entries, and the way through `closeSockets`.
* It is never stuck on the way.  In `epoll_wait` the byte that `terminate` has left in the pipe
  wakes it, and nobody reads that byte.
* The last thing it does is `notify_one`.  The caller may be asleep on `cv` by then, and so may
  threads in `wait_for_server_ready`, which wait on the same condition variable.  If one of these
  is picked, nobody wakes the caller any more.

The first two are about `Barrier`, where the wait of the call is one step that is possible once
the flag is down.  The last part puts the condition variable in its place.  There a critical
section of `mtx` is still one step: whoever has the mutex looks at the flag or stores it, and is
in nobody's way for long.
-/

namespace Nbuss

open Transition

/-! ## The listening thread -/

namespace Listen

variable {cfg : Setup} {s s' : State} {a : Act}

/-- The entries of the batch that are not done with, the one in hand included. -/
def Pc.load : Pc → ℕ
  | .woken (.batch l) | .batch l => l.length
  | .accepting rest | .inserting _ _ rest | .adding _ _ rest | .smartClosing _ rest
  | .calling _ _ rest => rest.length + 1
  | _ => 0

/-- The steps `listen` can still make once it is to stop: a new connection is the entry that
takes most, six steps with those of a callback that closes it again. -/
def Pc.stepsLeft : Pc → ℕ
  | .left => 0
  | .closedListen => 1
  | .closedEpoll => 2
  | .closedConns => 3
  | .leaving => 4
  | .loopHead | .woken _ => 5
  | .waiting | .announcing => 6
  | .starting => 7
  | .batch rest => 6 * rest.length + 6
  | .calling _ true rest => 6 * rest.length + 7
  | .calling _ false rest => 6 * rest.length + 8
  | .adding _ _ rest | .smartClosing _ rest => 6 * rest.length + 9
  | .inserting _ _ rest => 6 * rest.length + 10
  | .accepting rest => 6 * rest.length + 11

theorem Pc.stepsLeft_le {pc : Pc} (h : pc.load ≤ maxEvents) : pc.stepsLeft ≤ 198 := by
  unfold maxEvents at h
  cases pc with
  | calling cb answered rest => cases answered <;> (simp only [stepsLeft, load] at h ⊢; omega)
  | woken => simp [stepsLeft]
  | _ => (simp only [stepsLeft, load] at h ⊢; omega)

theorem Moves.stepsLeft {pc : Pc} (h : Moves cfg s a pc) (hstop : s.signals.stopServer = true) :
    pc.stepsLeft < s.pc.stepsLeft := by
  cases h with
  | testGo _ hgo | checkInterrupted _ hgo | checkFailed _ hgo | checkBatch _ hgo =>
    rw [hstop] at hgo
    cases hgo
  | @ret cb b rest hpc => cases b <;> simp only [hpc, Pc.stepsLeft] <;> omega
  | testStop hpc | interrupted hpc | failed hpc | checkStop hpc | batchDone hpc | incoming hpc
  | noIncoming hpc | smart hpc | skip hpc | wouldBlock hpc | acceptFailed hpc | addFailed hpc =>
    simp only [hpc, Pc.stepsLeft, List.length_cons, List.length_nil]
    omega

/-- Each step of a listening thread that is to stop brings it nearer to its end. -/
theorem stepsLeft_step (hs : step cfg s a = some s') (ha : ofListener a = true)
    (hstop : s.signals.stopServer = true) : s'.pc.stepsLeft < s.pc.stepsLeft := by
  cases Step.of_step hs with
  | moves hm => exact hm.stepsLeft hstop
  | close | removeFromEpoll | io | terminate | peerSend | peerShutdown => cases ha
  | prepared hpc | notPrepared hpc | announce hpc | wait hpc _ | callback hpc _ _ | accept hpc _
  | insert hpc | registered hpc _ | smartClose hpc | answer hpc | closeConns hpc | closeEpoll hpc
  | closeListen hpc | quit hpc =>
    simp only [hpc, Pc.stepsLeft, State.registered, State.call, State.unsetIo, List.length_cons]
    omega

/-- A thread that has left makes no step. -/
theorem ne_left_of_step (hs : step cfg s a = some s') (ha : ofListener a = true) :
    s.pc ≠ .left := by
  intro hleft
  cases a with
  | close | removeFromEpoll | io | terminate | peerSend | peerShutdown => cases ha
  | _ =>
    simp only [step, hleft] at hs
    cases hs

theorem Moves.load {pc : Pc} (h : Moves cfg s a pc) : pc.load ≤ s.pc.load := by
  cases h <;> simp only [*, Pc.load, List.length_cons] <;> omega

/-- A batch has at most `MAX_EVENTS` entries. -/
theorem load_step (hs : step cfg s a = some s') (h : s.pc.load ≤ maxEvents) :
    s'.pc.load ≤ maxEvents := by
  cases Step.of_step hs with
  | moves hm => exact hm.load.trans h
  | wait hpc hl => exact hl.1
  | close | removeFromEpoll | io | terminate | peerSend | peerShutdown => exact h
  | prepared hpc | notPrepared hpc | announce hpc | closeConns hpc | closeEpoll hpc
  | closeListen hpc | quit hpc => exact Nat.zero_le _
  | callback hpc _ _ | accept hpc _ | insert hpc | registered hpc _ | smartClose hpc
  | answer hpc =>
    rw [hpc] at h
    exact h

/-- `listen` has prepared its epoll instance and is not on its way out. -/
def Pc.looping : Pc → Bool
  | .starting | .leaving | .closedConns | .closedEpoll | .closedListen | .left => false
  | _ => true

/-- The number of the command pipe still stands for it. -/
def State.PipeOpen (cfg : Setup) (s : State) : Prop :=
  s.kernel.file cfg.pipeFd = some .pipe ∧ cfg.pipeFd ∈ s.kernel.openFds

/-- As long as the pipe is open, the loop watches it. -/
def State.Watched (cfg : Setup) (s : State) : Prop :=
  s.pc.looping = true → s.PipeOpen cfg → cfg.pipeFd ∈ s.kernel.registered

theorem State.Watched.of_kernel (h : s.Watched cfg)
    (hloop : s'.pc.looping = true → s.pc.looping = true)
    (hpipe : s'.PipeOpen cfg → s.PipeOpen cfg)
    (hreg : s'.PipeOpen cfg → cfg.pipeFd ∈ s.kernel.registered →
      cfg.pipeFd ∈ s'.kernel.registered) : s'.Watched cfg :=
  fun hin hopen => hreg hopen (h (hloop hin) (hpipe hopen))

theorem State.Watched.close (h : s.Watched cfg)
    (hloop : s'.pc.looping = true → s.pc.looping = true) {fds : Finset ℕ}
    (hkernel : s'.kernel = s.kernel.close fds) : s'.Watched cfg := by
  refine h.of_kernel hloop (fun hopen => ?_) fun hopen hreg => ?_
  · rw [State.PipeOpen, hkernel] at hopen
    exact ⟨hopen.1, (Finset.mem_sdiff.mp hopen.2).1⟩
  · rw [State.PipeOpen, hkernel] at hopen
    rw [hkernel]
    exact Finset.mem_sdiff.mpr ⟨hreg, (Finset.mem_sdiff.mp hopen.2).2⟩

theorem Moves.looping {pc : Pc} (h : Moves cfg s a pc) : s.pc.looping = true := by
  cases h <;> simp only [*] <;> rfl

theorem State.Watched.step (h : s.Watched cfg) (hs : Listen.step cfg s a = some s') :
    s'.Watched cfg := by
  cases Step.of_step hs with
  | moves hm => exact h.of_kernel (fun _ => hm.looping) id fun _ hreg => hreg
  | prepared => exact fun _ _ => Finset.mem_insert_self ..
  | notPrepared | closeConns | closeEpoll | closeListen | quit => exact fun hin => by cases hin
  | announce hpc | wait hpc _ | callback hpc _ _ | insert hpc =>
    exact h.of_kernel (fun _ => by rw [hpc]; rfl) id fun _ hreg => hreg
  | smartClose hpc | answer hpc => exact h.close (fun _ => by rw [hpc]; rfl) rfl
  | close => exact h.close id rfl
  | @accept fd _ _ _ hpc =>
    refine h.of_kernel (fun _ => by rw [hpc]; rfl) (fun hopen => ?_) fun _ hreg => hreg
    obtain ⟨hfile, hmem⟩ := hopen
    have hne : cfg.pipeFd ≠ fd := by
      intro heq
      rw [heq] at hfile
      simp at hfile
    exact ⟨(s.kernel.accept_file_of_ne hne).symm.trans hfile,
      Finset.mem_of_mem_insert_of_ne hmem hne⟩
  | registered hpc =>
    exact h.of_kernel (fun _ => by rw [hpc]; rfl) id fun _ hreg => Finset.mem_insert_of_mem hreg
  | removeFromEpoll fd =>
    have hne : cfg.pipeFd ≠ fd := by
      rintro rfl
      simp [Listen.step] at hs
    exact h.of_kernel id id fun _ hreg => Finset.mem_erase.mpr ⟨hne, hreg⟩
  | io | terminate | peerSend | peerShutdown => exact h

/-- What the listening thread does next: in `epoll_wait` it is told of the pipe; elsewhere it goes
on, with some answer of the kernel and with a callback that returns. -/
def Pc.nextMove (cfg : Setup) : Pc → Act
  | .starting => .prepare false
  | .announcing => .announce
  | .loopHead => .test
  | .waiting => .wait (.batch [⟨cfg.pipeFd, EPOLLIN, .pipe⟩])
  | .woken _ => .check
  | .batch _ => .next
  | .accepting _ => .accept4 .wouldBlock
  | .inserting _ _ _ => .insert
  | .adding _ _ _ => .epollAdd false
  | .smartClosing _ _ => .smartClose
  | .calling _ _ _ => .ret
  | .leaving => .closeConns
  | .closedConns => .closeEpoll
  | .closedEpoll => .closeListen
  | .closedListen | .left => .quit

/-- The pipe can be reported when it holds a byte. -/
theorem State.Watched.reports (h : s.Watched cfg) (hpc : s.pc = .waiting) (hopen : s.PipeOpen cfg)
    (hbyte : 0 < s.signals.pipeBytes) : s.Reports [⟨cfg.pipeFd, EPOLLIN, .pipe⟩] := by
  refine ⟨by simp [maxEvents], List.nodup_singleton _, fun e he => ?_⟩
  rw [List.mem_singleton.mp he]
  exact ⟨h (by rw [hpc]; rfl) hopen, hopen.2, hopen.1, fun _ => hbyte⟩

/-- The listening thread can always move on, until it has left. -/
theorem listener_canMove (hpc : s.pc ≠ .left) (h : s.Watched cfg)
    (hbyte : 0 < s.signals.pipeBytes) (hopen : s.PipeOpen cfg) :
    (step cfg s (s.pc.nextMove cfg)).isSome = true := by
  cases hp : s.pc with
  | left => exact absurd hp hpc
  | waiting =>
    simp only [Pc.nextMove, step, hp, if_pos (h.reports hp hopen hbyte)]
    rfl
  | woken w =>
    simp only [Pc.nextMove, step, hp]
    split_ifs
    · rfl
    · cases w <;> rfl
  | batch l => cases l <;> (simp only [Pc.nextMove, step, hp]; rfl)
  | _ => simp only [Pc.nextMove, step, hp]; rfl

end Listen

/-! ## The call of `terminate` -/

namespace Barrier

open Listen

variable {cfg : Setup}

/-- The steps left to the call once it waits. -/
def callStepsLeft : TermPc → ℕ
  | .waiting => 3
  | .atEnd => 2
  | .cleared => 1
  | _ => 0

/-- The call has given the order to stop. -/
def ordered : TermPc → Bool
  | .stopStored | .waiting => true
  | _ => false

/-- The call has written to the pipe, having found the server listening. -/
def waited : TermPc → Bool
  | .waiting | .atEnd | .cleared | .done => true
  | _ => false

/-- The steps of the listening thread and of the call. -/
def ofTheTwo : Act → Bool
  | .server a => ofListener a
  | .ready => false
  | .terminate => true

/-- What has to come together for the call to return. -/
structure Order (cfg : Setup) (s : Sys) : Prop where
  inv : Inv cfg s
  called : s.server.signals.calls 0 ≠ .idle → s.ready = true
  load : s.server.pc.load ≤ maxEvents
  watched : s.server.Watched cfg
  stop : ordered (s.server.signals.calls 0) = true → s.server.signals.stopServer = true
  byte : s.server.signals.calls 0 = .waiting → 0 < s.server.signals.pipeBytes

theorem order_init : Order cfg (init cfg) where
  inv := inv_init cfg
  called h := absurd rfl h
  load := Nat.zero_le _
  watched h := by cases h
  stop h := by cases h
  byte h := by cases h

/-- Nobody reads the byte. -/
theorem pipeBytes_step {s s' : State} {a : Listen.Act} (hs : Listen.step cfg s a = some s')
    (hcall : ∀ t, a ≠ .terminate t) : s'.signals.pipeBytes = s.signals.pipeBytes := by
  cases Step.of_step hs with
  | @terminate t => exact absurd rfl (hcall t)
  | _ => rfl

theorem Order.server {s : Sys} {v : State} {a : Listen.Act} (h : Order cfg s)
    (hs : Listen.step cfg s.server a = some v) (ha : isTerminate a = false) :
    Order cfg { s with server := v } := by
  have hcall : ∀ t, a ≠ .terminate t := by
    rintro t rfl
    cases ha
  obtain ⟨hcalls, hstop⟩ := signals_step hs hcall
  refine ⟨h.inv.server hs ha, fun hc => h.called (hcalls ▸ hc), load_step hs h.load,
    h.watched.step hs, fun ho => ?_, fun hw => ?_⟩
  · rw [hcalls] at ho
    exact hstop.trans (h.stop ho)
  · rw [hcalls] at hw
    exact (pipeBytes_step hs hcall).symm ▸ h.byte hw

/-- The order stands until the call has waited. -/
theorem Order.terminate {s : Sys} {g : Signals} (h : Order cfg s) (hready : s.ready = true)
    (hg : s.server.signals.terminate 0 = some g) :
    Order cfg { s with server := { s.server with signals := g } } := by
  have hpart : (ordered (g.calls 0) = true → g.stopServer = true) ∧
      (g.calls 0 = .waiting → 0 < g.pipeBytes) := by
    have hstop := h.stop
    unfold Signals.terminate at hg
    split at hg
    case h_3 hstored =>
      cases hg
      exact ⟨fun _ => hstop (by rw [hstored]; rfl), fun _ => Nat.succ_pos _⟩
    case h_4 =>
      split_ifs at hg
      cases hg
      simp [Signals.moveTo, ordered]
    case h_1 =>
      cases hg
      simp only [Signals.moveTo, Function.update_self]
      split_ifs <;> simp [ordered]
    case h_9 => cases hg
    all_goals
      cases hg
      simp [Signals.moveTo, ordered]
  exact ⟨h.inv.terminate hready hg, fun _ => hready, h.load, h.watched, hpart.1, hpart.2⟩

/-- A step of the listening thread, the peers or the other threads. -/
theorem server_step {s s' : Sys} {a : Listen.Act} (hs : step cfg s (.server a) = some s') :
    ∃ v, s' = { s with server := v } ∧ Listen.step cfg s.server a = some v ∧
      isTerminate a = false ∧ ∀ t, a ≠ .terminate t := by
  simp only [step] at hs
  split_ifs at hs with ha
  obtain ⟨v, hv, rfl⟩ := Option.map_eq_some_iff.mp hs
  refine ⟨v, rfl, hv, by simpa using ha, ?_⟩
  rintro t rfl
  exact ha rfl

/-- A step of the call. -/
theorem terminate_step {s s' : Sys} (hs : step cfg s .terminate = some s') :
    s.ready = true ∧ ∃ g, s.server.signals.terminate 0 = some g ∧
      s' = { s with server := { s.server with signals := g } } := by
  simp only [step] at hs
  split_ifs at hs with hready
  obtain ⟨v, hv, rfl⟩ := Option.map_eq_some_iff.mp hs
  obtain ⟨g, hg, rfl⟩ := Option.map_eq_some_iff.mp hv
  exact ⟨hready, g, hg, rfl⟩

theorem Order.step {s s' : Sys} {a : Act} (h : Order cfg s) (hs : step cfg s a = some s') :
    Order cfg s' := by
  cases a with
  | server a =>
    obtain ⟨v, rfl, hv, ha, -⟩ := server_step hs
    exact h.server hv ha
  | ready =>
    have hinv := h.inv.step hs
    simp only [Barrier.step] at hs
    split_ifs at hs
    cases hs
    exact ⟨hinv, fun _ => rfl, h.load, h.watched, h.stop, h.byte⟩
  | terminate =>
    obtain ⟨hready, g, hg, rfl⟩ := terminate_step hs
    exact h.terminate hready hg

/-- While the call waits or ends, its own steps are these three. -/
theorem call_step {g g' : Signals} (hg : g.terminate 0 = some g') (hw : waited (g.calls 0) = true) :
    waited (g'.calls 0) = true ∧ callStepsLeft (g'.calls 0) + 1 = callStepsLeft (g.calls 0) := by
  unfold Signals.terminate at hg
  split at hg
  case h_4 hpc =>
    split_ifs at hg
    cases hg
    rw [hpc]
    exact ⟨rfl, rfl⟩
  case h_5 hpc | h_6 hpc =>
    cases hg
    rw [hpc]
    exact ⟨rfl, rfl⟩
  case h_9 => cases hg
  all_goals
    next hpc =>
    rw [hpc] at hw
    cases hw

/-- The call waits for the listening thread, or has seen it leave. -/
structure Returning (cfg : Setup) (s : Sys) : Prop extends Order cfg s where
  waited : waited (s.server.signals.calls 0) = true

namespace Returning

variable {s s' : Sys}

theorem ready (h : Returning cfg s) : s.ready = true := by
  refine h.called fun hidle => ?_
  have hw := h.waited
  rw [hidle] at hw
  cases hw

/-- The listening thread has left, or it is to stop. -/
theorem stopping (h : Returning cfg s) :
    s.server.pc = .left ∨ s.server.signals.stopServer = true := by
  have hw := h.waited
  cases hcall : s.server.signals.calls 0 with
  | waiting => exact .inr (h.stop (by rw [hcall]; rfl))
  | atEnd | cleared | done => exact .inl (h.inv.past (by rw [hcall]; rfl))
  | _ =>
    rw [hcall] at hw
    cases hw

theorem step {a : Act} (h : Returning cfg s) (hs : step cfg s a = some s') :
    Returning cfg s' := by
  refine ⟨h.toOrder.step hs, ?_⟩
  cases a with
  | server a =>
    obtain ⟨v, rfl, hv, -, hcall⟩ := server_step hs
    show Barrier.waited (v.signals.calls 0) = true
    rw [(signals_step hv hcall).1]
    exact h.waited
  | ready =>
    simp only [Barrier.step] at hs
    split_ifs at hs
    cases hs
    exact h.waited
  | terminate =>
    obtain ⟨-, g, hg, rfl⟩ := terminate_step hs
    exact (call_step hg h.waited).1

/-- The steps left to the two threads. -/
def stepsLeft (s : Sys) : ℕ := s.server.pc.stepsLeft + callStepsLeft (s.server.signals.calls 0)

/-- The steps of the listening thread and of the call are paid for, the others are free. -/
theorem stepsLeft_step {a : Act} (h : Returning cfg s) (hs : Barrier.step cfg s a = some s') :
    (ofTheTwo a = true → stepsLeft s' < stepsLeft s) ∧
      (ofTheTwo a = false → stepsLeft s' ≤ stepsLeft s) := by
  cases a with
  | server a =>
    obtain ⟨v, rfl, hv, -, hcall⟩ := server_step hs
    have hcalls := congrFun (signals_step hv hcall).1 0
    simp only [stepsLeft, hcalls]
    constructor
    · intro hmine
      have hstop := h.stopping.resolve_left (ne_left_of_step hv hmine)
      have hlt := Listen.stepsLeft_step hv hmine hstop
      omega
    · intro hother
      rw [pc_step hv hother]
  | ready =>
    simp only [Barrier.step] at hs
    split_ifs at hs
    cases hs
    exact ⟨fun hmine => (by cases hmine), fun _ => le_rfl⟩
  | terminate =>
    obtain ⟨-, g, hg, rfl⟩ := terminate_step hs
    have hcall := (call_step hg h.waited).2
    refine ⟨fun _ => ?_, fun hother => (by cases hother)⟩
    simp only [stepsLeft]
    omega

end Returning

end Barrier

/-! ## The condition variable -/

namespace Termination

open Listen Threads

/-- The server and the call of `terminate`, as in `Barrier`, and who is asleep on `cv`: `none` is
the caller of `terminate`, and the others are in `wait_for_server_ready`. -/
structure Sys (κ : Type*) where
  base : Barrier.Sys
  asleep : Option κ → Bool := fun _ => false
  /-- The listening thread has stored a value in `is_listening` and not yet called
  `notify_one`. -/
  notifying : Bool := false

inductive Act (κ : Type*) where
  /-- The listening thread, the peers, and the other threads that call `close`,
  `remove_from_epoll`, `read` and `write`. -/
  | server (a : Listen.Act)
  /-- The `notify_one` of the listening thread, and who is woken. -/
  | notify (w : Option (Option κ))
  /-- A wake-up that nobody has given. -/
  | spurious (t : Option κ)
  /-- With `mtx`, a thread tests the flag in the head of its loop, and leaves the loop or goes to
  sleep. -/
  | wait (t : Option κ)
  /-- The next step of the call of `terminate`, outside of its loop. -/
  | terminate
  deriving DecidableEq, Repr

/-- The two stores to `is_listening` that a `notify_one` comes after. -/
def notifies : Listen.Act → Bool
  | .announce | .quit => true
  | _ => false

variable {κ : Type*}

def init (κ : Type*) (cfg : Setup) : Sys κ where
  base := Barrier.init cfg

section Step

variable [DecidableEq κ] (cfg : Setup)

/-- `is_listening`. -/
def Sys.isListening (s : Sys κ) : Bool := s.base.server.signals.isListening

/-- Where the call of `terminate` stands. -/
def Sys.call (s : Sys κ) : TermPc := s.base.server.signals.calls 0

def Sys.sleep (s : Sys κ) (t : Option κ) : Sys κ :=
  { s with asleep := Function.update s.asleep t true }

/-- The loop of `wait_for_server_ready` and, once that has returned, the loop of `terminate`. -/
def Sys.callerWait (s : Sys κ) : Option (Sys κ) :=
  if s.base.ready then
    if s.call = .waiting then
      if s.isListening then some (s.sleep none)
      else (Barrier.step cfg s.base .terminate).map fun b => { s with base := b }
    else none
  else
    if s.isListening then (Barrier.step cfg s.base .ready).map fun b => { s with base := b }
    else some (s.sleep none)

/-- One turn of the loop of a thread that is not asleep.  Another thread may call
`wait_for_server_ready` whenever it likes, and as often. -/
def Sys.wait (s : Sys κ) : Option κ → Option (Sys κ)
  | none => s.callerWait cfg
  | some k => some (if s.isListening then s else s.sleep (some k))

def step [Fintype κ] (s : Sys κ) : Act κ → Option (Sys κ)
  | .server a =>
    -- `notify_one` is the next thing the listening thread does
    if ofListener a && s.notifying then none
    else (Barrier.step cfg s.base (.server a)).map fun b =>
      { s with base := b, notifying := s.notifying || notifies a }
  | .notify w =>
    if s.notifying then
      (notifyOne id (fun _ => false) s.asleep w).map fun f =>
        { s with asleep := f, notifying := false }
    else none
  | .spurious t =>
    if s.asleep t then some { s with asleep := Function.update s.asleep t false } else none
  | .wait t => if s.asleep t then none else s.wait cfg t
  | .terminate =>
    if s.asleep none || s.call == .waiting then none
    else (Barrier.step cfg s.base .terminate).map fun b => { s with base := b }

end Step

/-- The caller sleeps in `terminate`, the listening thread has left and has notified. -/
def Stranded (s : Sys κ) : Prop :=
  s.asleep none = true ∧ s.call = .waiting ∧ s.base.server.pc = .left ∧ s.notifying = false

/-- If the caller sleeps in `terminate`, the last `notify_one` of the listening thread goes to
it. -/
def GoesToCaller (s : Sys κ) : Act κ → Prop
  | .notify w =>
    s.asleep none = true → s.call = .waiting → s.base.server.pc = .left → w = some none
  | _ => True

/-- The steps of the listening thread and of the caller of `terminate`. -/
def ofTheTwo : Act κ → Bool
  | .server a => ofListener a
  | .notify _ | .terminate => true
  | .spurious _ => false
  | .wait t => t.isNone

/-- A wake-up of the caller that nobody has given. -/
def delay : Act κ → ℕ
  | .spurious none => 1
  | _ => 0

/-- The caller of `terminate` can go on. -/
def CallerMoves [DecidableEq κ] [Fintype κ] (cfg : Setup) (s : Sys κ) : Prop :=
  (step cfg s .terminate).isSome = true ∨ (step cfg s (.wait none)).isSome = true

/-- The listening thread can go on: it notifies, or does what is next in `listen`. -/
def ListenerMoves [DecidableEq κ] [Fintype κ] (cfg : Setup) (s : Sys κ) : Prop :=
  (∃ w, (step cfg s (.notify w)).isSome = true) ∨
    (step cfg s (.server (s.base.server.pc.nextMove cfg))).isSome = true

/-! ### What a run keeps -/

/-- The caller sleeps only in one of its two loops. -/
structure Inv (cfg : Setup) (s : Sys κ) : Prop where
  order : Barrier.Order cfg s.base
  sleeper : s.asleep none = true → s.base.ready = false ∨ s.call = .waiting

theorem inv_init (cfg : Setup) : Inv cfg (init κ cfg) where
  order := Barrier.order_init
  sleeper h := by cases h

/-- A notification is on its way to a caller who sleeps in `terminate` for nothing. -/
def Told (s : Sys κ) : Prop :=
  s.asleep none = true → s.call = .waiting → s.base.server.pc = .left → s.notifying = true

section Waits

variable {cfg : Setup} {s : Sys κ}

/-- The call waits in its loop, or has left it. -/
structure Waits (cfg : Setup) (s : Sys κ) : Prop extends Inv cfg s where
  waited : Barrier.waited s.call = true

namespace Waits

theorem returning (h : Waits cfg s) : Barrier.Returning cfg s.base := ⟨h.order, h.waited⟩

/-- A caller that sleeps does so in `terminate`. -/
theorem sleeping (h : Waits cfg s) (hasleep : s.asleep none = true) : s.call = .waiting := by
  refine (h.sleeper hasleep).resolve_left fun hready => ?_
  exact absurd (hready.symm.trans h.returning.ready) nofun

/-- A step of the call ends its turn of the loop. -/
theorem call_moves (h : Waits cfg s) {b : Barrier.Sys}
    (hb : Barrier.step cfg s.base .terminate = some b) :
    b.server.signals.calls 0 ≠ .waiting ∧ b.server.pc = s.base.server.pc := by
  obtain ⟨-, g, hg, rfl⟩ := Barrier.terminate_step hb
  refine ⟨fun hwaiting => ?_, rfl⟩
  have hcall := (Barrier.call_step hg h.waited).2
  rw [show g.calls 0 = .waiting from hwaiting] at hcall
  cases hpc : s.base.server.signals.calls 0 <;> rw [hpc] at hcall <;> cases hcall

/-- The listening thread has announced itself, so its flag is up or it has left. -/
theorem inside (h : Waits cfg s) (hpc : s.base.server.pc ≠ .left) :
    s.base.server.pc.inside = true := by
  rcases h.order.inv.ready h.returning.ready with hup | hleft
  · exact h.order.inv.stages.listening hup
  · exact absurd hleft hpc

end Waits

end Waits

section Steps

variable [DecidableEq κ] {cfg : Setup} {s s' : Sys κ} {a : Act κ}

theorem sleep_other (s : Sys κ) (k : κ) : (s.sleep (some k)).asleep none = s.asleep none := by
  simp [Sys.sleep]

/-- A wake-up puts nobody to sleep. -/
theorem asleep_of_wake {f : Option κ → Bool} {t u : Option κ}
    (h : Function.update f t false u = true) : f u = true := by
  by_cases hu : u = t
  · rw [hu, Function.update_self] at h
    cases h
  · rwa [Function.update_of_ne hu] at h

/-- What a step does. -/
inductive Step (cfg : Setup) (s : Sys κ) : Act κ → Sys κ → Prop
  | server {a : Listen.Act} {b : Barrier.Sys} (hb : Barrier.step cfg s.base (.server a) = some b)
      (hfree : ofListener a = true → s.notifying = false) :
      Step cfg s (.server a) { s with base := b, notifying := s.notifying || notifies a }
  | notify {t : Option κ} (hnotifying : s.notifying = true) (hasleep : s.asleep t = true) :
      Step cfg s (.notify (some t))
        { s with asleep := Function.update s.asleep t false, notifying := false }
  | notifyNone (hnotifying : s.notifying = true) (hnone : ∀ t, s.asleep t = false) :
      Step cfg s (.notify none) { s with notifying := false }
  | spurious {t : Option κ} (hasleep : s.asleep t = true) :
      Step cfg s (.spurious t) { s with asleep := Function.update s.asleep t false }
  /-- The caller goes to sleep, in `terminate` only while the flag is up. -/
  | sleep (hawake : s.asleep none = false)
      (hwhy : s.base.ready = false ∨ s.call = .waiting ∧ s.isListening = true) :
      Step cfg s (.wait none) (s.sleep none)
  | sleepOther {k : κ} : Step cfg s (.wait (some k)) (s.sleep (some k))
  | passOther {k : κ} : Step cfg s (.wait (some k)) s
  | ready {b : Barrier.Sys} (hready : s.base.ready = false)
      (hb : Barrier.step cfg s.base .ready = some b) (hawake : s.asleep none = false) :
      Step cfg s (.wait none) { s with base := b }
  | call {a : Act κ} {b : Barrier.Sys} (ha : a = .wait none ∨ a = .terminate)
      (hb : Barrier.step cfg s.base .terminate = some b) (hawake : s.asleep none = false) :
      Step cfg s a { s with base := b }

theorem Step.of_wait {t : Option κ} (hs : s.wait cfg t = some s') (hawake : s.asleep t = false) :
    Step cfg s (.wait t) s' := by
  cases t with
  | some k =>
    simp only [Sys.wait] at hs
    split_ifs at hs <;> cases hs
    · exact .passOther
    · exact .sleepOther
  | none =>
    simp only [Sys.wait, Sys.callerWait] at hs
    split_ifs at hs with hready hcall hup hup
    · cases hs
      exact .sleep hawake (.inr ⟨hcall, hup⟩)
    · obtain ⟨b, hb, rfl⟩ := Option.map_eq_some_iff.mp hs
      exact .call (.inl rfl) hb hawake
    · obtain ⟨b, hb, rfl⟩ := Option.map_eq_some_iff.mp hs
      exact .ready (by simpa using hready) hb hawake
    · cases hs
      exact .sleep hawake (.inl (by simpa using hready))

variable [Fintype κ]

theorem Step.of_step (hs : step cfg s a = some s') : Step cfg s a s' := by
  cases a with
  | server a =>
    simp only [step] at hs
    split_ifs at hs with hbusy
    obtain ⟨b, hb, rfl⟩ := Option.map_eq_some_iff.mp hs
    exact .server hb fun hmine => by simpa [hmine] using hbusy
  | notify w =>
    simp only [step] at hs
    split_ifs at hs with hnotifying
    obtain ⟨f, hf, rfl⟩ := Option.map_eq_some_iff.mp hs
    rcases notifyOne_eq_some hf with ⟨t, rfl, ht, rfl⟩ | ⟨rfl, hnone, rfl⟩
    · exact .notify hnotifying ht
    · exact .notifyNone hnotifying hnone
  | spurious t =>
    simp only [step] at hs
    split_ifs at hs with hasleep
    cases hs
    exact .spurious hasleep
  | wait t =>
    simp only [step] at hs
    split_ifs at hs with hasleep
    exact .of_wait hs (by simpa using hasleep)
  | terminate =>
    simp only [step] at hs
    split_ifs at hs with hblocked
    obtain ⟨b, hb, rfl⟩ := Option.map_eq_some_iff.mp hs
    exact .call (.inr rfl) hb (by simp_all)

/-- What happens in `Barrier` is nothing or a step. -/
theorem base_step (hs : step cfg s a = some s') :
    s'.base = s.base ∨ ∃ b, Barrier.step cfg s.base b = some s'.base := by
  cases Step.of_step hs with
  | server hb _ | ready _ hb _ | call _ hb _ => exact .inr ⟨_, hb⟩
  | notify | notifyNone | spurious | sleep | sleepOther | passOther => exact .inl rfl

/-- A step of the others, or of the listening thread. -/
theorem base_server {b : Barrier.Sys} {a : Listen.Act} {c : Barrier.Sys}
    (hb : Barrier.step cfg b (.server a) = some c) :
    c.ready = b.ready ∧ c.server.signals.calls = b.server.signals.calls ∧
      Listen.step cfg b.server a = some c.server := by
  obtain ⟨v, rfl, hv, -, hcall⟩ := Barrier.server_step hb
  exact ⟨rfl, (signals_step hv hcall).1, hv⟩

theorem Inv.step (h : Inv cfg s) (hs : step cfg s a = some s') : Inv cfg s' := by
  have horder : Barrier.Order cfg s'.base := by
    rcases base_step hs with heq | ⟨b, hb⟩
    · exact heq ▸ h.order
    · exact h.order.step hb
  refine ⟨horder, fun hasleep => ?_⟩
  cases Step.of_step hs with
  | server hb _ =>
    obtain ⟨hready, hcalls, -⟩ := base_server hb
    rw [Sys.call, hready, hcalls]
    exact h.sleeper hasleep
  | notify | spurious => exact h.sleeper (asleep_of_wake hasleep)
  | notifyNone | passOther => exact h.sleeper hasleep
  | sleep _ hwhy => exact hwhy.imp_right And.left
  | sleepOther => exact h.sleeper ((sleep_other ..).symm.trans hasleep)
  | ready _ _ hawake | call _ _ hawake => exact absurd (hawake.symm.trans hasleep) nofun

/-- A listening thread that has lowered the flag has left, and has still to notify. -/
theorem notifies_of_left {u v : State} {b : Listen.Act} (hs : Listen.step cfg u b = some v)
    (hpc : u.pc ≠ .left) (hleft : v.pc = .left) : notifies b = true := by
  cases Listen.Step.of_step hs with
  | quit => rfl
  | @moves _ pc hm =>
    have hout := hm.between.2.inside
    rw [show pc = .left from hleft] at hout
    cases hout
  | close | removeFromEpoll | io | terminate | peerSend | peerShutdown => exact absurd hleft hpc
  | _ => cases hleft

/-- **The caller is told.**  It is forgotten only when the last `notify_one` goes to somebody
else. -/
theorem Told.step (h : Told s) (hinv : Inv cfg s) (ha : GoesToCaller s a)
    (hs : step cfg s a = some s') : Told s' := by
  intro hasleep hcall hleft
  cases Step.of_step hs with
  | @server b c hb hfree =>
    obtain ⟨-, hcalls, hv⟩ := base_server hb
    rw [Sys.call, hcalls] at hcall
    rw [Bool.or_eq_true]
    by_cases hpc : s.base.server.pc = .left
    · exact .inl (h hasleep hcall hpc)
    · exact .inr (notifies_of_left hv hpc hleft)
  | @notify t _ _ =>
    have ht : t = none := Option.some_inj.mp (ha (asleep_of_wake hasleep) hcall hleft)
    simp [ht] at hasleep
  | notifyNone _ hnone => exact absurd ((hnone none).symm.trans hasleep) nofun
  | spurious => exact h (asleep_of_wake hasleep) hcall hleft
  | sleep _ hwhy =>
    rcases hwhy with hready | ⟨-, hup⟩
    · have hidle : s.call ≠ .idle := by
        intro hidle
        exact absurd (hidle.symm.trans hcall) nofun
      exact absurd (hready.symm.trans (hinv.order.called hidle)) nofun
    · have hin := hinv.order.inv.stages.listening hup
      rw [show s.base.server.pc = .left from hleft] at hin
      cases hin
  | sleepOther => exact h ((sleep_other ..).symm.trans hasleep) hcall hleft
  | passOther => exact h hasleep hcall hleft
  | ready _ _ hawake | call _ _ hawake => exact absurd (hawake.symm.trans hasleep) nofun

/-- A `notify_one` that goes to somebody else leaves the caller asleep. -/
theorem stranded_of_not_goesToCaller (ha : ¬ GoesToCaller s a) (hs : step cfg s a = some s') :
    Stranded s' := by
  cases Step.of_step hs with
  | @notify t _ _ =>
    simp only [GoesToCaller, Classical.not_imp] at ha
    obtain ⟨hasleep, hcall, hleft, hne⟩ := ha
    refine ⟨?_, hcall, hleft, rfl⟩
    show Function.update s.asleep t false none = true
    rwa [Function.update_of_ne (fun heq => hne (congrArg some heq.symm))]
  | notifyNone _ hnone =>
    simp only [GoesToCaller, Classical.not_imp] at ha
    exact absurd ((hnone none).symm.trans ha.1) nofun
  | server | spurious | sleep | sleepOther | passOther | ready => exact absurd trivial ha
  | call hwhich => rcases hwhich with rfl | rfl <;> exact absurd trivial ha

/-- Nothing but a wake-up that nobody has given helps a stranded caller. -/
theorem Stranded.step (h : Stranded s) (ha : a ≠ .spurious none) (hs : step cfg s a = some s') :
    Stranded s' := by
  obtain ⟨hasleep, hcall, hleft, hsilent⟩ := h
  cases Step.of_step hs with
  | @server b c hb hfree =>
    obtain ⟨-, hcalls, hv⟩ := base_server hb
    refine ⟨hasleep, ?_, (left_step hv hleft).1, ?_⟩
    · rw [Sys.call, hcalls]
      exact hcall
    · have hother : ofListener b = false := by
        by_contra hmine
        exact ne_left_of_step hv (by simpa using hmine) hleft
      have hquiet : notifies b = false := by
        cases b <;> first | rfl | cases hother
      show (s.notifying || notifies b) = false
      rw [hsilent, hquiet]
      rfl
  | notify hnotifying | notifyNone hnotifying =>
    exact absurd (hsilent.symm.trans hnotifying) nofun
  | @spurious t _ =>
    refine ⟨?_, hcall, hleft, hsilent⟩
    show Function.update s.asleep t false none = true
    rwa [Function.update_of_ne (fun heq => ha (congrArg _ heq.symm))]
  | sleep hawake | ready _ _ hawake | call _ _ hawake =>
    exact absurd (hawake.symm.trans hasleep) nofun
  | sleepOther => exact ⟨(sleep_other ..).trans hasleep, hcall, hleft, hsilent⟩
  | passOther => exact ⟨hasleep, hcall, hleft, hsilent⟩

/-! ### The steps that are left -/

/-- The notifications that are still ahead of a listening thread that has announced itself. -/
def notifications : Pc → ℕ
  | .left => 0
  | _ => 1

theorem notifications_le (pc : Pc) : notifications pc ≤ 1 := by
  unfold notifications
  split <;> decide

/-- Each notification is one step, and may cost the caller one more turn of its loop. -/
def Sys.stepsLeft (s : Sys κ) : ℕ :=
  Barrier.Returning.stepsLeft s.base +
    2 * (notifications s.base.server.pc + s.notifying.toNat) +
    (s.call == .waiting && !s.asleep none).toNat

/-- From the announcement on, what is ahead of the listening thread is the notification of its
last step. -/
theorem notifications_step {u v : State} {b : Listen.Act} (hs : Listen.step cfg u b = some v)
    (hmine : ofListener b = true) (hin : u.pc.inside = true) :
    notifications v.pc + (notifies b).toNat ≤ notifications u.pc := by
  have hone : notifications u.pc = 1 := by
    cases hpc : u.pc <;> first | rfl | exact absurd hpc (ne_left_of_step hs hmine)
  rw [hone]
  cases hb : notifies b with
  | false => exact notifications_le _
  | true =>
    cases Listen.Step.of_step hs with
    | announce hpc =>
      rw [hpc] at hin
      cases hin
    | quit => exact le_rfl
    | moves hm => cases hm <;> cases hb
    | _ => cases hb

namespace Waits

theorem step (h : Waits cfg s) (hs : Termination.step cfg s a = some s') : Waits cfg s' := by
  refine ⟨h.toInv.step hs, ?_⟩
  rcases base_step hs with heq | ⟨b, hb⟩
  · rw [Sys.call, heq]
    exact h.waited
  · exact (h.returning.step hb).waited

omit [DecidableEq κ] [Fintype κ] in
/-- A step of the listening thread is paid for, one of the others is free. -/
theorem stepsLeft_server (h : Waits cfg s) {b : Listen.Act} {c : Barrier.Sys}
    (hb : Barrier.step cfg s.base (.server b) = some c)
    (hfree : ofListener b = true → s.notifying = false) :
    Barrier.Returning.stepsLeft c +
        2 * (notifications c.server.pc + (s.notifying || notifies b).toNat) +
        (ofListener b).toNat ≤
      Barrier.Returning.stepsLeft s.base +
        2 * (notifications s.base.server.pc + s.notifying.toNat) := by
  obtain ⟨-, -, hv⟩ := base_server hb
  obtain ⟨hpaid, hkept⟩ := h.returning.stepsLeft_step hb
  cases hmine : ofListener b with
  | true =>
    have hlt := hpaid hmine
    have hahead := notifications_step hv hmine (h.inside (ne_left_of_step hv hmine))
    rw [hfree hmine, Bool.false_or, Bool.toNat_false, Bool.toNat_true]
    omega
  | false =>
    have hle := hkept hmine
    have hpc : c.server.pc = s.base.server.pc := pc_step hv hmine
    have hquiet : notifies b = false := by
      cases b <;> first | rfl | cases hmine
    rw [hpc, hquiet, Bool.or_false, Bool.toNat_false]
    omega

/-- The steps of the two are paid for; a wake-up that nobody has given costs the caller a turn of
its loop. -/
theorem stepsLeft_step (h : Waits cfg s) (hs : Termination.step cfg s a = some s') :
    s'.stepsLeft + (ofTheTwo a).toNat ≤ s.stepsLeft + delay a := by
  unfold Sys.stepsLeft
  cases Step.of_step hs with
  | @server b c hb hfree =>
    have hpaid := h.stepsLeft_server hb hfree
    have hcall : c.server.signals.calls 0 = s.call := congrFun (base_server hb).2.1 0
    simp only [Sys.call] at hcall
    simp only [Sys.call, hcall, ofTheTwo, delay]
    omega
  | @notify t hnotifying _ =>
    have hone := (s.call == .waiting && !Function.update s.asleep t false none).toNat_le
    simp only [Sys.call] at hone
    simp only [Sys.call, hnotifying, ofTheTwo, delay, Bool.toNat_true, Bool.toNat_false]
    omega
  | notifyNone hnotifying _ =>
    simp only [Sys.call, hnotifying, ofTheTwo, delay, Bool.toNat_true, Bool.toNat_false]
    omega
  | @spurious t _ =>
    cases t with
    | none =>
      have hone := (s.call == .waiting && !Function.update s.asleep none false none).toNat_le
      simp only [Sys.call] at hone
      simp only [Sys.call, ofTheTwo, delay, Bool.toNat_false]
      omega
    | some k => simp [Sys.call, ofTheTwo, delay]
  | sleep hawake hwhy =>
    have hcall : s.call = .waiting := by
      refine hwhy.elim (fun hready => ?_) And.left
      exact absurd (hready.symm.trans h.returning.ready) nofun
    simp [hcall, hawake, Sys.sleep, ofTheTwo, delay]
  | sleepOther => simp [Sys.call, Sys.sleep, ofTheTwo, delay]
  | passOther => simp [ofTheTwo, delay]
  | ready hready => exact absurd (hready.symm.trans h.returning.ready) nofun
  | @call _ b ha hb hawake =>
    obtain ⟨hpast, hpc⟩ := h.call_moves hb
    have hlt := (h.returning.stepsLeft_step hb).1 rfl
    have hmine : ofTheTwo a = true := by rcases ha with rfl | rfl <;> rfl
    simp only [Sys.call, beq_eq_false_iff_ne.mpr hpast, hpc, hmine, Bool.false_and,
      Bool.toNat_false, Bool.toNat_true]
    omega

/-- Until the call has returned, one of the two can go on, unless the caller is stranded. -/
theorem canMove (h : Waits cfg s) (hopen : s.base.server.PipeOpen cfg) :
    s.base.terminated ∨ CallerMoves cfg s ∨ ListenerMoves cfg s ∨ Stranded s := by
  cases hnotifying : s.notifying with
  | true =>
    obtain ⟨w, hw⟩ := exists_notifyOne id (fun _ => false) s.asleep
    refine .inr (.inr (.inl (.inl ⟨w, ?_⟩)))
    simpa only [Termination.step, hnotifying, if_true, Option.isSome_map] using hw
  | false =>
    have hready := h.returning.ready
    have hw := h.waited
    cases hcall : s.call with
    | done => exact .inl hcall
    | atEnd | cleared =>
      have hawake : s.asleep none = false := by
        by_contra hasleep
        have hwaiting := h.sleeping (by simpa using hasleep)
        rw [hcall] at hwaiting
        cases hwaiting
      refine .inr (.inl (.inl ?_))
      simp only [Sys.call] at hcall
      simp only [Termination.step, Barrier.step, hready, hawake, Sys.call, hcall, Listen.step,
        Signals.terminate]
      rfl
    | waiting =>
      cases hasleep : s.asleep none with
      | false =>
        have hturn : (s.callerWait cfg).isSome = true := by
          simp only [Sys.callerWait, hready, hcall, if_true]
          split_ifs with hup
          · rfl
          · simp only [Sys.call, Sys.isListening] at hcall hup
            simp [Barrier.step, hready, Listen.step, Signals.terminate, hcall, hup]
        refine .inr (.inl (.inr ?_))
        simpa only [Termination.step, hasleep, Bool.false_eq_true, if_false, Sys.wait] using hturn
      | true =>
        by_cases hpc : s.base.server.pc = .left
        · exact .inr (.inr (.inr ⟨hasleep, hcall, hpc, hnotifying⟩))
        · have hmove := listener_canMove hpc h.order.watched (h.order.byte hcall) hopen
          have hnot : isTerminate (s.base.server.pc.nextMove cfg) = false := by
            cases s.base.server.pc <;> rfl
          refine .inr (.inr (.inl (.inr ?_)))
          simpa only [Termination.step, Barrier.step, hnotifying, hnot, Bool.and_false,
            Bool.false_eq_true, if_false, Option.isSome_map] using hmove
    | _ =>
      rw [hcall] at hw
      cases hw

end Waits

omit [DecidableEq κ] [Fintype κ] in
theorem stepsLeft_le (h : Inv cfg s) (hwait : s.call = .waiting) : s.stepsLeft ≤ 206 := by
  have hload := Pc.stepsLeft_le h.order.load
  have hahead := notifications_le s.base.server.pc
  have hnotifying := s.notifying.toNat_le
  have hawake := (s.call == .waiting && !s.asleep none).toNat_le
  have hcall : Barrier.callStepsLeft (s.base.server.signals.calls 0) = 3 := by
    rw [show s.base.server.signals.calls 0 = .waiting from hwait]
    rfl
  simp only [Sys.stepsLeft, Barrier.Returning.stepsLeft, hcall]
  omega

end Steps

/-- **`terminate` returns, if its caller is the one that is woken.**  Over every interleaving of
the listening thread, one call of `terminate` that another thread makes after
`wait_for_server_ready`, any number of other threads in `wait_for_server_ready`, and any other
threads and peers.  A critical section of `mtx` is one step, and callbacks return.

From the moment the call waits, it and the listening thread together make at most 206 steps, and
one more for each time the caller is woken by nobody.  As long as the command pipe is open and the
call has not returned, one of the two can go on, in `epoll_wait` by the report of the pipe, or the
caller is stranded: asleep while the listening thread has left and has notified.  A run never
comes to that exactly if the last `notify_one` goes to the caller whenever the caller is asleep;
and a stranded caller sleeps on until it is woken by nobody. -/
theorem terminate_returns [DecidableEq κ] [Fintype κ] (cfg : Setup) (acts later : List (Act κ))
    (s t : Sys κ) (hrun : run (step cfg) (init κ cfg) acts = some s) (hwait : s.call = .waiting)
    (hlater : run (step cfg) s later = some t) :
    later.countP ofTheTwo ≤ 206 + (later.map delay).sum ∧
    (t.base.server.PipeOpen cfg →
      t.base.terminated ∨ CallerMoves cfg t ∨ ListenerMoves cfg t ∨ Stranded t) ∧
    (Always (step cfg) (fun u => ¬ Stranded u) (init κ cfg) (acts ++ later) ↔
      Guarded (step cfg) GoesToCaller (init κ cfg) (acts ++ later)) ∧
    ∀ more u, run (step cfg) t more = some u → Stranded t → .spurious none ∉ more →
      Stranded u := by
  have hinv : Inv cfg s := invariant_of_run (fun _ _ _ h hs => h.step hs) (inv_init cfg) hrun
  have hstart : Waits cfg s := ⟨hinv, by rw [hwait]; rfl⟩
  have hend : Waits cfg t := invariant_of_run (fun _ _ _ h hs => h.step hs) hstart hlater
  refine ⟨?_, hend.canMove, ?_, fun more u hmore hstranded hnone => ?_⟩
  · have hcount : t.stepsLeft + later.countP ofTheTwo ≤ s.stepsLeft + (later.map delay).sum := by
      refine rank_add_countP_le_add_cost (I := Waits cfg) ?_ ?_ hstart hlater
      · exact fun _ _ _ h hs => h.step hs
      · exact fun _ _ _ h hs => h.stepsLeft_step hs
    have hbound := stepsLeft_le hinv hwait
    omega
  · refine always_iff_guarded (I := fun u => Inv cfg u ∧ Told u) (fun u hu hstranded => ?_)
      (fun u a v hu ha hs => ⟨hu.1.step hs, hu.2.step hu.1 ha hs⟩)
      (fun u a v _ ha hs hkept => hkept (stranded_of_not_goesToCaller ha hs))
      ⟨inv_init cfg, nofun⟩
    obtain ⟨hasleep, hcall, hleft, hsilent⟩ := hstranded
    exact absurd (hsilent.symm.trans (hu.2 hasleep hcall hleft)) nofun
  · have hguard : Guarded (step cfg) (fun _ a => a ≠ .spurious none) t more :=
      guarded_of_labels (fun a ha _ => ne_of_mem_of_not_mem ha hnone) t
    exact invariant_of_guarded (fun _ _ _ h ha hs => h.step ha hs) hstranded hguard hmore

/-- Another thread has been forgotten in `wait_for_server_ready`, and both it and the caller of
`terminate` are asleep when the listening thread leaves.  If the caller is woken it returns; if
the other thread is, it goes back to sleep and the caller stays where it is. -/
theorem one_of_two_woken :
    let cfg : Setup := ⟨3, 5, 4, false, by decide, by decide, by decide⟩
    let acts : List (Act (Fin 1)) :=
      [.wait none, .wait (some 0), .server (.prepare true), .server .announce,
        .notify (some none), .wait none, .server .test, .terminate, .terminate, .terminate]
    let leaving : List (Act (Fin 1)) :=
      [.wait none, .server (.wait (.batch [⟨4, EPOLLIN, .pipe⟩])), .server .check,
        .server .closeConns, .server .closeEpoll, .server .closeListen, .server .quit]
    let returns := leaving ++ [.notify (some none), .wait none, .terminate, .terminate]
    let sleeps := leaving ++ [.notify (some (some 0)), .wait (some 0)]
    ∃ s t u, run (step cfg) (init (Fin 1) cfg) acts = some s ∧ s.call = .waiting ∧
      run (step cfg) s returns = some t ∧ t.base.terminated ∧ returns.countP ofTheTwo ≤ 206 ∧
      run (step cfg) s sleeps = some u ∧ Stranded u ∧
      ¬ Guarded (step cfg) GoesToCaller (init (Fin 1) cfg) (acts ++ sleeps) := by
  intro cfg acts leaving returns sleeps
  have hrun : ∃ s t u, run (step cfg) (init (Fin 1) cfg) acts = some s ∧ s.call = .waiting ∧
      run (step cfg) s returns = some t ∧ t.base.terminated ∧
      run (step cfg) s sleeps = some u ∧ Stranded u :=
    ⟨_, _, _, rfl, rfl, rfl, rfl, rfl, rfl, rfl, rfl, rfl⟩
  obtain ⟨s, t, u, hrun, hwait, hreturns, hend, hsleeps, hstranded⟩ := hrun
  have hbound := (terminate_returns cfg acts returns s t hrun hwait hreturns).1
  obtain ⟨-, -, hexact, -⟩ := terminate_returns cfg acts sleeps s u hrun hwait hsleeps
  refine ⟨s, t, u, hrun, hwait, hreturns, hend, hbound, hsleeps, hstranded, fun hguard => ?_⟩
  have hall := run_append_of_eq_some hrun ▸ hsleeps
  exact (hexact.mpr hguard).of_run hall hstranded

end Termination

end Nbuss
