import Nbuss.Listen

/-!
# `terminate` as a barrier

When `terminate` comes back, the listening thread must be out of `listen` for good.
What the caller has to go on is `is_listening`: it waits until the flag is false, and
then resets `stop_server` itself.  If the flag could be false while the loop still runs,
the reset would take back the order to stop.

The flag is true only inside `listen`: it is raised when everything has been prepared
and lowered by the last statement of `closeSockets`, after the descriptors have been
closed (`Stages`).  A caller of `wait_for_server_ready` that has come back has seen the
flag up, so for it a flag that is down means that `listen` has been left.  This covers
both ways through `terminate`: the wait, and the early exit when the flag is found down
because `listen` has been left by an exception.

`Stages` is about `listen` alone and holds whatever the other threads do.
-/

namespace Nbuss

namespace Listen

open Transition

variable {cfg : Setup}

/-! ## The stages of `listen` -/

/-- `is_listening` can be up. -/
def Pc.inside : Pc → Bool
  | .starting | .announcing | .left => false
  | _ => true

/-- `closeSockets` has closed the epoll descriptor. -/
def Pc.epollClosed : Pc → Bool
  | .closedEpoll | .closedListen | .left => true
  | _ => false

/-- `closeSockets` has closed the listening socket. -/
def Pc.listenClosed : Pc → Bool
  | .closedListen | .left => true
  | _ => false

/-- A step of a call of `terminate`. -/
def isTerminate : Act → Bool
  | .terminate _ => true
  | _ => false

/-- A step of the listening thread. -/
def ofListener : Act → Bool
  | .close _ | .removeFromEpoll _ | .io _ _ | .terminate _ | .peerSend _ _ | .peerShutdown _ => false
  | _ => true

/-- What is true at each stage of `listen`, whatever other threads do. -/
structure Stages (cfg : Setup) (s : State) : Prop where
  incoming : s.pc.outside = true → s.incoming = ∅
  epollfd : s.pc.epollClosed = true → s.epollfd = none
  listenClosed : s.pc.listenClosed = true → s.listenSock = none
  listenOpen : s.pc.listenClosed = false → s.listenSock = some cfg.listenSock
  listening : s.signals.isListening = true → s.pc.inside = true

theorem stages_init : Stages cfg (init cfg) where
  incoming _ := rfl
  epollfd h := by cases h
  listenClosed h := by cases h
  listenOpen _ := rfl
  listening h := by cases h

/-- `listen` is between the announcement and `closeSockets`. -/
structure Pc.Between (pc : Pc) : Prop where
  inside : pc.inside = true
  outside : pc.outside = false
  epollClosed : pc.epollClosed = false
  listenClosed : pc.listenClosed = false

theorem Moves.between {s : State} {a : Act} {pc : Pc} (h : Moves cfg s a pc) :
    s.pc.listenClosed = false ∧ pc.Between := by
  cases h <;> simp only [*] <;> exact ⟨rfl, rfl, rfl, rfl, rfl⟩

theorem Stages.between {s s' : State} (h : Stages cfg s) (hopen : s.pc.listenClosed = false)
    (hsock : s'.listenSock = s.listenSock) (hpc : s'.pc.Between) : Stages cfg s' where
  incoming hout := absurd (hpc.outside.symm.trans hout) Bool.false_ne_true
  epollfd hclosed := absurd (hpc.epollClosed.symm.trans hclosed) Bool.false_ne_true
  listenClosed hclosed := absurd (hpc.listenClosed.symm.trans hclosed) Bool.false_ne_true
  listenOpen _ := hsock.trans (h.listenOpen hopen)
  listening _ := hpc.inside

/-- `terminate` never raises the flag. -/
theorem Signals.terminate_isListening {g g' : Signals} {t : ℕ} (h : g.terminate t = some g')
    (hup : g'.isListening = true) : g.isListening = true := by
  unfold Signals.terminate at h
  split at h
  case h_4 =>
    split_ifs at h
    cases h
    exact hup
  case h_9 => cases h
  all_goals
    cases h
    first | exact hup | cases hup

theorem Stages.step {s s' : State} {a : Act} (h : Stages cfg s) (hs : step cfg s a = some s') :
    Stages cfg s' := by
  cases Step.of_step hs with
  | moves hm => exact h.between hm.between.1 rfl hm.between.2
  | prepared hpc | notPrepared hpc =>
    refine ⟨fun _ => rfl, fun he => (by cases he), fun hl => (by cases hl),
      fun _ => h.listenOpen (by rw [hpc]; rfl), fun hup => ?_⟩
    have hin := h.listening hup
    rw [hpc] at hin
    cases hin
  | announce hpc | wait hpc _ | callback hpc _ _ | accept hpc _ | insert hpc | registered hpc _
  | smartClose hpc | answer hpc =>
    exact h.between (by rw [hpc]; rfl) rfl ⟨rfl, rfl, rfl, rfl⟩
  | closeConns hpc =>
    exact ⟨fun _ => rfl, fun he => (by cases he), fun hl => (by cases hl),
      fun _ => h.listenOpen (by rw [hpc]; rfl), fun _ => rfl⟩
  | closeEpoll hpc =>
    exact ⟨fun _ => h.incoming (by rw [hpc]; rfl), fun _ => rfl, fun hl => (by cases hl),
      fun _ => h.listenOpen (by rw [hpc]; rfl), fun _ => rfl⟩
  | closeListen hpc =>
    exact ⟨fun _ => h.incoming (by rw [hpc]; rfl), fun _ => h.epollfd (by rw [hpc]; rfl),
      fun _ => rfl, fun hl => (by cases hl), fun _ => rfl⟩
  | quit hpc =>
    exact ⟨fun _ => h.incoming (by rw [hpc]; rfl), fun _ => h.epollfd (by rw [hpc]; rfl),
      fun _ => h.listenClosed (by rw [hpc]; rfl), fun hl => (by cases hl), fun hup => (by cases hup)⟩
  | close fd =>
    refine ⟨fun ho => ?_, h.epollfd, h.listenClosed, h.listenOpen, h.listening⟩
    show s.incoming.erase fd = ∅
    rw [h.incoming ho, Finset.erase_empty]
  | terminate hg =>
    exact ⟨h.incoming, h.epollfd, h.listenClosed, h.listenOpen, fun hup =>
      h.listening (Signals.terminate_isListening hg hup)⟩
  | removeFromEpoll | io | peerSend | peerShutdown =>
    exact ⟨h.incoming, h.epollfd, h.listenClosed, h.listenOpen, h.listening⟩

/-- The flag goes down by the last statement of `listen` or by a call of `terminate`. -/
theorem isListening_step {s s' : State} {a : Act} (hs : step cfg s a = some s')
    (hcall : ∀ t, a ≠ .terminate t) (hup : s.signals.isListening = true) :
    s'.signals.isListening = true ∨ s'.pc = .left := by
  cases Step.of_step hs with
  | announce => exact .inl rfl
  | quit => exact .inr rfl
  | @terminate t => exact absurd rfl (hcall t)
  | _ => exact .inl hup

/-- Only the calls of `terminate` touch `stop_server` and their own places. -/
theorem signals_step {s s' : State} {a : Act} (hs : step cfg s a = some s')
    (hcall : ∀ t, a ≠ .terminate t) :
    s'.signals.calls = s.signals.calls ∧ s'.signals.stopServer = s.signals.stopServer := by
  cases Step.of_step hs with
  | @terminate t => exact absurd rfl (hcall t)
  | _ => exact ⟨rfl, rfl⟩

/-- Only the listening thread moves in `listen`. -/
theorem pc_step {s s' : State} {a : Act} (hs : step cfg s a = some s')
    (ha : ofListener a = false) : s'.pc = s.pc := by
  cases Step.of_step hs with
  | moves hm => cases hm <;> cases ha
  | close | removeFromEpoll | io | terminate | peerSend | peerShutdown => rfl
  | _ => cases ha

/-- A thread that has left `listen` does not come back, and makes no callback. -/
theorem left_step {s s' : State} {a : Act} (hs : step cfg s a = some s') (hpc : s.pc = .left) :
    s'.pc = .left ∧ s'.trace = s.trace := by
  cases Step.of_step hs with
  | moves hm => cases hm <;> simp_all
  | prepared h | notPrepared h | announce h | wait h _ | callback h _ _ | accept h _ | insert h
  | registered h _ | smartClose h | answer h | closeConns h | closeEpoll h | closeListen h
  | quit h => rw [hpc] at h; cases h
  | close | removeFromEpoll | io | terminate | peerSend | peerShutdown => exact ⟨hpc, rfl⟩

end Listen

/-! ## One call of `terminate` -/

namespace Barrier

open Transition Listen

/-- The server, and a thread that calls `wait_for_server_ready` and later `terminate`. -/
structure Sys where
  server : State
  /-- `wait_for_server_ready` has returned. -/
  ready : Bool := false

inductive Act where
  /-- The listening thread, the peers, and the other threads that call `close`,
  `remove_from_epoll`, `read` and `write`. -/
  | server (a : Listen.Act)
  /-- `wait_for_server_ready` returns. -/
  | ready
  /-- The next step of the call of `terminate`. -/
  | terminate
  deriving DecidableEq, Repr

def step (cfg : Setup) (s : Sys) : Act → Option Sys
  | .server a =>
    if isTerminate a then none
    else (Listen.step cfg s.server a).map fun v => { s with server := v }
  | .ready => if s.server.signals.isListening then some { s with ready := true } else none
  | .terminate =>
    if s.ready then
      (Listen.step cfg s.server (.terminate 0)).map fun v => { s with server := v }
    else none

def init (cfg : Setup) : Sys where
  server := Listen.init cfg

/-- `terminate` has returned. -/
def Sys.terminated (s : Sys) : Prop := s.server.signals.calls 0 = .done

/-- The server has come to rest. -/
structure AtRest (s : State) : Prop where
  left : s.pc = .left
  incoming : s.incoming = ∅
  epollfd : s.epollfd = none
  listenSock : s.listenSock = none
  isListening : s.signals.isListening = false
  stopServer : s.signals.stopServer = false

/-- The call has found the flag down, at once or at the end of its wait. -/
def past : TermPc → Bool
  | .atEnd | .cleared | .foundStopped | .stoppedCleared | .done => true
  | _ => false

/-- The call has reset `stop_server`. -/
def reset : TermPc → Bool
  | .cleared | .stoppedCleared | .done => true
  | _ => false

structure Inv (cfg : Setup) (s : Sys) : Prop where
  stages : Stages cfg s.server
  ready : s.ready = true → s.server.signals.isListening = true ∨ s.server.pc = .left
  past : past (s.server.signals.calls 0) = true → s.server.pc = .left
  reset : reset (s.server.signals.calls 0) = true → s.server.signals.stopServer = false

theorem inv_init (cfg : Setup) : Inv cfg (init cfg) where
  stages := stages_init
  ready h := by cases h
  past h := by cases h
  reset h := by cases h

variable {cfg : Setup}

theorem Inv.atRest {s : Sys} (h : Inv cfg s) (hdone : s.terminated) : AtRest s.server := by
  have hleft : s.server.pc = .left := h.past (by rw [hdone]; rfl)
  have hdown : s.server.signals.isListening = false := by
    cases hup : s.server.signals.isListening with
    | false => rfl
    | true =>
      have hin := h.stages.listening hup
      rw [hleft] at hin
      cases hin
  exact ⟨hleft, h.stages.incoming (by rw [hleft]; rfl), h.stages.epollfd (by rw [hleft]; rfl),
    h.stages.listenClosed (by rw [hleft]; rfl), hdown, h.reset (by rw [hdone]; rfl)⟩

/-- The listening thread and the other threads. -/
theorem Inv.server {s : Sys} {v : State} {a : Listen.Act} (h : Inv cfg s)
    (hs : Listen.step cfg s.server a = some v) (ha : isTerminate a = false) :
    Inv cfg { s with server := v } := by
  have hcall : ∀ t, a ≠ .terminate t := by
    rintro t rfl
    cases ha
  obtain ⟨hcalls, hstop⟩ := signals_step hs hcall
  refine ⟨h.stages.step hs, fun hready => ?_, fun hpast => ?_, fun hreset => ?_⟩
  · rcases h.ready hready with hup | hleft
    · exact isListening_step hs hcall hup
    · exact .inr (left_step hs hleft).1
  · rw [hcalls] at hpast
    exact (left_step hs (h.past hpast)).1
  · rw [hcalls] at hreset
    exact hstop.trans (h.reset hreset)

/-- One step of the call.  It goes past the flag only when the flag is down, and for a
caller that was ready this means that `listen` has been left. -/
theorem Inv.terminate {s : Sys} {g : Signals} (h : Inv cfg s) (hready : s.ready = true)
    (hg : s.server.signals.terminate 0 = some g) :
    Inv cfg { s with server := { s.server with signals := g } } := by
  have hdown : s.server.signals.isListening = false → s.server.pc = .left := by
    intro hdown
    rcases h.ready hready with hup | hleft
    · rw [hdown] at hup
      cases hup
    · exact hleft
  have hstages : Stages cfg { s.server with signals := g } :=
    ⟨h.stages.incoming, h.stages.epollfd, h.stages.listenClosed, h.stages.listenOpen, fun hup =>
      h.stages.listening (Signals.terminate_isListening hg hup)⟩
  have hpast := h.past
  have hreset := h.reset
  unfold Signals.terminate at hg
  split at hg
  case h_1 hidle =>
    cases hg
    refine ⟨hstages, h.ready, fun hp => ?_, fun hr => ?_⟩
    · simp only [Signals.moveTo, Function.update_self] at hp
      split_ifs at hp with hup
      · cases hp
      · exact hdown (by simpa using hup)
    · simp only [Signals.moveTo, Function.update_self] at hr
      split_ifs at hr <;> cases hr
  case h_2 hfound | h_3 hstored =>
    cases hg
    refine ⟨hstages, h.ready, fun hp => ?_, fun hr => ?_⟩
    · simp only [Signals.moveTo, Function.update_self] at hp
      cases hp
    · simp only [Signals.moveTo, Function.update_self] at hr
      cases hr
  case h_4 hwaiting =>
    split_ifs at hg with hup
    cases hg
    refine ⟨hstages, h.ready, fun _ => hdown (by simpa using hup), fun hr => ?_⟩
    simp only [Signals.moveTo, Function.update_self] at hr
    cases hr
  case h_5 hend | h_7 hend =>
    cases hg
    exact ⟨hstages, h.ready, fun _ => hpast (by rw [hend]; rfl), fun _ => rfl⟩
  case h_6 hend | h_8 hend =>
    cases hg
    have hleft := hpast (by rw [hend]; rfl)
    exact ⟨hstages, fun _ => .inr hleft, fun _ => hleft, fun _ => hreset (by rw [hend]; rfl)⟩
  case h_9 => cases hg

theorem Inv.step {s s' : Sys} {a : Act} (h : Inv cfg s) (hs : step cfg s a = some s') :
    Inv cfg s' := by
  cases a with
  | server a =>
    simp only [Barrier.step] at hs
    split_ifs at hs with ha
    obtain ⟨v, hv, rfl⟩ := Option.map_eq_some_iff.mp hs
    exact h.server hv (by simpa using ha)
  | ready =>
    simp only [Barrier.step] at hs
    split_ifs at hs with hup
    cases hs
    exact ⟨h.stages, fun _ => .inl hup, h.past, h.reset⟩
  | terminate =>
    simp only [Barrier.step] at hs
    split_ifs at hs with hready
    obtain ⟨v, hv, rfl⟩ := Option.map_eq_some_iff.mp hs
    obtain ⟨g, hg, rfl⟩ := Option.map_eq_some_iff.mp hv
    exact h.terminate hready hg

/-- What has come to rest stays so: no step but that of a finished call is left. -/
theorem rest_step {s s' : Sys} {a : Act} (hleft : s.server.pc = .left) (hdone : s.terminated)
    (hs : step cfg s a = some s') :
    s'.terminated ∧ s'.server.pc = .left ∧ s'.server.trace = s.server.trace := by
  cases a with
  | server a =>
    simp only [Barrier.step] at hs
    split_ifs at hs with ha
    obtain ⟨v, hv, rfl⟩ := Option.map_eq_some_iff.mp hs
    have hcall : ∀ t, a ≠ .terminate t := by
      rintro t rfl
      exact ha rfl
    have hcalls : v.signals.calls 0 = s.server.signals.calls 0 :=
      congrFun (signals_step hv hcall).1 0
    exact ⟨hcalls.trans hdone, left_step hv hleft⟩
  | ready =>
    simp only [Barrier.step] at hs
    split_ifs at hs
    cases hs
    exact ⟨hdone, hleft, rfl⟩
  | terminate =>
    simp only [Barrier.step] at hs
    split_ifs at hs
    obtain ⟨v, hv, rfl⟩ := Option.map_eq_some_iff.mp hs
    obtain ⟨g, hg, rfl⟩ := Option.map_eq_some_iff.mp hv
    rw [Sys.terminated] at hdone
    simp [Signals.terminate, hdone] at hg

/-- **`terminate` is a barrier.**  Over every interleaving of the listening thread, a
call of `terminate` that is made after `wait_for_server_ready` has returned, and any
calls of `close` by other threads: once the call has returned, the server is at rest,
and in every later state it still is and no callback has been added. -/
theorem terminate_is_barrier (cfg : Setup) (acts later : List Act) (s s' : Sys)
    (hrun : run (step cfg) (init cfg) acts = some s) (hdone : s.terminated)
    (hlater : run (step cfg) s later = some s') :
    AtRest s'.server ∧ s'.server.trace = s.server.trace := by
  have hinv : Inv cfg s := invariant_of_run (fun _ _ _ h => h.step) (inv_init cfg) hrun
  have hinv' : Inv cfg s' := invariant_of_run (fun _ _ _ h => h.step) hinv hlater
  have hrest : s'.terminated ∧ s'.server.pc = .left ∧ s'.server.trace = s.server.trace := by
    refine invariant_of_run (I := fun u => u.terminated ∧ u.server.pc = .left ∧
      u.server.trace = s.server.trace) ?_ ⟨hdone, (hinv.atRest hdone).left, rfl⟩ hlater
    rintro u a u' ⟨hu, hleft, htrace⟩ hs
    obtain ⟨hu', hleft', htrace'⟩ := rest_step hleft hu hs
    exact ⟨hu', hleft', htrace'.trans htrace⟩
  exact ⟨hinv'.atRest hrest.1, hrest.2.2⟩

/-- `terminate` is called while the listening thread is in a callback; the batch is
finished, the next one is dropped, and a late `close` changes nothing. -/
theorem barrier_from_inside_callback :
    let cfg : Setup := ⟨3, 5, 4, false, by decide, by decide, by decide⟩
    let acts : List Act :=
      [.server (.prepare true), .server .announce, .ready, .server .test,
        .server (.wait (.batch [⟨3, EPOLLIN, .listener⟩])), .server .check, .server .next,
        .server (.accept4 (.conn 7 0 false)), .server .insert, .server (.epollAdd true),
        .terminate, .terminate, .terminate, .server .ret, .server .next, .server .test,
        .server .closeConns, .server .closeEpoll, .server .closeListen, .server .quit,
        .terminate, .terminate, .terminate]
    ∃ s s', run (step cfg) (init cfg) acts = some s ∧ s.terminated ∧
      run (step cfg) s [.server (.close 7)] = some s' ∧ AtRest s'.server ∧
      s'.server.trace.length = 1 := by
  intro cfg acts
  have hrun : ∃ s s', run (step cfg) (init cfg) acts = some s ∧ s.terminated ∧
      run (step cfg) s [.server (.close 7)] = some s' ∧ s.server.trace.length = 1 :=
    ⟨_, _, rfl, rfl, rfl, rfl⟩
  obtain ⟨s, s', hrun, hdone, hlater, hlength⟩ := hrun
  obtain ⟨hrest, htrace⟩ := terminate_is_barrier cfg acts _ s s' hrun hdone hlater
  exact ⟨s, s', hrun, hdone, hlater, hrest, by rw [htrace, hlength]⟩

end Barrier

end Nbuss
