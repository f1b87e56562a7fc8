import Nbuss.BufferedWrite
import Nbuss.ListenProtocol

/-!
# `ThreadedServer2` over `listen`

The callback that `ThreadedServer2` gives to `listen` is its own `internal_callback`, which keeps
the write half of every event for itself and calls the user's function for the rest.  This module
puts the two together: each callback of the listening thread goes through
`Ts2.internalCallback`, a `close` made by the user's function is `ThreadedServer2::close`, and
between any two steps of the listening thread other threads call `write` and the worker makes its
passes.

The events of a connection that reach the user's function are `NEW_SOCKET`, then nothing but
`AVAILABLE_FOR_READ`, then at most one event that ends the connection.

A pass of the worker is three steps here, the extraction, `sd.lock()`, and the drain with
`sd.release()`; in between it holds the lock of the socket data, and a `SOCKET_IS_CLOSED` or a
`close` of the listening thread for the same descriptor has to wait.
-/

namespace Nbuss

open Transition

/-- `internal_callback` hands on what `forwardedJob` says. -/
theorem Ts2.internalCallback_snd {st : Ts2} {fd : ℕ} {job : Job} {r : Ts2 × Option Job}
    (h : st.internalCallback fd job = some r) : r.2 = forwardedJob job := by
  cases job with
  | socketIsClosed =>
    obtain ⟨st', -, rfl⟩ := Option.map_eq_some_iff.mp h
    rfl
  | _ =>
    cases h
    rfl

namespace Forwarding

open Listen

/-! ## The system -/

/-- Where `write_queue_worker` stands. -/
inductive WorkerPc where
  | idle
  /-- It has extracted `fd`, and is at `sd.lock()`. -/
  | extracted (fd : ℕ)
  /-- Between `sd.lock()` and `sd.release()`. -/
  | locked (fd : ℕ)
  deriving DecidableEq, Repr

structure Sys where
  server : State
  ts2 : Ts2 := Ts2.init
  worker : WorkerPc := .idle
  /-- The calls of the function given to `start`, oldest first. -/
  out : List Callback := []

inductive Act where
  | listen (a : Listen.Act)
  | write (fd : ℕ) (data : List UInt8) (answers : List WriteAnswer)
  /-- The next step of the worker, with what the kernel answers to its `::write` calls. -/
  | worker (answers : List WriteAnswer)

/-- The event as it reaches the function given to `start`. -/
def forward (cb : Callback) : Option Callback :=
  (forwardedJob cb.job).map fun job => { cb with job := job }

/-- What `ThreadedServer2` does when the listening thread goes on to `v`. -/
def Sys.follow (s : Sys) (v : State) : Listen.Act → Option Sys
  | .answer =>
    match s.server.pc with
    | .calling cb _ _ => (s.ts2.cleanup cb.fd).map fun st => { s with server := v, ts2 := st }
    | _ => none
  | _ =>
    match v.trace.drop s.server.trace.length with
    | [] => some { s with server := v }
    | cb :: _ =>
      (s.ts2.internalCallback cb.fd cb.job).map fun r =>
        { s with
          server := v
          ts2 := r.1
          out := s.out ++ (r.2.map fun job => { cb with job := job }).toList }

/-- `ThreadedServer2::write_queue_worker`, with its inner loop as one step. -/
def Sys.work (s : Sys) (answers : List WriteAnswer) : Option Sys :=
  match s.worker with
  | .idle =>
    if h : s.ts2.readyToWriteSet.Nonempty then
      let fd := s.ts2.readyToWriteSet.min' h
      some { s with
        ts2 := { s.ts2 with readyToWriteSet := s.ts2.readyToWriteSet.erase fd }
        worker := .extracted fd }
    else none
  | .extracted fd =>
    (s.ts2.internalSocketData fd).lock.map fun sd =>
      { s with
        ts2 := { s.ts2 with
          internalSocketData := Function.update s.ts2.internalSocketData fd sd }
        worker := .locked fd }
  | .locked fd =>
    let sd := s.ts2.internalSocketData fd
    (drainLoop fd sd.writeQueue answers).bind fun d =>
      if Ts2.KernelOk d.calls d.rest then
        some { s with
          ts2 := { s.ts2 with
            internalSocketData := Function.update s.ts2.internalSocketData fd
              (SocketData.release { sd with writeQueue := d.writeQueue }) }.deliver fd d.calls
          worker := .idle }
      else none

def step (cfg : Setup) (s : Sys) : Act → Option Sys
  | .listen a => (Listen.step cfg s.server a).bind fun v => s.follow v a
  | .write fd data answers =>
    (s.ts2.step (.write fd data answers)).map fun st => { s with ts2 := st }
  | .worker answers => s.work answers

def init (cfg : Setup) : Sys where
  server := Listen.init cfg

/-- The function given to `start` closes what it is told to close, before it returns. -/
def SyncAct (s : Sys) : Act → Prop
  | .listen a => Sync s.server a
  | _ => True

instance (s : Sys) : ∀ a, Decidable (SyncAct s a)
  | .listen a => inferInstanceAs (Decidable (Sync s.server a))
  | .write _ _ _ | .worker _ => inferInstanceAs (Decidable True)

/-- `NEW_SOCKET`, then `AVAILABLE_FOR_READ` any number of times, then at most one event that ends
the connection; or nothing yet. -/
def ReadProtocol (l : List Job) : Prop :=
  l = [] ∨ ∃ n last, l = .newSocket :: (List.replicate n .availableForRead ++ last) ∧
    last.length ≤ 1 ∧ ∀ j ∈ last, j.isFinal = true

/-! ## What is handed on -/

theorem jobs_filterMap_forward (trace : List Callback) (c : ℕ) :
    jobs (trace.filterMap forward) c = (jobs trace c).filterMap forwardedJob := by
  induction trace with
  | nil => rfl
  | cons cb trace ih =>
    unfold jobs at ih ⊢
    by_cases hfile : cb.file = .conn c
    · cases hjob : forwardedJob cb.job <;> simp [forward, hjob, hfile, ih]
    · cases hjob : forwardedJob cb.job <;> simp [forward, hjob, hfile, ih]

theorem forwarded_ready {ready : List Job} (h : ∀ j ∈ ready, j.isReady = true) :
    ∃ n, ready.filterMap forwardedJob = List.replicate n .availableForRead := by
  induction ready with
  | nil => exact ⟨0, rfl⟩
  | cons j ready ih =>
    obtain ⟨n, hn⟩ := ih fun i hi => h i (List.mem_cons_of_mem _ hi)
    have hj := h j (List.mem_cons_self ..)
    cases j with
    | availableForRead | availableForReadAndWrite =>
      exact ⟨n + 1, by simp [forwardedJob, hn, List.replicate_succ]⟩
    | availableForWrite => exact ⟨n, hn⟩
    | closeSocket | newSocket | socketIsClosed => cases hj

theorem forwarded_final {last : List Job} (h : ∀ j ∈ last, j.isFinal = true) :
    last.filterMap forwardedJob = last := by
  induction last with
  | nil => rfl
  | cons j last ih =>
    have hj := h j (List.mem_cons_self ..)
    have hrest := ih fun i hi => h i (List.mem_cons_of_mem _ hi)
    cases j with
    | closeSocket | socketIsClosed => simp [forwardedJob, hrest]
    | availableForRead | availableForWrite | availableForReadAndWrite | newSocket => cases hj

theorem readProtocol_of_protocol {l : List Job} (h : Protocol l) :
    ReadProtocol (l.filterMap forwardedJob) := by
  rcases h with rfl | ⟨ready, last, rfl, hready, hlength, hfinal⟩
  · exact .inl rfl
  · obtain ⟨n, hn⟩ := forwarded_ready hready
    refine .inr ⟨n, last, ?_, hlength, hfinal⟩
    simp [forwardedJob, List.filterMap_append, hn, forwarded_final hfinal]

/-- The listening thread makes at most one callback in a step, and none where it closes. -/
theorem trace_step {cfg : Setup} {s s' : State} {a : Listen.Act}
    (hs : Listen.step cfg s a = some s') :
    s'.trace = s.trace ∨ a ≠ .answer ∧ ∃ cb, s'.trace = s.trace ++ [cb] := by
  cases Step.of_step hs with
  | callback | registered | smartClose => exact .inr ⟨nofun, _, rfl⟩
  | _ => exact .inl rfl

/-! ## The invariant -/

/-- The listening thread keeps its protocol, and what has been handed on is what there was to
hand on. -/
structure Inv (cfg : Setup) (s : Sys) : Prop where
  sync : SyncInv cfg s.server.pc s.server.listenSock s.server.kernel s.server.trace
  out : s.out = s.server.trace.filterMap forward

variable {cfg : Setup} {s s' : Sys}

theorem inv_init : Inv cfg (init cfg) := ⟨syncInv_init, rfl⟩

/-- `ThreadedServer2` hands on the events of the listening thread, as far as it does not keep
them. -/
theorem out_follow {a : Listen.Act} {v : State} (hout : s.out = s.server.trace.filterMap forward)
    (hv : Listen.step cfg s.server a = some v) (hs : s.follow v a = some s') :
    s'.server = v ∧ s'.out = v.trace.filterMap forward := by
  by_cases ha : a = .answer
  · subst ha
    have htrace := (trace_step hv).resolve_right fun hnew => hnew.1 rfl
    simp only [Sys.follow] at hs
    split at hs
    · obtain ⟨st, -, rfl⟩ := Option.map_eq_some_iff.mp hs
      exact ⟨rfl, by rw [htrace]; exact hout⟩
    · cases hs
  · have hfollow : s.follow v a =
        match v.trace.drop s.server.trace.length with
        | [] => some { s with server := v }
        | cb :: _ =>
          (s.ts2.internalCallback cb.fd cb.job).map fun r =>
            { s with
              server := v
              ts2 := r.1
              out := s.out ++ (r.2.map fun job => { cb with job := job }).toList } := by
      cases a <;> first | rfl | exact absurd rfl ha
    rw [hfollow] at hs
    rcases trace_step hv with htrace | ⟨-, cb, htrace⟩
    · have hdrop : v.trace.drop s.server.trace.length = [] := by rw [htrace, List.drop_length]
      rw [hdrop] at hs
      cases hs
      exact ⟨rfl, by rw [htrace]; exact hout⟩
    · have hdrop : v.trace.drop s.server.trace.length = [cb] := by rw [htrace, List.drop_left]
      rw [hdrop] at hs
      obtain ⟨r, hr, rfl⟩ := Option.map_eq_some_iff.mp hs
      refine ⟨rfl, ?_⟩
      rw [htrace, List.filterMap_append, ← hout, Ts2.internalCallback_snd hr]
      cases hjob : forwardedJob cb.job <;> simp [forward, hjob]

/-- The worker has nothing to do with the events. -/
theorem work_frame {answers : List WriteAnswer} (hs : s.work answers = some s') :
    s'.server = s.server ∧ s'.out = s.out := by
  unfold Sys.work at hs
  split at hs
  · split_ifs at hs
    cases hs
    exact ⟨rfl, rfl⟩
  · obtain ⟨sd, -, rfl⟩ := Option.map_eq_some_iff.mp hs
    exact ⟨rfl, rfl⟩
  · obtain ⟨d, -, hs⟩ := Option.bind_eq_some_iff.mp hs
    split_ifs at hs
    cases hs
    exact ⟨rfl, rfl⟩

theorem Inv.step {a : Act} (h : Inv cfg s) (hsync : SyncAct s a)
    (hs : step cfg s a = some s') : Inv cfg s' := by
  cases a with
  | listen a =>
    obtain ⟨v, hv, hs⟩ := Option.bind_eq_some_iff.mp hs
    obtain ⟨hserver, hout⟩ := out_follow h.out hv hs
    exact ⟨by rw [hserver]; exact h.sync.step hsync hv, by rw [hserver]; exact hout⟩
  | write fd data answers =>
    obtain ⟨st, -, rfl⟩ := Option.map_eq_some_iff.mp hs
    exact ⟨h.sync, h.out⟩
  | worker answers =>
    obtain ⟨hserver, hout⟩ := work_frame hs
    exact ⟨by rw [hserver]; exact h.sync, by rw [hserver, hout]; exact h.out⟩

/-- **The events of a connection behind `ThreadedServer2`.**  Over every run of `listen` with a
function that closes exactly what it is told to close, interleaved with any writes and any steps
of the worker: the events of a connection that reach the function are `NEW_SOCKET`, then only
`AVAILABLE_FOR_READ`, then at most one event that ends it. -/
theorem forwarded_in_order (cfg : Setup) (acts : List Act) (s : Sys)
    (hsync : Guarded (step cfg) SyncAct (init cfg) acts)
    (hrun : run (step cfg) (init cfg) acts = some s) (c : ℕ) : ReadProtocol (jobs s.out c) := by
  have hinv : Inv cfg s := invariant_of_guarded (fun _ _ _ h => h.step) inv_init hsync hrun
  rw [hinv.out, jobs_filterMap_forward]
  exact readProtocol_of_protocol (hinv.sync.protocol c)

/-- A connection that is reported writable, readable and writable, and hung up, with a write and a
pass of the worker in between, during which the second event comes; the function closes it, and
the number is used again. -/
theorem forwarded_for_two_connections :
    let cfg : Setup := ⟨3, 5, 4, false, by decide, by decide, by decide⟩
    let acts : List Act :=
      ([.prepare true, .announce, .test, .wait (.batch [⟨3, EPOLLIN, .listener⟩]), .check, .next,
        .accept4 (.conn 7 0 false), .insert, .epollAdd true, .ret, .next, .test,
        .wait (.batch [⟨7, EPOLLOUT, .conn 0⟩]), .check, .next] : List Listen.Act).map .listen ++
      [.write 7 [1] [.wrote 1], .worker [], .worker []] ++
      ([.ret, .next, .test, .wait (.batch [⟨7, EPOLLIN ||| EPOLLOUT, .conn 0⟩]), .check,
        .next] : List Listen.Act).map .listen ++
      [.worker []] ++
      ([.ret, .next, .test, .wait (.batch [⟨7, EPOLLRDHUP, .conn 0⟩]), .check, .next, .answer,
        .ret, .next, .test, .wait (.batch [⟨3, EPOLLIN, .listener⟩]), .check, .next,
        .accept4 (.conn 7 0 false), .insert, .epollAdd true] : List Listen.Act).map .listen
    ∃ s, run (step cfg) (init cfg) acts = some s ∧
      jobs s.out 0 = [.newSocket, .availableForRead, .closeSocket] ∧
      jobs s.out 1 = [.newSocket] ∧ ∀ c, ReadProtocol (jobs s.out c) := by
  intro cfg acts
  have hsync : Guarded (step cfg) SyncAct (init cfg) acts := by decide +kernel
  have hout : (run (step cfg) (init cfg) acts).map (fun s => (jobs s.out 0, jobs s.out 1)) =
      some ([.newSocket, .availableForRead, .closeSocket], [.newSocket]) := by
    decide +kernel
  obtain ⟨s, hrun, hs⟩ := Option.map_eq_some_iff.mp hout
  obtain ⟨hzero, hone⟩ := Prod.mk.inj hs
  exact ⟨s, hrun, hzero, hone, forwarded_in_order cfg acts s hsync hrun⟩

end Forwarding

end Nbuss
