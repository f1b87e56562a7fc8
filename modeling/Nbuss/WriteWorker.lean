import Mathlib.Tactic.Common
import Nbuss.BufferedWrite
import Nbuss.Transition.Threads

/-!
# The write worker and those who wake it

`write_queue_worker` sleeps on `readyToWriteCv` until a descriptor is in `readyToWriteSet` or
`stopServer` is set.  It tests both under `readyToWriteMutex`, and both are changed under the
same mutex, by `internal_callback` and by `stop`; each of them calls `notify_one` after it has
let the mutex go.  The worker is the only thread that waits on this condition variable.

So there is no moment between the test and the sleep at which a change could go unnoticed, and
whoever makes a change while the worker is asleep has its notification still before it
(`Attentive`).  A descriptor stays in the set until it is extracted, and the worker goes to
sleep only when the set is empty; so everything that was inserted has been extracted by then,
however many insertions have fallen into one.

The threads that run `internal_callback` are of any number.  Their critical sections, and that
of `stop`, are one step and need the mutex to be free.  The history `log` is for the statement
only: no step looks at it.  `set_of_worker` connects the worker, step by step, with the passes
of `Ts2`, in which extraction and drain are one operation.
-/

namespace Nbuss

namespace WriteWorker

open Transition

/-- Where `write_queue_worker` stands. -/
inductive Pc where
  /-- `lk.lock()`. -/
  | head
  /-- With the mutex, at the test at the head of the loop. -/
  | entered
  /-- With the mutex, at the condition of the inner loop. -/
  | testing
  /-- In `readyToWriteCv.wait`, without a wake-up. -/
  | asleep
  /-- In `readyToWriteCv.wait`, about to take the mutex again. -/
  | woken
  /-- With the mutex, at the test behind the inner loop. -/
  | leaving
  /-- With the mutex, at the extraction. -/
  | extracting
  /-- The mutex has been released; up to `sd.release()`. -/
  | draining (fd : ℕ)
  | ended
  deriving DecidableEq, Repr

/-- The worker has `readyToWriteMutex`. -/
def Pc.locked : Pc → Bool
  | .entered | .testing | .leaving | .extracting => true
  | _ => false

/-- `notify_one`: the worker is the only one that can be asleep. -/
def Pc.notified : Pc → Pc
  | .asleep => .woken
  | p => p

/-- Where a call of `internal_callback` stands. -/
inductive CallPc where
  | idle
  /-- At the critical section. -/
  | inserting (fd : ℕ) (job : Job)
  /-- Past it, at `notify_one`. -/
  | inserted (fd : ℕ) (job : Job)
  /-- In `callback_function`. -/
  | calling
  deriving DecidableEq, Repr

/-- The jobs for which `internal_callback` inserts the descriptor. -/
def reportsWritable : Job → Bool
  | .availableForWrite | .availableForReadAndWrite => true
  | _ => false

/-- Where `stop` stands. -/
inductive StopPc where
  | notCalled
  /-- Past the critical section, at the first `notify_one`. -/
  | flagged
  /-- In `server.terminate()`. -/
  | terminating
  /-- At the second `notify_one`. -/
  | terminated
  | joining
  deriving DecidableEq, Repr

/-- What happens to the set, and when the worker goes to sleep. -/
inductive Event where
  | inserted (fd : ℕ)
  | extracted (fd : ℕ)
  | slept
  deriving DecidableEq, Repr

structure Sys (ι : Type*) where
  worker : Pc := .head
  callbacks : ι → CallPc := fun _ => .idle
  stop : StopPc := .notCalled
  readyToWriteSet : Finset ℕ := ∅
  stopServer : Bool := false
  log : List Event := []

inductive Act (ι : Type*) where
  | worker
  /-- A wake-up that nobody has given. -/
  | spurious
  /-- `internal_callback` is called. -/
  | event (t : ι) (fd : ℕ) (job : Job)
  | callback (t : ι)
  | stop
  deriving DecidableEq, Repr

variable {ι : Type*}

/-- `start` has created the worker. -/
def init (ι : Type*) : Sys ι := {}

/-- `ThreadedServer2::write_queue_worker`. -/
def Sys.work (s : Sys ι) : Option (Sys ι) :=
  match s.worker with
  | .head => some { s with worker := .entered }
  | .entered => some { s with worker := if s.stopServer then .ended else .testing }
  | .testing =>
    if s.stopServer = false ∧ s.readyToWriteSet = ∅ then
      some { s with worker := .asleep, log := s.log ++ [.slept] }
    else
      some { s with worker := .leaving }
  | .asleep => none
  | .woken => some { s with worker := .testing }
  | .leaving => some { s with worker := if s.stopServer then .ended else .extracting }
  | .extracting =>
    if h : s.readyToWriteSet.Nonempty then
      let fd := s.readyToWriteSet.min' h
      some { s with
        worker := .draining fd
        readyToWriteSet := s.readyToWriteSet.erase fd
        log := s.log ++ [.extracted fd] }
    else none
  | .draining _ => some { s with worker := .head }
  | .ended => none

section Step

variable [DecidableEq ι]

def Sys.moveTo (s : Sys ι) (t : ι) (p : CallPc) : Sys ι :=
  { s with callbacks := Function.update s.callbacks t p }

/-- `ThreadedServer2::internal_callback`. -/
def Sys.callback (s : Sys ι) (t : ι) : Option (Sys ι) :=
  match s.callbacks t with
  | .idle => none
  | .inserting fd job =>
    if s.worker.locked then none
    else
      some { s.moveTo t (.inserted fd job) with
        readyToWriteSet := insert fd s.readyToWriteSet
        log := s.log ++ [.inserted fd] }
  | .inserted _ job =>
    some { s.moveTo t (if (forwardedJob job).isSome then .calling else .idle) with
      worker := s.worker.notified }
  | .calling => some (s.moveTo t .idle)

/-- `ThreadedServer2::stop`. -/
def Sys.stopping (s : Sys ι) : Option (Sys ι) :=
  match s.stop with
  | .notCalled =>
    if s.worker.locked then none else some { s with stopServer := true, stop := .flagged }
  | .flagged => some { s with worker := s.worker.notified, stop := .terminating }
  | .terminating => some { s with stop := .terminated }
  | .terminated => some { s with worker := s.worker.notified, stop := .joining }
  | .joining => none

def step (s : Sys ι) : Act ι → Option (Sys ι)
  | .worker => s.work
  | .spurious => if s.worker = .asleep then some { s with worker := .woken } else none
  | .event t fd job =>
    if s.callbacks t = .idle then
      some (s.moveTo t (if reportsWritable job then .inserting fd job else .calling))
    else none
  | .callback t => s.callback t
  | .stop => s.stopping

end Step

/-- The worker is never asleep with work to do.  If it is asleep while there is a descriptor in
the set, or while the server is to stop, then whoever has changed that is still to call
`notify_one`; and whenever it has gone to sleep, every descriptor that had been inserted had
been extracted after that. -/
structure Attentive (s : Sys ι) : Prop where
  ready : s.worker = .asleep → s.readyToWriteSet.Nonempty →
    ∃ t fd job, s.callbacks t = .inserted fd job ∧ fd ∈ s.readyToWriteSet
  stop : s.worker = .asleep → s.stopServer = true → s.stop = .flagged
  served : ∀ before after l m fd, s.log = before ++ .slept :: after →
    before = l ++ .inserted fd :: m → .extracted fd ∈ m

/-! ## The invariant -/

/-- What the worker has seen under the mutex is still true. -/
def Sys.Seen (s : Sys ι) : Prop :=
  match s.worker with
  | .leaving => s.stopServer = true ∨ s.readyToWriteSet.Nonempty
  | .extracting => s.readyToWriteSet.Nonempty
  | _ => True

structure Inv (s : Sys ι) : Prop where
  attentive : Attentive s
  seen : s.Seen
  /-- What has been inserted and not extracted is in the set. -/
  waiting : ∀ l m fd, s.log = l ++ .inserted fd :: m → .extracted fd ∈ m ∨ fd ∈ s.readyToWriteSet

theorem inv_init : Inv (init ι) where
  attentive :=
    { ready := nofun
      stop := nofun
      served := fun before after l m fd hlog _ => by cases before <;> cases hlog }
  seen := trivial
  waiting l m fd hlog := by cases l <;> cases hlog

/-! ## The parts of a step -/

section Parts

variable {s s' : Sys ι}

/-- The worker is awake afterwards, and the set has not been touched. -/
theorem Inv.awake (h : Inv s) (hlog : s'.log = s.log)
    (hset : s'.readyToWriteSet = s.readyToWriteSet) (hworker : s'.worker ≠ .asleep)
    (hseen : s'.Seen) : Inv s' where
  attentive :=
    { ready := fun hasleep => absurd hasleep hworker
      stop := fun hasleep => absurd hasleep hworker
      served := hlog ▸ h.attentive.served }
  seen := hseen
  waiting := by
    rw [hlog, hset]
    exact h.waiting

/-- A `notify_one`. -/
theorem Inv.notify (h : Inv s) (hlog : s'.log = s.log)
    (hset : s'.readyToWriteSet = s.readyToWriteSet) (hstop : s'.stopServer = s.stopServer)
    (hworker : s'.worker = s.worker.notified) : Inv s' := by
  refine h.awake hlog hset ?_ ?_
  · rw [hworker]
    cases s.worker <;> nofun
  · have hseen := h.seen
    unfold Sys.Seen at hseen ⊢
    rw [hworker, hset, hstop]
    cases hw : s.worker <;> rw [hw] at hseen <;> exact hseen

/-- A history that grows by something else than a sleep. -/
theorem served_concat {log : List Event} {e : Event} (he : e ≠ .slept)
    (h : ∀ before after l m fd, log = before ++ .slept :: after →
      before = l ++ .inserted fd :: m → .extracted fd ∈ m) :
    ∀ before after l m fd, log ++ [e] = before ++ .slept :: after →
      before = l ++ .inserted fd :: m → .extracted fd ∈ m := by
  intro before after l m fd hlog hbefore
  rcases split_concat hlog with ⟨-, hslept, -⟩ | ⟨after', hlog', -⟩
  · exact absurd hslept he
  · exact h before after' l m fd hlog' hbefore

/-- The worker goes to sleep, with nothing in the set. -/
theorem Inv.sleep (h : Inv s) (hstop : s.stopServer = false) (hset : s.readyToWriteSet = ∅) :
    Inv { s with worker := .asleep, log := s.log ++ [.slept] } where
  attentive :=
    { ready := fun _ hne => absurd hset hne.ne_empty
      stop := fun _ hup => by
        rw [hstop] at hup
        cases hup
      served := by
        intro before after l m fd hlog hbefore
        rcases split_concat hlog with ⟨hlog', -, -⟩ | ⟨after', hlog', -⟩
        · -- this sleep: what has not been extracted would be in the set
          refine (h.waiting l m fd (hlog'.trans hbefore)).resolve_right ?_
          rw [hset]
          exact Finset.notMem_empty fd
        · exact h.attentive.served before after' l m fd hlog' hbefore }
  seen := trivial
  waiting := by
    intro l m fd hlog
    rcases split_concat hlog with ⟨-, hslept, -⟩ | ⟨m', hlog', rfl⟩
    · cases hslept
    · exact (h.waiting l m' fd hlog').imp_left fun hmem => List.mem_append_left _ hmem

/-- The worker extracts a descriptor. -/
theorem Inv.extract (h : Inv s) (fd : ℕ) :
    Inv { s with
      worker := .draining fd
      readyToWriteSet := s.readyToWriteSet.erase fd
      log := s.log ++ [.extracted fd] } where
  attentive :=
    { ready := nofun
      stop := nofun
      served := served_concat nofun h.attentive.served }
  seen := trivial
  waiting := by
    intro l m fd' hlog
    rcases split_concat hlog with ⟨-, hextracted, -⟩ | ⟨m', hlog', rfl⟩
    · cases hextracted
    · by_cases hfd : fd' = fd
      · exact .inl (List.mem_append_right _ (hfd ▸ List.mem_singleton_self _))
      · exact (h.waiting l m' fd' hlog').imp (fun hmem => List.mem_append_left _ hmem)
          fun hmem => Finset.mem_erase.mpr ⟨hfd, hmem⟩

variable [DecidableEq ι]

/-- A call of `internal_callback` moves that owes no `notify_one`. -/
theorem Inv.moveTo (h : Inv s) {t : ι} (hpc : ∀ fd job, s.callbacks t ≠ .inserted fd job)
    (p : CallPc) : Inv (s.moveTo t p) where
  attentive :=
    { ready := by
        intro hasleep hne
        obtain ⟨u, fd, job, hu, hfd⟩ := h.attentive.ready hasleep hne
        refine ⟨u, fd, job, ?_, hfd⟩
        have hut : u ≠ t := by
          rintro rfl
          exact hpc fd job hu
        exact (Function.update_of_ne hut ..).trans hu
      stop := h.attentive.stop
      served := h.attentive.served }
  seen := h.seen
  waiting := h.waiting

/-- A descriptor is inserted; the `notify_one` is still to come. -/
theorem Inv.insert (h : Inv s) {t : ι} (hunlocked : s.worker.locked = false) (fd : ℕ) (job : Job) :
    Inv { s.moveTo t (.inserted fd job) with
      readyToWriteSet := insert fd s.readyToWriteSet
      log := s.log ++ [.inserted fd] } where
  attentive :=
    { ready := fun _ _ => ⟨t, fd, job, Function.update_self .., Finset.mem_insert_self ..⟩
      stop := h.attentive.stop
      served := served_concat nofun h.attentive.served }
  seen := by
    show match s.worker with
      | .leaving => s.stopServer = true ∨ (Insert.insert fd s.readyToWriteSet).Nonempty
      | .extracting => (Insert.insert fd s.readyToWriteSet).Nonempty
      | _ => True
    cases hw : s.worker <;> first | trivial | (rw [hw] at hunlocked; cases hunlocked)
  waiting := by
    intro l m fd' hlog
    rcases split_concat hlog with ⟨-, hinserted, -⟩ | ⟨m', hlog', rfl⟩
    · cases hinserted
      exact .inr (Finset.mem_insert_self ..)
    · exact (h.waiting l m' fd' hlog').imp (fun hmem => List.mem_append_left _ hmem)
        fun hmem => Finset.mem_insert_of_mem hmem

omit [DecidableEq ι] in
/-- `stopServer` is set; the `notify_one` is still to come. -/
theorem Inv.flag (h : Inv s) (hunlocked : s.worker.locked = false) :
    Inv { s with stopServer := true, stop := .flagged } where
  attentive :=
    { ready := h.attentive.ready
      stop := fun _ _ => rfl
      served := h.attentive.served }
  seen := by
    show match s.worker with
      | .leaving => true = true ∨ s.readyToWriteSet.Nonempty
      | .extracting => s.readyToWriteSet.Nonempty
      | _ => True
    cases hw : s.worker <;> first | trivial | (rw [hw] at hunlocked; cases hunlocked)
  waiting := h.waiting

/-! ## Runs -/

omit [DecidableEq ι] in
theorem Inv.work (h : Inv s) (hs : s.work = some s') : Inv s' := by
  have hseen := h.seen
  unfold Sys.work at hs
  unfold Sys.Seen at hseen
  split at hs
  case h_3 =>
    split_ifs at hs with hsleep <;> cases hs
    · exact h.sleep hsleep.1 hsleep.2
    · refine h.awake rfl rfl nofun ?_
      show s.stopServer = true ∨ s.readyToWriteSet.Nonempty
      by_cases hstop : s.stopServer = true
      · exact .inl hstop
      · refine .inr (Finset.nonempty_iff_ne_empty.mpr fun hset => hsleep ⟨?_, hset⟩)
        exact Bool.eq_false_iff.mpr hstop
  case h_6 hw =>
    rw [hw] at hseen
    cases hs
    cases hstop : s.stopServer with
    | true => exact h.awake rfl rfl nofun trivial
    | false => exact h.awake rfl rfl nofun (hseen.resolve_left (by rw [hstop]; nofun))
  case h_7 =>
    split_ifs at hs
    cases hs
    exact h.extract _
  case h_2 =>
    cases hs
    cases s.stopServer <;> exact h.awake rfl rfl nofun trivial
  all_goals
    cases hs
    try exact h.awake rfl rfl nofun trivial

theorem Inv.callback (h : Inv s) {t : ι} (hs : s.callback t = some s') : Inv s' := by
  unfold Sys.callback at hs
  split at hs
  · cases hs
  · split_ifs at hs with hlocked
    cases hs
    exact h.insert (Bool.eq_false_iff.mpr hlocked) _ _
  · cases hs
    exact h.notify rfl rfl rfl rfl
  · next hpc =>
    cases hs
    refine h.moveTo (fun fd job hinserted => ?_) _
    rw [hpc] at hinserted
    cases hinserted

omit [DecidableEq ι] in
theorem Inv.stopping (h : Inv s) (hs : s.stopping = some s') : Inv s' := by
  unfold Sys.stopping at hs
  split at hs
  · split_ifs at hs with hlocked
    cases hs
    exact h.flag (Bool.eq_false_iff.mpr hlocked)
  · cases hs
    exact h.notify rfl rfl rfl rfl
  · next hpc =>
    cases hs
    refine ⟨⟨h.attentive.ready, fun hasleep hup => ?_, h.attentive.served⟩, h.seen, h.waiting⟩
    have hflagged := h.attentive.stop hasleep hup
    rw [hpc] at hflagged
    cases hflagged
  · cases hs
    exact h.notify rfl rfl rfl rfl
  · cases hs

theorem Inv.step {a : Act ι} (h : Inv s) (hs : step s a = some s') : Inv s' := by
  cases a with
  | worker => exact h.work hs
  | spurious =>
    simp only [WriteWorker.step] at hs
    split_ifs at hs
    cases hs
    exact h.awake rfl rfl nofun trivial
  | event t fd job =>
    simp only [WriteWorker.step] at hs
    by_cases hidle : s.callbacks t = .idle
    · rw [if_pos hidle] at hs
      cases hs
      refine h.moveTo (fun fd job hinserted => ?_) _
      rw [hidle] at hinserted
      cases hinserted
    · rw [if_neg hidle] at hs
      cases hs
  | callback t => exact h.callback hs
  | stop => exact h.stopping hs

end Parts

/-- **The write worker is never asleep with work to do**, in any state of any run of the worker,
any number of calls of `internal_callback`, and `stop`. -/
theorem worker_attentive [DecidableEq ι] (acts : List (Act ι)) (s : Sys ι)
    (hrun : run step (init ι) acts = some s) : Attentive s :=
  (invariant_of_run (fun _ _ _ h hs => h.step hs) inv_init hrun).attentive

/-- A descriptor is reported writable while the worker is asleep, and is sent. -/
theorem woken_and_served :
    let acts : List (Act (Fin 1)) :=
      [.worker, .worker, .worker, .event 0 7 .availableForWrite, .callback 0, .callback 0,
        .worker, .worker, .worker, .worker, .worker, .worker, .worker, .worker]
    ∃ s, run step (init (Fin 1)) acts = some s ∧
      s.log = [.slept, .inserted 7, .extracted 7, .slept] ∧ Attentive s := by
  intro acts
  exact ⟨_, rfl, by decide, worker_attentive acts _ rfl⟩

/-! ## The passes of `Ts2` -/

/-- The set is the same, and nobody has written. -/
def SameSet (s : Sys ι) (st : Ts2) : Prop := st.readyToWriteSet = s.readyToWriteSet ∧ st.Idle

/-- The extraction is the pass of a worker that finds nothing queued. -/
theorem workerPass_of_idle {st : Ts2} (hidle : st.Idle) (hne : st.readyToWriteSet.Nonempty) :
    ∃ st', st.step (.workerPass []) = some st' ∧
      st'.readyToWriteSet = st.readyToWriteSet.erase (st.readyToWriteSet.min' hne) ∧ st'.Idle := by
  have hlock : (st.internalSocketData (st.readyToWriteSet.min' hne)).lock = some { uses := 1 } := by
    rw [hidle (st.readyToWriteSet.min' hne)]
    rfl
  have hpass : ∃ st', st.step (.workerPass []) = some st' ∧
      st'.readyToWriteSet = st.readyToWriteSet.erase (st.readyToWriteSet.min' hne) := by
    simp only [Ts2.step, Ts2.workerPass, dif_pos hne, hlock, Option.bind_some, drainLoop]
    exact ⟨_, if_pos ⟨rfl, fun c hc => by cases hc⟩, rfl⟩
  obtain ⟨st', hst', hset⟩ := hpass
  exact ⟨st', hst', hset, Ts2.idle_step hidle hst'⟩

section Simulation

variable {s s' : Sys ι} {st : Ts2}

/-- A step that leaves the set alone is answered by no operation. -/
theorem SameSet.stay (h : SameSet s st) (hset : s'.readyToWriteSet = s.readyToWriteSet) :
    ∃ m st', run Ts2.step st m = some st' ∧ SameSet s' st' :=
  ⟨[], st, rfl, h.1.trans hset.symm, h.2⟩

theorem SameSet.work (h : SameSet s st) (hs : s.work = some s') :
    ∃ m st', run Ts2.step st m = some st' ∧ SameSet s' st' := by
  unfold Sys.work at hs
  split at hs
  case h_7 =>
    split_ifs at hs with hne
    cases hs
    have hset := h.1
    obtain ⟨st', hst', hset', hidle⟩ := workerPass_of_idle h.2 (by rwa [hset])
    refine ⟨[.workerPass []], st', by rw [run_singleton, hst'], ?_, hidle⟩
    rw [hset']
    simp only [hset]
  case h_3 =>
    split_ifs at hs <;> cases hs <;> exact h.stay rfl
  all_goals
    cases hs
    try exact h.stay rfl

variable [DecidableEq ι]

theorem SameSet.step {a : Act ι} (h : SameSet s st) (hs : step s a = some s') :
    ∃ m st', run Ts2.step st m = some st' ∧ SameSet s' st' := by
  cases a with
  | worker => exact h.work hs
  | spurious =>
    simp only [WriteWorker.step] at hs
    split_ifs at hs
    cases hs
    exact h.stay rfl
  | event t fd job =>
    simp only [WriteWorker.step] at hs
    split_ifs at hs <;> cases hs <;> exact h.stay rfl
  | callback t =>
    simp only [WriteWorker.step, Sys.callback] at hs
    split at hs
    · cases hs
    · next fd job _ =>
      split_ifs at hs
      cases hs
      exact ⟨[.availableForWrite fd], st.markReady fd, rfl, by rw [Ts2.markReady, h.1], h.2⟩
    · cases hs
      exact h.stay rfl
    · cases hs
      exact h.stay rfl
  | stop =>
    simp only [WriteWorker.step, Sys.stopping] at hs
    split at hs
    case h_1 =>
      split_ifs at hs
      cases hs
      exact h.stay rfl
    all_goals
      cases hs
      try exact h.stay rfl

/-- `readyToWriteSet` changes as it does under the operations of `Ts2`. -/
theorem set_of_worker (acts : List (Act ι)) (s : Sys ι)
    (hrun : run WriteWorker.step (init ι) acts = some s) :
    ∃ m st, run Ts2.step Ts2.init m = some st ∧ st.readyToWriteSet = s.readyToWriteSet := by
  have hstart : SameSet (init ι) Ts2.init := ⟨rfl, fun _ => rfl⟩
  obtain ⟨m, st, hm, hR⟩ := run_of_simulation (fun _ _ _ _ h hs => h.step hs) hstart hrun
  exact ⟨m, st, hm, hR.1⟩

end Simulation

end WriteWorker

end Nbuss
