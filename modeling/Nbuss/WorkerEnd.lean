import Mathlib.Data.Fintype.Option
import Nbuss.SocketWaiters
import Nbuss.WriteWorker

/-!
# The end of the write worker

`ThreadedServer2::stop` joins the write worker, which may be anywhere in its loop.  It may even be
asleep: at the head of the loop on `readyToWriteCv`, which `stop` notifies, or inside a pass, in
`sd.lock()`, behind a thread that closes the same descriptor.  The order to stop does not reach it
there, and only that other thread can let it go.

This module puts the two models together.  `WriteWorker` has the loop and those who wake the
worker at its head; there a pass is one step.  `SocketWaiters` has, for one descriptor, the threads
that share its `SocketData`.  Here the worker is one of these threads for every descriptor
(`none`), the extraction of a descriptor begins its pass there, and the pass is over when the
worker is idle there again.  The other threads are of any number.  They write, close and clean up
whenever they like, and the `cleanup` that `internal_callback` makes is one of them.

Nothing is ever in a write queue (`Drained`), so a pass has nine steps, and three more for each
time the worker is woken in `sd.lock()` and has to look again.  How often that happens is not
bounded: whenever it wakes, another closer may be there before it.

`internalSocketDataMutex` is left out: it is held for one look into a map, and nobody waits for
anything meanwhile.
-/

namespace Nbuss

open Transition

/-! ## The write worker -/

namespace WriteWorker

/-- The steps the worker can still make once it is to stop. -/
def Pc.stepsLeft : Pc → ℕ
  | .ended => 0
  | .entered | .leaving => 1
  | .head | .testing => 2
  | .asleep | .woken | .draining _ => 3
  | .extracting => 4

def Sys.stepsLeft {ι : Type*} (s : Sys ι) : ℕ := s.worker.stepsLeft

/-- A step of the worker. -/
def ofWorker {ι : Type*} : Act ι → Bool
  | .worker => true
  | _ => false

section Steps

variable {ι : Type*} {s s' : Sys ι}

/-- Each step of a worker that is to stop brings it nearer to its end, and takes nothing out of
the set unless it was about to. -/
theorem work_stepsLeft (hs : s.work = some s') (hstop : s.stopServer = true) :
    s'.worker.stepsLeft + 1 = s.worker.stepsLeft ∧ s'.worker ≠ .extracting ∧
      (s.worker ≠ .extracting → s'.readyToWriteSet = s.readyToWriteSet) := by
  unfold Sys.work at hs
  split at hs
  case h_3 hw =>
    rw [if_neg (by simp [hstop])] at hs
    cases hs
    exact ⟨by rw [hw]; rfl, nofun, fun _ => rfl⟩
  case h_7 hw =>
    split_ifs at hs
    cases hs
    exact ⟨by rw [hw]; rfl, nofun, fun hne => absurd hw hne⟩
  case h_4 | h_9 => cases hs
  case h_2 hw | h_6 hw =>
    cases hs
    simp only [hstop, if_true, hw]
    exact ⟨rfl, nofun, fun _ => trivial⟩
  case h_1 hw | h_5 hw | h_8 hw =>
    cases hs
    rw [hw]
    exact ⟨rfl, nofun, fun _ => rfl⟩

variable [DecidableEq ι]

/-- What the others do to the worker is to wake it. -/
theorem worker_of_others {a : Act ι} (hs : step s a = some s') (ha : ofWorker a = false) :
    (s'.worker = s.worker ∨ s'.worker = s.worker.notified) ∧
      s.readyToWriteSet ⊆ s'.readyToWriteSet := by
  cases a with
  | worker => cases ha
  | spurious =>
    simp only [step] at hs
    split_ifs at hs with hw
    cases hs
    exact ⟨.inr (by rw [hw]; rfl), subset_rfl⟩
  | event t fd job =>
    simp only [step] at hs
    split_ifs at hs <;> cases hs <;> exact ⟨.inl rfl, subset_rfl⟩
  | callback t =>
    simp only [step, Sys.callback] at hs
    split at hs
    · cases hs
    · split_ifs at hs
      cases hs
      exact ⟨.inl rfl, Finset.subset_insert ..⟩
    · cases hs
      exact ⟨.inr rfl, subset_rfl⟩
    · cases hs
      exact ⟨.inl rfl, subset_rfl⟩
  | stop =>
    simp only [step, Sys.stopping] at hs
    split at hs
    · split_ifs at hs
      cases hs
      exact ⟨.inl rfl, subset_rfl⟩
    all_goals cases hs
    · exact ⟨.inr rfl, subset_rfl⟩
    · exact ⟨.inl rfl, subset_rfl⟩
    · exact ⟨.inr rfl, subset_rfl⟩

/-- The order to stop is not taken back, and is given only while the worker has not the mutex. -/
theorem stopServer_step {a : Act ι} (hs : step s a = some s') :
    (s.stopServer = true → s'.stopServer = true) ∧
      (s.stopServer = false → s'.stopServer = true → s'.worker.locked = false) := by
  cases a with
  | worker =>
    have hkeep : s'.stopServer = s.stopServer := by
      simp only [step, Sys.work] at hs
      split at hs <;> try split_ifs at hs
      all_goals first | cases hs; rfl | cases hs
    rw [hkeep]
    exact ⟨id, fun hdown hup => absurd (hdown.symm.trans hup) Bool.false_ne_true⟩
  | stop =>
    simp only [step, Sys.stopping] at hs
    split at hs
    · split_ifs at hs with hlocked
      cases hs
      exact ⟨fun _ => rfl, fun _ _ => Bool.eq_false_iff.mpr hlocked⟩
    all_goals
      cases hs
      try exact ⟨id, fun hdown hup => absurd (hdown.symm.trans hup) Bool.false_ne_true⟩
  | spurious | event | callback =>
    have hkeep : s'.stopServer = s.stopServer := by
      simp only [step, Sys.callback] at hs
      split at hs <;> try split_ifs at hs
      all_goals first | cases hs; rfl | cases hs
    rw [hkeep]
    exact ⟨id, fun hdown hup => absurd (hdown.symm.trans hup) Bool.false_ne_true⟩

/-- A worker that is to stop extracts nothing. -/
structure Ending (s : Sys ι) : Prop where
  inv : Inv s
  idle : s.stopServer = true → s.worker ≠ .extracting

theorem Ending.step {a : Act ι} (h : Ending s) (hs : WriteWorker.step s a = some s') :
    Ending s' := by
  refine ⟨h.inv.step hs, fun hup => ?_⟩
  cases hdown : s.stopServer with
  | false =>
    have hunlocked := (stopServer_step hs).2 hdown hup
    rintro hw
    rw [hw] at hunlocked
    cases hunlocked
  | true =>
    cases a with
    | worker => exact (work_stepsLeft hs hdown).2.1
    | spurious | event | callback | stop =>
      have hidle := h.idle hdown
      rcases (worker_of_others hs rfl).1 with hw | hw <;> rw [hw]
      · exact hidle
      · intro hnotified
        cases hpc : s.worker <;> rw [hpc] at hnotified <;> cases hnotified
        exact hidle hpc

/-- The worker is on its way out. -/
structure Leaving (s : Sys ι) : Prop extends Ending s where
  stopServer : s.stopServer = true

theorem Leaving.step {a : Act ι} (h : Leaving s) (hs : WriteWorker.step s a = some s') :
    Leaving s' :=
  ⟨h.toEnding.step hs, (stopServer_step hs).1 h.stopServer⟩

theorem Leaving.readyToWriteSet {a : Act ι} (h : Leaving s)
    (hs : WriteWorker.step s a = some s') : s.readyToWriteSet ⊆ s'.readyToWriteSet := by
  cases a with
  | worker => rw [(work_stepsLeft hs h.stopServer).2.2 (h.idle h.stopServer)]
  | spurious | event | callback | stop => exact (worker_of_others hs rfl).2

theorem Pc.stepsLeft_notified (p : Pc) : p.notified.stepsLeft = p.stepsLeft := by
  cases p <;> rfl

/-- A worker on its way out has ended, or can move, or is about to be woken by `stop`. -/
theorem Leaving.canMove (h : Leaving s) :
    s.worker = .ended ∨ (WriteWorker.step s .worker).isSome = true ∨
      s.worker = .asleep ∧ ∃ u, WriteWorker.step s .stop = some u ∧ u.worker = .woken := by
  cases hw : s.worker with
  | ended => exact .inl rfl
  | asleep =>
    have hflagged := h.inv.attentive.stop hw h.stopServer
    refine .inr (.inr ⟨rfl, { s with worker := s.worker.notified, stop := .terminating }, ?_, ?_⟩)
    · simp only [WriteWorker.step, Sys.stopping, hflagged]
    · show s.worker.notified = .woken
      rw [hw]
      rfl
  | extracting => exact absurd hw (h.idle h.stopServer)
  | testing =>
    refine .inr (.inl ?_)
    simp only [WriteWorker.step, Sys.work, hw, h.stopServer]
    rfl
  | head | entered | woken | leaving | draining =>
    refine .inr (.inl ?_)
    simp only [WriteWorker.step, Sys.work, hw]
    rfl

end Steps

end WriteWorker

/-! ## The two systems together -/

namespace WorkerEnd

open SocketWaiters (Loc genuine mover)

/-- The worker with those who wake it, and the threads that share each `SocketData`; `none` is the
worker. -/
structure Sys (ι κ : Type*) where
  front : WriteWorker.Sys ι := {}
  sockets : ℕ → SocketWaiters.Sys (Option κ) := fun _ => SocketWaiters.init (Option κ)

inductive Act (ι κ : Type*) where
  | front (a : WriteWorker.Act ι)
  | socket (fd : ℕ) (a : SocketWaiters.Act (Option κ))
  deriving DecidableEq, Repr

variable {ι κ : Type*}

/-- The worker begins a pass when it has extracted a descriptor, and at no other time; nobody else
drains a queue. -/
def allowed : SocketWaiters.Act (Option κ) → Bool
  | .thread none (.startWrite _) | .thread none (.startBody _) => false
  | .thread (some _) (.startBody .drain) => false
  | _ => true

section Step

variable [DecidableEq κ] [Fintype κ]

/-- `ThreadedServer2::write_queue_worker` outside of its passes. -/
def Sys.work (s : Sys ι κ) : Option (Sys ι κ) :=
  s.front.work.bind fun v =>
    match s.front.worker, v.worker with
    | .extracting, .draining fd =>
      (SocketWaiters.step (s.sockets fd) (.thread none (.startBody .drain))).map fun sd =>
        ⟨v, Function.update s.sockets fd sd⟩
    | .draining fd, _ =>
      if (s.sockets fd).loc none = .at .idle then some { s with front := v } else none
    | _, _ => some { s with front := v }

def step [DecidableEq ι] (s : Sys ι κ) : Act ι κ → Option (Sys ι κ)
  | .front .worker => s.work
  | .front a => (WriteWorker.step s.front a).map fun v => { s with front := v }
  | .socket fd a =>
    if allowed a then
      (SocketWaiters.step (s.sockets fd) a).map fun sd =>
        { s with sockets := Function.update s.sockets fd sd }
    else none

end Step

/-- `start` has created the worker. -/
def init (ι κ : Type*) : Sys ι κ := {}

/-- A step of the worker in a pass. -/
def inside (a : SocketWaiters.Act (Option κ)) : Bool := (mover a).isNone

/-- The worker wakes in `sd.lock()`. -/
def wakes : SocketWaiters.Act (Option κ) → Bool
  | .thread none .wake => true
  | _ => false

/-- A step of the worker, at the head of its loop or in a pass. -/
def ofWorker : Act ι κ → Bool
  | .front .worker => true
  | .front _ => false
  | .socket _ a => inside a

/-- How much longer a step makes the way of the worker. -/
def delay : Act ι κ → ℕ
  | .front _ => 0
  | .socket _ a => 3 * (wakes a).toNat

/-! ## A pass of the worker -/

section Pass

open SocketLocks (Pc Shared move)

/-- Where the worker can stand in a pass, with nothing to send; or it is not in one. -/
def inPass : Loc → Bool
  | .at .idle | .at (.lockMutex .drain) | .at (.lockTest .drain) | .at (.lockWait .drain)
  | .at (.lockInc .drain) | .at (.lockUnlock .drain) | .at .drainTest | .at .releaseMutex
  | .at .releaseDec | .at .releaseUnlock | .picked .drain | .notifying => true
  | _ => false

/-- The steps left in the pass, if the lock is free when the worker looks. -/
def passSteps : Loc → ℕ
  | .at (.lockMutex _) => 9
  | .at (.lockTest _) => 8
  | .at (.lockInc _) | .at (.lockWait _) | .picked _ => 7
  | .at (.lockUnlock _) => 6
  | .at .drainTest => 5
  | .at .releaseMutex => 4
  | .at .releaseDec => 3
  | .at .releaseUnlock => 2
  | .notifying => 1
  | _ => 0

theorem passSteps_le (l : Loc) : passSteps l ≤ 9 := by
  cases l with
  | «at» p => cases p <;> simp [passSteps]
  | picked | notifying => simp [passSteps]

/-- Nothing is queued, and nobody is sending from the queue. -/
structure Drained (v : SocketWaiters.Sys (Option κ)) : Prop where
  queue : v.shared.sd.writeQueue = []
  sending : ∀ t item sent, v.loc t ≠ .at (.drainSend item sent)

/-- With nothing in the queue nobody begins to send, and nobody puts anything back. -/
theorem queue_move {sh sh' : Shared (Option κ)} {t : Option κ} {p p' : Pc} {a : SocketLocks.Act}
    (hm : move sh t p a = some (sh', p')) (hqueue : sh.sd.writeQueue = [])
    (hp : ∀ item sent, p ≠ .drainSend item sent) :
    sh'.sd.writeQueue = [] ∧ ∀ item sent, p' ≠ .drainSend item sent := by
  unfold move at hm
  split at hm
  all_goals try split_ifs at hm
  all_goals try split at hm
  all_goals cases hm
  all_goals first
    | exact absurd rfl (hp _ _)
    | exact ⟨hqueue, nofun⟩
    | exact ⟨rfl, nofun⟩
    | (rw [hqueue] at *; contradiction)

/-- The worker goes on in its pass. -/
theorem pass_move {sh sh' : Shared (Option κ)} {p p' : Pc} {a : SocketLocks.Act}
    (hm : move sh none p a = some (sh', p')) (hin : inPass (.at p) = true)
    (hqueue : sh.sd.writeQueue = [])
    (ha : allowed (.thread none a : SocketWaiters.Act (Option κ))) :
    p ≠ .idle ∧ inPass (Loc.after p p') = true ∧
      passSteps (Loc.after p p') + 1 ≤
        passSteps (.at p) + 3 * (wakes (.thread none a : SocketWaiters.Act (Option κ))).toNat := by
  unfold move at hm
  split at hm
  all_goals try split_ifs at hm
  all_goals try split at hm
  -- the places outside a pass, and the beginnings, are excluded
  all_goals try cases ‹SocketLocks.Body›
  all_goals first
    | (cases hin; done)
    | (cases ha; done)
    | (cases hm; exact ⟨nofun, rfl, Nat.le_of_ble_eq_true rfl⟩)
    | (rw [hqueue] at *; contradiction)

/-- What a step at the `SocketData` does to the pass of the worker. -/
structure PassStep (v v' : SocketWaiters.Sys (Option κ)) (a : SocketWaiters.Act (Option κ)) :
    Prop where
  drained : Drained v'
  inPass : inPass (v'.loc none) = true
  steps : passSteps (v'.loc none) + (inside a).toNat ≤
    passSteps (v.loc none) + 3 * (wakes a).toNat
  idle : v.loc none = .at .idle → v'.loc none = .at .idle ∧ inside a = false

variable [DecidableEq κ]

theorem Drained.update {v : SocketWaiters.Sys (Option κ)} (h : Drained v) {sh : Shared (Option κ)}
    {t : Option κ} {l : Loc} (hqueue : sh.sd.writeQueue = [])
    (hl : ∀ item sent, l ≠ .at (.drainSend item sent)) :
    Drained (⟨sh, Function.update v.loc t l⟩ : SocketWaiters.Sys (Option κ)) where
  queue := hqueue
  sending u item sent hu := by
    rcases Threads.update_cases hu with ⟨-, hsend⟩ | ⟨-, hsend⟩
    · exact hl item sent hsend
    · exact h.sending u item sent hsend

/-- The worker stays where it is. -/
theorem update_none (f : Option κ → Loc) (k : κ) (l : Loc) :
    Function.update f (some k) l none = f none :=
  Function.update_of_ne (Option.some_ne_none k).symm ..

omit [DecidableEq κ] in
/-- Another thread moves. -/
theorem PassStep.other {v v' : SocketWaiters.Sys (Option κ)} {a : SocketWaiters.Act (Option κ)}
    (hdrained : Drained v') (hin : WorkerEnd.inPass (v.loc none) = true)
    (hloc : v'.loc none = v.loc none) (ha : inside a = false) : PassStep v v' a where
  drained := hdrained
  inPass := by rwa [hloc]
  steps := by
    rw [hloc, ha]
    exact Nat.le_add_right ..
  idle hidle := ⟨hloc.trans hidle, ha⟩

omit [DecidableEq κ] in
/-- The worker moves. -/
theorem PassStep.own {v v' : SocketWaiters.Sys (Option κ)} {a : SocketWaiters.Act (Option κ)}
    {l l' : Loc} (hdrained : Drained v') (hl : v.loc none = l) (hl' : v'.loc none = l')
    (hne : l ≠ .at .idle) (hin : WorkerEnd.inPass l' = true)
    (hsteps : passSteps l' + 1 ≤ passSteps l + 3 * (wakes a).toNat) : PassStep v v' a where
  drained := hdrained
  inPass := by rwa [hl']
  steps := by
    rw [hl, hl']
    exact (Nat.add_le_add_left (Bool.toNat_le _) _).trans hsteps
  idle hidle := absurd (hl.symm.trans hidle) hne

theorem passStep_thread {v v' : SocketWaiters.Sys (Option κ)} {t : Option κ}
    {a : SocketLocks.Act} (ha : allowed (.thread t a : SocketWaiters.Act (Option κ)) = true)
    (hs : SocketWaiters.stepThread v t a = some v') (hdrained : Drained v)
    (hin : inPass (v.loc none) = true) : PassStep v v' (.thread t a) := by
  rcases SocketWaiters.stepThread_cases hs with ⟨p, sh, p', hp, hm, rfl⟩ | ⟨b, hb, rfl, rfl⟩
  · obtain ⟨hqueue, hsend⟩ := queue_move hm hdrained.queue fun item sent heq =>
      hdrained.sending t item sent (heq ▸ hp)
    have hnext : Drained (⟨sh, Function.update v.loc t (Loc.after p p')⟩ :
        SocketWaiters.Sys (Option κ)) := by
      refine hdrained.update hqueue fun item sent => ?_
      unfold Loc.after
      split_ifs
      · exact nofun
      · exact fun heq => hsend item sent (Loc.at.inj heq)
    cases t with
    | none =>
      rw [hp] at hin
      obtain ⟨hne, hpass, hsteps⟩ := pass_move hm hin hdrained.queue ha
      have hself : Function.update v.loc none (Loc.after p p') none = Loc.after p p' :=
        Function.update_self ..
      exact .own hnext hp hself (fun heq => hne (Loc.at.inj heq)) hpass hsteps
    | some k => exact .other hnext hin (update_none v.loc k (Loc.after p p')) rfl
  · have hnext : Drained (⟨v.shared, Function.update v.loc t (.at (.lockMutex b))⟩ :
        SocketWaiters.Sys (Option κ)) := hdrained.update hdrained.queue nofun
    cases t with
    | none =>
      rw [hb] at hin
      cases b with
      | drain =>
        have hself : Function.update v.loc none (.at (.lockMutex .drain)) none =
            .at (.lockMutex .drain) := Function.update_self ..
        exact .own hnext hb hself nofun rfl le_rfl
      | close | cleanup => cases hin
    | some k => exact .other hnext hin (update_none v.loc k (.at (.lockMutex b))) rfl

variable [Fintype κ]

/-- A `notify_one` of `release()`, of the worker or of somebody else, who may pick the worker. -/
theorem passStep_notify {v v' : SocketWaiters.Sys (Option κ)} {t : Option κ}
    {w : Option (Option κ)} (hs : SocketWaiters.step v (.notify t w) = some v')
    (hdrained : Drained v) (hin : inPass (v.loc none) = true) : PassStep v v' (.notify t w) := by
  simp only [SocketWaiters.step] at hs
  split_ifs at hs with ht
  obtain ⟨loc, hloc, rfl⟩ := Option.map_eq_some_iff.mp hs
  have hdone : Drained (⟨v.shared, Function.update v.loc t (.at .idle)⟩ :
      SocketWaiters.Sys (Option κ)) := hdrained.update hdrained.queue (by simp)
  have hself : Function.update v.loc t (.at .idle) t = .at .idle := Function.update_self ..
  rcases Threads.notifyOne_eq_some hloc with ⟨u, -, hu, rfl⟩ | ⟨-, -, rfl⟩
  · have hpicked : ∃ b, Function.update v.loc t (.at .idle) u = .at (.lockWait b) := by
      cases hl : Function.update v.loc t (.at .idle) u with
      | «at» p =>
        rw [hl] at hu
        cases p with
        | lockWait b => exact ⟨b, rfl⟩
        | _ => cases hu
      | picked | notifying =>
        rw [hl] at hu
        cases hu
    obtain ⟨b, hb⟩ := hpicked
    have hnext : Drained (⟨v.shared, Function.update (Function.update v.loc t (.at .idle)) u
        (Function.update v.loc t (.at .idle) u).pick⟩ : SocketWaiters.Sys (Option κ)) := by
      rw [hb]
      exact hdone.update hdrained.queue (by simp [Loc.pick])
    cases t with
    | none =>
      have hu : none ≠ u := by
        rintro rfl
        rw [Function.update_self] at hb
        cases hb
      exact .own hnext ht ((Function.update_of_ne hu ..).trans hself) (by simp) rfl le_rfl
    | some k =>
      have hsame := update_none v.loc k (.at .idle)
      by_cases hu : none = u
      · -- the worker is picked
        subst hu
        have hpick : (Function.update (Function.update v.loc (some k) (.at .idle)) none
            (Function.update v.loc (some k) (.at .idle) none).pick) none = .picked b := by
          rw [Function.update_self, hb]
          rfl
        rw [hsame] at hb
        rw [hb] at hin
        cases b with
        | drain =>
          refine ⟨hnext, ?_, ?_, fun hidle => ?_⟩
          · exact (congrArg inPass hpick).trans rfl
          · exact ((congrArg passSteps hpick).trans (congrArg passSteps hb).symm).le
          · rw [hb] at hidle
            cases hidle
        | close | cleanup => cases hin
      · exact .other hnext hin ((Function.update_of_ne hu ..).trans hsame) rfl
  · cases t with
    | none => exact .own hdone ht hself (by simp) rfl le_rfl
    | some k => exact .other hdone hin (update_none v.loc k (.at .idle)) rfl

theorem passStep {v v' : SocketWaiters.Sys (Option κ)} {a : SocketWaiters.Act (Option κ)}
    (ha : allowed a = true) (hs : SocketWaiters.step v a = some v') (hdrained : Drained v)
    (hin : inPass (v.loc none) = true) : PassStep v v' a := by
  cases a with
  | thread t a => exact passStep_thread ha hs hdrained hin
  | notify t w => exact passStep_notify hs hdrained hin

end Pass

/-! ## The invariant -/

section Inv

variable [DecidableEq ι] [DecidableEq κ] [Fintype κ] {s s' : Sys ι κ} {a : Act ι κ}

/-- What a step does. -/
inductive Step (s : Sys ι κ) : Act ι κ → Sys ι κ → Prop
  /-- Somebody else at the head of the loop. -/
  | front {a : WriteWorker.Act ι} {v : WriteWorker.Sys ι} (hv : WriteWorker.step s.front a = some v)
      (ha : WriteWorker.ofWorker a = false) : Step s (.front a) { s with front := v }
  /-- The worker, outside of a pass. -/
  | work {v : WriteWorker.Sys ι} (hv : s.front.work = some v) (hne : s.front.worker ≠ .extracting)
      (hpass : ∀ fd, s.front.worker = .draining fd → (s.sockets fd).loc none = .at .idle) :
      Step s (.front .worker) { s with front := v }
  /-- The worker begins a pass. -/
  | extract {v : WriteWorker.Sys ι} {fd : ℕ} {sd : SocketWaiters.Sys (Option κ)}
      (hv : s.front.work = some v) (hw : s.front.worker = .extracting)
      (hfd : v.worker = .draining fd)
      (hsd : SocketWaiters.step (s.sockets fd) (.thread none (.startBody .drain)) = some sd) :
      Step s (.front .worker) ⟨v, Function.update s.sockets fd sd⟩
  | socket {fd : ℕ} {a : SocketWaiters.Act (Option κ)} {sd : SocketWaiters.Sys (Option κ)}
      (ha : allowed a = true) (hsd : SocketWaiters.step (s.sockets fd) a = some sd) :
      Step s (.socket fd a) { s with sockets := Function.update s.sockets fd sd }

theorem Step.of_work (hs : s.work = some s') : Step s (.front .worker) s' := by
  obtain ⟨v, hv, hs⟩ := Option.bind_eq_some_iff.mp hs
  split at hs
  · next fd hw hfd =>
    obtain ⟨sd, hsd, rfl⟩ := Option.map_eq_some_iff.mp hs
    exact .extract hv hw hfd hsd
  · next fd hw =>
    split_ifs at hs with hidle
    cases hs
    refine .work hv (by rw [hw]; nofun) fun fd' hfd' => ?_
    rw [hw] at hfd'
    cases hfd'
    exact hidle
  · next hdrain hextract =>
    cases hs
    refine .work hv (fun hw => ?_) fun fd hfd => (hdrain fd hfd).elim
    -- an extraction leads to a pass
    simp only [WriteWorker.Sys.work, hw] at hv
    split_ifs at hv
    cases hv
    exact hextract _ hw rfl

theorem Step.of_step (hs : step s a = some s') : Step s a s' := by
  cases a with
  | front a =>
    cases a with
    | worker => exact .of_work hs
    | spurious | event | callback | stop =>
      obtain ⟨v, hv, rfl⟩ := Option.map_eq_some_iff.mp hs
      exact .front hv rfl
  | socket fd a =>
    simp only [step] at hs
    split_ifs at hs with ha
    obtain ⟨sd, hsd, rfl⟩ := Option.map_eq_some_iff.mp hs
    exact .socket ha hsd

/-- The worker is in a pass at the descriptor it has extracted, and nowhere else. -/
structure Inv (s : Sys ι κ) : Prop where
  front : WriteWorker.Ending s.front
  waiters : ∀ fd, SocketWaiters.Inv (s.sockets fd)
  drained : ∀ fd, Drained (s.sockets fd)
  inPass : ∀ fd, inPass ((s.sockets fd).loc none) = true
  elsewhere : ∀ fd, s.front.worker ≠ .draining fd → (s.sockets fd).loc none = .at .idle

omit [DecidableEq ι] [DecidableEq κ] in
theorem inv_init : Inv (init ι κ) where
  front := ⟨WriteWorker.inv_init, nofun⟩
  waiters _ := SocketWaiters.inv_init
  drained _ := ⟨rfl, nofun⟩
  inPass _ := rfl
  elsewhere _ _ := rfl

omit [DecidableEq ι] [DecidableEq κ] in
/-- One `SocketData` changes. -/
theorem Inv.setSocket (h : Inv s) {v : WriteWorker.Sys ι} {fd : ℕ}
    {sd : SocketWaiters.Sys (Option κ)} (hfront : WriteWorker.Ending v)
    (hwaiters : SocketWaiters.Inv sd) (hdrained : Drained sd)
    (hin : WorkerEnd.inPass (sd.loc none) = true)
    (hhere : v.worker ≠ .draining fd → sd.loc none = .at .idle)
    (hthere : ∀ fd', fd' ≠ fd → v.worker ≠ .draining fd' → s.front.worker ≠ .draining fd') :
    Inv ⟨v, Function.update s.sockets fd sd⟩ := by
  have hcases : ∀ (P : ℕ → SocketWaiters.Sys (Option κ) → Prop), P fd sd →
      (∀ fd', fd' ≠ fd → P fd' (s.sockets fd')) →
      ∀ fd', P fd' (Function.update s.sockets fd sd fd') := by
    intro P hself hother fd'
    by_cases hfd : fd' = fd
    · rw [hfd, Function.update_self]
      exact hself
    · rw [Function.update_of_ne hfd]
      exact hother fd' hfd
  refine ⟨hfront, hcases (fun _ => SocketWaiters.Inv) hwaiters fun fd' _ => h.waiters fd',
    hcases (fun _ => Drained) hdrained fun fd' _ => h.drained fd',
    hcases (fun _ sd => WorkerEnd.inPass (sd.loc none) = true) hin fun fd' _ => h.inPass fd',
    hcases (fun fd' sd => v.worker ≠ .draining fd' → sd.loc none = .at .idle) hhere ?_⟩
  exact fun fd' hfd hne => h.elsewhere fd' (hthere fd' hfd hne)

omit [DecidableEq κ] [Fintype κ] [DecidableEq ι] in
/-- Outside of an extraction no pass begins. -/
theorem work_ne_draining {v w : WriteWorker.Sys ι} (hs : v.work = some w)
    (hne : v.worker ≠ .extracting) (fd : ℕ) : w.worker ≠ .draining fd := by
  unfold WriteWorker.Sys.work at hs
  split at hs
  case h_7 hw => exact absurd hw hne
  case h_2 | h_6 =>
    cases hs
    dsimp only
    split_ifs <;> nofun
  case h_3 =>
    split_ifs at hs <;> cases hs <;> nofun
  all_goals cases hs <;> nofun

omit [DecidableEq κ] [Fintype κ] in
/-- The others do not end a pass. -/
theorem draining_of_others {v w : WriteWorker.Sys ι} {a : WriteWorker.Act ι}
    (hs : WriteWorker.step v a = some w) (ha : WriteWorker.ofWorker a = false) (fd : ℕ) :
    w.worker = .draining fd ↔ v.worker = .draining fd := by
  rcases (WriteWorker.worker_of_others hs ha).1 with hw | hw <;> rw [hw]
  cases v.worker <;> simp [WriteWorker.Pc.notified]

theorem Inv.step (h : Inv s) (hs : step s a = some s') : Inv s' := by
  cases Step.of_step hs with
  | front hv ha =>
    refine ⟨h.front.step hv, h.waiters, h.drained, h.inPass, fun fd hne => ?_⟩
    exact h.elsewhere fd fun hw => hne ((draining_of_others hv ha fd).mpr hw)
  | work hv hne hpass =>
    have hfront := h.front.step (show WriteWorker.step s.front .worker = some _ from hv)
    refine ⟨hfront, h.waiters, h.drained, h.inPass, fun fd _ => ?_⟩
    by_cases hw : s.front.worker = .draining fd
    · exact hpass fd hw
    · exact h.elsewhere fd hw
  | @extract v fd sd hv hw hfd hsd =>
    have hfront := h.front.step (show WriteWorker.step s.front .worker = some _ from hv)
    have hidle := h.elsewhere fd (by simp [hw])
    have hsd' : sd = ⟨(s.sockets fd).shared,
        Function.update (s.sockets fd).loc none (.at (.lockMutex .drain))⟩ := by
      simpa [SocketWaiters.step, SocketWaiters.stepThread, hidle, SocketLocks.move, Loc.after]
        using hsd.symm
    have hloc : sd.loc none = .at (.lockMutex .drain) := by
      subst hsd'
      simp
    refine h.setSocket hfront ((h.waiters fd).step hsd) ?_ (by rw [hloc]; rfl) ?_ ?_
    · rw [hsd']
      exact (h.drained fd).update (h.drained fd).queue (by simp)
    · exact fun hne => absurd hfd hne
    · intro fd' _ _
      simp [hw]
  | @socket fd a sd ha hsd =>
    have hstep := passStep ha hsd (h.drained fd) (h.inPass fd)
    refine h.setSocket h.front ((h.waiters fd).step hsd) hstep.drained hstep.inPass ?_ ?_
    · exact fun hne => (hstep.idle (h.elsewhere fd hne)).1
    · exact fun _ _ hne => hne

/-! ## The way out -/

/-- The worker is to stop. -/
structure Leaving (s : Sys ι κ) : Prop extends Inv s where
  stopServer : s.front.stopServer = true

omit [DecidableEq ι] [DecidableEq κ] in
theorem Leaving.front_leaving (h : Leaving s) : WriteWorker.Leaving s.front :=
  ⟨h.front, h.stopServer⟩

theorem Leaving.step (h : Leaving s) (hs : step s a = some s') : Leaving s' := by
  refine ⟨h.toInv.step hs, ?_⟩
  cases Step.of_step hs with
  | front hv _ => exact (WriteWorker.stopServer_step hv).1 h.stopServer
  | work hv | extract hv =>
    exact (WriteWorker.stopServer_step
      (show WriteWorker.step s.front .worker = some _ from hv)).1 h.stopServer
  | socket => exact h.stopServer

/-- The steps left in the pass of the worker. -/
def Sys.passLeft (s : Sys ι κ) : ℕ :=
  match s.front.worker with
  | .draining fd => passSteps ((s.sockets fd).loc none)
  | _ => 0

/-- The steps left to the worker. -/
def Sys.stepsLeft (s : Sys ι κ) : ℕ := s.front.stepsLeft + s.passLeft

omit [DecidableEq ι] [DecidableEq κ] [Fintype κ] in
theorem passLeft_draining {fd : ℕ} (hw : s.front.worker = .draining fd) :
    s.passLeft = passSteps ((s.sockets fd).loc none) := by
  rw [Sys.passLeft, hw]

omit [DecidableEq ι] [DecidableEq κ] [Fintype κ] in
theorem passLeft_eq_zero (hw : ∀ fd, s.front.worker ≠ .draining fd) : s.passLeft = 0 := by
  unfold Sys.passLeft
  split
  · next fd hfd => exact absurd hfd (hw fd)
  · rfl

omit [DecidableEq ι] [DecidableEq κ] [Fintype κ] in
/-- Outside the pass nothing counts that happens there. -/
theorem passLeft_congr
    (hworker : ∀ fd, s'.front.worker = .draining fd ↔ s.front.worker = .draining fd)
    (hloc : ∀ fd, s.front.worker = .draining fd →
      (s'.sockets fd).loc none = (s.sockets fd).loc none) : s'.passLeft = s.passLeft := by
  by_cases hpass : ∃ fd, s.front.worker = .draining fd
  · obtain ⟨fd, hfd⟩ := hpass
    rw [passLeft_draining hfd, passLeft_draining ((hworker fd).mpr hfd), hloc fd hfd]
  · rw [passLeft_eq_zero fun fd hfd => hpass ⟨fd, hfd⟩,
      passLeft_eq_zero fun fd hfd => hpass ⟨fd, (hworker fd).mp hfd⟩]

/-- Each step of the worker brings it nearer to its end, but for the times it is woken in
`sd.lock()`; nobody else takes it further away. -/
theorem Leaving.stepsLeft_step (h : Leaving s) (hs : WorkerEnd.step s a = some s') :
    s'.stepsLeft + (ofWorker a).toNat ≤ s.stepsLeft + delay a := by
  cases Step.of_step hs with
  | @front a v hv ha =>
    have hsteps : v.stepsLeft = s.front.stepsLeft := by
      unfold WriteWorker.Sys.stepsLeft
      rcases (WriteWorker.worker_of_others hv ha).1 with hw | hw <;> rw [hw]
      exact WriteWorker.Pc.stepsLeft_notified _
    have hpass : Sys.passLeft { s with front := v } = s.passLeft :=
      passLeft_congr (draining_of_others hv ha) fun _ _ => rfl
    have hnot : ofWorker (.front a : Act ι κ) = false := by
      cases a <;> first | rfl | cases ha
    simp only [Sys.stepsLeft, hsteps, hpass, hnot, Bool.toNat_false]
    omega
  | @work v hv hne hpass =>
    have hsteps := (WriteWorker.work_stepsLeft hv h.stopServer).1
    have hnext : Sys.passLeft { s with front := v } = 0 :=
      passLeft_eq_zero (work_ne_draining hv hne)
    simp only [Sys.stepsLeft, WriteWorker.Sys.stepsLeft, hnext, ofWorker, Bool.toNat_true, delay]
    omega
  | extract _ hw => exact absurd hw (h.front.idle h.stopServer)
  | @socket fd a sd ha hsd =>
    have hstep := passStep ha hsd (h.drained fd) (h.inPass fd)
    simp only [Sys.stepsLeft, ofWorker, delay]
    by_cases hw : s.front.worker = .draining fd
    · have hnext : Sys.passLeft { s with sockets := Function.update s.sockets fd sd } =
          passSteps (sd.loc none) := by
        simp only [Sys.passLeft, hw, Function.update_self]
      rw [hnext, passLeft_draining hw]
      have hsteps := hstep.steps
      omega
    · -- somebody else, at a descriptor where the worker is not
      have hsame : Sys.passLeft { s with sockets := Function.update s.sockets fd sd } =
          s.passLeft := by
        refine passLeft_congr (fun _ => .rfl) fun fd' hfd' => ?_
        have hne : fd' ≠ fd := by
          rintro rfl
          exact hw hfd'
        simp only [Function.update_of_ne hne]
      rw [hsame, (hstep.idle (h.elsewhere fd hw)).2, Bool.toNat_false]
      omega

omit [DecidableEq ι] [DecidableEq κ] in
theorem Leaving.stepsLeft_le (h : Leaving s) : s.stepsLeft ≤ 12 := by
  have hpass : s.passLeft ≤ 9 := by
    unfold Sys.passLeft
    split
    · exact passSteps_le _
    · exact Nat.zero_le _
  have hloop : s.front.stepsLeft ≤ 3 := by
    unfold WriteWorker.Sys.stepsLeft
    cases hw : s.front.worker with
    | extracting => exact absurd hw (h.front.idle h.stopServer)
    | _ => simp [WriteWorker.Pc.stepsLeft]
  rw [Sys.stepsLeft]
  omega

/-! ## Nobody is stuck -/

/-- The worker can go on. -/
def CanGoOn (s : Sys ι κ) : Prop :=
  (step s (.front .worker)).isSome = true ∨
    ∃ fd a, inside a = true ∧ genuine (s.sockets fd) a = true ∧
      (step s (.socket fd a)).isSome = true

/-- The worker waits for another thread at the `SocketData` of `fd`, which holds the lock or the
mutex, is about to notify, or is on its way to test the counter; and one of the others there can
go on. -/
structure HeldUp (s : Sys ι κ) (fd : ℕ) : Prop where
  draining : s.front.worker = .draining fd
  behind : ∃ k, ((s.sockets fd).loc (some k)).answerable = true
  moves : ∃ a, inside a = false ∧ genuine (s.sockets fd) a = true ∧
    (step s (.socket fd a)).isSome = true

omit [DecidableEq κ] in
theorem answerable_of_ownsMutex {l : Loc} (h : l.pc.ownsMutex = true) : l.answerable = true := by
  cases l with
  | «at» p => cases p <;> first | rfl | cases h
  | picked | notifying => rfl

omit [DecidableEq ι] in
/-- In a pass the worker can go on, or another thread is answerable for it. -/
theorem moves_or_answerable {v : SocketWaiters.Sys (Option κ)} (h : SocketWaiters.Inv v)
    (hin : inPass (v.loc none) = true) (hne : v.loc none ≠ .at .idle) :
    SocketWaiters.Moves v none ∨ ∃ k, (v.loc (some k)).answerable = true := by
  have hother : ∀ u, (v.loc u).answerable = true → u ≠ none →
      ∃ k, (v.loc (some k)).answerable = true := by
    intro u hu hun
    obtain ⟨k, rfl⟩ := Option.ne_none_iff_exists'.mp hun
    exact ⟨k, hu⟩
  have hmutex : ∀ p, v.loc none = .at p → p.ownsMutex = false →
      (v.shared.usesMutex = none → (SocketLocks.move v.shared none p .go).isSome = true) →
      SocketWaiters.Moves v none ∨ ∃ k, (v.loc (some k)).answerable = true := by
    intro p hp hown hfree
    cases hm : v.shared.usesMutex with
    | none => exact .inl (SocketWaiters.moves_of_move hp (.inl rfl) (hfree hm))
    | some u =>
      have hu := h.usesOwner u hm
      refine .inr (hother u (answerable_of_ownsMutex hu) ?_)
      rintro rfl
      rw [hp] at hu
      exact absurd (hown.symm.trans hu) Bool.false_ne_true
  cases hl : v.loc none with
  | picked | notifying => exact .inl (SocketWaiters.moves_of_free (by rw [hl]; rfl))
  | «at» p =>
    rw [hl] at hin
    cases p with
    | idle => exact absurd hl hne
    | lockMutex b => exact hmutex _ hl rfl fun hm => by simp [SocketLocks.move, hm]
    | releaseMutex => exact hmutex _ hl rfl fun hm => by simp [SocketLocks.move, hm]
    | lockWait b =>
      obtain ⟨u, hu⟩ := h.watched none (by rw [hl]; rfl)
      refine .inr (hother u hu ?_)
      rintro rfl
      rw [hl] at hu
      cases hu
    | writeMutex => cases hin
    | _ => exact .inl (SocketWaiters.moves_of_free (by rw [hl]; rfl))

theorem step_socket_isSome {fd : ℕ} {a : SocketWaiters.Act (Option κ)}
    (ha : genuine (s.sockets fd) a = true)
    (hs : (SocketWaiters.step (s.sockets fd) a).isSome = true) :
    (step s (.socket fd a)).isSome = true := by
  have hallowed : allowed a = true := by
    cases a with
    | notify => rfl
    | thread t b => cases t <;> cases b <;> first | rfl | cases ha
  simpa only [WorkerEnd.step, hallowed, if_true, Option.isSome_map] using hs

theorem Inv.pass_canMove (h : Inv s) {fd : ℕ} (hw : s.front.worker = .draining fd)
    (hne : (s.sockets fd).loc none ≠ .at .idle) : CanGoOn s ∨ HeldUp s fd := by
  have hown : ∀ a, inside a = true → genuine (s.sockets fd) a = true →
      (SocketWaiters.step (s.sockets fd) a).isSome = true → CanGoOn s :=
    fun a hin hgen hsome => .inr ⟨fd, a, hin, hgen, step_socket_isSome hgen hsome⟩
  rcases moves_or_answerable (h.waiters fd) (h.inPass fd) hne with
    ⟨a, hmover, hgen, hsome⟩ | hbehind
  · exact .inl (hown a (by rw [inside, hmover]; rfl) hgen hsome)
  · obtain ⟨a, hgen, hsome⟩ := (h.waiters fd).canMove_of_ne_idle hne
    cases hin : inside a with
    | true => exact .inl (hown a hin hgen hsome)
    | false => exact .inr ⟨hw, hbehind, a, hin, hgen, step_socket_isSome hgen hsome⟩

/-- A worker on its way out has ended, or can go on, or is about to be woken by `stop`, or is held
up at a `SocketData` by somebody who can go on. -/
theorem Leaving.canMove (h : Leaving s) :
    s.front.worker = .ended ∨ CanGoOn s ∨
      (s.front.worker = .asleep ∧
        ∃ u, WorkerEnd.step s (.front .stop) = some u ∧ u.front.worker = .woken) ∨
      ∃ fd, HeldUp s fd := by
  rcases h.front_leaving.canMove with hend | hmove | ⟨hasleep, u, hu, hwoken⟩
  · exact .inl hend
  · have hwork : s.front.work.isSome = true := hmove
    obtain ⟨v, hv⟩ := Option.isSome_iff_exists.mp hwork
    have hne : s.front.worker ≠ .extracting := h.front.idle h.stopServer
    by_cases hpass : ∃ fd, s.front.worker = .draining fd
    · obtain ⟨fd, hfd⟩ := hpass
      by_cases hidle : (s.sockets fd).loc none = .at .idle
      · refine .inr (.inl (.inl ?_))
        simp [WorkerEnd.step, Sys.work, hv, hfd, hidle]
      · rcases h.pass_canMove hfd hidle with hgo | hheld
        · exact .inr (.inl hgo)
        · exact .inr (.inr (.inr ⟨fd, hheld⟩))
    · refine .inr (.inl (.inl ?_))
      simp only [WorkerEnd.step, Sys.work, hv, Option.bind_some]
      split
      · next hw _ => exact absurd hw hne
      · next fd hw => exact absurd ⟨fd, hw⟩ hpass
      · rfl
  · refine .inr (.inr (.inl ⟨hasleep, { s with front := u }, ?_, hwoken⟩))
    simp only [WorkerEnd.step, hu, Option.map_some]

/-- What waits in `readyToWriteSet` stays there. -/
theorem Leaving.readyToWriteSet (h : Leaving s) (hs : WorkerEnd.step s a = some s') :
    s.front.readyToWriteSet ⊆ s'.front.readyToWriteSet := by
  cases Step.of_step hs with
  | front hv _ => exact h.front_leaving.readyToWriteSet hv
  | work hv | extract hv =>
    exact h.front_leaving.readyToWriteSet
      (show WriteWorker.step s.front .worker = some _ from hv)
  | socket => exact subset_rfl

end Inv

/-- **The write worker ends after `stop`.**  From any state of any run in which `stopServer` has
been set, and along every continuation, whatever `internal_callback` inserts and whoever writes,
closes and cleans up on the way: the worker makes at most twelve more steps, and three for each
time it is woken in `sd.lock()`, and extracts nothing more, so that what was in the set stays
there.  Until it has ended it can go on, or the `notify_one` that wakes it is the next step of
`stop`, or it is held up in its last pass by another thread at the same `SocketData`, and a thread
there can go on. -/
theorem worker_ends_after_stop [DecidableEq ι] [DecidableEq κ] [Fintype κ]
    (acts later : List (Act ι κ)) (s t : Sys ι κ) (hrun : run step (init ι κ) acts = some s)
    (hstop : s.front.stopServer = true) (hlater : run step s later = some t) :
    later.countP ofWorker ≤ 12 + (later.map delay).sum ∧
      s.front.readyToWriteSet ⊆ t.front.readyToWriteSet ∧
      (t.front.worker = .ended ∨ CanGoOn t ∨
        (t.front.worker = .asleep ∧
          ∃ u, step t (.front .stop) = some u ∧ u.front.worker = .woken) ∨
        ∃ fd, HeldUp t fd) := by
  have hstart : Leaving s :=
    ⟨invariant_of_run (fun _ _ _ h hs => h.step hs) inv_init hrun, hstop⟩
  refine ⟨?_, ?_, ?_⟩
  · have hcount : t.stepsLeft + later.countP ofWorker ≤ s.stepsLeft + (later.map delay).sum := by
      refine rank_add_countP_le_add_cost (I := Leaving) ?_ ?_ hstart hlater
      · exact fun _ _ _ h hs => h.step hs
      · exact fun _ _ _ h hs => h.stepsLeft_step hs
    have hbound := hstart.stepsLeft_le
    omega
  · refine (invariant_of_run
      (I := fun u => Leaving u ∧ s.front.readyToWriteSet ⊆ u.front.readyToWriteSet)
      ?_ ⟨hstart, subset_rfl⟩ hlater).2
    rintro u a v ⟨hu, hset⟩ hs
    exact ⟨hu.step hs, hset.trans (hu.readyToWriteSet hs)⟩
  · exact (invariant_of_run (fun _ _ _ h hs => h.step hs) hstart hlater : Leaving t).canMove

/-- The worker has extracted a descriptor that another thread is closing, and sleeps in
`sd.lock()` when `stop` comes; the closer wakes it, and it ends. -/
theorem worker_ends_behind_closer :
    let loop : Act (Fin 1) (Fin 1) := .front .worker
    let pass : Act (Fin 1) (Fin 1) := .socket 7 (.thread none .go)
    let closer : Act (Fin 1) (Fin 1) := .socket 7 (.thread (some 0) .go)
    let acts : List (Act (Fin 1) (Fin 1)) :=
      [.front (.event 0 7 .availableForWrite), .front (.callback 0), .front (.callback 0), loop,
        loop, loop, loop, loop, .socket 7 (.thread (some 0) (.startBody .close)), closer, closer,
        closer, closer, closer, pass, pass, .front .stop]
    let later : List (Act (Fin 1) (Fin 1)) :=
      [.front .stop, closer, closer, closer, closer, closer, closer,
        .socket 7 (.notify (some 0) (some none)), .socket 7 (.thread none .wake), pass, pass, pass,
        pass, pass, pass, pass, pass, .socket 7 (.notify none none), loop, loop, loop]
    ∃ s t, run step (init (Fin 1) (Fin 1)) acts = some s ∧ s.front.stopServer = true ∧
      ((s.sockets 7).loc none).asleep = true ∧ run step s later = some t ∧
      t.front.worker = .ended ∧ later.countP ofWorker ≤ 15 := by
  intro loop pass closer acts later
  have hstart : (run step (init (Fin 1) (Fin 1)) acts).map (fun s =>
      (s.front.stopServer, ((s.sockets 7).loc none).asleep)) = some (true, true) := by
    decide +kernel
  have hall : (run step (init (Fin 1) (Fin 1)) (acts ++ later)).map (fun t => t.front.worker) =
      some .ended := by
    decide +kernel
  obtain ⟨s, hrun, hs⟩ := Option.map_eq_some_iff.mp hstart
  obtain ⟨hstop, hasleep⟩ := Prod.mk.inj hs
  rw [run_append_of_eq_some hrun] at hall
  obtain ⟨t, hlater, hend⟩ := Option.map_eq_some_iff.mp hall
  have hdelay : (later.map delay).sum = 3 := by decide
  have hcount := (worker_ends_after_stop acts later s t hrun hstop hlater).1
  rw [hdelay] at hcount
  exact ⟨s, t, hrun, hstop, hasleep, hlater, hend, hcount⟩

end WorkerEnd

end Nbuss
