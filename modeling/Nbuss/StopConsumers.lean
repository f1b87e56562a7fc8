import Nbuss.Transition.Threads

/-!
# Consumers that `WorkQueue::stop` leaves asleep

`WorkQueue::stop` sets `consumers_must_terminate`, stops the server, calls `notify_one`
once for every consumer and joins them.  A consumer looks at the flag at the head of its
loop, without `deque_mutex`, and again after a wait; it does not look at it between
taking the mutex and going to sleep.  So a consumer that has passed the head of the loop
can go to sleep when all the notifications have been spent.

Only one number matters: the consumers that are asleep, against the notifications that
are still to come.  As long as nobody goes to sleep beyond that number (`InTime`), it
holds that everybody asleep will be notified.  Beyond it one consumer too many is asleep
from then on, and is so when `stop` joins (`Overslept`), unless a spurious wake-up
helps.

The deque is represented by its size.  The critical sections of `producer_callback` and
of the marking loop in `WorkQueue::close` are single steps that need the mutex to be
free; the marking loop changes nothing that is looked at here and is left out.
-/

namespace Nbuss

namespace StopConsumers

open Transition Threads

/-! ## The consumers and `stop` -/

/-- Where a consumer stands. -/
inductive Pc where
  /-- The test at the head of the loop. -/
  | head
  /-- `lk.lock()`. -/
  | locking
  /-- With the mutex, at the test `deque.size() == 0`. -/
  | testing
  /-- In `deque_cv.wait`, without a wake-up. -/
  | asleep
  /-- In `deque_cv.wait`, about to take the mutex again. -/
  | woken
  /-- With the mutex, at the test behind the wait. -/
  | checking
  /-- An item has been popped; up to the return of the user callback. -/
  | calling
  | ended
  deriving DecidableEq, Repr

def Pc.isAsleep : Pc → Bool
  | .asleep => true
  | _ => false

/-- Where `stop` stands. -/
inductive StopPc where
  | notCalled
  /-- The flag has been set; in `threaded_server.stop()`. -/
  | flagSet
  /-- `n` calls of `notify_one` are left. -/
  | notifying (n : ℕ)
  deriving DecidableEq, Repr

structure Sys (ι : Type*) where
  consumers : ι → Pc := fun _ => .head
  /-- The consumer that has `deque_mutex`. -/
  owner : Option ι := none
  size : ℕ
  mustTerminate : Bool := false
  /-- `producer_callback` has pushed an item and not yet called `notify_one`. -/
  pushed : Bool := false
  stop : StopPc := .notCalled

inductive Act (ι : Type*) where
  | consumer (t : ι)
  /-- A wake-up that nobody has given. -/
  | spurious (t : ι)
  | push
  /-- The `notify_one` of `producer_callback`, and who is woken. -/
  | produced (w : Option ι)
  /-- `stop` sets the flag. -/
  | setFlag
  /-- `threaded_server.stop()` returns: the listening thread has ended. -/
  | serverStopped
  /-- A `notify_one` of `stop`, and who is woken. -/
  | notify (w : Option ι)
  deriving DecidableEq, Repr

variable {ι : Type*}

/-- `start` with `size` items in the deque. -/
def init (ι : Type*) (size : ℕ) : Sys ι where
  size := size

section Step

variable [DecidableEq ι]

def Sys.moveTo (s : Sys ι) (t : ι) (p : Pc) : Sys ι :=
  { s with consumers := Function.update s.consumers t p }

/-- `WorkQueue::consumer`. -/
def Sys.consumer (s : Sys ι) (t : ι) : Option (Sys ι) :=
  match s.consumers t with
  | .head => some (s.moveTo t (if s.mustTerminate then .ended else .locking))
  | .locking => if s.owner = none then some { s.moveTo t .testing with owner := some t } else none
  | .testing =>
    if s.size = 0 then some { s.moveTo t .asleep with owner := none }
    else some { s.moveTo t .calling with owner := none, size := s.size - 1 }
  | .asleep => none
  | .woken => if s.owner = none then some { s.moveTo t .checking with owner := some t } else none
  | .checking =>
    if s.mustTerminate then some { s.moveTo t .ended with owner := none }
    else some (s.moveTo t .testing)
  | .calling => some (s.moveTo t .head)
  | .ended => none

variable [Fintype ι]

/-- `deque_cv.notify_one()`. -/
def Sys.notifyOne (s : Sys ι) (w : Option ι) : Option (Sys ι) :=
  (Threads.notifyOne Pc.isAsleep (fun _ => .woken) s.consumers w).map
    fun f => { s with consumers := f }

def step (s : Sys ι) : Act ι → Option (Sys ι)
  | .consumer t => s.consumer t
  | .spurious t => if s.consumers t = .asleep then some (s.moveTo t .woken) else none
  | .push =>
    match s.stop with
    | .notifying _ => none
    | _ =>
      if s.owner = none ∧ s.pushed = false then some { s with size := s.size + 1, pushed := true }
      else none
  | .produced w => if s.pushed then ({ s with pushed := false } : Sys ι).notifyOne w else none
  | .setFlag =>
    match s.stop with
    | .notCalled => some { s with mustTerminate := true, stop := .flagSet }
    | _ => none
  | .serverStopped =>
    match s.stop with
    | .flagSet =>
      if s.pushed then none else some { s with stop := .notifying (Fintype.card ι) }
    | _ => none
  | .notify w =>
    match s.stop with
    | .notifying (n + 1) => ({ s with stop := .notifying n } : Sys ι).notifyOne w
    | _ => none

/-- The number of consumers that are asleep. -/
def Sys.asleep (s : Sys ι) : ℕ := tally Pc.isAsleep s.consumers

end Step

/-- `stop` is past its last `notify_one`, and a consumer is asleep. -/
def LeftAsleep (s : Sys ι) : Prop := s.stop = .notifying 0 ∧ ∃ t, s.consumers t = .asleep

/-- A consumer goes to sleep only while fewer consumers are asleep than `stop` has
notifications left. -/
def InTime [Fintype ι] (s : Sys ι) : Act ι → Prop
  | .consumer t => s.consumers t = .testing → s.size = 0 → ∀ n, s.stop = .notifying n → s.asleep < n
  | _ => True

instance [Fintype ι] (s : Sys ι) : ∀ a, Decidable (InTime s a)
  | .consumer t =>
    match hstop : s.stop with
    | .notifying n =>
      decidable_of_iff (s.consumers t = .testing → s.size = 0 → s.asleep < n) (by simp [InTime, hstop])
    | .notCalled | .flagSet => isTrue (by simp [InTime, hstop])
  | .spurious _ | .push | .produced _ | .setFlag | .serverStopped | .notify _ => isTrue trivial

/-- No wake-up comes by itself. -/
def NotSpurious (_ : Sys ι) : Act ι → Prop
  | .spurious _ => False
  | _ => True

/-! ## The number of sleepers -/

section Count

variable [DecidableEq ι] [Fintype ι] {s s' : Sys ι}

theorem asleep_moveTo (s : Sys ι) (t : ι) (p : Pc) :
    (s.moveTo t p).asleep + (s.consumers t).isAsleep.toNat = s.asleep + p.isAsleep.toNat :=
  tally_update Pc.isAsleep s.consumers t p

/-- A consumer adds itself to the sleepers only at the end of the test of the deque. -/
theorem asleep_consumer {t : ι} (hs : s.consumer t = some s') :
    s'.stop = s.stop ∧ s'.pushed = s.pushed ∧
      if s.consumers t = .testing ∧ s.size = 0 then s'.asleep = s.asleep + 1
      else s'.asleep = s.asleep := by
  have hcount : ∀ p, (s.consumers t).isAsleep = false → p.isAsleep = false →
      (s.moveTo t p).asleep = s.asleep := by
    intro p hbefore hafter
    have h := asleep_moveTo s t p
    rwa [hbefore, hafter] at h
  unfold Sys.consumer at hs
  split at hs
  case h_1 hpc =>
    cases hs
    refine ⟨rfl, rfl, ?_⟩
    rw [if_neg (by simp [hpc])]
    refine hcount _ (by rw [hpc]; rfl) ?_
    split_ifs <;> rfl
  case h_2 hpc | h_5 hpc =>
    split_ifs at hs
    cases hs
    refine ⟨rfl, rfl, ?_⟩
    rw [if_neg (by simp [hpc])]
    exact hcount _ (by rw [hpc]; rfl) rfl
  case h_3 hpc =>
    split_ifs at hs with hempty <;> cases hs
    · refine ⟨rfl, rfl, ?_⟩
      have h := asleep_moveTo s t .asleep
      rw [hpc] at h
      rw [if_pos ⟨hpc, hempty⟩]
      exact h
    · refine ⟨rfl, rfl, ?_⟩
      rw [if_neg (by simp [hempty])]
      exact hcount _ (by rw [hpc]; rfl) rfl
  case h_4 | h_8 => cases hs
  case h_6 hpc =>
    split_ifs at hs <;> cases hs <;> refine ⟨rfl, rfl, ?_⟩ <;> rw [if_neg (by simp [hpc])] <;>
      exact hcount _ (by rw [hpc]; rfl) rfl
  case h_7 hpc =>
    cases hs
    refine ⟨rfl, rfl, ?_⟩
    rw [if_neg (by simp [hpc])]
    exact hcount _ (by rw [hpc]; rfl) rfl

theorem asleep_notifyOne {w : Option ι} (hs : s.notifyOne w = some s') :
    s'.stop = s.stop ∧ s'.pushed = s.pushed ∧ s'.asleep = s.asleep - 1 := by
  obtain ⟨f, hf, rfl⟩ := Option.map_eq_some_iff.mp hs
  exact ⟨rfl, rfl, tally_notifyOne (fun _ => rfl) hf⟩

omit [DecidableEq ι] in
theorem asleep_pos {t : ι} (h : s.consumers t = .asleep) : 0 < s.asleep :=
  tally_pos (p := Pc.isAsleep) (t := t) (by rw [h]; rfl)

omit [DecidableEq ι] in
theorem exists_asleep (h : 0 < s.asleep) : ∃ t, s.consumers t = .asleep := by
  obtain ⟨t, ht⟩ := Finset.card_pos.mp h
  refine ⟨t, ?_⟩
  have hasleep : (s.consumers t).isAsleep = true := (Finset.mem_filter.mp ht).2
  cases hpc : s.consumers t <;> rw [hpc] at hasleep <;> first | rfl | cases hasleep

/-- What a step does to the two numbers. -/
inductive Effect (s : Sys ι) : Act ι → Sys ι → Prop
  | quiet {t : ι} {s' : Sys ι} (hawake : ¬ (s.consumers t = .testing ∧ s.size = 0))
      (hstop : s'.stop = s.stop) (hpushed : s'.pushed = s.pushed)
      (hasleep : s'.asleep = s.asleep) : Effect s (.consumer t) s'
  | falls {t : ι} {s' : Sys ι} (htest : s.consumers t = .testing) (hempty : s.size = 0)
      (hstop : s'.stop = s.stop) (hpushed : s'.pushed = s.pushed)
      (hasleep : s'.asleep = s.asleep + 1) : Effect s (.consumer t) s'
  | spurious {t : ι} {s' : Sys ι} (hstop : s'.stop = s.stop) (hpushed : s'.pushed = s.pushed)
      (hasleep : s'.asleep ≤ s.asleep) : Effect s (.spurious t) s'
  | push {s' : Sys ι} (hgoing : ∀ n, s.stop ≠ .notifying n) (hstop : s'.stop = s.stop) :
      Effect s .push s'
  | produced {w : Option ι} {s' : Sys ι} (hgoing : s.pushed = true) (hstop : s'.stop = s.stop) :
      Effect s (.produced w) s'
  | setFlag {s' : Sys ι} (hbefore : s.stop = .notCalled) (hstop : s'.stop = .flagSet) :
      Effect s .setFlag s'
  | serverStopped {s' : Sys ι} (hbefore : s.stop = .flagSet)
      (hstop : s'.stop = .notifying (Fintype.card ι)) (hpushed : s'.pushed = false) :
      Effect s .serverStopped s'
  | notify {n : ℕ} {w : Option ι} {s' : Sys ι} (hbefore : s.stop = .notifying (n + 1))
      (hstop : s'.stop = .notifying n) (hpushed : s'.pushed = s.pushed)
      (hasleep : s'.asleep = s.asleep - 1) : Effect s (.notify w) s'

theorem Effect.of_step {a : Act ι} (hs : step s a = some s') : Effect s a s' := by
  cases a with
  | consumer t =>
    obtain ⟨hstop, hpushed, hasleep⟩ := asleep_consumer hs
    split_ifs at hasleep with hfalls
    · exact .falls hfalls.1 hfalls.2 hstop hpushed hasleep
    · exact .quiet hfalls hstop hpushed hasleep
  | spurious t =>
    simp only [step] at hs
    split_ifs at hs with ht
    cases hs
    have h := asleep_moveTo s t .woken
    rw [ht] at h
    exact .spurious rfl rfl (by simp [Pc.isAsleep] at h; omega)
  | push =>
    simp only [step] at hs
    split at hs
    · cases hs
    · next hgoing =>
      split_ifs at hs
      cases hs
      exact .push hgoing rfl
  | produced w =>
    simp only [step] at hs
    split_ifs at hs with hpushed
    exact .produced hpushed (asleep_notifyOne hs).1
  | setFlag =>
    simp only [step] at hs
    split at hs
    · next hbefore =>
      cases hs
      exact .setFlag hbefore rfl
    · cases hs
  | serverStopped =>
    simp only [step] at hs
    split at hs
    · next hbefore =>
      split_ifs at hs with hpushed
      cases hs
      exact .serverStopped hbefore rfl (by simpa using hpushed)
    · cases hs
  | notify w =>
    simp only [step] at hs
    split at hs
    · next n hbefore =>
      obtain ⟨hstop, hpushed, hasleep⟩ := asleep_notifyOne hs
      exact .notify hbefore hstop hpushed hasleep
    · cases hs

end Count

/-! ## Everybody asleep will be notified -/

section Runs

variable [Fintype ι]

/-- Once the notifications have begun, the producer is silent and they suffice. -/
structure Inv (s : Sys ι) : Prop where
  silent : ∀ n, s.stop = .notifying n → s.pushed = false
  enough : ∀ n, s.stop = .notifying n → s.asleep ≤ n

/-- The notifications do not suffice any more. -/
structure Overslept (s : Sys ι) (n : ℕ) : Prop where
  stop : s.stop = .notifying n
  silent : s.pushed = false
  tooMany : n < s.asleep

theorem inv_init (size : ℕ) : Inv (init ι size) where
  silent n h := by cases h
  enough n h := by cases h

theorem Inv.not_leftAsleep {s : Sys ι} (h : Inv s) : ¬ LeftAsleep s := by
  rintro ⟨hstop, t, ht⟩
  have hnone := h.enough 0 hstop
  have hpos := asleep_pos ht
  omega

variable [DecidableEq ι] {s s' : Sys ι} {a : Act ι}

theorem Inv.step (h : Inv s) (hg : InTime s a) (hs : step s a = some s') : Inv s' := by
  cases Effect.of_step hs with
  | quiet _ hstop hpushed hasleep =>
    refine ⟨fun n hn => ?_, fun n hn => ?_⟩ <;> rw [hstop] at hn
    · exact hpushed.trans (h.silent n hn)
    · exact hasleep.trans_le (h.enough n hn)
  | falls htest hempty hstop hpushed hasleep =>
    refine ⟨fun n hn => ?_, fun n hn => ?_⟩ <;> rw [hstop] at hn
    · exact hpushed.trans (h.silent n hn)
    · have hlt : s.asleep < n := hg htest hempty n hn
      omega
  | spurious hstop hpushed hasleep =>
    refine ⟨fun n hn => ?_, fun n hn => ?_⟩ <;> rw [hstop] at hn
    · exact hpushed.trans (h.silent n hn)
    · exact hasleep.trans (h.enough n hn)
  | push hgoing hstop =>
    refine ⟨fun n hn => ?_, fun n hn => ?_⟩ <;> exact absurd (hstop.symm.trans hn) (hgoing n)
  | produced hgoing hstop =>
    refine ⟨fun n hn => ?_, fun n hn => ?_⟩ <;> rw [h.silent n (hstop.symm.trans hn)] at hgoing <;>
      cases hgoing
  | setFlag _ hstop =>
    refine ⟨fun n hn => ?_, fun n hn => ?_⟩ <;> rw [hstop] at hn <;> cases hn
  | serverStopped _ hstop hpushed =>
    refine ⟨fun n _ => hpushed, fun n hn => ?_⟩
    rw [hstop] at hn
    cases hn
    exact tally_le_card ..
  | notify hbefore hstop hpushed hasleep =>
    refine ⟨fun n _ => hpushed.trans (h.silent _ hbefore), fun n hn => ?_⟩
    rw [hstop] at hn
    cases hn
    have hbefore := h.enough _ hbefore
    omega

/-- The consumer that goes to sleep out of time is one too many. -/
theorem Inv.overslept (h : Inv s) (hg : ¬ InTime s a) (hs : StopConsumers.step s a = some s') :
    ∃ n, Overslept s' n := by
  cases Effect.of_step hs with
  | quiet hawake =>
    exact absurd (fun htest hempty _ _ => absurd ⟨htest, hempty⟩ hawake) hg
  | falls htest hempty hstop hpushed hasleep =>
    simp only [InTime, not_forall] at hg
    obtain ⟨-, -, n, hn, hmany⟩ := hg
    exact ⟨n, hstop.trans hn, hpushed.trans (h.silent n hn), by omega⟩
  | _ => exact absurd trivial hg

/-- From then on each notification wakes one of too many. -/
theorem Overslept.step {n : ℕ} (h : Overslept s n) (hk : NotSpurious s a)
    (hs : step s a = some s') : ∃ m, Overslept s' m := by
  cases Effect.of_step hs with
  | quiet _ hstop hpushed hasleep =>
    exact ⟨n, hstop.trans h.stop, hpushed.trans h.silent, hasleep ▸ h.tooMany⟩
  | falls _ _ hstop hpushed hasleep =>
    have hmany := h.tooMany
    exact ⟨n, hstop.trans h.stop, hpushed.trans h.silent, by omega⟩
  | spurious => exact absurd hk id
  | push hgoing => exact absurd h.stop (hgoing n)
  | produced hgoing =>
    rw [h.silent] at hgoing
    cases hgoing
  | setFlag hbefore | serverStopped hbefore =>
    rw [h.stop] at hbefore
    cases hbefore
  | notify hbefore hstop hpushed hasleep =>
    have hmany := h.tooMany
    have hn : n = _ := StopPc.notifying.inj (h.stop.symm.trans hbefore)
    exact ⟨_, hstop, hpushed.trans h.silent, by omega⟩

/-- **Nobody is left asleep, exactly when everybody falls asleep in time.**  The condition
is enough in every run.  It is also necessary in every run in which `stop` gets past its
last `notify_one` and no wake-up comes by itself. -/
theorem stop_leaves_nobody_asleep (size : ℕ) (acts : List (Act ι)) :
    (Guarded step InTime (init ι size) acts →
      Always step (fun s => ¬ LeftAsleep s) (init ι size) acts) ∧
    ∀ s, run step (init ι size) acts = some s → s.stop = .notifying 0 →
      Guarded step NotSpurious (init ι size) acts →
      (Always step (fun s => ¬ LeftAsleep s) (init ι size) acts ↔
        Guarded step InTime (init ι size) acts) := by
  have henough : Guarded step InTime (init ι size) acts →
      Always step (fun s => ¬ LeftAsleep s) (init ι size) acts := fun hG =>
    (always_of_guarded (fun _ _ _ h hg hs => h.step hg hs) (inv_init size) hG).mono
      fun _ h => h.not_leftAsleep
  refine ⟨henough, fun s hrun hstop hK => ⟨fun hP => ?_, henough⟩⟩
  refine guarded_of_not_bad (B := fun s => ∃ n, Overslept s n)
    (fun _ _ _ h _ hg hs => h.step hg hs) (fun _ _ _ h _ hg hs => h.overslept hg hs)
    (fun _ _ _ ⟨_, h⟩ hk hs => h.step hk hs) (inv_init size) hK hrun ?_
  rintro ⟨n, hover⟩
  have hn : n = 0 := StopPc.notifying.inj (hover.stop.symm.trans hstop)
  have hsome := exists_asleep (Nat.zero_lt_of_lt hover.tooMany)
  exact hP.of_run hrun ⟨hstop, hsome⟩

end Runs

/-- Two consumers: one is in the user callback when `stop` is called, the other is asleep
and gets the first notification. -/
def twoConsumers : List (Act (Fin 2)) :=
  [.consumer 0, .consumer 0, .consumer 0, .consumer 1, .consumer 1, .consumer 1, .setFlag,
    .serverStopped, .notify (some 1), .consumer 0, .consumer 0, .consumer 1, .consumer 1,
    .notify none]

theorem nobody_left_of_two :
    ∃ s, run step (init (Fin 2) 1) twoConsumers = some s ∧ s.stop = .notifying 0 ∧
      Guarded step NotSpurious (init (Fin 2) 1) twoConsumers ∧
      Guarded step InTime (init (Fin 2) 1) twoConsumers ∧
      Always step (fun s => ¬ LeftAsleep s) (init (Fin 2) 1) twoConsumers := by
  obtain ⟨s, hrun, hstop⟩ : ∃ s, run step (init (Fin 2) 1) twoConsumers = some s ∧
      s.stop = .notifying 0 := ⟨_, rfl, rfl⟩
  have hK : Guarded step NotSpurious (init (Fin 2) 1) twoConsumers :=
    guarded_of_labels (by simp [twoConsumers, NotSpurious]) _
  have hG : Guarded step InTime (init (Fin 2) 1) twoConsumers := by decide
  exact ⟨s, hrun, hstop, hK, hG,
    ((stop_leaves_nobody_asleep 1 twoConsumers).2 s hrun hstop hK).mpr hG⟩

/-- The consumer finds the flag down, `stop` does all it has to do, and the consumer goes
to sleep. -/
theorem consumer_left_asleep :
    let acts : List (Act (Fin 1)) :=
      [.consumer 0, .setFlag, .serverStopped, .notify none, .consumer 0, .consumer 0]
    ∃ s, run step (init (Fin 1) 0) acts = some s ∧ LeftAsleep s :=
  ⟨_, rfl, rfl, 0, rfl⟩

end StopConsumers

end Nbuss
