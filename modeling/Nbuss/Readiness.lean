import Nbuss.Transition.Threads

/-!
# Waiting for the server to be ready

`wait_for_server_ready` waits until `is_listening` is true and `terminate` until it is
false, both on the condition variable `cv`.  The listening thread stores the new value
under `mtx` and calls `notify_one` once for each store.

A thread is forgotten when it is asleep, what it waits for has come about, and no
notification for this value of the flag is still to come.  There are three ways to
forget one, and no others (`nobody_forgotten_iff`).

* One notification wakes one thread.  If two threads wait for the same value, or if the
  thread that is woken waits for the other value, somebody is left.
* The last statement of `terminate` clears the flag without `mtx` and without a
  notification.  A call that found the flag down, because the server was not ready yet,
  may clear it after the listening thread has raised it, and another call of
  `terminate` may be asleep by then.
* The same store may come between the test of the loop and the wait of another call.

`is_listening` is a plain `bool`; a store or a load of it is a step here.  The
critical section with which `terminate` begins and those of the listening thread are one
step each, and need the mutex to be free.  Raising `stop_server` and writing to the pipe
are left out: what the listening thread does is any sequence of stores, each followed by
its notification.
-/

namespace Nbuss

namespace Readiness

open Transition Threads

/-- The two functions that wait on `cv`. -/
inductive Call where
  | waitForServerReady
  | terminate
  deriving DecidableEq, Repr

/-- What the call waits for. -/
def Call.holds : Call → Bool → Bool
  | .waitForServerReady, isListening => isListening
  | .terminate, isListening => !isListening

/-- Where a thread stands. -/
inductive Pc where
  | idle
  /-- `terminate` is about to look at the flag for the first time. -/
  | reading
  /-- Before the lock that the loop runs under. -/
  | locking (c : Call)
  /-- With the mutex, at the test of the loop. -/
  | testing (c : Call)
  /-- With the mutex, about to call `cv.wait`. -/
  | dozing (c : Call)
  /-- In `cv.wait`, without a wake-up. -/
  | asleep (c : Call)
  /-- In `cv.wait`, about to take the mutex again. -/
  | woken (c : Call)
  /-- `terminate` is about to clear the flag. -/
  | ending
  deriving DecidableEq, Repr

/-- What a sleeping thread waits for. -/
def Pc.sleeper : Pc → Option Call
  | .asleep c => some c
  | _ => none

/-- The thread has the mutex. -/
def Pc.inside : Pc → Bool
  | .testing _ | .dozing _ => true
  | _ => false

def Pc.isAsleep (p : Pc) : Bool := p.sleeper.isSome

/-- What a wake-up does to a sleeping thread. -/
def Pc.wake : Pc → Pc
  | .asleep c => .woken c
  | p => p

/-- Where the listening thread stands. -/
inductive ListenerPc where
  | settled
  /-- It has stored `v` and not yet called `notify_one`. -/
  | notifying (v : Bool)
  deriving DecidableEq, Repr

structure Sys (ι : Type*) where
  threads : ι → Pc := fun _ => .idle
  /-- The thread that has `mtx`. -/
  owner : Option ι := none
  isListening : Bool := false
  listener : ListenerPc := .settled

inductive Act (ι : Type*) where
  | call (t : ι) (c : Call)
  | thread (t : ι)
  /-- A wake-up that nobody has given. -/
  | spurious (t : ι)
  /-- The listening thread stores a value in `is_listening`. -/
  | store (v : Bool)
  /-- Its `notify_one`, and who is woken. -/
  | notify (w : Option ι)
  deriving DecidableEq, Repr

variable {ι : Type*}

def init (ι : Type*) : Sys ι := {}

/-- The program point behind the loop. -/
def Call.after : Call → Pc
  | .waitForServerReady => .idle
  | .terminate => .ending

section Step

variable [DecidableEq ι]

def Sys.moveTo (s : Sys ι) (t : ι) (p : Pc) : Sys ι :=
  { s with threads := Function.update s.threads t p }

/-- The next step of `wait_for_server_ready` or `terminate`. -/
def Sys.thread (s : Sys ι) (t : ι) : Option (Sys ι) :=
  match s.threads t with
  | .idle | .asleep _ => none
  | .reading =>
    if s.owner = none then
      some (s.moveTo t (if s.isListening then .locking .terminate else .ending))
    else none
  | .locking c => if s.owner = none then some { s.moveTo t (.testing c) with owner := some t } else none
  | .testing c =>
    if c.holds s.isListening then some { s.moveTo t c.after with owner := none }
    else some (s.moveTo t (.dozing c))
  | .dozing c => some { s.moveTo t (.asleep c) with owner := none }
  | .woken c => if s.owner = none then some { s.moveTo t (.testing c) with owner := some t } else none
  | .ending => some { s.moveTo t .idle with isListening := false }

def step [Fintype ι] (s : Sys ι) : Act ι → Option (Sys ι)
  | .call t c =>
    if s.threads t = .idle then
      match c with
      | .waitForServerReady => some (s.moveTo t (.locking .waitForServerReady))
      | .terminate => some (s.moveTo t .reading)
    else none
  | .thread t => s.thread t
  | .spurious t => if (s.threads t).isAsleep then some (s.moveTo t (s.threads t).wake) else none
  | .store v =>
    if s.owner = none ∧ s.listener = .settled then
      some { s with isListening := v, listener := .notifying v }
    else none
  | .notify w =>
    match s.listener with
    | .notifying _ =>
      (notifyOne Pc.isAsleep Pc.wake s.threads w).map
        fun f => { s with threads := f, listener := .settled }
    | .settled => none

end Step

/-- A thread is asleep, what it waits for is the case, and no notification for it is
still to come. -/
def Forgotten (s : Sys ι) : Prop :=
  ∃ t, ∃ c ∈ (s.threads t).sleeper,
    c.holds s.isListening = true ∧ s.listener ≠ .notifying s.isListening

/-- A notification goes to the only thread that is asleep and could go on; `terminate`
clears the flag only if it is down or nobody else is asleep in `terminate`; and nobody
goes to sleep in `terminate` when the flag is down. -/
def Careful (s : Sys ι) : Act ι → Prop
  | .notify w => ∀ t, ∀ c ∈ (s.threads t).sleeper, c.holds s.isListening = true → w = some t
  | .thread t =>
    (s.threads t = .ending → s.isListening = true → ∀ u, s.threads u ≠ .asleep .terminate) ∧
      (s.threads t = .dozing .terminate → s.isListening = true)
  | _ => True

instance [Fintype ι] [DecidableEq ι] (s : Sys ι) : ∀ a, Decidable (Careful s a)
  | .notify w => inferInstanceAs (Decidable
      (∀ t, ∀ c ∈ (s.threads t).sleeper, c.holds s.isListening = true → w = some t))
  | .thread t => inferInstanceAs (Decidable
      ((s.threads t = .ending → s.isListening = true → ∀ u, s.threads u ≠ .asleep .terminate) ∧
        (s.threads t = .dozing .terminate → s.isListening = true)))
  | .call _ _ | .spurious _ | .store _ => inferInstanceAs (Decidable True)

structure Inv (s : Sys ι) : Prop where
  remembered : ∀ t c, s.threads t = .asleep c → c.holds s.isListening = true →
    s.listener = .notifying s.isListening
  mutex : ∀ t, (s.threads t).inside = true → s.owner = some t
  /-- A thread about to sleep in `wait_for_server_ready` has found the flag down, and
  only the listening thread, which needs the mutex, could raise it. -/
  dozing : ∀ t, s.threads t = .dozing .waitForServerReady → s.isListening = false
  /-- A thread about to sleep in `terminate` has found the flag up. -/
  dozed : ∀ t, s.threads t = .dozing .terminate → s.listener ≠ .notifying false
  lowered : s.listener = .notifying false → s.isListening = false

theorem inv_init : Inv (init ι) where
  remembered t c h := by cases h
  mutex t h := by cases h
  dozing t h := by cases h
  dozed t h := by cases h
  lowered h := by cases h

theorem sleeper_eq_some {p : Pc} {c : Call} : p.sleeper = some c ↔ p = .asleep c := by
  cases p <;> simp [Pc.sleeper]

theorem Inv.not_forgotten {s : Sys ι} (h : Inv s) : ¬ Forgotten s := by
  rintro ⟨t, c, hc, hholds, hlistener⟩
  exact hlistener (h.remembered t c (sleeper_eq_some.mp hc) hholds)

/-! ## The steps -/

section Steps

variable [DecidableEq ι]

/-- What a step does. -/
inductive Step (s : Sys ι) : Act ι → Sys ι → Prop
  /-- A call begins, or `terminate` has looked at the flag. -/
  | begin {a : Act ι} {t : ι} {p : Pc} (hbefore : s.threads t = .idle ∨ s.threads t = .reading)
      (hp : p.inside = false) (hsleeper : p.sleeper = none)
      (ha : a = .thread t ∨ ∃ c, a = .call t c) : Step s a (s.moveTo t p)
  | lock {t : ι} {c : Call} (hbefore : s.threads t = .locking c ∨ s.threads t = .woken c)
      (hfree : s.owner = none) :
      Step s (.thread t) { s.moveTo t (.testing c) with owner := some t }
  | pass {t : ι} {c : Call} (hbefore : s.threads t = .testing c) (hc : c.holds s.isListening = true) :
      Step s (.thread t) { s.moveTo t c.after with owner := none }
  | doze {t : ι} {c : Call} (hbefore : s.threads t = .testing c)
      (hc : c.holds s.isListening = false) : Step s (.thread t) (s.moveTo t (.dozing c))
  | sleep {t : ι} {c : Call} (hbefore : s.threads t = .dozing c) :
      Step s (.thread t) { s.moveTo t (.asleep c) with owner := none }
  | clear {t : ι} (hbefore : s.threads t = .ending) :
      Step s (.thread t) { s.moveTo t .idle with isListening := false }
  | spurious {t : ι} {c : Call} (hbefore : s.threads t = .asleep c) :
      Step s (.spurious t) (s.moveTo t (.woken c))
  | store {v : Bool} (hfree : s.owner = none) :
      Step s (.store v) { s with isListening := v, listener := .notifying v }
  | notify {t : ι} {c : Call} (hbefore : s.threads t = .asleep c) :
      Step s (.notify (some t)) { s.moveTo t (.woken c) with listener := .settled }
  | notifyNone (hnone : ∀ t, (s.threads t).sleeper = none) :
      Step s (.notify none) { s with listener := .settled }

theorem Step.of_thread {s s' : Sys ι} {t : ι} (hs : s.thread t = some s') :
    Step s (.thread t) s' := by
  unfold Sys.thread at hs
  split at hs
  case h_1 | h_2 => cases hs
  case h_3 hpc =>
    split_ifs at hs <;> cases hs <;> exact .begin (.inr hpc) rfl rfl (.inl rfl)
  case h_4 hpc =>
    split_ifs at hs with hfree
    cases hs
    exact .lock (.inl hpc) hfree
  case h_5 hpc =>
    split_ifs at hs with hc <;> cases hs
    · exact .pass hpc hc
    · exact .doze hpc (by simpa using hc)
  case h_6 hpc =>
    cases hs
    exact .sleep hpc
  case h_7 hpc =>
    split_ifs at hs with hfree
    cases hs
    exact .lock (.inr hpc) hfree
  case h_8 hpc =>
    cases hs
    exact .clear hpc

theorem isAsleep_eq_true {p : Pc} (h : p.isAsleep = true) : ∃ c, p = .asleep c := by
  obtain ⟨c, hc⟩ := Option.isSome_iff_exists.mp h
  exact ⟨c, sleeper_eq_some.mp hc⟩

theorem Step.of_step [Fintype ι] {s s' : Sys ι} {a : Act ι} (hs : step s a = some s') :
    Step s a s' := by
  cases a with
  | call t c =>
    simp only [step] at hs
    split_ifs at hs with hidle
    cases c <;> cases hs <;> exact .begin (.inl hidle) rfl rfl (.inr ⟨_, rfl⟩)
  | thread t => exact .of_thread hs
  | spurious t =>
    simp only [step] at hs
    split_ifs at hs with hasleep
    obtain ⟨c, hc⟩ := isAsleep_eq_true hasleep
    rw [hc] at hs
    cases hs
    exact .spurious hc
  | store v =>
    simp only [step] at hs
    split_ifs at hs with hfree
    cases hs
    exact .store hfree.1
  | notify w =>
    simp only [step] at hs
    split at hs
    · obtain ⟨f, hf, rfl⟩ := Option.map_eq_some_iff.mp hs
      rcases notifyOne_eq_some hf with ⟨t, rfl, hasleep, rfl⟩ | ⟨rfl, hnone, rfl⟩
      · obtain ⟨c, hc⟩ := isAsleep_eq_true hasleep
        rw [hc]
        exact .notify hc
      · refine .notifyNone fun t => ?_
        have h := hnone t
        rw [Pc.isAsleep, Option.isSome_eq_false_iff] at h
        exact Option.isNone_iff_eq_none.mp h
    · cases hs

/-! ### The mutex -/

section Mutex

variable {s : Sys ι} {t : ι} {p : Pc}

theorem Inv.mutex_keep (h : Inv s) (hp : p.inside = false) (u : ι)
    (hu : (Function.update s.threads t p u).inside = true) : s.owner = some u := by
  by_cases hut : u = t
  · rw [hut, Function.update_self, hp] at hu
    cases hu
  · rw [Function.update_of_ne hut] at hu
    exact h.mutex u hu

theorem Inv.mutex_take (h : Inv s) (hfree : s.owner = none) (u : ι)
    (hu : (Function.update s.threads t p u).inside = true) : some t = some u := by
  by_cases hut : u = t
  · rw [hut]
  · rw [Function.update_of_ne hut] at hu
    have howner := h.mutex u hu
    rw [hfree] at howner
    cases howner

theorem Inv.mutex_release (h : Inv s) (ht : (s.threads t).inside = true) (hp : p.inside = false)
    (u : ι) (hu : (Function.update s.threads t p u).inside = true) : none = some u := by
  have howner := h.mutex_keep hp u hu
  rw [h.mutex t ht, Option.some_inj] at howner
  rw [← howner, Function.update_self, hp] at hu
  cases hu

omit [DecidableEq ι] in
/-- With the mutex free nobody is about to sleep. -/
theorem Inv.not_dozing (h : Inv s) (hfree : s.owner = none) (c : Call) : s.threads t ≠ .dozing c := by
  intro ht
  have howner := h.mutex t (by rw [ht]; rfl)
  rw [hfree] at howner
  cases howner

/-- A thread moves to a place where it neither sleeps nor is about to. -/
theorem Inv.moveTo (h : Inv s) {owner : Option ι} (hsleeper : p.sleeper = none)
    (hdozing : ∀ c, p ≠ .dozing c)
    (hmutex : ∀ u, (Function.update s.threads t p u).inside = true → owner = some u) :
    Inv { s.moveTo t p with owner := owner } := by
  refine ⟨fun u c hu => ?_, hmutex, fun u hu => ?_, fun u hu => ?_, h.lowered⟩
  · rcases update_cases hu with ⟨-, hp⟩ | ⟨-, hu⟩
    · rw [hp] at hsleeper
      cases hsleeper
    · exact h.remembered u c hu
  · rcases update_cases hu with ⟨-, hp⟩ | ⟨-, hu⟩
    · exact absurd hp (hdozing _)
    · exact h.dozing u hu
  · rcases update_cases hu with ⟨-, hp⟩ | ⟨-, hu⟩
    · exact absurd hp (hdozing _)
    · exact h.dozed u hu

end Mutex

/-! ### One step -/

section Keep

variable {s : Sys ι} {t : ι} {c : Call}

theorem Inv.doze (h : Inv s) (hbefore : s.threads t = .testing c)
    (hc : c.holds s.isListening = false) : Inv (s.moveTo t (.dozing c)) := by
  refine ⟨fun u d hu => ?_, fun u hu => ?_, fun u hu => ?_, fun u hu => ?_, h.lowered⟩
  · rcases update_cases hu with ⟨-, hd⟩ | ⟨-, hu⟩
    · cases hd
    · exact h.remembered u d hu
  · rcases update_cases (q := (s.moveTo t (.dozing c)).threads u) rfl with ⟨hut, -⟩ | ⟨-, hsame⟩
    · rw [hut]
      exact h.mutex t (by rw [hbefore]; rfl)
    · rw [← hsame] at hu
      exact h.mutex u hu
  · rcases update_cases hu with ⟨-, hd⟩ | ⟨-, hu⟩
    · cases hd
      exact hc
    · exact h.dozing u hu
  · rcases update_cases hu with ⟨-, hd⟩ | ⟨-, hu⟩
    · cases hd
      intro hlistener
      rw [h.lowered hlistener] at hc
      cases hc
    · exact h.dozed u hu

/-- Who goes to sleep has nothing to wait for that is the case already. -/
theorem Inv.sleep (h : Inv s) (hbefore : s.threads t = .dozing c)
    (hg : s.threads t = .dozing .terminate → s.isListening = true) :
    Inv { s.moveTo t (.asleep c) with owner := none } := by
  have hc : c.holds s.isListening = false := by
    cases c with
    | waitForServerReady => exact h.dozing t hbefore
    | terminate =>
      rw [hg hbefore]
      rfl
  refine ⟨fun u d hu hd => ?_, h.mutex_release (by rw [hbefore]; rfl) rfl, fun u hu => ?_,
    fun u hu => ?_, h.lowered⟩
  · rcases update_cases hu with ⟨-, hdc⟩ | ⟨-, hu⟩
    · cases hdc
      exact absurd (hc.symm.trans hd) Bool.false_ne_true
    · exact h.remembered u d hu hd
  · rcases update_cases hu with ⟨-, hdc⟩ | ⟨-, hu⟩
    · cases hdc
    · exact h.dozing u hu
  · rcases update_cases hu with ⟨-, hdc⟩ | ⟨-, hu⟩
    · cases hdc
    · exact h.dozed u hu

theorem Inv.clear (h : Inv s)
    (hg : s.isListening = true → ∀ u, s.threads u ≠ .asleep .terminate) :
    Inv { s.moveTo t .idle with isListening := false } := by
  have hmoved : Inv { s.moveTo t .idle with owner := s.owner } :=
    h.moveTo rfl (fun _ hd => by cases hd) (h.mutex_keep rfl)
  refine ⟨fun u d hu hd => ?_, hmoved.mutex, fun u hu => rfl, hmoved.dozed, fun _ => rfl⟩
  rcases update_cases hu with ⟨-, hd'⟩ | ⟨-, hu⟩
  · cases hd'
  · cases hup : s.isListening with
    | false =>
      have hremembered := h.remembered u d hu
      rw [hup] at hremembered
      exact hremembered hd
    | true =>
      cases d with
      | waitForServerReady => cases hd
      | terminate => exact absurd hu (hg hup u)

omit [DecidableEq ι] in
theorem Inv.store (h : Inv s) (hfree : s.owner = none) (v : Bool) :
    Inv { s with isListening := v, listener := .notifying v } :=
  ⟨fun _ _ _ _ => rfl, h.mutex, fun _ hu => absurd hu (h.not_dozing hfree _),
    fun _ hu => absurd hu (h.not_dozing hfree _), fun hv => by cases hv; rfl⟩

omit [DecidableEq ι] in
/-- The notification is spent, and nobody who could go on is asleep. -/
theorem Inv.settle (h : Inv s)
    (hnone : ∀ u d, s.threads u = .asleep d → d.holds s.isListening = false) :
    Inv { s with listener := .settled } where
  remembered u d hu hd := by
    rw [hnone u d hu] at hd
    cases hd
  mutex := h.mutex
  dozing := h.dozing
  dozed _ _ hd := by cases hd
  lowered hd := by cases hd

end Keep

theorem Inv.step [Fintype ι] {s s' : Sys ι} {a : Act ι} (h : Inv s) (hg : Careful s a)
    (hs : step s a = some s') : Inv s' := by
  cases Step.of_step hs with
  | begin hbefore hp hsleeper =>
    refine h.moveTo hsleeper ?_ (h.mutex_keep hp)
    rintro c rfl
    cases hp
  | lock hbefore hfree => exact h.moveTo rfl (fun _ hd => by cases hd) (h.mutex_take hfree)
  | @pass t c hbefore hc =>
    refine h.moveTo ?_ (fun d => ?_) (h.mutex_release (by rw [hbefore]; rfl) ?_) <;>
      cases c <;> simp [Call.after, Pc.sleeper, Pc.inside]
  | doze hbefore hc => exact h.doze hbefore hc
  | sleep hbefore => exact h.sleep hbefore hg.2
  | clear hbefore => exact h.clear (hg.1 hbefore)
  | spurious hbefore => exact h.moveTo rfl (fun _ hd => by cases hd) (h.mutex_keep rfl)
  | store hfree => exact h.store hfree _
  | @notify t c hbefore =>
    have hmoved : Inv { s.moveTo t (.woken c) with owner := s.owner } :=
      h.moveTo rfl (fun _ hd => by cases hd) (h.mutex_keep rfl)
    refine hmoved.settle fun u d hu => ?_
    rcases update_cases hu with ⟨-, hd⟩ | ⟨hut, hu⟩
    · cases hd
    · cases hd : d.holds s.isListening with
      | false => exact hd
      | true =>
        have htu : some t = some u := hg u d (sleeper_eq_some.mpr hu) hd
        exact absurd (Option.some_inj.mp htu).symm hut
  | notifyNone hnone =>
    refine h.settle fun u d hu => ?_
    have hsome := hnone u
    rw [hu] at hsome
    cases hsome

/-- A careless step forgets somebody at once. -/
theorem Inv.forgotten [Fintype ι] {s s' : Sys ι} {a : Act ι} (h : Inv s) (hg : ¬ Careful s a)
    (hs : Readiness.step s a = some s') : Forgotten s' := by
  cases Step.of_step hs with
  | begin hbefore _ _ ha =>
    rcases ha with rfl | ⟨c, rfl⟩
    · refine absurd ⟨fun hpc => ?_, fun hpc => ?_⟩ hg <;> rw [hpc] at hbefore <;> simp at hbefore
    · exact absurd trivial hg
  | lock hbefore =>
    refine absurd ⟨fun hpc => ?_, fun hpc => ?_⟩ hg <;> rw [hpc] at hbefore <;> simp at hbefore
  | pass hbefore | doze hbefore =>
    refine absurd ⟨fun hpc => ?_, fun hpc => ?_⟩ hg <;> rw [hpc] at hbefore <;> cases hbefore
  | @sleep t c hbefore =>
    cases c with
    | waitForServerReady =>
      refine absurd ⟨fun hpc => ?_, fun hpc => ?_⟩ hg <;> rw [hpc] at hbefore <;> cases hbefore
    | terminate =>
      have hdown : s.isListening = false := by
        by_contra hup
        refine hg ⟨fun hpc => ?_, fun _ => by simpa using hup⟩
        rw [hpc] at hbefore
        cases hbefore
      refine ⟨t, .terminate, sleeper_eq_some.mpr (Function.update_self ..), ?_, ?_⟩
      · show (!s.isListening) = true
        rw [hdown]
        rfl
      · show s.listener ≠ .notifying s.isListening
        rw [hdown]
        exact h.dozed t hbefore
  | @clear t hbefore =>
    have hbroken : ¬ (s.isListening = true → ∀ u, s.threads u ≠ .asleep .terminate) := by
      intro hkept
      refine hg ⟨fun _ => hkept, fun hpc => ?_⟩
      rw [hpc] at hbefore
      cases hbefore
    simp only [Classical.not_imp, not_forall, not_not] at hbroken
    obtain ⟨hup, u, hu⟩ := hbroken
    have hut : u ≠ t := by
      rintro rfl
      rw [hu] at hbefore
      cases hbefore
    refine ⟨u, .terminate, sleeper_eq_some.mpr ((Function.update_of_ne hut ..).trans hu), rfl, ?_⟩
    intro hlistener
    rw [h.lowered hlistener] at hup
    cases hup
  | spurious | store => exact absurd trivial hg
  | @notify t c hbefore =>
    simp only [Careful, not_forall] at hg
    obtain ⟨u, d, hu, hd, htu⟩ := hg
    have hut : u ≠ t := fun h => htu (congrArg some h.symm)
    have hu : s.threads u = .asleep d := sleeper_eq_some.mp hu
    exact ⟨u, d, sleeper_eq_some.mpr ((Function.update_of_ne hut ..).trans hu), hd,
      fun hlistener => by cases hlistener⟩
  | notifyNone hnone =>
    refine absurd (fun u d hu _ => ?_) hg
    rw [hnone u] at hu
    cases hu

end Steps

/-- **Nobody is forgotten, exactly when every step is careful.** -/
theorem nobody_forgotten_iff [DecidableEq ι] [Fintype ι] (acts : List (Act ι)) :
    Always step (fun s => ¬ Forgotten s) (init ι) acts ↔ Guarded step Careful (init ι) acts :=
  always_iff_guarded (fun _ h => h.not_forgotten) (fun _ _ _ h hg hs => h.step hg hs)
    (fun _ _ _ h hg hs => not_not.mpr (h.forgotten hg hs)) inv_init

/-- One thread waits until the server is ready and then terminates it. -/
example : Guarded step Careful (init (Fin 1))
    [.call 0 .waitForServerReady, .thread 0, .thread 0, .thread 0, .store true, .notify (some 0),
      .thread 0, .thread 0, .call 0 .terminate, .thread 0, .thread 0, .thread 0, .thread 0,
      .store false, .notify (some 0), .thread 0, .thread 0, .thread 0] := by
  decide

/-- Two threads wait until the server is ready; the one notification wakes the first. -/
theorem second_waiter_forgotten :
    let acts : List (Act (Fin 2)) :=
      [.call 0 .waitForServerReady, .thread 0, .thread 0, .thread 0,
        .call 1 .waitForServerReady, .thread 1, .thread 1, .thread 1,
        .store true, .notify (some 0)]
    ∃ s, run step (init (Fin 2)) acts = some s ∧ Forgotten s :=
  ⟨_, rfl, 1, .waitForServerReady, rfl, rfl, by decide⟩

end Readiness

end Nbuss
