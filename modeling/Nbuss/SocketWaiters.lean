import Nbuss.SocketLocks

/-!
# Those who wait for a `SocketData`

In the threads of `SocketLocks` a sleeper in `usesCv.wait` may wake at any time, which is right
for mutual exclusion and says nothing about being woken.  Here a sleeper wakes because a
`notify_one` has picked it, or for no reason; and `release()` ends with a step of its own, the
`notify_one` after `usesMutex` has been given up.

Nobody sleeps for ever.  A thread goes to sleep because `uses` is positive, and `uses` is never
more than the number of holders: the store `uses = 0` in `cleanup(false)`, which makes it too
small, is not a danger here.  So there is a holder; a holder comes to `release()`, and whoever it
wakes finds the counter free or finds a holder again.  At each moment some thread is answerable
for the sleepers (`answerable`), and from this and the owners of the two mutexes follows that the
threads are never all stuck, whatever mixture of `write`, worker, `close` and `cleanup` they run.

Every run of this system is one of `SocketLocks` (`run_pcs`).
-/

namespace Nbuss

open Transition

namespace SocketWaiters

open SocketLocks (Body Pc Shared move Effect move_effect)

/-- Where a thread stands. -/
inductive Loc where
  | at (p : Pc)
  /-- In `usesCv.wait`, picked by a `notify_one`. -/
  | picked (b : Body)
  /-- In `release()`, past `lk.unlock()`. -/
  | notifying
  deriving DecidableEq, Repr

/-- The place in `SocketLocks`. -/
def Loc.pc : Loc → Pc
  | .at p => p
  | .picked b => .lockWait b
  | .notifying => .idle

/-- The thread has counted itself in and not yet counted itself out. -/
def Loc.holds (l : Loc) : Bool := l.pc.holds

/-- The thread sleeps, and nobody has picked it. -/
def Loc.asleep : Loc → Bool
  | .at (.lockWait _) => true
  | _ => false

/-- A sleeper is picked. -/
def Loc.pick : Loc → Loc
  | .at (.lockWait b) => .picked b
  | l => l

/-- What a thread at `p` comes to when its step leads to `p'`: only `release()` has something
left to do. -/
def Loc.after (p p' : Pc) : Loc := if p = .releaseUnlock then .notifying else .at p'

inductive Act (ι : Type*) where
  /-- A step of a thread; `wake` is a spurious wake-up where the thread has not been picked. -/
  | thread (t : ι) (a : SocketLocks.Act)
  /-- The `notify_one` of `release()`, and whom it picks. -/
  | notify (t : ι) (w : Option ι)
  deriving DecidableEq, Repr

variable {ι : Type*}

/-- The threads that share one `SocketData`. -/
abbrev Sys (ι : Type*) := Threads ι (Shared ι) Loc

/-- Nobody uses the socket data. -/
def init (ι : Type*) : Sys ι := ⟨⟨{}, none, none⟩, fun _ => .at .idle⟩

section Step

variable [DecidableEq ι]

def stepThread (s : Sys ι) (t : ι) (a : SocketLocks.Act) : Option (Sys ι) :=
  match s.loc t with
  | .at p => (move s.shared t p a).map fun r =>
      ⟨r.1, Function.update s.loc t (Loc.after p r.2)⟩
  | .picked b =>
    if a = .wake then some ⟨s.shared, Function.update s.loc t (.at (.lockMutex b))⟩ else none
  | .notifying => none

variable [Fintype ι]

def step (s : Sys ι) : Act ι → Option (Sys ι)
  | .thread t a => stepThread s t a
  | .notify t w =>
    if s.loc t = .notifying then
      (Threads.notifyOne Loc.asleep Loc.pick (Function.update s.loc t (.at .idle)) w).map
        fun loc => ⟨s.shared, loc⟩
    else none

end Step

/-! ## What a step does -/

section Steps

variable [DecidableEq ι] {s s' : Sys ι} {t : ι} {a : SocketLocks.Act}

/-- A thread moves as in `SocketLocks`, or a thread that was picked wakes. -/
theorem stepThread_cases (hs : stepThread s t a = some s') :
    (∃ p sh p', s.loc t = .at p ∧ move s.shared t p a = some (sh, p') ∧
        s' = ⟨sh, Function.update s.loc t (Loc.after p p')⟩) ∨
      ∃ b, s.loc t = .picked b ∧ a = .wake ∧
        s' = ⟨s.shared, Function.update s.loc t (.at (.lockMutex b))⟩ := by
  unfold stepThread at hs
  split at hs
  · next p hp =>
    obtain ⟨⟨sh, p'⟩, hm, rfl⟩ := Option.map_eq_some_iff.mp hs
    exact .inl ⟨p, sh, p', hp, hm, rfl⟩
  · next b hb =>
    split_ifs at hs with ha
    cases hs
    exact .inr ⟨b, hb, ha, rfl⟩
  · cases hs

omit [DecidableEq ι] in
/-- `release()` is at its end. -/
theorem move_releaseUnlock {sh sh' : Shared ι} {p' : Pc}
    (hm : move sh t .releaseUnlock a = some (sh', p')) : p' = .idle := by
  cases a <;> simp only [move] at hm <;> cases hm
  rfl

omit [DecidableEq ι] in
theorem pc_after {sh sh' : Shared ι} {p p' : Pc} (hm : move sh t p a = some (sh', p')) :
    (Loc.after p p').pc = p' := by
  unfold Loc.after
  split_ifs with hp
  · subst hp
    rw [move_releaseUnlock hm]
    rfl
  · rfl

theorem pc_pick (l : Loc) : l.pick.pc = l.pc := by
  cases l with
  | «at» p => cases p <;> rfl
  | picked | notifying => rfl

variable [Fintype ι]

/-- Nobody but the notifying thread and the one it picks is touched, and neither moves in
`SocketLocks`. -/
theorem notify_cases {w : Option ι} (hs : step s (.notify t w) = some s') :
    s'.shared = s.shared ∧ s.loc t = .notifying ∧
      ((∃ u, u ≠ t ∧ (s.loc u).asleep = true ∧ s'.loc u = (s.loc u).pick) ∨
        ∀ u, (s'.loc u).asleep = false) ∧
      ∀ u, (s'.loc u).pc = (s.loc u).pc := by
  simp only [step] at hs
  split_ifs at hs with ht
  obtain ⟨loc, hloc, rfl⟩ := Option.map_eq_some_iff.mp hs
  have hidle : ∀ u, (Function.update s.loc t (.at .idle) u).pc = (s.loc u).pc := by
    intro u
    by_cases hut : u = t
    · rw [hut, Function.update_self, ht]
      rfl
    · rw [Function.update_of_ne hut]
  rcases Threads.notifyOne_eq_some hloc with ⟨v, -, hv, rfl⟩ | ⟨-, hnone, rfl⟩
  · have hvt : v ≠ t := by
      rintro rfl
      rw [Function.update_self] at hv
      cases hv
    rw [Function.update_of_ne hvt] at hv
    refine ⟨rfl, ht, .inl ⟨v, hvt, hv, ?_⟩, fun u => ?_⟩
    · simp only [Function.update_self, Function.update_of_ne hvt]
    · dsimp only
      by_cases huv : u = v
      · rw [huv, Function.update_self, pc_pick, hidle]
      · rw [Function.update_of_ne huv, hidle]
  · exact ⟨rfl, ht, .inr hnone, hidle⟩

end Steps

section Simulation

variable [DecidableEq ι] [Fintype ι] {s s' : Sys ι}

/-- The threads as `SocketLocks` has them. -/
def pcs (s : Sys ι) : SocketLocks.Sys ι := ⟨s.shared, fun t => (s.loc t).pc⟩

/-- A step is one of `SocketLocks`, or changes nothing there. -/
theorem step_pcs {a : Act ι} (hs : step s a = some s') :
    ∃ m, run SocketLocks.step (pcs s) m = some (pcs s') := by
  have hpcs : ∀ (sh : Shared ι) (t : ι) (l : Loc), pcs (⟨sh, Function.update s.loc t l⟩ : Sys ι) =
      ⟨sh, Function.update (pcs s).loc t l.pc⟩ := by
    intro sh t l
    simp only [pcs, Threads.mk.injEq, true_and]
    funext u
    by_cases hu : u = t
    · rw [hu, Function.update_self, Function.update_self]
    · rw [Function.update_of_ne hu, Function.update_of_ne hu]
  cases a with
  | thread t a =>
    rcases stepThread_cases hs with ⟨p, sh, p', hp, hm, rfl⟩ | ⟨b, hb, rfl, rfl⟩
    · refine ⟨[(t, a)], ?_⟩
      rw [run_singleton, hpcs, pc_after hm]
      exact Threads.step_eq_some.mpr ⟨sh, p', by simpa only [pcs, hp, Loc.pc] using hm, rfl⟩
    · refine ⟨[(t, .wake)], ?_⟩
      rw [run_singleton, hpcs]
      refine Threads.step_eq_some.mpr ⟨s.shared, .lockMutex b, ?_, rfl⟩
      simp only [pcs, hb]
      rfl
  | notify t w =>
    obtain ⟨hshared, -, -, hpc⟩ := notify_cases hs
    refine ⟨[], ?_⟩
    simp only [run_nil, pcs, hshared, hpc]

/-- Every run is one of `SocketLocks`. -/
theorem run_pcs (acts : List (Act ι)) (s : Sys ι) (hrun : run step (init ι) acts = some s) :
    ∃ m, run SocketLocks.step (SocketLocks.init ι {}) m = some (pcs s) := by
  obtain ⟨m, v, hm, rfl⟩ := run_of_simulation (R := fun s v => v = pcs s)
    (fun s a t u hu hs => by
      obtain ⟨m, hm⟩ := step_pcs hs
      exact ⟨m, pcs t, hu ▸ hm, rfl⟩) (rfl : SocketLocks.init ι {} = pcs (init ι)) hrun
  exact ⟨m, hm⟩

end Simulation

/-! ## Nobody is left asleep -/

/-- The thread is answerable for those who sleep: it is counted in `uses`, or about to call
`notify_one`, or on its way to test the counter. -/
def Loc.answerable : Loc → Bool
  | .picked _ | .notifying => true
  | .at (.lockMutex _) | .at (.lockTest _) | .at (.lockInc _) | .at .releaseUnlock => true
  | .at p => p.holds

theorem Loc.answerable_of_holds {l : Loc} (h : l.holds = true) : l.answerable = true := by
  cases l with
  | «at» p => cases p <;> first | rfl | cases h
  | picked | notifying => rfl

theorem Loc.answerable_pick {l : Loc} (h : l.asleep = true) : l.pick.answerable = true := by
  cases l with
  | «at» p => cases p <;> first | rfl | cases h
  | picked | notifying => rfl

/-- A thread stops being answerable, or falls asleep, only where it finds the counter taken. -/
theorem answerable_move {sh sh' : Shared ι} {t : ι} {p p' : Pc} {a : SocketLocks.Act}
    (hm : move sh t p a = some (sh', p')) :
    0 < sh.sd.uses ∧ p.holds = false ∨
      ((Loc.at p).answerable = true → (Loc.after p p').answerable = true) ∧
        (Loc.after p p').asleep = false := by
  unfold move at hm
  split at hm
  all_goals try split_ifs at hm
  all_goals try split at hm
  all_goals cases hm
  all_goals first
    | exact .inr ⟨fun _ => rfl, rfl⟩
    | exact .inr ⟨fun h => (by cases h), rfl⟩
    | exact .inl ⟨‹_›, rfl⟩

/-- A mutex is taken by the thread that owns it from then on, and given up by its owner. -/
theorem owner_move {sh sh' : Shared ι} {t : ι} {p p' : Pc} {a : SocketLocks.Act}
    (hm : move sh t p a = some (sh', p'))
    (huses : sh.usesMutex = some t → p.ownsMutex = true)
    (hwrite : sh.writeQueueMutex = some t → p.inWrite = true) :
    (sh'.usesMutex = some t → p'.ownsMutex = true) ∧
      (sh'.writeQueueMutex = some t → p'.inWrite = true) ∧
      ∀ u, u ≠ t → (sh'.usesMutex = some u → sh.usesMutex = some u) ∧
        (sh'.writeQueueMutex = some u → sh.writeQueueMutex = some u) := by
  unfold move at hm
  split at hm
  all_goals try split_ifs at hm
  all_goals try split at hm
  all_goals cases hm
  -- nothing, or one of the two mutexes is taken or given up
  all_goals first
    | exact ⟨huses, hwrite, fun _ _ => ⟨id, id⟩⟩
    | exact ⟨fun _ => rfl, hwrite, fun u hu => ⟨fun h => absurd (Option.some.inj h).symm hu, id⟩⟩
    | exact ⟨fun h => (by cases h), hwrite, fun _ _ => ⟨fun h => (by cases h), id⟩⟩
    | exact ⟨huses, fun _ => rfl, fun u hu => ⟨id, fun h => absurd (Option.some.inj h).symm hu⟩⟩
    | exact ⟨huses, fun h => (by cases h), fun _ _ => ⟨id, fun h => (by cases h)⟩⟩

section Inv

variable [DecidableEq ι] [Fintype ι] {s s' : Sys ι} {t : ι}

/-- The number of holders. -/
def holders (s : Sys ι) : ℕ := Threads.tally Loc.holds s.loc

structure Inv (s : Sys ι) : Prop where
  counted : s.shared.sd.uses ≤ holders s
  watched : ∀ t, (s.loc t).asleep = true → ∃ u, (s.loc u).answerable = true
  usesOwner : ∀ t, s.shared.usesMutex = some t → (s.loc t).pc.ownsMutex = true
  writeOwner : ∀ t, s.shared.writeQueueMutex = some t → (s.loc t).pc.inWrite = true

omit [DecidableEq ι] in
theorem inv_init : Inv (init ι) where
  counted := Int.natCast_nonneg _
  watched t h := by cases h
  usesOwner t h := by cases h
  writeOwner t h := by cases h

omit [DecidableEq ι] in
/-- Where the counter is taken, somebody holds the lock. -/
theorem Inv.exists_holder (h : Inv s) (huses : 0 < s.shared.sd.uses) :
    ∃ u, (s.loc u).holds = true := by
  refine Threads.exists_of_tally_pos ?_
  have hcounted := h.counted
  unfold holders at hcounted
  omega

/-- `uses` changes with the number of holders, or is set to zero. -/
theorem counted_move {sh : Shared ι} {p p' : Pc} {a : SocketLocks.Act} (h : Inv s)
    (hp : s.loc t = .at p) (hm : move s.shared t p a = some (sh, p')) :
    sh.sd.uses ≤ holders ⟨sh, Function.update s.loc t (Loc.after p p')⟩ := by
  have hcounted := h.counted
  have htally := Threads.tally_update Loc.holds s.loc t (Loc.after p p')
  have hbefore : (s.loc t).holds = p.holds := by rw [hp]; rfl
  have hafter : (Loc.after p p').holds = p'.holds := congrArg Pc.holds (pc_after hm)
  rw [hbefore, hafter] at htally
  unfold holders at hcounted ⊢
  dsimp only
  cases move_effect hm with
  | keep uses _ holds | acquire uses _ _ holds | drop uses _ holds =>
    rw [holds] at htally
    omega
  | enter b hinc hunlock uses =>
    rw [hinc, hunlock] at htally
    simp only [SocketLocks.Pc.holds, Bool.toNat_true, Bool.toNat_false] at htally
    rw [hinc, hunlock]
    omega
  | leave hdec hunlock uses =>
    rw [hdec, hunlock] at htally
    simp only [SocketLocks.Pc.holds, Bool.toNat_true, Bool.toNat_false] at htally
    rw [hdec, hunlock]
    omega
  | zero b hp hp' uses => omega

theorem Inv.move {sh : Shared ι} {p p' : Pc} {a : SocketLocks.Act} (h : Inv s)
    (hp : s.loc t = .at p) (hm : SocketLocks.move s.shared t p a = some (sh, p')) :
    Inv ⟨sh, Function.update s.loc t (Loc.after p p')⟩ := by
  have hpc : (s.loc t).pc = p := by rw [hp]; rfl
  obtain ⟨huses, hwrite, hother⟩ := owner_move hm (fun ho => hpc ▸ h.usesOwner t ho)
    fun ho => hpc ▸ h.writeOwner t ho
  refine ⟨counted_move h hp hm, fun v hv => ?_, fun v hv => ?_, fun v hv => ?_⟩
  all_goals dsimp only at hv ⊢
  · rcases answerable_move hm with ⟨htaken, hfree⟩ | ⟨hkeep, hawake⟩
    · -- the mover is no holder, so the holder is somebody else
      obtain ⟨u, hu⟩ := h.exists_holder htaken
      have hut : u ≠ t := by
        rintro rfl
        rw [Loc.holds, hpc, hfree] at hu
        cases hu
      exact ⟨u, by rw [Function.update_of_ne hut]; exact Loc.answerable_of_holds hu⟩
    · have hvt : v ≠ t := by
        rintro rfl
        rw [Function.update_self, hawake] at hv
        cases hv
      rw [Function.update_of_ne hvt] at hv
      obtain ⟨u, hu⟩ := h.watched v hv
      by_cases hut : u = t
      · rw [hut, hp] at hu
        exact ⟨t, by rw [Function.update_self]; exact hkeep hu⟩
      · exact ⟨u, by rwa [Function.update_of_ne hut]⟩
  · by_cases hvt : v = t
    · subst hvt
      rw [Function.update_self, pc_after hm]
      exact huses hv
    · rw [Function.update_of_ne hvt]
      exact h.usesOwner v ((hother v hvt).1 hv)
  · by_cases hvt : v = t
    · subst hvt
      rw [Function.update_self, pc_after hm]
      exact hwrite hv
    · rw [Function.update_of_ne hvt]
      exact h.writeOwner v ((hother v hvt).2 hv)

/-- A thread that was picked goes to take the mutex again. -/
theorem Inv.wake {b : Body} (h : Inv s) (hb : s.loc t = .picked b) :
    Inv ⟨s.shared, Function.update s.loc t (.at (.lockMutex b))⟩ := by
  have htally := Threads.tally_update Loc.holds s.loc t (.at (.lockMutex b))
  rw [hb] at htally
  refine ⟨?_, fun _ _ => ⟨t, ?_⟩, fun v hv => ?_, fun v hv => ?_⟩
  · have hsame : holders ⟨s.shared, Function.update s.loc t (.at (.lockMutex b))⟩ = holders s :=
      htally
    rw [hsame]
    exact h.counted
  · dsimp only
    rw [Function.update_self]
    rfl
  · have howns := h.usesOwner v hv
    have hvt : v ≠ t := by
      rintro rfl
      rw [hb] at howns
      cases howns
    dsimp only
    rwa [Function.update_of_ne hvt]
  · have howns := h.writeOwner v hv
    have hvt : v ≠ t := by
      rintro rfl
      rw [hb] at howns
      cases howns
    dsimp only
    rwa [Function.update_of_ne hvt]

theorem Inv.notify {w : Option ι} (h : Inv s) (hs : step s (.notify t w) = some s') : Inv s' := by
  obtain ⟨hshared, -, hpicked, hpc⟩ := notify_cases hs
  have hholders : holders s' = holders s := by
    unfold holders Threads.tally Loc.holds
    simp only [hpc]
  refine ⟨by rw [hshared, hholders]; exact h.counted, fun v hv => ?_, fun v hv => ?_,
    fun v hv => ?_⟩
  · rcases hpicked with ⟨u, -, hu, hpick⟩ | hnone
    · exact ⟨u, by rw [hpick]; exact Loc.answerable_pick hu⟩
    · rw [hnone v] at hv
      cases hv
  · rw [hpc]
    exact h.usesOwner v (hshared ▸ hv)
  · rw [hpc]
    exact h.writeOwner v (hshared ▸ hv)

theorem Inv.step {a : Act ι} (h : Inv s) (hs : step s a = some s') : Inv s' := by
  cases a with
  | thread t a =>
    rcases stepThread_cases hs with ⟨p, sh, p', hp, hm, rfl⟩ | ⟨b, hb, -, rfl⟩
    · exact h.move hp hm
    · exact h.wake hb
  | notify t w => exact h.notify hs

end Inv

/-! ## Somebody can move -/

/-- The thread can go on by itself, whatever the mutexes are. -/
def Loc.free : Loc → Bool
  | .at .idle | .at (.lockWait _) | .at (.writeMutex _) | .at (.lockMutex _)
  | .at .releaseMutex => false
  | _ => true

/-- A step that is neither the beginning of an operation nor a spurious wake-up. -/
def genuine (s : Sys ι) : Act ι → Bool
  | .thread _ .go | .thread _ (.answer _) | .notify _ _ => true
  | .thread t .wake => !(s.loc t).asleep
  | _ => false

/-- Some thread can go on with what it has begun. -/
def CanMove [DecidableEq ι] [Fintype ι] (s : Sys ι) : Prop :=
  ∃ a, genuine s a = true ∧ (step s a).isSome = true

/-- The thread whose step it is. -/
def mover : Act ι → ι
  | .thread t _ | .notify t _ => t

/-- The thread can go on with what it has begun. -/
def Moves [DecidableEq ι] [Fintype ι] (s : Sys ι) (t : ι) : Prop :=
  ∃ a, mover a = t ∧ genuine s a = true ∧ (step s a).isSome = true

section Moving

variable [DecidableEq ι] [Fintype ι] {s : Sys ι} {t : ι}

theorem Moves.canMove (h : Moves s t) : CanMove s := by
  obtain ⟨a, -, ha⟩ := h
  exact ⟨a, ha⟩

theorem moves_of_move {p : Pc} {a : SocketLocks.Act} (hp : s.loc t = .at p)
    (ha : a = .go ∨ ∃ r, a = .answer r) (hm : (move s.shared t p a).isSome = true) :
    Moves s t := by
  refine ⟨.thread t a, rfl, ?_, ?_⟩
  · rcases ha with rfl | ⟨r, rfl⟩ <;> rfl
  · simpa only [step, stepThread, hp, Option.isSome_map] using hm

/-- `::write` returns, and everything else between the locks goes on. -/
theorem moves_of_free (h : (s.loc t).free = true) : Moves s t := by
  cases hl : s.loc t with
  | picked b =>
    refine ⟨.thread t .wake, rfl, by simp [genuine, hl, Loc.asleep], ?_⟩
    simp [step, stepThread, hl]
  | notifying =>
    obtain ⟨w, hw⟩ :=
      Threads.exists_notifyOne Loc.asleep Loc.pick (Function.update s.loc t (.at .idle))
    refine ⟨.notify t w, rfl, rfl, ?_⟩
    simpa only [step, if_pos hl, Option.isSome_map] using hw
  | «at» p =>
    rw [hl] at h
    cases p with
    | idle | lockWait | writeMutex | lockMutex | releaseMutex => cases h
    | writeSend | drainSend =>
      refine moves_of_move (a := .answer (.failed 0)) hl (.inr ⟨_, rfl⟩) ?_
      simp only [move]
      repeat' split
      all_goals rfl
    | lockUnlock b => exact moves_of_move (a := .go) hl (.inl rfl) (by cases b <;> rfl)
    | writeCheck | lockTest | drainTest =>
      refine moves_of_move (a := .go) hl (.inl rfl) ?_
      simp only [move]
      split <;> rfl
    | writeEnqueue | writeUnlock | removeFromEpoll | lockInc | cleanupUses | cleanupQueue | closeFd
    | releaseDec | releaseUnlock => exact moves_of_move (a := .go) hl (.inl rfl) rfl

theorem Loc.free_of_ownsMutex {l : Loc} (h : l.pc.ownsMutex = true) : l.free = true := by
  cases l with
  | «at» p => cases p <;> first | rfl | cases h
  | picked | notifying => rfl

theorem Loc.free_of_inWrite {l : Loc} (h : l.pc.inWrite = true) : l.free = true := by
  cases l with
  | «at» p => cases p <;> first | rfl | cases h
  | picked | notifying => rfl

/-- A thread that waits for a mutex can have it, or the owner can move. -/
theorem Inv.canMove_of_mutex (h : Inv s) {p : Pc} (hp : s.loc t = .at p)
    (hwait : (∃ data, p = .writeMutex data) ∨ (∃ b, p = .lockMutex b) ∨ p = .releaseMutex) :
    CanMove s := by
  rcases hwait with ⟨data, rfl⟩ | hwait
  · cases hmutex : s.shared.writeQueueMutex with
    | none =>
      exact (moves_of_move (a := .go) hp (.inl rfl) (by simp [SocketLocks.move, hmutex])).canMove
    | some u => exact (moves_of_free (Loc.free_of_inWrite (h.writeOwner u hmutex))).canMove
  · cases hmutex : s.shared.usesMutex with
    | none =>
      rcases hwait with ⟨b, rfl⟩ | rfl <;>
        exact (moves_of_move (a := .go) hp (.inl rfl) (by simp [SocketLocks.move, hmutex])).canMove
    | some u => exact (moves_of_free (Loc.free_of_ownsMutex (h.usesOwner u hmutex))).canMove

theorem Inv.canMove_of_answerable (h : Inv s) (ht : (s.loc t).answerable = true) : CanMove s := by
  cases hl : s.loc t with
  | picked | notifying => exact (moves_of_free (t := t) (by rw [hl]; rfl)).canMove
  | «at» p =>
    rw [hl] at ht
    cases p with
    | lockMutex b => exact h.canMove_of_mutex hl (.inr (.inl ⟨b, rfl⟩))
    | releaseMutex => exact h.canMove_of_mutex hl (.inr (.inr rfl))
    | idle | lockWait | writeMutex | writeCheck | writeSend | writeEnqueue | writeUnlock
    | removeFromEpoll => cases ht
    | _ => exact (moves_of_free (t := t) (by rw [hl]; rfl)).canMove

/-- Whoever is not idle can move, or somebody else can. -/
theorem Inv.canMove_of_ne_idle (h : Inv s) (ht : s.loc t ≠ .at .idle) : CanMove s := by
  cases hl : s.loc t with
  | picked | notifying => exact (moves_of_free (t := t) (by rw [hl]; rfl)).canMove
  | «at» p =>
    cases p with
    | idle => exact absurd hl ht
    | lockWait b =>
      obtain ⟨u, hu⟩ := h.watched t (by rw [hl]; rfl)
      exact h.canMove_of_answerable hu
    | writeMutex data => exact h.canMove_of_mutex hl (.inl ⟨data, rfl⟩)
    | lockMutex b => exact h.canMove_of_mutex hl (.inr (.inl ⟨b, rfl⟩))
    | releaseMutex => exact h.canMove_of_mutex hl (.inr (.inr rfl))
    | _ => exact (moves_of_free (t := t) (by rw [hl]; rfl)).canMove

end Moving

/-- **No waiter is stranded and nothing locks up.**  Over any number of threads that share one
`SocketData` and any interleaving of `write`, passes of the worker, `close` and `cleanup`, with
the store `uses = 0` of `cleanup(false)` and without one spurious wake-up: whenever a thread
sleeps in `lock()`, another one holds the lock, is about to call `notify_one`, or is on its way to
test the counter; and unless all threads are idle, one of them can go on. -/
theorem no_deadlock [DecidableEq ι] [Fintype ι] (acts : List (Act ι)) (s : Sys ι)
    (hrun : run step (init ι) acts = some s) :
    (∀ t, (s.loc t).asleep = true → ∃ u, (s.loc u).answerable = true) ∧
      ((∀ t, s.loc t = .at .idle) ∨ CanMove s) := by
  have hinv : Inv s := invariant_of_run (fun _ _ _ h hs => h.step hs) inv_init hrun
  refine ⟨hinv.watched, ?_⟩
  by_cases hidle : ∀ t, s.loc t = .at .idle
  · exact .inl hidle
  · obtain ⟨t, ht⟩ := not_forall.mp hidle
    exact .inr (hinv.canMove_of_ne_idle ht)

/-- A closer finds the worker inside and sleeps. -/
theorem closer_behind_worker :
    let acts : List (Act (Fin 2)) :=
      .thread 0 (.startBody .drain) :: List.replicate 4 (.thread 0 .go) ++
        .thread 1 (.startBody .close) :: List.replicate 3 (.thread 1 .go)
    ∃ s, run step (init (Fin 2)) acts = some s ∧ (s.loc 1).asleep = true ∧
      (∃ u, (s.loc u).answerable = true) ∧ ((∀ t, s.loc t = .at .idle) ∨ CanMove s) := by
  intro acts
  have hrun : ∃ s, run step (init (Fin 2)) acts = some s ∧ (s.loc 1).asleep = true :=
    ⟨_, rfl, by decide⟩
  obtain ⟨s, hrun, hasleep⟩ := hrun
  obtain ⟨hwatched, hmove⟩ := no_deadlock acts s hrun
  exact ⟨s, hrun, hasleep, hwatched 1 hasleep, hmove⟩

end SocketWaiters

end Nbuss
