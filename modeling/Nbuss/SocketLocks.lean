import Nbuss.SocketData
import Nbuss.Transition.Threads

/-!
# The two locks of a `SocketData`

A `SocketData` carries two locks.  `lock()` and `release()` count uses in the field
`uses`, under the mutex `usesMutex` and with the condition variable `usesCv`; the
worker, `ThreadedServer2::close` and `ThreadedServer2::cleanup` work between them.
`ThreadedServer2::write` takes the other lock, `writeQueueMutex`.  This module has
the threads that use one `SocketData`, cut at every lock operation, every access to
a shared field and every system call.

## What goes wrong with `uses`

`close` and `cleanup` call `cleanup(false)` while they hold the lock, and
`_cleanup()` stores `uses = 0`, without `usesMutex` and although the caller is
itself counted.  The `release()` that follows takes the counter to `-1`.  The next
`lock()` finds `uses > 0` false and makes it `0`, so the one after that finds it
false as well: two threads are inside.  As long as nobody calls `cleanup(false)`,
the counter is the number of holders and that number is at most one; the store is
the only thing that breaks it, and it breaks it at once.

## What the two locks do to each other

Nothing: no thread ever takes both.  A writer excludes writers, a user of `lock()`
excludes (while the counter is right) users of `lock()`, and a writer runs beside a
worker or a closer whenever one thread may do the one and another thread the other.

A sleeper in `usesCv.wait` may wake at any time.  That covers `notify_one`, whoever
it picks, and the spurious wake-ups the standard allows.
-/

namespace Nbuss

open Transition

namespace SocketLocks

/-- What is done between `lock()` and `release()`. -/
inductive Body where
  /-- A pass of the worker. -/
  | drain
  /-- `ThreadedServer2::close`. -/
  | close
  /-- `ThreadedServer2::cleanup`. -/
  | cleanup
  deriving DecidableEq, Repr

/-- Where a thread is, with the local variables it still needs. -/
inductive Pc where
  | idle
  /-- In `write`, before `writeQueueMutex` is taken. -/
  | writeMutex (data : List UInt8)
  /-- In `write`, before the queue is copied and tested. -/
  | writeCheck (data : List UInt8)
  /-- In `server.write`, with `sent` bytes behind it. -/
  | writeSend (data : List UInt8) (sent : ℕ)
  /-- In `write`, at the label `add_to_write_queue`. -/
  | writeEnqueue
  /-- In `write`, before `writeQueueMutex` is given up. -/
  | writeUnlock
  /-- In `close`, before `remove_from_epoll`. -/
  | removeFromEpoll
  /-- In `lock()`, before `usesMutex` is taken. -/
  | lockMutex (b : Body)
  /-- In `lock()`, at the test `uses > 0`. -/
  | lockTest (b : Body)
  /-- Asleep in `usesCv.wait`. -/
  | lockWait (b : Body)
  /-- In `lock()`, before `uses++`. -/
  | lockInc (b : Body)
  /-- At the end of `lock()`, before `usesMutex` is given up. -/
  | lockUnlock (b : Body)
  /-- In the worker's loop, at the test of the queue. -/
  | drainTest
  /-- In `server.write` on behalf of the worker. -/
  | drainSend (item : WriteItem) (sent : ℕ)
  /-- In `cleanup(false)`, before `uses = 0`. -/
  | cleanupUses (b : Body)
  /-- In `cleanup(false)`, before `writeQueue.clear()`. -/
  | cleanupQueue (b : Body)
  /-- In `close`, before `server.close(fd)`. -/
  | closeFd
  /-- In `release()`, before `usesMutex` is taken. -/
  | releaseMutex
  /-- In `release()`, before `uses--`. -/
  | releaseDec
  /-- In `release()`, before `usesMutex` is given up. -/
  | releaseUnlock
  deriving DecidableEq, Repr

/-- What a thread does next: begin an operation, go on, take an answer of `::write`,
wake up. -/
inductive Act where
  | startWrite (data : List UInt8)
  | startBody (b : Body)
  | go
  | answer (a : WriteAnswer)
  | wake
  deriving DecidableEq, Repr

/-- The shared state: the `SocketData` and the owners of its two mutexes. -/
structure Shared (ι : Type*) where
  sd : SocketData
  usesMutex : Option ι
  writeQueueMutex : Option ι

/-- The bytes sent after one more answer. -/
def sentAfter (sent : ℕ) : WriteAnswer → ℕ
  | .wrote k => sent + k
  | .failed _ => sent

/-- The write loop goes round once more. -/
def again (data : List UInt8) (sent : ℕ) : WriteAnswer → Bool
  | .wrote k => 0 < k && k < (data.drop sent).length
  | .failed _ => false

/-- What `IGenericServer::write` returns when it stops at this answer. -/
def retAfter (sent : ℕ) (a : WriteAnswer) : Int :=
  LoopEnd.ret ⟨a, sentAfter sent a, [], []⟩

/-- The item `write_holding_lock` puts back, if any. -/
def putBack (item : WriteItem) (ret : Int) : Option WriteItem :=
  if ret = (item.data.length : Int) then none
  else if ret = -1 then some item
  else if ret < (item.data.length : Int) then some ⟨item.data.drop ret.toNat⟩
  else some item

variable {ι : Type*}

/-- One step of thread `t`. -/
def move (sh : Shared ι) (t : ι) : Pc → Act → Option (Shared ι × Pc)
  | .idle, .startWrite data => some (sh, .writeMutex data)
  | .idle, .startBody .close => some (sh, .removeFromEpoll)
  | .idle, .startBody b => some (sh, .lockMutex b)
  -- `ThreadedServer2::write`
  | .writeMutex data, .go =>
    if sh.writeQueueMutex = none then
      some ({ sh with writeQueueMutex := some t }, .writeCheck data)
    else
      none
  | .writeCheck data, .go =>
    if sh.sd.writeQueue.length = 0 then some (sh, .writeSend data 0) else some (sh, .writeEnqueue)
  | .writeSend data sent, .answer a =>
    if again data sent a then
      some (sh, .writeSend data (sentAfter sent a))
    else if retAfter sent a = (data.length : Int) then
      some (sh, .writeUnlock)
    else
      some (sh, .writeEnqueue)
  -- the item goes into the local copy of the queue
  | .writeEnqueue, .go => some (sh, .writeUnlock)
  | .writeUnlock, .go => some ({ sh with writeQueueMutex := none }, .idle)
  -- `SocketData::lock`
  | .removeFromEpoll, .go => some (sh, .lockMutex .close)
  | .lockMutex b, .go =>
    if sh.usesMutex = none then some ({ sh with usesMutex := some t }, .lockTest b) else none
  | .lockTest b, .go =>
    if 0 < sh.sd.uses then
      some ({ sh with usesMutex := none }, .lockWait b)
    else
      some (sh, .lockInc b)
  | .lockWait b, .wake => some (sh, .lockMutex b)
  | .lockInc b, .go =>
    some ({ sh with sd := { sh.sd with uses := sh.sd.uses + 1 } }, .lockUnlock b)
  | .lockUnlock .drain, .go => some ({ sh with usesMutex := none }, .drainTest)
  | .lockUnlock b, .go => some ({ sh with usesMutex := none }, .cleanupUses b)
  -- the worker
  | .drainTest, .go =>
    match sh.sd.writeQueue with
    | [] => some (sh, .releaseMutex)
    | item :: writeQueue =>
      some ({ sh with sd := { sh.sd with writeQueue := writeQueue } }, .drainSend item 0)
  | .drainSend item sent, .answer a =>
    if again item.data sent a then
      some (sh, .drainSend item (sentAfter sent a))
    else
      match putBack item (retAfter sent a) with
      | none => some (sh, .drainTest)
      | some item' =>
        some ({ sh with sd := { sh.sd with writeQueue := pushBack sh.sd.writeQueue item' } },
          .releaseMutex)
  -- `SocketData::cleanup(false)`, then `server.close(fd)`
  | .cleanupUses b, .go => some ({ sh with sd := { sh.sd with uses := 0 } }, .cleanupQueue b)
  | .cleanupQueue b, .go =>
    some ({ sh with sd := { sh.sd with writeQueue := [] } },
      if b = .close then .closeFd else .releaseMutex)
  | .closeFd, .go => some (sh, .releaseMutex)
  -- `SocketData::release`
  | .releaseMutex, .go =>
    if sh.usesMutex = none then some ({ sh with usesMutex := some t }, .releaseDec) else none
  | .releaseDec, .go =>
    some ({ sh with sd := { sh.sd with uses := sh.sd.uses - 1 } }, .releaseUnlock)
  | .releaseUnlock, .go => some ({ sh with usesMutex := none }, .idle)
  | _, _ => none

/-- The threads that share one `SocketData`. -/
abbrev Sys (ι : Type*) := Threads ι (Shared ι) Pc

/-- Nobody uses the socket data. -/
def init (ι : Type*) (sd : SocketData) : Sys ι := ⟨⟨sd, none, none⟩, fun _ => .idle⟩

/-- One step of one thread. -/
def step [DecidableEq ι] : Sys ι → ι × Act → Option (Sys ι) := Threads.step move

/-! ## What a step does to the counter and its mutex -/

/-- The thread holds the lock of the socket data: it has counted itself in and not
yet counted itself out. -/
def Pc.holds : Pc → Bool
  | .lockUnlock _ | .drainTest | .drainSend _ _ | .cleanupUses _ | .cleanupQueue _ | .closeFd
  | .releaseMutex | .releaseDec => true
  | _ => false

/-- The thread owns `usesMutex`. -/
def Pc.ownsMutex : Pc → Bool
  | .lockTest _ | .lockInc _ | .lockUnlock _ | .releaseDec | .releaseUnlock => true
  | _ => false

/-- The step is the store `uses = 0` of `cleanup(false)`. -/
def StoresZero (s : Sys ι) (a : ι × Act) : Prop := ∃ b, s.loc a.1 = .cleanupUses b

/-- Everything a step can do to `uses`, to `usesMutex` and to the mover's part in
them. -/
inductive Effect (t : ι) (sh sh' : Shared ι) (p p' : Pc) : Prop where
  /-- Nothing; `lockInc` is reached only past the test `uses > 0`. -/
  | keep (uses : sh'.sd.uses = sh.sd.uses) (mutex : sh'.usesMutex = sh.usesMutex)
      (holds : p'.holds = p.holds) (owns : p'.ownsMutex = p.ownsMutex)
      (inc : ∀ b, p' = .lockInc b → sh.sd.uses ≤ 0)
  /-- The free mutex is taken. -/
  | acquire (uses : sh'.sd.uses = sh.sd.uses) (free : sh.usesMutex = none)
      (mutex : sh'.usesMutex = some t) (holds : p'.holds = p.holds)
      (owns : p.ownsMutex = false) (owns' : p'.ownsMutex = true) (inc : ∀ b, p' ≠ .lockInc b)
  /-- The mutex is given up. -/
  | drop (uses : sh'.sd.uses = sh.sd.uses) (mutex : sh'.usesMutex = none)
      (holds : p'.holds = p.holds) (owns : p.ownsMutex = true) (owns' : p'.ownsMutex = false)
  /-- `uses++`. -/
  | enter (b : Body) (hp : p = .lockInc b) (hp' : p' = .lockUnlock b)
      (uses : sh'.sd.uses = sh.sd.uses + 1) (mutex : sh'.usesMutex = sh.usesMutex)
  /-- `uses--`. -/
  | leave (hp : p = .releaseDec) (hp' : p' = .releaseUnlock)
      (uses : sh'.sd.uses = sh.sd.uses - 1) (mutex : sh'.usesMutex = sh.usesMutex)
  /-- `uses = 0`. -/
  | zero (b : Body) (hp : p = .cleanupUses b) (hp' : p' = .cleanupQueue b)
      (uses : sh'.sd.uses = 0)

/-- **One step, said once.**  Every invariant below is read off this list. -/
theorem move_effect {sh sh' : Shared ι} {t : ι} {p p' : Pc} {a : Act}
    (h : move sh t p a = some (sh', p')) : Effect t sh sh' p p' := by
  unfold move at h
  split at h
  all_goals try split_ifs at h
  all_goals try split at h
  all_goals cases h
  -- each program point matches one kind of effect, and the fields hold by computation
  all_goals first
    | exact .keep rfl rfl rfl rfl (by simp; try omega)
    | exact .acquire rfl ‹_› rfl rfl rfl rfl (by simp)
    | exact .drop rfl rfl rfl rfl rfl
    | exact .enter _ rfl rfl rfl rfl
    | exact .leave rfl rfl rfl rfl
    | exact .zero _ rfl rfl rfl

/-! ## The counter is the number of holders -/

variable [DecidableEq ι] [Fintype ι]

/-- `uses` is the number of threads that hold the lock, and that number is `0` or
`1`. -/
def Exclusive (s : Sys ι) : Prop :=
  s.shared.sd.uses = Threads.tally Pc.holds s.loc ∧ Threads.tally Pc.holds s.loc ≤ 1

/-- What keeps the counter right: `usesMutex` has one owner, a thread about to count
itself in has seen that nobody is counted, and nobody can change that under it. -/
structure Inv (s : Sys ι) : Prop where
  owner : ∀ t, (s.loc t).ownsMutex = true ↔ s.shared.usesMutex = some t
  exclusive : Exclusive s
  inc : ∀ t b, s.loc t = .lockInc b → s.shared.sd.uses ≤ 0

omit [Fintype ι] in
/-- The ownership of the mutex after thread `t` has moved to `p`. -/
theorem owner_update {loc : ι → Pc} {m m' : Option ι} {t : ι} {p : Pc}
    (h : ∀ u, (loc u).ownsMutex = true ↔ m = some u) (self : p.ownsMutex = true ↔ m' = some t)
    (other : ∀ u, u ≠ t → (m' = some u ↔ m = some u)) (u : ι) :
    (Function.update loc t p u).ownsMutex = true ↔ m' = some u := by
  by_cases hu : u = t
  · subst hu
    rwa [Function.update_self]
  · rw [Function.update_of_ne hu, h u, other u hu]

omit [Fintype ι] in
/-- The threads at `lockInc` after thread `t` has moved to `p`. -/
theorem inc_update {loc : ι → Pc} {uses : Int} {t : ι} {p : Pc}
    (self : ∀ b, p = .lockInc b → uses ≤ 0)
    (other : ∀ u b, u ≠ t → loc u = .lockInc b → uses ≤ 0) (u : ι) (b : Body)
    (h : Function.update loc t p u = .lockInc b) : uses ≤ 0 := by
  by_cases hu : u = t
  · subst hu
    rw [Function.update_self] at h
    exact self b h
  · rw [Function.update_of_ne hu] at h
    exact other u b hu h

omit [DecidableEq ι] in
/-- A thread at `lockInc` owns the mutex, so nobody else does. -/
theorem Inv.eq_of_lockInc {s : Sys ι} (h : Inv s) {t u : ι} {b : Body}
    (ht : (s.loc t).ownsMutex = true) (hu : s.loc u = .lockInc b) : u = t := by
  have h1 := (h.owner t).mp ht
  have h2 := (h.owner u).mp (by rw [hu]; rfl)
  rw [h1, Option.some_inj] at h2
  exact h2.symm

/-- **Every step but the store `uses = 0` keeps the invariant.** -/
theorem inv_step {s s' : Sys ι} {a : ι × Act} (h : Inv s) (hz : ¬ StoresZero s a)
    (hs : step s a = some s') : Inv s' := by
  obtain ⟨t, a⟩ := a
  obtain ⟨sh, p, hm, rfl⟩ := Threads.step_eq_some.mp hs
  have htally := Threads.tally_update Pc.holds s.loc t p
  obtain ⟨hcount, hone⟩ := h.exclusive
  cases move_effect hm with
  | keep uses mutex holds owns inc =>
    rw [holds, Nat.add_right_cancel_iff] at htally
    refine ⟨owner_update h.owner ?_ ?_, ?_, inc_update ?_ ?_⟩
    · rw [owns, mutex, h.owner]
    · exact fun u _ => by rw [mutex]
    · exact ⟨by rw [uses, htally, hcount], by rwa [htally]⟩
    · exact fun b hb => uses.symm ▸ inc b hb
    · exact fun u b _ hu => uses.symm ▸ h.inc u b hu
  | acquire uses free mutex holds owns owns' inc =>
    rw [holds, Nat.add_right_cancel_iff] at htally
    refine ⟨owner_update h.owner ?_ ?_, ?_, inc_update ?_ ?_⟩
    · exact iff_of_true owns' mutex
    · intro u hu
      rw [mutex, free, Option.some_inj]
      exact iff_of_false (Ne.symm hu) (by simp)
    · exact ⟨by rw [uses, htally, hcount], by rwa [htally]⟩
    · exact fun b hb => absurd hb (inc b)
    · exact fun u b _ hu => uses.symm ▸ h.inc u b hu
  | drop uses mutex holds owns owns' =>
    rw [holds, Nat.add_right_cancel_iff] at htally
    refine ⟨owner_update h.owner ?_ ?_, ?_, inc_update ?_ ?_⟩
    · rw [owns', mutex]
      simp
    · intro u hu
      rw [mutex, (h.owner t).mp owns, Option.some_inj]
      exact iff_of_false (by simp) (Ne.symm hu)
    · exact ⟨by rw [uses, htally, hcount], by rwa [htally]⟩
    · intro b hb
      rw [hb] at owns'
      cases owns'
    · exact fun u b _ hu => uses.symm ▸ h.inc u b hu
  | enter b hp hp' uses mutex =>
    -- past the test nobody is counted, so the mover becomes the only holder
    have hzero := h.inc t b hp
    have hown : (s.loc t).ownsMutex = true := by rw [hp]; rfl
    subst hp'
    simp only [hp, Pc.holds, Bool.toNat_false, Bool.toNat_true, Nat.add_zero] at htally
    refine ⟨owner_update h.owner ?_ ?_, ⟨?_, ?_⟩, inc_update ?_ ?_⟩
    · rw [mutex, ← h.owner t]
      exact iff_of_true rfl hown
    · exact fun u _ => by rw [mutex]
    · simp only [uses, htally]
      push_cast
      omega
    · simp only [htally]
      omega
    · exact fun b hb => by cases hb
    · exact fun u b hne hu => absurd (h.eq_of_lockInc hown hu) hne
  | leave hp hp' uses mutex =>
    have hown : (s.loc t).ownsMutex = true := by rw [hp]; rfl
    subst hp'
    simp only [hp, Pc.holds, Bool.toNat_false, Bool.toNat_true, Nat.add_zero] at htally
    refine ⟨owner_update h.owner ?_ ?_, ⟨?_, ?_⟩, inc_update ?_ ?_⟩
    · rw [mutex, ← h.owner t]
      exact iff_of_true rfl hown
    · exact fun u _ => by rw [mutex]
    · simp only [uses]
      omega
    · simp only
      omega
    · exact fun b hb => by cases hb
    · exact fun u b hne hu => absurd (h.eq_of_lockInc hown hu) hne
  | zero b hp hp' uses => exact absurd ⟨b, hp⟩ hz

/-- The store `uses = 0` is made by a thread that holds the lock, so it makes the
counter wrong. -/
theorem not_exclusive_of_storesZero {s s' : Sys ι} {a : ι × Act} (hz : StoresZero s a)
    (hs : step s a = some s') : ¬ Exclusive s' := by
  obtain ⟨t, a⟩ := a
  obtain ⟨b, hb⟩ := hz
  obtain ⟨sh, p, hm, rfl⟩ := Threads.step_eq_some.mp hs
  dsimp only at hb
  rintro ⟨hcount, -⟩
  cases a with
  | go =>
    rw [hb, move, Option.some_inj, Prod.mk.injEq] at hm
    obtain ⟨rfl, rfl⟩ := hm
    have hpos : 0 < Threads.tally Pc.holds (Function.update s.loc t (.cleanupQueue b)) :=
      Threads.tally_pos (t := t) (by rw [Function.update_self]; rfl)
    simp only at hcount
    omega
  | startWrite | startBody | answer | wake =>
    rw [hb] at hm
    cases hm

omit [DecidableEq ι] in
theorem inv_init : Inv (init ι {}) where
  owner t := by simp [init, Pc.ownsMutex]
  exclusive := by
    have h0 : Threads.tally Pc.holds (init ι {}).loc = 0 := Threads.tally_eq_zero fun _ => rfl
    exact ⟨by rw [h0]; rfl, by rw [h0]; exact Nat.zero_le 1⟩
  inc t b h := by cases h

/-- **When the lock excludes.**  Over any number of threads and any interleaving of
sections `lock(); body; release()`, `uses` is the number of holders, and that number
is at most one, in every state exactly when no thread has executed the `uses = 0` of
`cleanup(false)`, that is, when only the worker has been at work. -/
theorem exclusive_iff (acts : List (ι × Act)) :
    Always step Exclusive (init ι {}) acts ↔
      Guarded step (fun s a => ¬ StoresZero s a) (init ι {}) acts := by
  refine always_iff_guarded (I := Inv) ?_ ?_ ?_ inv_init
  · exact fun s h => h.exclusive
  · exact fun s a s' h hz hs => inv_step h hz hs
  · exact fun s a s' _ hz hs => not_exclusive_of_storesZero (not_not.mp hz) hs

/-- One thread closes a connection; afterwards it and another thread both get the
lock for a pass of the worker.  The counter, started from `-1`, says `1`. -/
theorem two_holders_after_close :
    ∃ s, run step (init (Fin 2) {})
        ((0, .startBody .close) :: List.replicate 11 (0, .go) ++
          (0, .startBody .drain) :: List.replicate 4 (0, .go) ++
          (1, .startBody .drain) :: List.replicate 4 (1, .go)) = some s ∧
      s.loc 0 = .drainTest ∧ s.loc 1 = .drainTest ∧ s.shared.sd.uses = 1 ∧
      Threads.tally Pc.holds s.loc = 2 ∧ ¬ Exclusive s :=
  ⟨_, rfl, by decide, by decide, by decide, by decide, fun h => absurd h.2 (by decide)⟩

/-! ## Writers beside workers and closers -/

section Overlap

variable {ι : Type*} [DecidableEq ι]

/-- What a thread may be asked to do: `write`, or one of the operations that use
`lock()`. -/
inductive Task where
  | write
  | body (b : Body)
  deriving DecidableEq, Repr

/-- Operations are begun only by threads that may do them. -/
def Permitted (may : ι → Task → Prop) (_ : Sys ι) (a : ι × Act) : Prop :=
  match a.2 with
  | .startWrite _ => may a.1 .write
  | .startBody b => may a.1 (.body b)
  | _ => True

/-- The thread is between taking and giving up `writeQueueMutex` in `write`. -/
def Pc.inWrite : Pc → Bool
  | .writeCheck _ | .writeSend _ _ | .writeEnqueue | .writeUnlock => true
  | _ => false

/-- The thread is between `sd.lock()` and `sd.release()`. -/
def Pc.inBody : Pc → Bool
  | .drainTest | .drainSend _ _ | .cleanupUses _ | .cleanupQueue _ | .closeFd => true
  | _ => false

/-- One thread is in the critical section of `write` while another is in one of the
sections between `lock()` and `release()`. -/
def Overlap (s : Sys ι) : Prop :=
  ∃ t u, t ≠ u ∧ (s.loc t).inWrite = true ∧ (s.loc u).inBody = true

/-- The thread is executing `write`. -/
def Pc.writing : Pc → Bool
  | .writeMutex _ | .writeCheck _ | .writeSend _ _ | .writeEnqueue | .writeUnlock => true
  | _ => false

/-- The thread is executing an operation that uses `lock()`. -/
def Pc.locking : Pc → Bool
  | .removeFromEpoll | .lockMutex _ | .lockTest _ | .lockWait _ | .lockInc _ | .lockUnlock _
  | .drainTest | .drainSend _ _ | .cleanupUses _ | .cleanupQueue _ | .closeFd
  | .releaseMutex | .releaseDec | .releaseUnlock => true
  | _ => false

theorem Pc.writing_of_inWrite {p : Pc} (h : p.inWrite = true) : p.writing = true := by
  cases p <;> first | rfl | cases h

theorem Pc.locking_of_inBody {p : Pc} (h : p.inBody = true) : p.locking = true := by
  cases p <;> first | rfl | cases h

omit [DecidableEq ι] in
/-- A thread stays in its operation until it is idle, and leaves idleness only by
beginning one. -/
theorem move_family {sh sh' : Shared ι} {t : ι} {p p' : Pc} {a : Act}
    (h : move sh t p a = some (sh', p')) :
    (p'.writing = true → p.writing = true ∨ ∃ data, a = .startWrite data) ∧
      (p'.locking = true → p.locking = true ∨ ∃ b, a = .startBody b) := by
  unfold move at h
  split at h
  all_goals try split_ifs at h
  all_goals try split at h
  all_goals cases h
  all_goals simp [Pc.writing, Pc.locking]

/-- Every operation in progress is one its thread may do. -/
def Allowed (may : ι → Task → Prop) (s : Sys ι) : Prop :=
  ∀ t, ((s.loc t).writing = true → may t .write) ∧
    ((s.loc t).locking = true → ∃ b, may t (.body b))

theorem allowed_step {may : ι → Task → Prop} {s s' : Sys ι} {a : ι × Act}
    (h : Allowed may s) (hp : Permitted may s a) (hs : step s a = some s') :
    Allowed may s' := by
  obtain ⟨t, a⟩ := a
  obtain ⟨sh, p, hm, rfl⟩ := Threads.step_eq_some.mp hs
  intro u
  by_cases hu : u = t
  · subst hu
    obtain ⟨hw, hl⟩ := move_family hm
    simp only [Function.update_self]
    constructor
    · intro hp'
      rcases hw hp' with hp' | ⟨data, rfl⟩
      · exact (h u).1 hp'
      · exact hp
    · intro hp'
      rcases hl hp' with hp' | ⟨b, rfl⟩
      · exact (h u).2 hp'
      · exact ⟨b, hp⟩
  · simp only [Function.update_of_ne hu]
    exact h u

omit [DecidableEq ι] in
/-- A thread running alone gets through `lock()` while `usesMutex` is free and nobody
is counted. -/
theorem run_lockMutex {sh : Shared ι} (u : ι) (b : Body) (hfree : sh.usesMutex = none)
    (huses : sh.sd.uses ≤ 0) :
    ∃ sh' p, run (fun p a => move p.1 u p.2 a) (sh, .lockMutex b) (List.replicate 4 .go) =
      some (sh', p) ∧ p.inBody = true := by
  have hmutex : move sh u (.lockMutex b) .go =
      some ({ sh with usesMutex := some u }, .lockTest b) := if_pos hfree
  have htest : move { sh with usesMutex := some u } u (.lockTest b) .go =
      some ({ sh with usesMutex := some u }, .lockInc b) := if_neg (by dsimp only; omega)
  simp only [List.replicate, run_cons, hmutex, htest, Option.bind_some]
  cases b <;> exact ⟨_, _, rfl, rfl⟩

/-- An idle thread gets through `lock()`, whatever the writers do. -/
theorem run_lock {s : Sys ι} {u : ι} (b : Body) (hidle : s.loc u = .idle)
    (hfree : s.shared.usesMutex = none) (huses : s.shared.sd.uses ≤ 0) :
    ∃ n s', run step s ((.startBody b :: List.replicate n .go).map (Prod.mk u)) = some s' ∧
      (s'.loc u).inBody = true ∧ ∀ v, v ≠ u → s'.loc v = s.loc v := by
  obtain ⟨sh, p, hlock, hbody⟩ := run_lockMutex u b hfree huses
  have hsolo : ∃ n, run (fun p a => move p.1 u p.2 a) (s.shared, s.loc u)
      (.startBody b :: List.replicate n .go) = some (sh, p) := by
    rw [hidle]
    cases b with
    | drain | cleanup => exact ⟨4, hlock⟩
    | close => exact ⟨5, hlock⟩
  obtain ⟨n, hrun⟩ := hsolo
  refine ⟨n, ⟨sh, Function.update s.loc u p⟩, ?_, ?_, fun v hv => Function.update_of_ne hv ..⟩
  · rw [step, Threads.run_solo, hrun, Option.map_some]
  · show (Function.update s.loc u p u).inBody = true
    rwa [Function.update_self]

/-- A thread gets into the critical section of `write` while `writeQueueMutex` is
free, and touches nothing but that mutex. -/
theorem run_write (sd : SocketData) (t : ι) :
    ∃ s, run step (init ι sd) ([.startWrite [], .go].map (Prod.mk t)) = some s ∧
      s.shared = ⟨sd, none, some t⟩ ∧ (s.loc t).inWrite = true ∧
      ∀ v, v ≠ t → s.loc v = .idle := by
  refine ⟨⟨⟨sd, none, some t⟩, Function.update (init ι sd).loc t (.writeCheck [])⟩, ?_, rfl, ?_,
    fun v hv => Function.update_of_ne hv ..⟩
  · rw [step, Threads.run_solo]
    rfl
  · show (Function.update (init ι sd).loc t (.writeCheck []) t).inWrite = true
    rw [Function.update_self]
    rfl

/-- A thread may begin what it is permitted to do, and goes on freely. -/
theorem guarded_begin {may : ι → Task → Prop} {s : Sys ι} {u : ι} {a : Act} (n : ℕ)
    (hu : ∀ s, Permitted may s (u, a)) :
    Guarded step (Permitted may) s ((a :: List.replicate n .go).map (Prod.mk u)) := by
  refine guarded_of_labels (fun x hx s => ?_) s
  rw [List.map_cons, List.map_replicate] at hx
  rcases List.mem_cons.mp hx with rfl | hx
  · exact hu s
  · rw [List.eq_of_mem_replicate hx]
    trivial

/-- A writer that has taken its mutex does not keep another thread from getting
through `lock()`. -/
theorem exists_overlap {may : ι → Task → Prop} {sd : SocketData} (hsd : sd.uses ≤ 0) {t u : ι}
    {b : Body} (hne : t ≠ u) (ht : may t .write) (hu : may u (.body b)) :
    ∃ acts s, Guarded step (Permitted may) (init ι sd) acts ∧
      run step (init ι sd) acts = some s ∧ Overlap s := by
  obtain ⟨s₁, hrun₁, hshared, hwrite, hidle⟩ := run_write sd t
  obtain ⟨n, s₂, hrun₂, hbody, hother⟩ := run_lock b (hidle u (Ne.symm hne))
    (by rw [hshared]) (by rw [hshared]; exact hsd)
  have hwriter : Guarded step (Permitted may) (init ι sd) ([.startWrite [], .go].map (Prod.mk t)) :=
    guarded_begin 1 fun _ => ht
  have hworker : Guarded step (Permitted may) s₁
      ((.startBody b :: List.replicate n .go).map (Prod.mk u)) :=
    guarded_begin n fun _ => hu
  refine ⟨_, s₂, (guarded_append hrun₁).mpr ⟨hwriter, hworker⟩, ?_, t, u, hne, ?_, hbody⟩
  · rw [run_append_of_eq_some hrun₁, hrun₂]
  · rwa [hother t hne]

/-- **The locks do not exclude each other.**  From a socket data that nobody has
locked, no interleaving ever has one thread inside `write` and another between
`lock()` and `release()` exactly when the program never lets one thread write while
another may drain, close or clean up. -/
theorem no_overlap_iff (may : ι → Task → Prop) (sd : SocketData) (hsd : sd.uses ≤ 0) :
    (∀ acts s, Guarded step (Permitted may) (init ι sd) acts →
        run step (init ι sd) acts = some s → ¬ Overlap s) ↔
      ∀ t u b, t ≠ u → ¬ (may t .write ∧ may u (.body b)) := by
  constructor
  · rintro h t u b hne ⟨ht, hu⟩
    obtain ⟨acts, s, hg, hrun, hover⟩ := exists_overlap hsd hne ht hu
    exact h acts s hg hrun hover
  · rintro h acts s hg hrun ⟨t, u, hne, hw, hb⟩
    have hallowed : Allowed may s := by
      have hinit : Allowed may (init ι sd) := by
        intro v
        constructor <;> intro hv <;> cases hv
      exact invariant_of_guarded (fun s a s' => allowed_step) hinit hg hrun
    obtain ⟨b, hu⟩ := (hallowed u).2 (Pc.locking_of_inBody hb)
    exact h t u b hne ⟨(hallowed t).1 (Pc.writing_of_inWrite hw), hu⟩

/-- A thread that writes and a thread that drains, as every `ThreadedServer2` has
them, can overlap. -/
theorem overlap_of_writer_and_worker :
    ¬ ∀ acts s, Guarded step (Permitted fun (t : Fin 2) task =>
        (t = 0 ∧ task = .write) ∨ (t = 1 ∧ task = .body .drain)) (init (Fin 2) {}) acts →
      run step (init (Fin 2) {}) acts = some s → ¬ Overlap s := by
  rw [no_overlap_iff _ {} (le_refl 0)]
  intro h
  exact h 0 1 .drain (by decide) (by decide)

/-- `close` clears the queue and goes on to close the descriptor while another thread
stands between its test of the queue and its own `::write`. -/
theorem close_in_the_middle_of_write :
    ∃ s, run step (init (Fin 2) {})
        ([(0, .startWrite [104, 105]), (0, .go), (0, .go), (1, .startBody .close)] ++
          List.replicate 7 (1, .go)) = some s ∧
      s.loc 0 = .writeSend [104, 105] 0 ∧ s.loc 1 = .closeFd ∧ Overlap s :=
  ⟨_, rfl, by decide, by decide, 0, 1, by decide, by decide, by decide⟩

end Overlap

end SocketLocks

end Nbuss
