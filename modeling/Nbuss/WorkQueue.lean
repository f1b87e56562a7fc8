import Mathlib.Data.Fintype.Basic
import Nbuss.Listen

/-!
# Events of dead connections in the work queue

`WorkQueue` puts a queue between the listening thread and the user callback.  The
listening thread's callback (`producer_callback`, behind
`ThreadedServer2::internal_callback`) pushes an item, consumers pop items and call the
user callback, and the user callback answers `CLOSE_SOCKET` with `WorkQueue::close`.
That function marks the queued items of its descriptor so that they are not processed,
removes the descriptor from epoll, and closes it.

The system here is the model of the listening thread with these parts around it: the
consumers are the threads that call `close` and `remove_from_epoll`.  An item holds a
number, and a connection is dead once `WorkQueue::close` has come back from closing its
descriptor, so the question is whether an item can outlive its connection.

There are two ways.  Between the marking loop and the removal from epoll the listening
thread may still push an item; and so it may afterwards, out of a batch that was
reported before.  And a consumer may hold an item that it has popped and not yet
tested, which the marking loop does not see.  Without these (`Undisturbed`) no event of
a dead connection is started, whatever the number stands for by then.
-/

namespace Nbuss

namespace WorkQueue

open Transition Listen

/-! ## The queue -/

/-- `WorkQueue::Item`, with the file the event is about. -/
structure Item where
  fd : ℕ
  job : Job
  process : Bool
  file : File
  deriving DecidableEq, Repr

/-- What `producer_callback` pushes for a callback of the listening thread. -/
def produced (cb : Callback) : List Item :=
  match forwardedJob cb.job with
  | some job => [⟨cb.fd, job, true, cb.file⟩]
  | none => []

/-- The marking loop of `WorkQueue::close`. -/
def mark (fd : ℕ) (deque : List Item) : List Item :=
  deque.map fun i => if i.fd = fd then { i with process := false } else i

/-- Where a consumer stands. -/
inductive Pc where
  | idle
  /-- The item has been popped; `process` has not been tested. -/
  | popped (i : Item)
  /-- In the user callback. -/
  | calling (i : Item)
  /-- In `WorkQueue::close`, past the marking loop. -/
  | marked (i : Item)
  /-- In `ThreadedServer2::close`, past `remove_from_epoll`. -/
  | removed (i : Item)
  /-- `WorkQueue::close` has come back. -/
  | closed (i : Item)
  deriving DecidableEq, Repr

/-- The descriptor of a `WorkQueue::close` that has marked and has not come back. -/
def Pc.closing : Pc → Option ℕ
  | .marked i | .removed i => some i.fd
  | _ => none

/-- The descriptor of an item that will be processed and has not been started. -/
def Pc.holding : Pc → Option ℕ
  | .popped i => if i.process then some i.fd else none
  | _ => none

/-- The descriptor the user callback is busy with. -/
def Pc.serving : Pc → Option ℕ
  | .calling i => some i.fd
  | _ => none

/-- The server, the queue read from back to front, and the consumers. -/
structure Sys (ι : Type*) where
  server : State
  deque : List Item := []
  consumers : ι → Pc := fun _ => .idle
  /-- The connections that a `WorkQueue::close` which has come back has closed. -/
  completed : Finset ℕ := ∅
  /-- The items for which the user callback has been started, with whether their
  connection was dead at that moment. -/
  started : List (Item × Bool) := []

variable {ι : Type*}

def Sys.isDead (s : Sys ι) (i : Item) : Bool :=
  match i.file with
  | .conn c => decide (c ∈ s.completed)
  | _ => false

/-- What the listening thread is about to push. -/
def Sys.coming (s : Sys ι) : List Item :=
  match s.server.pc with
  | .calling cb _ _ => produced cb
  | _ => []

/-- The connection that `fd` was last given to. -/
def owner (k : Kernel) (fd : ℕ) : Finset ℕ :=
  match k.file fd with
  | some (.conn c) => {c}
  | _ => ∅

/-- What the listening thread, the peers and the callers of `terminate` do by
themselves.  The callback and the closes belong to the queue. -/
def isOwn : Listen.Act → Bool
  | .answer | .ret | .close _ | .removeFromEpoll _ => false
  | _ => true

inductive Act (ι : Type*) where
  | listen (a : Listen.Act)
  /-- `producer_callback` pushes its item and returns to the listening thread. -/
  | produce
  | pop (t : ι)
  /-- The test of `process`, and the call of the user callback. -/
  | test (t : ι)
  | mark (t : ι)
  | remove (t : ι)
  /-- `cleanup` and `::close`, and the return of `WorkQueue::close`. -/
  | close (t : ι)
  | ret (t : ι)
  deriving DecidableEq, Repr

def init (ι : Type*) (cfg : Setup) : Sys ι where
  server := Listen.init cfg

section Step

variable [DecidableEq ι]

def Sys.moveTo (s : Sys ι) (t : ι) (p : Pc) : Sys ι :=
  { s with consumers := Function.update s.consumers t p }

/-- The user callback calls `WorkQueue::close` exactly when it gets `CLOSE_SOCKET`. -/
def step (cfg : Setup) (s : Sys ι) : Act ι → Option (Sys ι)
  | .listen a =>
    if isOwn a then (Listen.step cfg s.server a).map fun v => { s with server := v } else none
  | .produce =>
    (Listen.step cfg s.server .ret).map fun v =>
      { s with server := v, deque := s.deque ++ s.coming }
  | .pop t =>
    match s.consumers t, s.deque with
    | .idle, i :: rest => some { s.moveTo t (.popped i) with deque := rest }
    | _, _ => none
  | .test t =>
    match s.consumers t with
    | .popped i =>
      if i.process then
        some { s.moveTo t (.calling i) with started := s.started ++ [(i, s.isDead i)] }
      else some (s.moveTo t .idle)
    | _ => none
  | .mark t =>
    match s.consumers t with
    | .calling i =>
      if i.job = .closeSocket then
        some { s.moveTo t (.marked i) with deque := mark i.fd s.deque }
      else none
    | _ => none
  | .remove t =>
    match s.consumers t with
    | .marked i =>
      (Listen.step cfg s.server (.removeFromEpoll i.fd)).map fun v =>
        { s.moveTo t (.removed i) with server := v }
    | _ => none
  | .close t =>
    match s.consumers t with
    | .removed i =>
      (Listen.step cfg s.server (.close i.fd)).map fun v =>
        { s.moveTo t (.closed i) with
          server := v
          completed := s.completed ∪ owner s.server.kernel i.fd }
    | _ => none
  | .ret t =>
    match s.consumers t with
    | .calling i => if i.job = .closeSocket then none else some (s.moveTo t .idle)
    | .closed _ => some (s.moveTo t .idle)
    | _ => none

end Step

/-! ## Items that are still to be tested -/

/-- The item is in the queue, or a consumer has popped it and not tested it. -/
def Pending (deque : List Item) (consumers : ι → Pc) (i : Item) : Prop :=
  i ∈ deque ∨ ∃ t, consumers t = .popped i

/-- No event of a dead connection has been started. -/
def NoDeadEvent (s : Sys ι) : Prop := ∀ p ∈ s.started, p.2 = false

/-- Nothing is pushed for a descriptor while a `WorkQueue::close` of it is past its
marking loop, nor for a connection that is dead; and the marking loop runs only when no
other consumer holds an untested item of the descriptor. -/
def Undisturbed (s : Sys ι) : Act ι → Prop
  | .produce => ∀ i ∈ s.coming, s.isDead i = false ∧ ∀ t, (s.consumers t).closing ≠ some i.fd
  | .mark t => ∀ u, u ≠ t → ∀ fd ∈ (s.consumers u).holding, (s.consumers t).serving ≠ some fd
  | _ => True

instance [Fintype ι] [DecidableEq ι] (s : Sys ι) : ∀ a, Decidable (Undisturbed s a)
  | .produce => inferInstanceAs (Decidable
      (∀ i ∈ s.coming, s.isDead i = false ∧ ∀ t, (s.consumers t).closing ≠ some i.fd))
  | .mark t => inferInstanceAs (Decidable
      (∀ u, u ≠ t → ∀ fd ∈ (s.consumers u).holding, (s.consumers t).serving ≠ some fd))
  | .listen _ | .pop _ | .test _ | .remove _ | .close _ | .ret _ => inferInstanceAs (Decidable True)

structure Inv (s : Sys ι) : Prop where
  wf : s.server.kernel.Wf
  carried : ∀ p ∈ s.server.pc.carried, s.server.kernel.Names p.1 p.2
  named : ∀ i, Pending s.deque s.consumers i → s.server.kernel.Names i.fd i.file
  live : ∀ i, Pending s.deque s.consumers i → i.process = true →
    s.isDead i = false ∧ ∀ t, (s.consumers t).closing ≠ some i.fd
  started : NoDeadEvent s

theorem inv_init (cfg : Setup) : Inv (init ι cfg) := by
  have hnone : ∀ i, ¬ Pending (init ι cfg).deque (init ι cfg).consumers i := by
    rintro i (hi | ⟨t, ht⟩)
    · simp [init] at hi
    · simp [init] at ht
  refine ⟨wf_init cfg, ?_, ?_, ?_, ?_⟩
  · exact fun p hp => by cases hp
  · exact fun i hi => absurd hi (hnone i)
  · exact fun i hi => absurd hi (hnone i)
  · exact fun p hp => by cases hp

theorem mem_mark {fd : ℕ} {deque : List Item} {i : Item} (h : i ∈ mark fd deque) :
    (∃ j ∈ deque, j.fd = i.fd ∧ j.file = i.file) ∧
      (i.process = true → i ∈ deque ∧ i.fd ≠ fd) := by
  obtain ⟨j, hj, rfl⟩ := List.mem_map.mp h
  split_ifs with hfd
  · exact ⟨⟨j, hj, rfl, rfl⟩, fun hp => by cases hp⟩
  · exact ⟨⟨j, hj, rfl, rfl⟩, fun _ => ⟨hj, hfd⟩⟩

theorem mem_produced {cb : Callback} {i : Item} (h : i ∈ produced cb) :
    i.fd = cb.fd ∧ i.file = cb.file := by
  unfold produced at h
  split at h
  · rw [List.mem_singleton.mp h]
    exact ⟨rfl, rfl⟩
  · cases h

section Steps

variable {cfg : Setup}

/-- What is about to be pushed names a connection by its number. -/
theorem Inv.names_coming {s : Sys ι} (h : Inv s) {i : Item} (hi : i ∈ s.coming) :
    s.server.kernel.Names i.fd i.file := by
  unfold Sys.coming at hi
  split at hi
  · next cb b rest hpc =>
    obtain ⟨hfd, hfile⟩ := mem_produced hi
    have hcarried : (cb.fd, cb.file) ∈ s.server.pc.carried := by
      rw [hpc]
      exact List.mem_cons_self ..
    rw [hfd, hfile]
    exact h.carried _ hcarried
  · cases hi

/-- The server makes a step. -/
theorem Inv.server {s : Sys ι} {v : State} {a : Listen.Act} (h : Inv s)
    (hs : Listen.step cfg s.server a = some v) : Inv { s with server := v } := by
  refine ⟨wf_step h.wf hs, fun p hp => ?_, fun i hi => (h.named i hi).step hs, h.live, h.started⟩
  rcases carried_step hs hp with hold | ⟨hsame, hfile⟩ | ⟨fd, hsame, rfl⟩
  · exact (h.carried p hold).step hs
  · rw [show v.kernel = s.server.kernel from hsame]
    exact h.wf.names hfile
  · have hwf := h.wf.accept fd
    rw [show v.kernel = s.server.kernel.accept fd from hsame]
    exact hwf.names (s.server.kernel.accept_file_self fd)

/-- The listening thread pushes an item that nobody is about to bury. -/
theorem Inv.push {s : Sys ι} {l : List Item} (h : Inv s)
    (hnames : ∀ i ∈ l, s.server.kernel.Names i.fd i.file)
    (hlive : ∀ i ∈ l, s.isDead i = false ∧ ∀ t, (s.consumers t).closing ≠ some i.fd) :
    Inv { s with deque := s.deque ++ l } := by
  have hpending : ∀ i, Pending (s.deque ++ l) s.consumers i →
      Pending s.deque s.consumers i ∨ i ∈ l := by
    rintro i (hi | hi)
    · exact (List.mem_append.mp hi).imp_left .inl
    · exact .inl (.inr hi)
  refine ⟨h.wf, h.carried, fun i hi => ?_, fun i hi hp => ?_, h.started⟩
  · rcases hpending i hi with hi | hi
    · exact h.named i hi
    · exact hnames i hi
  · rcases hpending i hi with hi | hi
    · exact h.live i hi hp
    · exact hlive i hi

/-- A connection dies.  Its items would carry the number that is being closed, and
there is none of that number left to process. -/
theorem Inv.bury {s : Sys ι} {t : ι} {fd : ℕ} (h : Inv s)
    (ht : (s.consumers t).closing = some fd) :
    Inv { s with completed := s.completed ∪ owner s.server.kernel fd } := by
  refine ⟨h.wf, h.carried, h.named, fun i hi hp => ?_, h.started⟩
  obtain ⟨hdead, hfree⟩ := h.live i hi hp
  refine ⟨?_, hfree⟩
  cases hfile : i.file with
  | conn c =>
    simp only [Sys.isDead, hfile, decide_eq_false_iff_not] at hdead
    simp only [Sys.isDead, hfile, decide_eq_false_iff_not, Finset.mem_union, not_or]
    refine ⟨hdead, fun howner => hfree t ?_⟩
    unfold owner at howner
    split at howner
    · next c' hc' =>
      rw [Finset.mem_singleton] at howner
      subst howner
      rw [ht, (h.named i hi c hfile).2 fd hc']
    · simp at howner
  | listener | epoll | pipe => simp only [Sys.isDead, hfile]

variable [DecidableEq ι]

/-- After a move of consumer `t`, an item is pending because it is in the queue, or
because `t` has just popped it, or because another consumer had popped it before. -/
theorem pending_update {deque : List Item} {consumers : ι → Pc} {t : ι} {p : Pc} {i : Item}
    (h : Pending deque (Function.update consumers t p) i) :
    i ∈ deque ∨ p = .popped i ∨ ∃ u, u ≠ t ∧ consumers u = .popped i := by
  rcases h with h | ⟨u, hu⟩
  · exact .inl h
  · by_cases heq : u = t
    · subst heq
      rw [Function.update_self] at hu
      exact .inr (.inl hu)
    · rw [Function.update_of_ne heq] at hu
      exact .inr (.inr ⟨u, heq, hu⟩)

theorem closing_update {consumers : ι → Pc} {t : ι} {p : Pc} {fd : ℕ}
    (hp : p.closing ≠ some fd) (h : ∀ u, (consumers u).closing ≠ some fd) (u : ι) :
    (Function.update consumers t p u).closing ≠ some fd := by
  by_cases heq : u = t
  · subst heq
    rwa [Function.update_self]
  · rw [Function.update_of_ne heq]
    exact h u

/-- A consumer goes on without popping anything and without beginning to close. -/
theorem Inv.move {s : Sys ι} {t : ι} {p : Pc} (h : Inv s) (hpopped : ∀ i, p ≠ .popped i)
    (hclosing : ∀ fd, p.closing = some fd → (s.consumers t).closing = some fd) :
    Inv (s.moveTo t p) := by
  have hpending : ∀ i, Pending s.deque (Function.update s.consumers t p) i →
      Pending s.deque s.consumers i := by
    intro i hi
    rcases pending_update hi with hi | hi | ⟨u, -, hu⟩
    · exact .inl hi
    · exact absurd hi (hpopped i)
    · exact .inr ⟨u, hu⟩
  refine ⟨h.wf, h.carried, fun i hi => h.named i (hpending i hi), fun i hi hp => ?_, h.started⟩
  obtain ⟨hdead, hfree⟩ := h.live i (hpending i hi) hp
  exact ⟨hdead, closing_update (fun hc => hfree t (hclosing i.fd hc)) hfree⟩

theorem Inv.pop {s : Sys ι} {t : ι} {i : Item} {rest : List Item} (h : Inv s)
    (hdeque : s.deque = i :: rest) :
    Inv { s.moveTo t (.popped i) with deque := rest } := by
  have hpending : ∀ j, Pending rest (Function.update s.consumers t (.popped i)) j →
      Pending s.deque s.consumers j := by
    intro j hj
    rcases pending_update hj with hj | hj | ⟨u, -, hu⟩
    · exact .inl (hdeque ▸ List.mem_cons_of_mem i hj)
    · cases hj
      exact .inl (hdeque ▸ List.mem_cons_self ..)
    · exact .inr ⟨u, hu⟩
  refine ⟨h.wf, h.carried, fun j hj => h.named j (hpending j hj), fun j hj hp => ?_, h.started⟩
  obtain ⟨hdead, hfree⟩ := h.live j (hpending j hj) hp
  exact ⟨hdead, closing_update (by simp [Pc.closing]) hfree⟩

/-- A callback is started for an item that is to be processed, and so for a
connection that is alive. -/
theorem Inv.start {s : Sys ι} {t : ι} {i : Item} (h : Inv s) (ht : s.consumers t = .popped i)
    (hp : i.process = true) :
    Inv { s.moveTo t (.calling i) with started := s.started ++ [(i, s.isDead i)] } := by
  have hmoved : Inv (s.moveTo t (.calling i)) := h.move (by simp) (by simp [Pc.closing])
  refine ⟨hmoved.wf, hmoved.carried, hmoved.named, hmoved.live, fun p hp' => ?_⟩
  rcases List.mem_append.mp hp' with hp' | hp'
  · exact h.started p hp'
  · rw [List.mem_singleton.mp hp']
    exact (h.live i (.inr ⟨t, ht⟩) hp).1

/-- The marking loop leaves nothing of its descriptor to be processed. -/
theorem Inv.mark {s : Sys ι} {t : ι} {i : Item} (h : Inv s) (ht : s.consumers t = .calling i)
    (halone : ∀ u, u ≠ t → ∀ fd ∈ (s.consumers u).holding, (s.consumers t).serving ≠ some fd) :
    Inv { s.moveTo t (.marked i) with deque := mark i.fd s.deque } := by
  refine ⟨h.wf, h.carried, fun j hj => ?_, fun j hj hp => ?_, h.started⟩
  · rcases pending_update hj with hj | hj | ⟨u, -, hu⟩
    · obtain ⟨⟨j', hj', hfd, hfile⟩, -⟩ := mem_mark hj
      rw [← hfd, ← hfile]
      exact h.named j' (.inl hj')
    · cases hj
    · exact h.named j (.inr ⟨u, hu⟩)
  · have hne : Pending s.deque s.consumers j ∧ i.fd ≠ j.fd := by
      rcases pending_update hj with hj | hj | ⟨u, hut, hu⟩
      · obtain ⟨hj, hfd⟩ := (mem_mark hj).2 hp
        exact ⟨.inl hj, hfd.symm⟩
      · cases hj
      · refine ⟨.inr ⟨u, hu⟩, fun heq => halone u hut j.fd ?_ ?_⟩
        · rw [hu, Pc.holding, if_pos hp]
          rfl
        · rw [ht, Pc.serving, heq]
    obtain ⟨hdead, hfree⟩ := h.live j hne.1 hp
    exact ⟨hdead, closing_update (by simpa [Pc.closing] using hne.2) hfree⟩

theorem Inv.step {s s' : Sys ι} {a : Act ι} (h : Inv s) (hguard : Undisturbed s a)
    (hs : step cfg s a = some s') : Inv s' := by
  cases a with
  | listen a =>
    simp only [WorkQueue.step] at hs
    split_ifs at hs
    obtain ⟨v, hv, rfl⟩ := Option.map_eq_some_iff.mp hs
    exact h.server hv
  | produce =>
    obtain ⟨v, hv, rfl⟩ := Option.map_eq_some_iff.mp hs
    exact (h.server hv).push (fun i hi => (h.names_coming hi).step hv) hguard
  | pop t =>
    simp only [WorkQueue.step] at hs
    split at hs <;> cases hs
    exact h.pop ‹_›
  | test t =>
    simp only [WorkQueue.step] at hs
    split at hs
    · split_ifs at hs with hp <;> cases hs
      · exact h.start ‹_› hp
      · exact h.move (by simp) (by simp [Pc.closing])
    · cases hs
  | mark t =>
    simp only [WorkQueue.step] at hs
    split at hs
    · split_ifs at hs
      cases hs
      exact h.mark ‹_› hguard
    · cases hs
  | remove t =>
    simp only [WorkQueue.step] at hs
    split at hs
    · next i ht =>
      obtain ⟨v, hv, rfl⟩ := Option.map_eq_some_iff.mp hs
      exact (h.server hv).move (by simp) (by simp [ht, Pc.closing])
    · cases hs
  | close t =>
    simp only [WorkQueue.step] at hs
    split at hs
    · next i ht =>
      obtain ⟨v, hv, rfl⟩ := Option.map_eq_some_iff.mp hs
      have hburied : Inv { s with completed := s.completed ∪ owner s.server.kernel i.fd } :=
        h.bury (t := t) (by rw [ht]; rfl)
      exact (hburied.server hv).move (by simp) (by simp [Pc.closing])
    · cases hs
  | ret t =>
    simp only [WorkQueue.step] at hs
    split at hs
    · split_ifs at hs
      cases hs
      exact h.move (by simp) (by simp [Pc.closing])
    · cases hs
      exact h.move (by simp) (by simp [Pc.closing])
    · cases hs

/-- **When no event of a dead connection is started.**  For any number of consumers and
any interleaving: as long as nothing is pushed for a descriptor between the marking
loop and the return of `WorkQueue::close`, nor for a connection that is dead, and the
marking loop runs only when no other consumer holds an untested item of the descriptor,
the user callback is never started with an event of a connection for which
`WorkQueue::close` has come back. -/
theorem noDeadEvent_of_undisturbed (cfg : Setup) (acts : List (Act ι))
    (hguard : Guarded (step cfg) Undisturbed (init ι cfg) acts) :
    Always (step cfg) NoDeadEvent (init ι cfg) acts := by
  have hinv : Always (step cfg) Inv (init ι cfg) acts :=
    always_of_guarded (fun s a s' h => h.step) (inv_init cfg) hguard
  exact hinv.mono fun s h => h.started

end Steps

/-- A connection is accepted under number 7 and its peer shuts down; the first consumer
works through both events up to the marking loop of `WorkQueue::close`. -/
def closeBegins (ι : Type*) (t : ι) : List (Act ι) :=
  [.listen (.prepare true), .listen .announce, .listen .test,
    .listen (.wait (.batch [⟨3, EPOLLIN, .listener⟩])), .listen .check, .listen .next,
    .listen (.accept4 (.conn 7 0 false)), .listen .insert, .listen (.epollAdd true), .produce,
    .listen .next, .listen .test, .listen (.wait (.batch [⟨7, EPOLLRDHUP, .conn 0⟩])),
    .listen .check, .listen .next, .produce, .listen .next, .listen .test,
    .pop t, .test t, .ret t, .pop t, .test t, .mark t]

/-- The number is given to a second connection. -/
def reuse (ι : Type*) : List (Act ι) :=
  [.listen (.wait (.batch [⟨3, EPOLLIN, .listener⟩])), .listen .check, .listen .next,
    .listen (.accept4 (.conn 7 0 false)), .listen .insert, .listen (.epollAdd true), .produce]

/-- The close comes back before anything else is reported, and the second connection
is announced to the other consumer. -/
theorem noDeadEvent_reuse_after_close :
    let cfg : Setup := ⟨3, 5, 4, false, by decide, by decide, by decide⟩
    let acts : List (Act (Fin 2)) :=
      closeBegins (Fin 2) 0 ++ ([.remove 0, .close 0, .ret 0] : List (Act (Fin 2))) ++
        reuse (Fin 2) ++ ([.pop 1, .test 1] : List (Act (Fin 2)))
    (∃ s, run (step cfg) (init (Fin 2) cfg) acts = some s ∧ s.completed = {0} ∧
      s.consumers 1 = .calling ⟨7, .newSocket, true, .conn 1⟩) ∧
      Always (step cfg) NoDeadEvent (init (Fin 2) cfg) acts := by
  exact ⟨⟨_, rfl, by decide, by decide⟩, noDeadEvent_of_undisturbed _ _ (by decide)⟩

/-- The connection is reset after the marking loop and before it is removed from epoll.
The second `CLOSE_SOCKET` is pushed unmarked, and the only consumer starts it when the
connection is dead and its number belongs to the next one. -/
theorem dead_event_started_for_next_connection :
    let cfg : Setup := ⟨3, 5, 4, false, by decide, by decide, by decide⟩
    let acts : List (Act (Fin 1)) := closeBegins (Fin 1) 0 ++
      ([.listen (.wait (.batch [⟨7, EPOLLHUP, .conn 0⟩])), .listen .check, .listen .next, .produce,
        .listen .next, .listen .test, .remove 0, .close 0, .ret 0] : List (Act (Fin 1))) ++
      reuse (Fin 1) ++ ([.pop 0, .test 0] : List (Act (Fin 1)))
    ∃ s, run (step cfg) (init (Fin 1) cfg) acts = some s ∧ s.completed = {0} ∧
      s.consumers 0 = .calling ⟨7, .closeSocket, true, .conn 0⟩ ∧
      s.server.kernel.conn? 7 = some 1 ∧ ¬ NoDeadEvent s := by
  refine ⟨_, rfl, by decide, by decide, by decide, fun h => ?_⟩
  exact absurd (h (⟨7, .closeSocket, true, .conn 0⟩, true) (by decide)) (by decide)

end WorkQueue

end Nbuss
