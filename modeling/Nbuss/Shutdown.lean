import Nbuss.Barrier
import Nbuss.ListenProtocol
import Nbuss.WorkQueue

/-!
# Closing a connection while the work queue is being stopped

`remove_from_epoll` refuses four numbers: `-1`, the epoll instance, the command pipe and
the listening socket; and it refuses everything once `epollfd` is `-1`.  It refuses by
storing through `_errno`, which is a null pointer for all the callers in the library.

A consumer calls it, directly or from `WorkQueue::close`, with a descriptor that was
delivered to it.  Such a descriptor is never one of the server's own (`Apart`): the
listening socket goes to `accept4`, the epoll instance is not registered with itself,
and the command pipe is reported only when a byte is in it, in which case the batch is
dropped.  So only the last reason is left.  While `stop` is under way `closeSockets` sets
`epollfd` to `-1`, and a consumer that is still in its callback and closes its descriptor
then makes the store (`no_null_store_iff`).
-/

namespace Nbuss

namespace Listen

variable {cfg : Setup}

/-! ## The server's own descriptors -/

/-- The number is not one of the server's own descriptors. -/
def Setup.Ordinary (cfg : Setup) (fd : ℕ) : Prop :=
  fd ≠ cfg.listenSock ∧ fd ≠ cfg.epollFd ∧ fd ≠ cfg.pipeFd

/-- The number that the listening thread is working on. -/
def Pc.hand : Pc → Option ℕ
  | .inserting fd _ _ | .adding fd _ _ => some fd
  | .smartClosing e _ => some e.fd
  | .calling cb _ _ => some cb.fd
  | _ => none

/-- The server's own descriptors stay open and out of the hands of the callback, whoever
closes connections. -/
structure Apart (cfg : Setup) (s : State) : Prop where
  stages : Stages cfg s
  orderly : s.pc ≠ .left → Orderly s.signals
  own : s.pc.running = true → cfg.listenSock ∈ s.kernel.openFds ∧
    cfg.pipeFd ∈ s.kernel.openFds ∧ s.kernel.file cfg.pipeFd = some .pipe
  epoll : s.pc.running = true → s.pc ≠ .starting → cfg.epollFd ∈ s.kernel.openFds
  registered : ∀ fd ∈ s.kernel.registered, fd ≠ cfg.epollFd
  pending : ∀ e ∈ s.pc.pending, e.fd ≠ cfg.epollFd
  place : PipeFree cfg s.signals s.pc
  hand : ∀ fd ∈ s.pc.hand, cfg.Ordinary fd

theorem apart_init : Apart cfg (init cfg) where
  stages := stages_init
  orderly _ := .inl ⟨fun _ => rfl, rfl⟩
  own _ := ⟨by simp [init], by simp [init], by simp [init, cfg.listenSock_ne_pipeFd.symm]⟩
  epoll _ h := absurd rfl h
  registered fd h := by simp [init] at h
  pending e h := by cases h
  place e h := by cases h
  hand fd h := by cases h

/-- An entry that is not the listening socket's is a connection's. -/
theorem Apart.ordinary {s : State} (h : Apart cfg s) {e : Entry} {rest : List Entry}
    (hpc : s.pc = .batch (e :: rest)) (hlisten : s.listenSock ≠ some e.fd) :
    cfg.Ordinary e.fd := by
  have hmem : e ∈ s.pc.pending := by
    rw [hpc]
    exact List.mem_cons_self ..
  have hplace := h.place
  rw [hpc] at hplace
  refine ⟨fun heq => hlisten ?_, h.pending e hmem, hplace e (List.mem_cons_self ..)⟩
  rw [h.stages.listenOpen (by rw [hpc]; rfl), heq]

theorem Apart.moves {s : State} {a : Act} {pc : Pc} (h : Apart cfg s) (hm : Moves cfg s a pc)
    (hs : step cfg s a = some { s with pc := pc }) : Apart cfg { s with pc := pc } := by
  obtain ⟨hrun, hstart, -⟩ := hm.running
  refine ⟨h.stages.step hs, fun _ => h.orderly ?_, fun _ => h.own hrun, fun _ _ => h.epoll hrun hstart,
    h.registered, fun e he => h.pending e (hm.pending_suffix.subset he), h.place.moves hm, ?_⟩
  · rintro hpc
    rw [hpc] at hrun
    cases hrun
  · cases hm
    case smart e rest hpc hlisten _ _ _ =>
      rintro fd hfd
      cases hfd
      exact h.ordinary hpc hlisten
    all_goals exact fun fd hfd => by cases hfd

/-- A callback about a connection. -/
theorem Apart.call {s s' : State} {cb : Callback} {rest : List Entry} (h : Apart cfg s)
    (hstages : Stages cfg s') (hrun : s.pc.running = true) (hstart : s.pc ≠ .starting)
    (hpc : s'.pc = .calling cb false rest) (hsignals : s'.signals = s.signals)
    (hopen : ∀ fd, fd ∈ s.kernel.openFds → ¬ cfg.Ordinary fd → fd ∈ s'.kernel.openFds)
    (hfile : s'.kernel.file cfg.pipeFd = s.kernel.file cfg.pipeFd)
    (hregistered : ∀ fd ∈ s'.kernel.registered, fd ≠ cfg.epollFd)
    (hcb : cfg.Ordinary cb.fd) (hrest : ∀ e ∈ rest, e.fd ≠ cfg.epollFd ∧ e.fd ≠ cfg.pipeFd) :
    Apart cfg s' := by
  obtain ⟨hlistener, hpipe, hpipeFile⟩ := h.own hrun
  have hleft : s.pc ≠ .left := by
    rintro hleft
    rw [hleft] at hrun
    cases hrun
  refine ⟨hstages, fun _ => hsignals ▸ h.orderly hleft, fun _ => ⟨hopen _ hlistener ?_,
    hopen _ hpipe ?_, hfile.trans hpipeFile⟩, fun _ _ => hopen _ (h.epoll hrun hstart) ?_,
    hregistered, fun e he => ?_, ?_, fun fd hfd => ?_⟩
  · exact fun ho => ho.1 rfl
  · exact fun ho => ho.2.2 rfl
  · exact fun ho => ho.2.1 rfl
  · rw [hpc] at he
    exact (hrest e he).1
  · rw [hpc]
    exact ⟨hcb.2.2, fun e he => (hrest e he).2⟩
  · rw [hpc] at hfd
    cases hfd
    exact hcb

/-- What is left open when a connection is closed. -/
theorem mem_openFds_of_own {k : Kernel} {fd fd' : ℕ} (hfd : cfg.Ordinary fd)
    (hopen : fd' ∈ k.openFds) (hown : ¬ cfg.Ordinary fd') : fd' ∈ (k.close {fd}).openFds := by
  refine Kernel.mem_openFds_close.mpr ⟨hopen, ?_⟩
  rintro rfl
  exact hown hfd

/-- A connection is closed by another thread. -/
theorem Apart.close {s : State} {fd : ℕ} (h : Apart cfg s) (hfd : cfg.Ordinary fd)
    (hs : step cfg s (.close fd) = some ((s.close fd).answered fd)) :
    Apart cfg ((s.close fd).answered fd) where
  stages := h.stages.step hs
  orderly := h.orderly
  own hrun := by
    obtain ⟨hlistener, hpipe, hfile⟩ := h.own hrun
    exact ⟨mem_openFds_of_own hfd hlistener fun ho => ho.1 rfl,
      mem_openFds_of_own hfd hpipe fun ho => ho.2.2 rfl, hfile⟩
  epoll hrun hstart := mem_openFds_of_own hfd (h.epoll hrun hstart) fun ho => ho.2.1 rfl
  registered fd' hfd' := h.registered fd' (Kernel.mem_registered_close.mp hfd').1
  pending := h.pending
  place := h.place
  hand := h.hand

theorem Pc.of_not_running (cfg : Setup) {pc : Pc} (h : pc.running = false) (g : Signals) :
    pc.pending = [] ∧ pc.hand = none ∧ PipeFree cfg g pc := by
  cases pc with
  | leaving | closedConns | closedEpoll | closedListen | left =>
    exact ⟨rfl, rfl, fun e he => by cases he⟩
  | _ => cases h

/-- `listen` is left: nothing more is delivered. -/
theorem Apart.leave {s s' : State} (h : Apart cfg s) (hstages : Stages cfg s')
    (hleft : s.pc ≠ .left) (hrun : s'.pc.running = false)
    (hsignals : s'.pc = .left ∨ s'.signals = s.signals)
    (hregistered : ∀ fd ∈ s'.kernel.registered, fd ∈ s.kernel.registered) : Apart cfg s' := by
  obtain ⟨hpending, hhand, hplace⟩ := Pc.of_not_running cfg hrun s'.signals
  refine ⟨hstages, fun hne => ?_, fun hr => ?_, fun hr => ?_,
    fun fd hfd => h.registered fd (hregistered fd hfd), fun e he => ?_, hplace, fun fd hfd => ?_⟩
  · rw [hsignals.resolve_left hne]
    exact h.orderly hleft
  · rw [hrun] at hr
    cases hr
  · rw [hrun] at hr
    cases hr
  · rw [hpending] at he
    cases he
  · rw [hhand] at hfd
    cases hfd

/-- Every step keeps the server's own descriptors apart, as long as others close only
connections and the calls of `terminate` are disciplined. -/
theorem Apart.step {s s' : State} {a : Act} (h : Apart cfg s)
    (hclose : ∀ fd, a = .close fd → cfg.Ordinary fd) (hdisc : Disciplined s a)
    (hs : Listen.step cfg s a = some s') : Apart cfg s' := by
  have hstages := h.stages.step hs
  have hplace := h.place
  have hhand := h.hand
  have hpending := h.pending
  cases Step.of_step hs with
  | moves hm => exact h.moves hm hs
  | prepared hpc =>
    obtain ⟨hlistener, hpipe, hfile⟩ := h.own (by rw [hpc]; rfl)
    refine ⟨hstages, fun _ => h.orderly (by simp [hpc]), fun _ => ⟨Finset.mem_insert_of_mem hlistener,
      Finset.mem_insert_of_mem hpipe, ?_⟩, fun _ _ => Finset.mem_insert_self .., fun fd hfd => ?_,
      fun e he => (by cases he), fun e he => (by cases he), fun fd hfd => (by cases hfd)⟩
    · exact (s.kernel.watch_file_of_ne cfg.epollFd_ne_pipeFd.symm).trans hfile
    · rcases Finset.mem_insert.mp hfd with rfl | hfd
      · exact cfg.epollFd_ne_pipeFd.symm
      · rw [Finset.mem_singleton.mp hfd]
        exact cfg.listenSock_ne_epollFd
  | notPrepared hpc => exact h.leave hstages (by simp [hpc]) rfl (.inr rfl) fun _ hfd => hfd
  | closeConns hpc | closeListen hpc =>
    exact h.leave hstages (by simp [hpc]) rfl (.inr rfl) fun _ hfd => (Finset.mem_sdiff.mp hfd).1
  | closeEpoll hpc =>
    exact h.leave hstages (by simp [hpc]) rfl (.inr rfl) fun _ hfd => (by simp at hfd)
  | quit hpc => exact h.leave hstages (by simp [hpc]) rfl (.inl rfl) fun _ hfd => hfd
  | announce hpc =>
    exact ⟨hstages, fun _ => (h.orderly (by simp [hpc])).announce,
      fun _ => h.own (by rw [hpc]; rfl), fun _ _ => h.epoll (by rw [hpc]; rfl) (by simp [hpc]),
      h.registered, fun e he => (by cases he), fun e he => (by cases he),
      fun fd hfd => (by cases hfd)⟩
  | @wait l hpc hl =>
    have hrun : s.pc.running = true := by rw [hpc]; rfl
    have horderly : Orderly s.signals := h.orderly (by simp [hpc])
    refine ⟨hstages, fun _ => horderly, fun _ => h.own hrun,
      fun _ _ => h.epoll hrun (by simp [hpc]), h.registered,
      fun e he => h.registered e.fd (hl.2.2 e he).1, fun e he hfd => ?_, fun fd hfd => (by cases hfd)⟩
    exact horderly.of_report hl he (hfd ▸ (h.own hrun).2.2)
  | @callback e rest job hpc hlisten _ =>
    rw [hpc] at hplace hpending
    refine h.call hstages (by rw [hpc]; rfl) (by simp [hpc]) rfl rfl (fun _ hfd _ => hfd) rfl
      h.registered (h.ordinary hpc hlisten) fun e' he' => ?_
    exact ⟨hpending e' (List.mem_cons_of_mem _ he'), hplace e' (List.mem_cons_of_mem _ he')⟩
  | @accept fd sent shut rest hpc hfd =>
    have hrun : s.pc.running = true := by rw [hpc]; rfl
    obtain ⟨hlistener, hpipe, hfile⟩ := h.own hrun
    have hepoll := h.epoll hrun (by simp [hpc])
    rw [hpc] at hplace hpending
    refine ⟨hstages, fun _ => h.orderly (by simp [hpc]), fun _ => ⟨Finset.mem_insert_of_mem hlistener,
      Finset.mem_insert_of_mem hpipe, (Kernel.accept_file_of_open hfd hpipe).trans hfile⟩,
      fun _ _ => Finset.mem_insert_of_mem hepoll, h.registered, hpending, hplace, fun fd' hfd' => ?_⟩
    -- the kernel gives out a number that is not open
    cases hfd'
    refine ⟨?_, ?_, ?_⟩ <;> rintro rfl <;> exact hfd ‹_›
  | insert hpc =>
    have hrun : s.pc.running = true := by rw [hpc]; rfl
    rw [hpc] at hplace hpending hhand
    exact ⟨hstages, fun _ => h.orderly (by simp [hpc]), fun _ => h.own hrun,
      fun _ _ => h.epoll hrun (by simp [hpc]), h.registered, hpending, hplace, hhand⟩
  | @registered fd c rest hpc _ =>
    rw [hpc] at hplace hpending hhand
    have hfd : cfg.Ordinary fd := hhand fd rfl
    refine h.call hstages (by rw [hpc]; rfl) (by simp [hpc]) rfl rfl (fun _ hopen _ => hopen) rfl
      (fun fd' hfd' => ?_) hfd fun e he => ⟨hpending e he, hplace e he⟩
    rcases Finset.mem_insert.mp hfd' with rfl | hfd'
    · exact hfd.2.1
    · exact h.registered fd' hfd'
  | @smartClose e rest hpc =>
    rw [hpc] at hplace hpending hhand
    have hfd : cfg.Ordinary e.fd := hhand e.fd rfl
    refine h.call hstages (by rw [hpc]; rfl) (by simp [hpc]) rfl rfl
      (fun _ hopen hown => mem_openFds_of_own hfd hopen hown) rfl
      (fun fd' hfd' => h.registered fd' (Kernel.mem_registered_close.mp hfd').1) hfd fun e' he' => ?_
    exact ⟨hpending e' (List.mem_cons_of_mem _ he'), hplace e' (List.mem_cons_of_mem _ he')⟩
  | @answer cb rest hpc =>
    have hrun : s.pc.running = true := by rw [hpc]; rfl
    obtain ⟨hlistener, hpipe, hfile⟩ := h.own hrun
    have hepoll := h.epoll hrun (by simp [hpc])
    rw [hpc] at hplace hpending hhand
    have hfd : cfg.Ordinary cb.fd := hhand cb.fd rfl
    exact ⟨hstages, fun _ => h.orderly (by simp [hpc]),
      fun _ => ⟨mem_openFds_of_own hfd hlistener fun ho => ho.1 rfl,
        mem_openFds_of_own hfd hpipe fun ho => ho.2.2 rfl, hfile⟩,
      fun _ _ => mem_openFds_of_own hfd hepoll fun ho => ho.2.1 rfl,
      fun fd' hfd' => h.registered fd' (Kernel.mem_registered_close.mp hfd').1, hpending, hplace,
      hhand⟩
  | close fd => exact h.close (hclose fd rfl) hs
  | removeFromEpoll fd =>
    exact ⟨hstages, h.orderly, h.own, h.epoll,
      fun fd' hfd' => h.registered fd' (Finset.mem_of_mem_erase hfd'), h.pending, h.place, h.hand⟩
  | terminate hg =>
    exact ⟨hstages, fun hne => (h.orderly hne).terminate hdisc hg, h.own, h.epoll, h.registered,
      h.pending, h.place.terminate hg, h.hand⟩
  | io | peerSend | peerShutdown =>
    exact ⟨hstages, h.orderly, h.own, h.epoll, h.registered, h.pending, h.place, h.hand⟩

end Listen

/-! ## The work queue while it is being stopped -/

namespace Shutdown

open Transition Listen WorkQueue

/-- Where a consumer stands.  In the user callback it may call `WorkQueue::close` and
`WorkQueue::remove_from_epoll` any number of times. -/
inductive Pc where
  /-- The test at the head of the loop. -/
  | head
  /-- At the test of the size; if there is an item it is taken in the same critical section. -/
  | taking
  /-- In `deque_cv.wait`. -/
  | waiting
  | popped (i : Item)
  | calling (i : Item)
  /-- In `remove_from_epoll`, at its test; `close` is called from `WorkQueue::close`. -/
  | removing (i : Item) (fd : ℕ) (close : Bool)
  /-- In `remove_from_epoll`, at `epoll_ctl`. -/
  | deleting (i : Item) (fd : ℕ) (close : Bool)
  /-- In `ThreadedServer2::close`, past `remove_from_epoll`. -/
  | closing (i : Item) (fd : ℕ)
  /-- In `remove_from_epoll`, at the store to `*_errno`; `_errno` is null. -/
  | storing
  | ended
  deriving DecidableEq, Repr

/-- The numbers the consumer is going to use. -/
def Pc.fds : Pc → List ℕ
  | .popped i => [i.fd]
  | .removing _ fd _ | .deleting _ fd _ | .closing _ fd => [fd]
  | _ => []

structure Sys (ι : Type*) where
  server : State
  deque : List Item := []
  consumers : ι → Pc := fun _ => .head
  /-- The descriptors that a consumer's callback has been called with. -/
  delivered : ι → Finset ℕ := fun _ => ∅
  mustTerminate : Bool := false

variable {ι : Type*}

/-- What the listening thread is about to push. -/
def coming (s : State) : List Item :=
  match s.pc with
  | .calling cb _ _ => produced cb
  | _ => []

inductive Act (ι : Type*) where
  | listen (a : Listen.Act)
  /-- `producer_callback` pushes its item and returns to the listening thread. -/
  | produce
  | head (t : ι)
  | pop (t : ι)
  /-- The deque is empty. -/
  | wait (t : ι)
  /-- `wait` comes back, for whatever reason, and the flag is tested. -/
  | wake (t : ι)
  /-- The test of `process`, and the call of the user callback. -/
  | test (t : ι)
  /-- The callback calls `WorkQueue::close(fd)`: the marking loop. -/
  | close (t : ι) (fd : ℕ)
  /-- The callback calls `WorkQueue::remove_from_epoll(fd)`. -/
  | remove (t : ι) (fd : ℕ)
  /-- The test of `remove_from_epoll`. -/
  | check (t : ι)
  /-- Its `epoll_ctl`. -/
  | del (t : ι)
  /-- `cleanup` and `::close`, and the return of `WorkQueue::close`. -/
  | finish (t : ι)
  | ret (t : ι)
  /-- `WorkQueue::stop` sets the flag. -/
  | setFlag
  /-- `terminate`, called by `ThreadedServer2::stop`. -/
  | terminate
  deriving DecidableEq, Repr

def init (ι : Type*) (cfg : Setup) : Sys ι where
  server := Listen.init cfg

section Step

variable [DecidableEq ι]

def Sys.moveTo (s : Sys ι) (t : ι) (p : Pc) : Sys ι :=
  { s with consumers := Function.update s.consumers t p }

/-- The branch of `remove_from_epoll` that refuses. -/
def refuses (cfg : Setup) (s : State) (fd : ℕ) : Bool :=
  s.epollfd = none ∨ fd = cfg.epollFd ∨ fd = cfg.pipeFd ∨ s.listenSock = some fd

def step (cfg : Setup) (s : Sys ι) : Act ι → Option (Sys ι)
  | .listen a =>
    if isOwn a ∧ isTerminate a = false then
      (Listen.step cfg s.server a).map fun v => { s with server := v }
    else none
  | .produce =>
    (Listen.step cfg s.server .ret).map fun v =>
      { s with server := v, deque := s.deque ++ coming s.server }
  | .head t =>
    match s.consumers t with
    | .head => some (s.moveTo t (if s.mustTerminate then .ended else .taking))
    | _ => none
  | .pop t =>
    match s.consumers t, s.deque with
    | .taking, i :: rest => some { s.moveTo t (.popped i) with deque := rest }
    | _, _ => none
  | .wait t =>
    match s.consumers t, s.deque with
    | .taking, [] => some (s.moveTo t .waiting)
    | _, _ => none
  | .wake t =>
    match s.consumers t with
    | .waiting => some (s.moveTo t (if s.mustTerminate then .ended else .taking))
    | _ => none
  | .test t =>
    match s.consumers t with
    | .popped i =>
      if i.process then
        some { s.moveTo t (.calling i) with
          delivered := Function.update s.delivered t (insert i.fd (s.delivered t)) }
      else some (s.moveTo t .head)
    | _ => none
  | .close t fd =>
    match s.consumers t with
    | .calling i =>
      if fd ∈ s.delivered t then
        some { s.moveTo t (.removing i fd true) with deque := mark fd s.deque }
      else none
    | _ => none
  | .remove t fd =>
    match s.consumers t with
    | .calling i => if fd ∈ s.delivered t then some (s.moveTo t (.removing i fd false)) else none
    | _ => none
  | .check t =>
    match s.consumers t with
    | .removing i fd close =>
      some (s.moveTo t (if refuses cfg s.server fd then .storing else .deleting i fd close))
    | _ => none
  | .del t =>
    match s.consumers t with
    | .deleting i fd close =>
      -- when `epollfd` has been closed since the test, `epoll_ctl` fails and changes nothing
      some { s.moveTo t (if close then .closing i fd else .calling i) with
        server := (Listen.step cfg s.server (.removeFromEpoll fd)).getD s.server }
    | _ => none
  | .finish t =>
    match s.consumers t with
    | .closing i fd =>
      (Listen.step cfg s.server (.close fd)).map fun v =>
        { s.moveTo t (.calling i) with server := v }
    | _ => none
  | .ret t =>
    match s.consumers t with
    | .calling _ => some (s.moveTo t .head)
    | _ => none
  | .setFlag => if s.mustTerminate then none else some { s with mustTerminate := true }
  | .terminate =>
    if s.mustTerminate then
      (Listen.step cfg s.server (.terminate 0)).map fun v => { s with server := v }
    else none

end Step

/-- No consumer is at the store through the null pointer. -/
def NoNullStore (s : Sys ι) : Prop := ∀ t, s.consumers t ≠ .storing

/-- The test of `remove_from_epoll` is made before `closeSockets` has closed `epollfd`. -/
def EpollOpen (s : Sys ι) : Act ι → Prop
  | .check _ => s.server.epollfd ≠ none
  | _ => True

instance (s : Sys ι) : ∀ a, Decidable (EpollOpen s a)
  | .check _ => inferInstanceAs (Decidable (s.server.epollfd ≠ none))
  | .listen _ | .produce | .head _ | .pop _ | .wait _ | .wake _ | .test _ | .close _ _
  | .remove _ _ | .del _ | .finish _ | .ret _ | .setFlag | .terminate => inferInstanceAs (Decidable True)

structure Inv (cfg : Setup) (s : Sys ι) : Prop where
  apart : Apart cfg s.server
  /-- `terminate` is called once. -/
  calls : ∀ u, u ≠ 0 → s.server.signals.calls u = .idle
  deque : ∀ i ∈ s.deque, cfg.Ordinary i.fd
  hands : ∀ t, ∀ fd ∈ (s.consumers t).fds, cfg.Ordinary fd
  delivered : ∀ t, ∀ fd ∈ s.delivered t, cfg.Ordinary fd
  clean : NoNullStore s

theorem inv_init (cfg : Setup) : Inv cfg (init ι cfg) where
  apart := apart_init
  calls _ _ := rfl
  deque i hi := by cases hi
  hands t fd hfd := by cases hfd
  delivered t fd hfd := by simp [init] at hfd
  clean t h := by cases h

/-! ### The parts of a step -/

section Parts

variable {cfg : Setup} {s s' : Sys ι}

/-- The server moves. -/
theorem Inv.server {v : State} {b : Listen.Act} (h : Inv cfg s)
    (hs : Listen.step cfg s.server b = some v) (hclose : ∀ fd, b = .close fd → cfg.Ordinary fd)
    (hcall : ∀ u, b = .terminate u → u = 0) : Inv cfg { s with server := v } := by
  have hdisc : Disciplined s.server b := by
    cases b with
    | terminate u =>
      cases hcall u rfl
      intro hidle _ w
      by_cases hw : w = 0
      · rw [hw, hidle]
        rfl
      · rw [h.calls w hw]
        rfl
    | _ => trivial
  have hcalls : ∀ u, u ≠ 0 → v.signals.calls u = .idle := by
    intro u hu
    cases Step.of_step hs with
    | @terminate w g hg =>
      have huw : u ≠ w := by rwa [hcall w rfl]
      exact (Signals.terminate_calls_of_ne huw hg).trans (h.calls u hu)
    | _ => exact h.calls u hu
  exact ⟨h.apart.step hclose hdisc hs, hcalls, h.deque, h.hands, h.delivered, h.clean⟩

/-- The deque changes. -/
theorem Inv.withDeque (h : Inv cfg s) {deque : List Item} (hdeque : ∀ i ∈ deque, cfg.Ordinary i.fd) :
    Inv cfg { s with deque := deque } :=
  ⟨h.apart, h.calls, hdeque, h.hands, h.delivered, h.clean⟩

/-- What the listening thread delivers is a connection's. -/
theorem Inv.coming (h : Inv cfg s) {i : Item} (hi : i ∈ coming s.server) : cfg.Ordinary i.fd := by
  unfold Shutdown.coming at hi
  split at hi
  · next cb b rest hpc =>
    rw [(mem_produced hi).1]
    exact h.apart.hand cb.fd (by rw [hpc]; rfl)
  · cases hi

variable [DecidableEq ι]

/-- A consumer moves to a place that is not the store. -/
theorem Inv.moveTo (h : Inv cfg s) {t : ι} {p : Pc} (hfds : ∀ fd ∈ p.fds, cfg.Ordinary fd)
    (hp : p ≠ .storing) : Inv cfg (s.moveTo t p) where
  apart := h.apart
  calls := h.calls
  deque := h.deque
  hands := (Function.forall_update_iff s.consumers fun _ q => ∀ fd ∈ q.fds, cfg.Ordinary fd).mpr
    ⟨hfds, fun u _ => h.hands u⟩
  delivered := h.delivered
  clean := (Function.forall_update_iff s.consumers fun _ q => q ≠ .storing).mpr
    ⟨hp, fun u _ => h.clean u⟩

/-- The callback is called with a descriptor. -/
theorem Inv.deliver (h : Inv cfg s) {t : ι} {fd : ℕ} (hfd : cfg.Ordinary fd) :
    Inv cfg { s with delivered := Function.update s.delivered t (insert fd (s.delivered t)) } := by
  have hnew : ∀ fd' ∈ insert fd (s.delivered t), cfg.Ordinary fd' := by
    intro fd' hfd'
    rcases Finset.mem_insert.mp hfd' with rfl | hfd'
    · exact hfd
    · exact h.delivered t fd' hfd'
  exact ⟨h.apart, h.calls, h.deque, h.hands,
    (Function.forall_update_iff s.delivered fun _ l => ∀ fd' ∈ l, cfg.Ordinary fd').mpr
      ⟨hnew, fun u _ => h.delivered u⟩, h.clean⟩

omit [DecidableEq ι] in
/-- An ordinary number is refused only when `epollfd` is closed. -/
theorem Inv.refuses_eq_false (h : Inv cfg s) {fd : ℕ} (hfd : cfg.Ordinary fd)
    (hopen : s.server.epollfd ≠ none) : refuses cfg s.server fd = false := by
  have hlisten : s.server.listenSock ≠ some fd := by
    intro hsock
    cases hpc : s.server.pc.listenClosed with
    | true =>
      rw [h.apart.stages.listenClosed hpc] at hsock
      cases hsock
    | false =>
      rw [h.apart.stages.listenOpen hpc, Option.some_inj] at hsock
      exact hfd.1 hsock.symm
  simp [refuses, hopen, hfd.2.1, hfd.2.2, hlisten]

/-- The consumer moves to a place where it holds no descriptor. -/
theorem Inv.moveToFree (h : Inv cfg s) {t : ι} {p : Pc} (hfds : p.fds = []) (hp : p ≠ .storing) :
    Inv cfg (s.moveTo t p) := by
  refine h.moveTo (fun fd hfd => ?_) hp
  rw [hfds] at hfd
  cases hfd

/-- The consumer moves to a place where it holds one descriptor. -/
theorem Inv.moveToHolding (h : Inv cfg s) {t : ι} {p : Pc} {fd : ℕ} (hfds : p.fds = [fd])
    (hfd : cfg.Ordinary fd) (hp : p ≠ .storing) : Inv cfg (s.moveTo t p) := by
  refine h.moveTo (fun fd' hfd' => ?_) hp
  rw [hfds] at hfd'
  rwa [List.mem_singleton.mp hfd']

omit [DecidableEq ι] in
/-- What a consumer holds is a connection's. -/
theorem Inv.holding (h : Inv cfg s) {t : ι} {p : Pc} {fd : ℕ} (hpc : s.consumers t = p)
    (hfds : p.fds = [fd]) : cfg.Ordinary fd := by
  refine h.hands t fd ?_
  rw [hpc, hfds]
  exact List.mem_singleton_self _

theorem Inv.step {a : Act ι} (h : Inv cfg s) (hg : EpollOpen s a)
    (hs : step cfg s a = some s') : Inv cfg s' := by
  cases a with
  | listen b =>
    simp only [Shutdown.step] at hs
    split_ifs at hs with hown
    obtain ⟨v, hv, rfl⟩ := Option.map_eq_some_iff.mp hs
    refine h.server hv ?_ ?_
    · rintro fd rfl
      cases hown.1
    · rintro u rfl
      cases hown.2
  | produce =>
    obtain ⟨v, hv, rfl⟩ := Option.map_eq_some_iff.mp hs
    have hdeque : Inv cfg { s with deque := s.deque ++ Shutdown.coming s.server } := by
      refine h.withDeque fun i hi => ?_
      rcases List.mem_append.mp hi with hi | hi
      · exact h.deque i hi
      · exact h.coming hi
    exact hdeque.server hv nofun nofun
  | head t | wake t =>
    simp only [Shutdown.step] at hs
    split at hs <;> cases hs
    split_ifs <;> exact h.moveToFree rfl nofun
  | pop t =>
    simp only [Shutdown.step] at hs
    split at hs
    · next i rest _ hdeque =>
      cases hs
      have hrest : Inv cfg { s with deque := rest } :=
        h.withDeque fun j hj => h.deque j (hdeque ▸ List.mem_cons_of_mem i hj)
      exact hrest.moveToHolding rfl (h.deque i (hdeque ▸ List.mem_cons_self ..)) nofun
    · cases hs
  | wait t | ret t =>
    simp only [Shutdown.step] at hs
    split at hs <;> cases hs
    exact h.moveToFree rfl nofun
  | test t =>
    simp only [Shutdown.step] at hs
    split at hs
    · next i hpc =>
      split_ifs at hs <;> cases hs
      · exact (h.deliver (h.holding hpc rfl)).moveToFree rfl nofun
      · exact h.moveToFree rfl nofun
    · cases hs
  | close t fd =>
    simp only [Shutdown.step] at hs
    split at hs
    · split_ifs at hs with hfd
      cases hs
      have hmarked : Inv cfg { s with deque := mark fd s.deque } := by
        refine h.withDeque fun j hj => ?_
        obtain ⟨⟨i, hi, hfd, -⟩, -⟩ := mem_mark hj
        exact hfd ▸ h.deque i hi
      exact hmarked.moveToHolding rfl (h.delivered t fd hfd) nofun
    · cases hs
  | remove t fd =>
    simp only [Shutdown.step] at hs
    split at hs
    · split_ifs at hs with hfd
      cases hs
      exact h.moveToHolding rfl (h.delivered t fd hfd) nofun
    · cases hs
  | check t =>
    simp only [Shutdown.step] at hs
    split at hs
    · next i fd close hpc =>
      have hfd : cfg.Ordinary fd := h.holding hpc rfl
      rw [h.refuses_eq_false hfd hg] at hs
      cases hs
      exact h.moveToHolding rfl hfd nofun
    · cases hs
  | del t =>
    simp only [Shutdown.step] at hs
    split at hs
    · next i fd close hpc =>
      cases hs
      have hserver : Inv cfg { s with
          server := (Listen.step cfg s.server (.removeFromEpoll fd)).getD s.server } := by
        cases hstep : Listen.step cfg s.server (.removeFromEpoll fd) with
        | none => exact h
        | some v => exact h.server hstep nofun nofun
      cases close with
      | true => exact hserver.moveToHolding rfl (h.holding hpc rfl) nofun
      | false => exact hserver.moveToFree rfl nofun
    · cases hs
  | finish t =>
    simp only [Shutdown.step] at hs
    split at hs
    · next i fd hpc =>
      obtain ⟨v, hv, rfl⟩ := Option.map_eq_some_iff.mp hs
      have hserver : Inv cfg { s with server := v } := by
        refine h.server hv ?_ nofun
        rintro fd' hb
        cases hb
        exact h.holding hpc rfl
      exact hserver.moveToFree rfl nofun
    · cases hs
  | setFlag =>
    simp only [Shutdown.step] at hs
    split_ifs at hs
    cases hs
    exact ⟨h.apart, h.calls, h.deque, h.hands, h.delivered, h.clean⟩
  | terminate =>
    simp only [Shutdown.step] at hs
    split_ifs at hs
    obtain ⟨v, hv, rfl⟩ := Option.map_eq_some_iff.mp hs
    refine h.server hv nofun ?_
    rintro u hb
    cases hb
    rfl

/-- Once `epollfd` is closed the test leads to the store. -/
theorem store_of_closed {a : Act ι} (hg : ¬ EpollOpen s a)
    (hs : Shutdown.step cfg s a = some s') : ¬ NoNullStore s' := by
  cases a with
  | check t =>
    have hclosed : s.server.epollfd = none := not_not.mp hg
    simp only [Shutdown.step] at hs
    split at hs
    · cases hs
      intro hclean
      refine hclean t ?_
      simp [Sys.moveTo, refuses, hclosed]
    · cases hs
  | _ => exact absurd trivial hg

end Parts

/-- **When closing during shutdown is safe**: exactly when every test of
`remove_from_epoll` is made before the listening thread has closed `epollfd`. -/
theorem no_null_store_iff [DecidableEq ι] (cfg : Setup) (acts : List (Act ι)) :
    Always (step cfg) NoNullStore (init ι cfg) acts ↔
      Guarded (step cfg) EpollOpen (init ι cfg) acts :=
  always_iff_guarded (fun _ h => h.clean) (fun _ _ _ h hg hs => h.step hg hs)
    (fun _ _ _ _ hg hs => store_of_closed hg hs) (inv_init cfg)

/-- A consumer is in its callback when `stop` is called.  The listening thread leaves and
closes `epollfd`, and then the callback closes its descriptor. -/
theorem null_store_during_stop :
    let cfg : Setup := ⟨3, 5, 4, false, by decide, by decide, by decide⟩
    let acts : List (Act (Fin 1)) :=
      [.listen (.prepare true), .listen .announce, .listen .test,
        .listen (.wait (.batch [⟨3, EPOLLIN, .listener⟩])), .listen .check, .listen .next,
        .listen (.accept4 (.conn 7 0 false)), .listen .insert, .listen (.epollAdd true), .produce,
        .head 0, .pop 0, .test 0, .setFlag, .terminate, .terminate, .terminate, .listen .next,
        .listen .test, .listen .closeConns, .listen .closeEpoll, .close 0 7, .check 0]
    ∃ s, run (step cfg) (init (Fin 1) cfg) acts = some s ∧ ¬ NoNullStore s :=
  ⟨_, rfl, fun h => h 0 rfl⟩

end Shutdown

end Nbuss
