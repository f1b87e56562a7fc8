import Nbuss.Listen

/-!
# The event protocol of a connection

A callback that runs on the listening thread and answers `CLOSE_SOCKET` with
`close(fd)`, and nothing else, is told the life of each connection in order:
`NEW_SOCKET`, readiness events, and at most one event that ends it.  The number in an
event is all the callback gets, so the statement is about numbers and connections at
once: the events are sorted by the connection for which the kernel reported them, and
each of them is delivered while its number still belongs to that connection.

The invariant (`SyncInv`) relates four things that the code keeps apart.  A registered
descriptor is open, and its connection has been announced and not ended, except in the
middle of the callback that is about to close it.  Every entry of the batch that has
not been looked at is about the file that its number still stands for; this survives
because the callback closes only the number of the entry in hand, the numbers of a
batch are distinct, and `accept4` returns only numbers that are not open.

Nothing of this depends on how `terminate` is used.  That the command pipe never
reaches the callback does: the pipe is registered like a connection, and only the test
of `stop_server` after `epoll_wait` keeps its entry from being dispatched.  A call of
`terminate` that finds the server not yet listening clears `stop_server` without having
set it, so it must not overlap a call that found the server listening (`Disciplined`).
-/

namespace Nbuss

namespace Listen

open Transition

/-! ## Protocols -/

/-- The jobs of the callbacks about connection `c`. -/
def jobs (trace : List Callback) (c : ℕ) : List Job :=
  (trace.filter fun cb => cb.file = .conn c).map Callback.job

theorem jobs_concat_of_eq {trace : List Callback} {cb : Callback} {c : ℕ}
    (h : cb.file = .conn c) : jobs (trace ++ [cb]) c = jobs trace c ++ [cb.job] := by
  simp [jobs, h]

theorem jobs_concat_of_ne {trace : List Callback} {cb : Callback} {c : ℕ}
    (h : cb.file ≠ .conn c) : jobs (trace ++ [cb]) c = jobs trace c := by
  simp [jobs, h]

/-- `NEW_SOCKET`, then readiness events, then at most one event that ends the
connection; or nothing yet. -/
def Protocol (l : List Job) : Prop :=
  l = [] ∨ ∃ ready last, l = .newSocket :: (ready ++ last) ∧
    (∀ j ∈ ready, j.isReady = true) ∧ last.length ≤ 1 ∧ ∀ j ∈ last, j.isFinal = true

/-- Announced and not ended. -/
def Announced (l : List Job) : Prop :=
  ∃ ready, l = .newSocket :: ready ∧ ∀ j ∈ ready, j.isReady = true

theorem announced_newSocket : Announced [.newSocket] := ⟨[], rfl, by simp⟩

theorem Announced.ne_nil {l : List Job} (h : Announced l) : l ≠ [] := by
  obtain ⟨ready, rfl, -⟩ := h
  exact List.cons_ne_nil _ _

theorem Announced.protocol {l : List Job} (h : Announced l) : Protocol l := by
  obtain ⟨ready, rfl, hready⟩ := h
  exact .inr ⟨ready, [], by simp, hready, by simp, by simp⟩

theorem Announced.concat_ready {l : List Job} {j : Job} (h : Announced l)
    (hj : j.isReady = true) : Announced (l ++ [j]) := by
  obtain ⟨ready, rfl, hready⟩ := h
  refine ⟨ready ++ [j], rfl, fun i hi => ?_⟩
  rcases List.mem_append.mp hi with hi | hi
  · exact hready i hi
  · rw [List.mem_singleton.mp hi]
    exact hj

theorem Announced.concat_final {l : List Job} {j : Job} (h : Announced l)
    (hj : j.isFinal = true) : Protocol (l ++ [j]) := by
  obtain ⟨ready, rfl, hready⟩ := h
  refine .inr ⟨ready, [j], rfl, hready, le_refl 1, fun i hi => ?_⟩
  rw [List.mem_singleton.mp hi]
  exact hj

/-! ## The synchronous callback -/

/-- The descriptor that the callback in progress has been told to close and has not
closed. -/
def Pc.owes : Pc → Option ℕ
  | .calling cb false _ => if cb.job = .closeSocket then some cb.fd else none
  | _ => none

/-- The callback calls `close` for the descriptor of a `CLOSE_SOCKET`, before it
returns and on the listening thread; nobody else closes anything. -/
def Sync (s : State) : Act → Prop
  | .close _ => False
  | .answer => s.pc.owes ≠ none
  | .ret => s.pc.owes = none
  | _ => True

instance (s : State) : ∀ a, Decidable (Sync s a)
  | .close _ => inferInstanceAs (Decidable False)
  | .answer => inferInstanceAs (Decidable (s.pc.owes ≠ none))
  | .ret => inferInstanceAs (Decidable (s.pc.owes = none))
  | .prepare _ | .announce | .test | .wait _ | .check | .next | .accept4 _ | .insert
  | .epollAdd _ | .smartClose | .closeConns | .closeEpoll | .closeListen | .quit
  | .removeFromEpoll _ | .io _ _ | .terminate _ | .peerSend _ _ | .peerShutdown _ =>
    inferInstanceAs (Decidable True)

/-- The listening thread is at or past the first statement of `listen` and has not
begun to leave. -/
def Pc.running : Pc → Bool
  | .leaving | .closedConns | .closedEpoll | .closedListen | .left => false
  | _ => true

/-- What is known of the descriptor the listening thread has in hand. -/
def Current (cfg : Setup) (k : Kernel) (trace : List Callback) : Pc → Prop
  | .inserting fd c _ | .adding fd c _ =>
    fd ∈ k.openFds ∧ k.file fd = some (.conn c) ∧ jobs trace c = []
  | .smartClosing e _ => e.fd ≠ cfg.listenSock
  | .calling cb _ rest =>
    k.file cb.fd = some cb.file ∧ cb.fd ≠ cfg.listenSock ∧ cb.fd ≠ cfg.epollFd ∧
      cb.fd ∉ rest.map Entry.fd
  | _ => True

/-- The invariant of a server with a synchronous callback.  It is stated of the parts
of the state it is about, so that it is the same statement before and after a step
that changes only others. -/
structure SyncInv (cfg : Setup) (pc : Pc) (listenSock : Option ℕ) (k : Kernel)
    (trace : List Callback) : Prop where
  start : pc = .starting →
    k.registered = ∅ ∧ cfg.pipeFd ∈ k.openFds ∧ k.file cfg.pipeFd = some .pipe
  listener : pc.running = true → listenSock = some cfg.listenSock ∧
    cfg.listenSock ∈ k.openFds ∧ k.file cfg.listenSock = some .listener
  epoll : pc.running = true → pc ≠ .starting →
    cfg.epollFd ∈ k.openFds ∧ k.file cfg.epollFd = some .epoll
  wf : k.Wf
  unborn : ∀ c, k.nextConn ≤ c → jobs trace c = []
  registered : ∀ fd ∈ k.registered, fd ∈ k.openFds ∧ fd ≠ cfg.epollFd ∧
    ∀ c, k.file fd = some (.conn c) → Announced (jobs trace c) ∨ pc.owes = some fd
  pending : ∀ e ∈ pc.pending, e.fd ∈ k.openFds ∧ e.fd ≠ cfg.epollFd ∧
    k.file e.fd = some e.file ∧ ∀ c, e.file = .conn c → Announced (jobs trace c)
  nodup : (pc.pending.map Entry.fd).Nodup
  current : Current cfg k trace pc
  protocol : ∀ c, Protocol (jobs trace c)
  names : ∀ cb ∈ trace, cb.fd ≠ cfg.listenSock ∧ cb.fd ≠ cfg.epollFd

variable {cfg : Setup}

theorem syncInv_init :
    SyncInv cfg (init cfg).pc (init cfg).listenSock (init cfg).kernel [] where
  start _ := ⟨rfl, by simp [init], by simp [init, cfg.listenSock_ne_pipeFd.symm]⟩
  listener _ := ⟨rfl, by simp [init], by simp [init]⟩
  epoll _ h := absurd rfl h
  wf := wf_init cfg
  unborn _ _ := rfl
  registered fd h := by simp [init] at h
  pending e h := by simp [init, Pc.pending] at h
  nodup := by simp [init, Pc.pending]
  current := trivial
  protocol _ := .inl rfl
  names := by simp

/-! ## Moves of the listening thread -/

theorem Moves.running {s : State} {a : Act} {pc : Pc} (h : Moves cfg s a pc) :
    s.pc.running = true ∧ s.pc ≠ .starting ∧ pc ≠ .starting := by
  cases h <;> simp [*, Pc.running]

/-- A synchronous callback does not return owing a `close`. -/
theorem Moves.owes {s : State} {a : Act} {pc : Pc} (h : Moves cfg s a pc) (hsync : Sync s a) :
    s.pc.owes = none ∧ pc.owes = none := by
  cases h
  case ret => exact ⟨hsync, rfl⟩
  all_goals simp [*, Pc.owes]

theorem SyncInv.moves {s : State} {a : Act} {pc : Pc}
    (h : SyncInv cfg s.pc s.listenSock s.kernel s.trace) (hm : Moves cfg s a pc)
    (hsync : Sync s a) : SyncInv cfg pc s.listenSock s.kernel s.trace := by
  obtain ⟨hrun, hstart, hstart'⟩ := hm.running
  obtain ⟨howes, howes'⟩ := hm.owes hsync
  have hlisten := h.listener hrun
  refine
    { h with
      start := fun hpc => absurd hpc hstart'
      listener := fun _ => hlisten
      epoll := fun _ _ => h.epoll hrun hstart
      registered := fun fd hfd => ?_
      pending := fun e he => h.pending e (hm.pending_suffix.subset he)
      nodup := h.nodup.sublist (hm.pending_suffix.sublist.map _)
      current := ?_ }
  · obtain ⟨hopen, hne, hconn⟩ := h.registered fd hfd
    exact ⟨hopen, hne, fun c hc => .inl ((hconn c hc).resolve_right (by simp [howes]))⟩
  · cases hm
    case smart e rest hpc hne _ _ _ =>
      intro he
      rw [hlisten.1, he] at hne
      exact hne rfl
    all_goals trivial

/-! ## Callbacks, closes and new connections -/

/-- A callback about the file that its number stands for.  Only the connection of that
number gets a new event. -/
theorem SyncInv.call {pc : Pc} {listenSock : Option ℕ} {k : Kernel} {trace : List Callback}
    {cb : Callback} {rest : List Entry} (h : SyncInv cfg pc listenSock k trace)
    (hrun : pc.running = true) (hstart : pc ≠ .starting) (howes : pc.owes = none)
    (hrest : rest <:+ pc.pending) (hcurrent : Current cfg k trace (.calling cb false rest))
    (hprotocol : ∀ c, cb.file = .conn c → Protocol (jobs trace c ++ [cb.job]))
    (hkeep : cb.fd ∈ k.registered → cb.job ≠ .closeSocket →
      ∀ c, cb.file = .conn c → Announced (jobs trace c ++ [cb.job])) :
    SyncInv cfg (.calling cb false rest) listenSock k (trace ++ [cb]) := by
  obtain ⟨hfile, hlisten, hepoll, hfresh⟩ := hcurrent
  -- a different number stands for a different connection
  have hother : ∀ fd c, fd ≠ cb.fd → k.file fd = some (.conn c) →
      jobs (trace ++ [cb]) c = jobs trace c := by
    intro fd c hne hc
    refine jobs_concat_of_ne fun hcb => hne ?_
    exact h.wf.inj fd cb.fd c hc (hcb ▸ hfile)
  refine
    { start := fun hpc => by cases hpc
      listener := fun _ => h.listener hrun
      epoll := fun _ _ => h.epoll hrun hstart
      wf := h.wf
      unborn := fun c hc => ?_
      registered := fun fd hfd => ?_
      pending := fun e he => ?_
      nodup := h.nodup.sublist (hrest.sublist.map _)
      current := ⟨hfile, hlisten, hepoll, hfresh⟩
      protocol := fun c => ?_
      names := fun cb' hcb' => ?_ }
  · have hne : cb.file ≠ .conn c := by
      intro hcb
      have hlt := h.wf.numbered cb.fd c (hcb ▸ hfile)
      omega
    rw [jobs_concat_of_ne hne]
    exact h.unborn c hc
  · obtain ⟨hopen, hne, hconn⟩ := h.registered fd hfd
    refine ⟨hopen, hne, fun c hc => ?_⟩
    by_cases hcb : fd = cb.fd
    · subst hcb
      by_cases hjob : cb.job = .closeSocket
      · exact .inr (by simp [Pc.owes, hjob])
      · have hconn : cb.file = .conn c := by
          rw [hfile, Option.some_inj] at hc
          exact hc
        rw [jobs_concat_of_eq hconn]
        exact .inl (hkeep hfd hjob c hconn)
    · rw [hother fd c hcb hc]
      exact .inl ((hconn c hc).resolve_right (by simp [howes]))
  · obtain ⟨hopen, hne, hfile', hconn⟩ := h.pending e (hrest.subset he)
    refine ⟨hopen, hne, hfile', fun c hc => ?_⟩
    have hfd : e.fd ≠ cb.fd := by
      intro heq
      exact hfresh (heq ▸ List.mem_map_of_mem he)
    rw [hother e.fd c hfd (hc ▸ hfile')]
    exact hconn c hc
  · by_cases hcb : cb.file = .conn c
    · rw [jobs_concat_of_eq hcb]
      exact hprotocol c hcb
    · rw [jobs_concat_of_ne hcb]
      exact h.protocol c
  · rcases List.mem_append.mp hcb' with hcb' | hcb'
    · exact h.names cb' hcb'
    · rw [List.mem_singleton.mp hcb']
      exact ⟨hlisten, hepoll⟩

/-- The number in hand is closed. -/
theorem SyncInv.close {pc pc' : Pc} {listenSock : Option ℕ} {k : Kernel}
    {trace : List Callback} {fd : ℕ} (h : SyncInv cfg pc listenSock k trace)
    (hrun : pc.running = true) (hstart : pc ≠ .starting) (hstart' : pc' ≠ .starting)
    (hlisten : fd ≠ cfg.listenSock) (hepoll : fd ≠ cfg.epollFd)
    (howes : pc.owes = none ∨ pc.owes = some fd) (hrest : pc'.pending <:+ pc.pending)
    (hfresh : fd ∉ pc'.pending.map Entry.fd)
    (hcurrent : Current cfg (k.close {fd}) trace pc') :
    SyncInv cfg pc' listenSock (k.close {fd}) trace := by
  have hopen : ∀ fd', fd' ∈ k.openFds → fd' ≠ fd → fd' ∈ (k.close {fd}).openFds :=
    fun fd' hfd' hne => Kernel.mem_openFds_close.mpr ⟨hfd', hne⟩
  obtain ⟨hl, hlopen, hlfile⟩ := h.listener hrun
  obtain ⟨heopen, hefile⟩ := h.epoll hrun hstart
  refine
    { h with
      start := fun hpc => absurd hpc hstart'
      listener := fun _ => ⟨hl, hopen _ hlopen hlisten.symm, hlfile⟩
      epoll := fun _ _ => ⟨hopen _ heopen hepoll.symm, hefile⟩
      wf := h.wf.of_file rfl fun _ _ hc => hc
      registered := fun fd' hfd' => ?_
      pending := fun e he => ?_
      nodup := h.nodup.sublist (hrest.sublist.map _)
      current := hcurrent }
  · obtain ⟨hreg, hne⟩ := Kernel.mem_registered_close.mp hfd'
    obtain ⟨hop, hep, hconn⟩ := h.registered fd' hreg
    refine ⟨hopen fd' hop hne, hep, fun c hc => .inl ((hconn c hc).resolve_right ?_)⟩
    rcases howes with howes | howes
    · simp [howes]
    · rw [howes, Option.some_inj]
      exact Ne.symm hne
  · obtain ⟨hop, hep, hfile, hconn⟩ := h.pending e (hrest.subset he)
    have hne : e.fd ≠ fd := by
      intro heq
      exact hfresh (heq ▸ List.mem_map_of_mem he)
    exact ⟨hopen e.fd hop hne, hep, hfile, hconn⟩

theorem SyncInv.accept {rest : List Entry} {listenSock : Option ℕ} {k : Kernel}
    {trace : List Callback} {fd : ℕ} (h : SyncInv cfg (.accepting rest) listenSock k trace)
    (hfd : fd ∉ k.openFds) :
    SyncInv cfg (.inserting fd k.nextConn rest) listenSock (k.accept fd) trace := by
  have hfile : ∀ fd', fd' ∈ k.openFds → (k.accept fd).file fd' = k.file fd' :=
    fun fd' => Kernel.accept_file_of_open hfd
  have hopen : ∀ fd', fd' ∈ k.openFds → fd' ∈ (k.accept fd).openFds :=
    fun fd' h => Finset.mem_insert_of_mem h
  obtain ⟨hl, hlopen, hlfile⟩ := h.listener rfl
  obtain ⟨heopen, hefile⟩ := h.epoll rfl (by simp)
  refine
    { start := fun hpc => by cases hpc
      listener := fun _ => ⟨hl, hopen _ hlopen, by rw [hfile _ hlopen, hlfile]⟩
      epoll := fun _ _ => ⟨hopen _ heopen, by rw [hfile _ heopen, hefile]⟩
      wf := h.wf.accept fd
      unborn := fun c hc => h.unborn c (Nat.le_of_succ_le hc)
      registered := fun fd' hfd' => ?_
      pending := fun e he => ?_
      nodup := h.nodup
      current := ⟨Finset.mem_insert_self _ _, k.accept_file_self fd, h.unborn _ (le_refl _)⟩
      protocol := h.protocol
      names := h.names }
  · obtain ⟨hop, hep, hconn⟩ := h.registered fd' hfd'
    refine ⟨hopen fd' hop, hep, fun c hc => .inl ?_⟩
    rw [hfile fd' hop] at hc
    exact (hconn c hc).resolve_right (by simp [Pc.owes])
  · obtain ⟨hop, hep, hf, hconn⟩ := h.pending e he
    exact ⟨hopen e.fd hop, hep, by rw [hfile e.fd hop, hf], hconn⟩

theorem SyncInv.registeredConn {fd c : ℕ} {rest : List Entry} {listenSock : Option ℕ}
    {k : Kernel} {trace : List Callback} (h : SyncInv cfg (.adding fd c rest) listenSock k trace) :
    SyncInv cfg (.calling ⟨fd, .newSocket, 0, .conn c⟩ false rest) listenSock (k.add fd)
      (trace ++ [⟨fd, .newSocket, 0, .conn c⟩]) := by
  obtain ⟨hfd, hfile, hjobs⟩ := h.current
  obtain ⟨-, -, hlfile⟩ := h.listener rfl
  obtain ⟨-, hefile⟩ := h.epoll rfl (by simp)
  have hlisten : fd ≠ cfg.listenSock := by
    rintro rfl
    rw [hfile] at hlfile
    cases hlfile
  have hepoll : fd ≠ cfg.epollFd := by
    rintro rfl
    rw [hfile] at hefile
    cases hefile
  have hfresh : fd ∉ rest.map Entry.fd := by
    intro hmem
    obtain ⟨e, he, rfl⟩ := List.mem_map.mp hmem
    obtain ⟨-, -, hf, hconn⟩ := h.pending e he
    rw [hf, Option.some_inj] at hfile
    exact (hconn c hfile).ne_nil hjobs
  have hcalled : SyncInv cfg (.calling ⟨fd, .newSocket, 0, .conn c⟩ false rest) listenSock k
      (trace ++ [⟨fd, .newSocket, 0, .conn c⟩]) := by
    refine h.call rfl (by simp) rfl (List.suffix_refl rest) ⟨hfile, hlisten, hepoll, hfresh⟩ ?_ ?_
    · rintro _ ⟨⟩
      rw [hjobs]
      exact announced_newSocket.protocol
    · rintro - - _ ⟨⟩
      rw [hjobs]
      exact announced_newSocket
  refine
    { hcalled with
      start := fun hpc => by cases hpc
      wf := h.wf.of_file rfl fun _ _ hc => hc
      registered := fun fd' hfd' => ?_ }
  rcases Finset.mem_insert.mp hfd' with rfl | hfd'
  · refine ⟨hfd, hepoll, fun c' hc' => .inl ?_⟩
    rw [Kernel.add, hfile, Option.some_inj, File.conn.injEq] at hc'
    subst hc'
    rw [jobs_concat_of_eq rfl, hjobs]
    exact announced_newSocket
  · exact hcalled.registered fd' hfd'

/-- On the way out of `listen` numbers are only closed. -/
theorem SyncInv.leave {pc pc' : Pc} {listenSock listenSock' : Option ℕ} {k k' : Kernel}
    {trace : List Callback} (h : SyncInv cfg pc listenSock k trace)
    (hpc : pc'.running = false) (howes : pc.owes = none) (hfile : k'.file = k.file)
    (hnext : k'.nextConn = k.nextConn)
    (hreg : ∀ fd ∈ k'.registered, fd ∈ k.registered ∧ (fd ∈ k.openFds → fd ∈ k'.openFds)) :
    SyncInv cfg pc' listenSock' k' trace := by
  have hpending : pc'.pending = [] := by
    cases pc' <;> first | rfl | cases hpc
  refine
    { start := fun heq => by rw [heq] at hpc; cases hpc
      listener := fun hrun => by rw [hpc] at hrun; cases hrun
      epoll := fun hrun => by rw [hpc] at hrun; cases hrun
      wf := h.wf.of_file hnext fun fd c hc => hfile ▸ hc
      unborn := fun c hc => h.unborn c (hnext ▸ hc)
      registered := fun fd hfd => ?_
      pending := fun e he => by simp [hpending] at he
      nodup := by simp [hpending]
      current := by cases pc' <;> trivial
      protocol := h.protocol
      names := h.names }
  obtain ⟨hold, hkeep⟩ := hreg fd hfd
  obtain ⟨hopen, hepoll, hconn⟩ := h.registered fd hold
  refine ⟨hkeep hopen, hepoll, fun c hc => .inl ((hconn c (hfile ▸ hc)).resolve_right ?_)⟩
  simp [howes]

/-- The `epoll` descriptor is created, and the pipe and the listening socket are registered. -/
theorem SyncInv.prepare {listenSock : Option ℕ} {k : Kernel} {trace : List Callback}
    (h : SyncInv cfg .starting listenSock k trace) :
    SyncInv cfg .announcing listenSock (k.watch cfg.epollFd cfg.pipeFd cfg.listenSock) trace := by
  obtain ⟨-, hpipe, hpfile⟩ := h.start rfl
  obtain ⟨hl, hlopen, hlfile⟩ := h.listener rfl
  have hconn : ∀ fd c, (k.watch cfg.epollFd cfg.pipeFd cfg.listenSock).file fd =
      some (.conn c) → k.file fd = some (.conn c) :=
    fun fd c hc => (Kernel.watch_file_eq_conn hc).2
  have hlisten : (k.watch cfg.epollFd cfg.pipeFd cfg.listenSock).file cfg.listenSock =
      k.file cfg.listenSock := k.watch_file_of_ne cfg.listenSock_ne_epollFd
  refine
    { h with
      start := fun hpc => by cases hpc
      listener := fun _ => ⟨hl, Finset.mem_insert_of_mem hlopen, hlisten.trans hlfile⟩
      epoll := fun _ _ => ⟨Finset.mem_insert_self _ _, Function.update_self ..⟩
      wf := h.wf.of_file rfl hconn
      registered := fun fd hfd => ?_
      pending := fun e he => by cases he
      nodup := List.nodup_nil
      current := trivial }
  rcases Finset.mem_insert.mp hfd with rfl | hfd
  · refine ⟨Finset.mem_insert_of_mem hpipe, cfg.epollFd_ne_pipeFd.symm, fun c hc => ?_⟩
    rw [hconn _ c hc] at hpfile
    cases hpfile
  · rw [Finset.mem_singleton] at hfd
    subst hfd
    refine ⟨Finset.mem_insert_of_mem hlopen, cfg.listenSock_ne_epollFd, fun c hc => ?_⟩
    rw [hconn _ c hc] at hlfile
    cases hlfile

/-- Every step of a server with a synchronous callback keeps the invariant. -/
theorem SyncInv.step {s s' : State} {a : Act}
    (h : SyncInv cfg s.pc s.listenSock s.kernel s.trace) (hsync : Sync s a)
    (hs : step cfg s a = some s') : SyncInv cfg s'.pc s'.listenSock s'.kernel s'.trace := by
  cases Step.of_step hs with
  | moves hm => exact h.moves hm hsync
  | prepared hpc =>
    rw [hpc] at h
    exact h.prepare
  | notPrepared hpc =>
    exact h.leave rfl (by rw [hpc]; rfl) rfl rfl fun fd hfd => ⟨hfd, id⟩
  | announce hpc =>
    rw [hpc] at h
    exact
      { h with
        start := fun hpc => by cases hpc
        listener := fun _ => h.listener rfl
        epoll := fun _ _ => h.epoll rfl (by simp)
        current := trivial }
  | wait hpc hl =>
    rw [hpc] at h
    obtain ⟨-, hnodup, hreports⟩ := hl
    refine
      { h with
        start := fun hpc => by cases hpc
        listener := fun _ => h.listener rfl
        epoll := fun _ _ => h.epoll rfl (by simp)
        pending := fun e he => ?_
        nodup := hnodup
        current := trivial }
    obtain ⟨hreg, hopen, hfile, -⟩ := hreports e he
    obtain ⟨-, hepoll, hconn⟩ := h.registered e.fd hreg
    refine ⟨hopen, hepoll, hfile, fun c hc => (hconn c (hc ▸ hfile)).resolve_right ?_⟩
    simp [Pc.owes]
  | @callback e rest job hpc hlisten hbranch =>
    rw [hpc] at h
    obtain ⟨hl, -, -⟩ := h.listener rfl
    obtain ⟨hopen, hepoll, hfile, hconn⟩ := h.pending e (List.mem_cons_self ..)
    have hnodup : e.fd ∉ rest.map Entry.fd := (List.nodup_cons.mp h.nodup).1
    have hne : e.fd ≠ cfg.listenSock := fun heq => hlisten (heq ▸ hl)
    refine h.call rfl (by simp) rfl (List.suffix_cons ..) ⟨hfile, hne, hepoll, hnodup⟩ ?_ ?_
    · intro c hc
      rcases job_of_connectionBranch hbranch with rfl | hready
      · exact (hconn c hc).concat_final rfl
      · exact ((hconn c hc).concat_ready hready).protocol
    · intro _ hjob c hc
      exact (hconn c hc).concat_ready ((job_of_connectionBranch hbranch).resolve_left hjob)
  | accept hpc hfd =>
    rw [hpc] at h
    exact h.accept hfd
  | insert hpc =>
    rw [hpc] at h
    exact
      { h with
        start := fun hpc => by cases hpc
        listener := fun _ => h.listener rfl
        epoll := fun _ _ => h.epoll rfl (by simp)
        current := h.current }
  | registered hpc hfd =>
    rw [hpc] at h
    exact h.registeredConn
  | @smartClose e rest hpc =>
    rw [hpc] at h
    obtain ⟨hopen, hepoll, hfile, hconn⟩ := h.pending e (List.mem_cons_self ..)
    have hnodup : e.fd ∉ rest.map Entry.fd := (List.nodup_cons.mp h.nodup).1
    have hclosed : SyncInv cfg (.batch rest) s.listenSock (s.kernel.close {e.fd}) s.trace :=
      h.close rfl (by simp) (by simp) h.current hepoll (.inl rfl) (List.suffix_cons ..) hnodup
        trivial
    refine hclosed.call rfl (by simp) rfl (List.suffix_refl _)
      ⟨hfile, h.current, hepoll, hnodup⟩ ?_ ?_
    · exact fun c hc => (hconn c hc).concat_final rfl
    · exact fun hreg => absurd rfl (Kernel.mem_registered_close.mp hreg).2
  | @answer cb rest hpc =>
    have howes : s.pc.owes = some cb.fd := by
      have hjob : cb.job = .closeSocket := by
        by_contra hjob
        simp [Sync, hpc, Pc.owes, hjob] at hsync
      simp [hpc, Pc.owes, hjob]
    rw [hpc] at h howes
    obtain ⟨hfile, hlisten, hepoll, hnodup⟩ := h.current
    exact h.close rfl (by simp) (by simp) hlisten hepoll (.inr howes) (List.suffix_refl _) hnodup
      ⟨hfile, hlisten, hepoll, hnodup⟩
  | closeConns hpc =>
    refine h.leave rfl (by rw [hpc]; rfl) rfl rfl fun fd hfd => ?_
    obtain ⟨hreg, hnot⟩ := Finset.mem_sdiff.mp hfd
    exact ⟨hreg, fun hopen => Finset.mem_sdiff.mpr ⟨hopen, hnot⟩⟩
  | closeEpoll hpc =>
    exact h.leave rfl (by rw [hpc]; rfl) rfl rfl fun fd hfd => by simp at hfd
  | closeListen hpc =>
    refine h.leave rfl (by rw [hpc]; rfl) rfl rfl fun fd hfd => ?_
    obtain ⟨hreg, hne⟩ := Kernel.mem_registered_close.mp hfd
    exact ⟨hreg, fun hopen => Kernel.mem_openFds_close.mpr ⟨hopen, hne⟩⟩
  | quit hpc =>
    exact h.leave rfl (by rw [hpc]; rfl) rfl rfl fun fd hfd => ⟨hfd, id⟩
  | close => exact hsync.elim
  | removeFromEpoll fd =>
    refine
      { h with
        start := fun hpc => ?_
        wf := h.wf.of_file rfl fun _ _ hc => hc
        registered := fun fd' hfd' => h.registered fd' (Finset.mem_of_mem_erase hfd') }
    obtain ⟨hreg, hpipe⟩ := h.start hpc
    exact ⟨by simp [Kernel.del, hreg], hpipe⟩
  | io | terminate | peerSend | peerShutdown => exact h

/-! ## The command pipe -/

/-- A call that found the server not listening and has not returned. -/
def TermPc.late : TermPc → Bool
  | .foundStopped | .stoppedCleared => true
  | _ => false

/-- A call of `terminate` finds the server listening only when no call that found it
not listening is still in progress.  One call at any time is disciplined, and so are
any number of calls made after `wait_for_server_ready`. -/
def Disciplined (s : State) : Act → Prop
  | .terminate t => s.signals.calls t = .idle → s.signals.isListening = true →
      ∀ u, (s.signals.calls u).late = false
  | _ => True

theorem Signals.terminate_calls_of_ne {g g' : Signals} {t u : ℕ} (hu : u ≠ t)
    (hs : g.terminate t = some g') : g'.calls u = g.calls u := by
  unfold Signals.terminate at hs
  split at hs
  case h_4 =>
    split at hs <;> cases hs
    exact Function.update_of_ne hu ..
  case h_9 => cases hs
  all_goals
    cases hs
    exact Function.update_of_ne hu ..

/-- Runs in which only one call of `terminate` is made, at whatever time, are
disciplined: while the call is idle, so are all the others. -/
theorem disciplined_of_one_call (t : ℕ) {acts : List Act}
    (h : ∀ u, Act.terminate u ∈ acts → u = t) :
    Guarded (step cfg) Disciplined (init cfg) acts := by
  have hone : Guarded (step cfg) (fun _ a => ∀ u, a = .terminate u → u = t) (init cfg) acts := by
    refine guarded_of_labels (fun a ha _ => ?_) _
    rintro u rfl
    exact h u ha
  refine guarded_of_guarded (I := fun s => ∀ u, u ≠ t → s.signals.calls u = .idle) ?_ ?_
    (fun _ _ => rfl) hone
  · intro s a s' hidle hlabel hs u hu
    cases Step.of_step hs with
    | @terminate v g' hg =>
      have hv : u ≠ v := by rwa [hlabel v rfl]
      exact (Signals.terminate_calls_of_ne hv hg).trans (hidle u hu)
    | _ => exact hidle u hu
  · intro s a hidle hlabel
    cases a with
    | terminate v =>
      intro hv _ u
      by_cases hu : u = t
      · rw [hu, ← hlabel v rfl, hv]
        rfl
      · rw [hidle u hu]
        rfl
    | _ => trivial

/-- Where a call can stand while no call has found the server listening. -/
def TermPc.quiet : TermPc → Bool
  | .idle | .foundStopped | .stoppedCleared | .done => true
  | _ => false

/-- Where a call can stand while no call has found the server stopped. -/
def TermPc.stopping (stopServer : Bool) : TermPc → Bool
  | .idle | .foundListening | .done => true
  | .stopStored | .waiting => stopServer
  | _ => false

structure Quiet (g : Signals) : Prop where
  calls : ∀ t, (g.calls t).quiet = true
  noByte : g.pipeBytes = 0

structure Stopping (g : Signals) : Prop where
  listening : g.isListening = true
  calls : ∀ t, (g.calls t).stopping g.stopServer = true
  byte : 0 < g.pipeBytes → ∃ t, g.calls t = .waiting

/-- While `listen` has not returned, the calls of `terminate` are all of one kind. -/
def Orderly (g : Signals) : Prop := Quiet g ∨ Stopping g

theorem forall_update (q : TermPc → Bool) {calls : ℕ → TermPc} (t : ℕ) {p : TermPc}
    (hp : q p = true) (h : ∀ u, q (calls u) = true) (u : ℕ) :
    q (Function.update calls t p u) = true := by
  by_cases hu : u = t
  · rwa [hu, Function.update_self]
  · rw [Function.update_of_ne hu]
    exact h u

theorem Quiet.terminate {g g' : Signals} (h : Quiet g) {t : ℕ}
    (hdisc : g.calls t = .idle → g.isListening = true → ∀ u, (g.calls u).late = false)
    (hs : g.terminate t = some g') : Orderly g' := by
  have ht := h.calls t
  unfold Signals.terminate at hs
  split at hs
  case h_1 hidle =>
    cases hs
    cases hl : g.isListening with
    | true =>
      -- the first call that finds the server listening; the others are idle or done
      have hothers : ∀ u, (g.calls u).stopping g.stopServer = true := by
        intro u
        have hquiet := h.calls u
        have hlate := hdisc hidle hl u
        cases hu : g.calls u <;> rw [hu] at hquiet hlate <;>
          first | rfl | exact absurd hquiet (by decide) | exact absurd hlate (by decide)
      refine .inr ⟨hl, forall_update (TermPc.stopping _) t rfl hothers, fun hpos => ?_⟩
      exact absurd h.noByte hpos.ne'
    | false => exact .inl ⟨forall_update TermPc.quiet t rfl h.calls, h.noByte⟩
  case h_7 | h_8 =>
    cases hs
    exact .inl ⟨forall_update TermPc.quiet t rfl h.calls, h.noByte⟩
  case h_9 => cases hs
  all_goals simp_all [TermPc.quiet]

/-- While the server listens nobody's wait ends, so `stop_server` stays set. -/
theorem Stopping.terminate {g g' : Signals} (h : Stopping g) {t : ℕ}
    (hs : g.terminate t = some g') :
    Stopping g' ∧ ∀ u, g.calls u = .waiting → g'.calls u = .waiting := by
  have ht := h.calls t
  have hmoved : ∀ (p : TermPc) (u : ℕ), g.calls t ≠ .waiting → g.calls u = .waiting →
      Function.update g.calls t p u = .waiting := by
    intro p u ht hu
    have hne : u ≠ t := by
      rintro rfl
      exact ht hu
    rw [Function.update_of_ne hne, hu]
  have hbyte : ∀ p, g.calls t ≠ .waiting → 0 < g.pipeBytes →
      ∃ u, Function.update g.calls t p u = .waiting := by
    intro p ht hpos
    obtain ⟨u, hu⟩ := h.byte hpos
    exact ⟨u, hmoved p u ht hu⟩
  unfold Signals.terminate at hs
  split at hs
  case h_1 hidle =>
    have hne : g.calls t ≠ .waiting := by simp [hidle]
    cases hs
    rw [h.listening, if_pos rfl]
    exact ⟨⟨h.listening, forall_update (TermPc.stopping _) t rfl h.calls, hbyte _ hne⟩,
      fun u => hmoved _ u hne⟩
  case h_2 hfound =>
    have hne : g.calls t ≠ .waiting := by simp [hfound]
    have hcalls : ∀ u, (g.calls u).stopping true = true := by
      intro u
      have hu := h.calls u
      cases hc : g.calls u <;> rw [hc] at hu <;> first | rfl | cases hu
    cases hs
    exact ⟨⟨h.listening, forall_update (TermPc.stopping _) t rfl hcalls, hbyte _ hne⟩,
      fun u => hmoved _ u hne⟩
  case h_3 hstored =>
    have hne : g.calls t ≠ .waiting := by simp [hstored]
    rw [hstored] at ht
    cases hs
    exact ⟨⟨h.listening, forall_update (TermPc.stopping _) t ht h.calls,
      fun _ => ⟨t, Function.update_self ..⟩⟩, fun u => hmoved _ u hne⟩
  case h_4 =>
    rw [h.listening] at hs
    cases hs
  case h_9 => cases hs
  all_goals simp_all [TermPc.stopping]

/-- Where an entry of the command pipe can be: only in a batch that is going to be
dropped, because the call that wrote the byte has set `stop_server` before. -/
def PipeFree (cfg : Setup) (g : Signals) : Pc → Prop
  | .woken (.batch l) => ∀ e ∈ l, e.fd = cfg.pipeFd → Stopping g ∧ ∃ t, g.calls t = .waiting
  | .calling cb _ rest => cb.fd ≠ cfg.pipeFd ∧ ∀ e ∈ rest, e.fd ≠ cfg.pipeFd
  | pc => ∀ e ∈ pc.pending, e.fd ≠ cfg.pipeFd

structure PipeInv (cfg : Setup) (pc : Pc) (k : Kernel) (trace : List Callback)
    (g : Signals) : Prop where
  orderly : pc ≠ .left → Orderly g
  table : pc.running = true → cfg.pipeFd ∈ k.openFds ∧ k.file cfg.pipeFd = some .pipe
  place : PipeFree cfg g pc
  trace : ∀ cb ∈ trace, cb.fd ≠ cfg.pipeFd

theorem pipeInv_init : PipeInv cfg (init cfg).pc (init cfg).kernel [] (init cfg).signals where
  orderly _ := .inl ⟨fun _ => rfl, rfl⟩
  table _ := ⟨by simp [init], by simp [init, cfg.listenSock_ne_pipeFd.symm]⟩
  place e he := by cases he
  trace := by simp

/-- The test of `stop_server` drops the batch that holds the entry of the pipe. -/
theorem Stopping.stopServer {g : Signals} (h : Stopping g) {t : ℕ} (ht : g.calls t = .waiting) :
    g.stopServer = true := by
  have hcall := h.calls t
  rwa [ht] at hcall

theorem PipeFree.moves {s : State} {a : Act} {pc : Pc} (h : PipeFree cfg s.signals s.pc)
    (hm : Moves cfg s a pc) : PipeFree cfg s.signals pc := by
  cases hm
  case checkBatch l hpc hstop =>
    rw [hpc] at h
    intro e he hfd
    obtain ⟨hstopping, t, ht⟩ := h e he hfd
    rw [hstopping.stopServer ht] at hstop
    cases hstop
  case incoming hpc _ | noIncoming hpc _ | skip hpc _ =>
    rw [hpc] at h
    exact fun e he => h e (List.mem_cons_of_mem _ he)
  case smart hpc _ _ _ _ | wouldBlock hpc =>
    rw [hpc] at h
    exact h
  case ret hpc =>
    rw [hpc] at h
    exact h.2
  all_goals exact fun e he => by cases he

theorem PipeFree.terminate {pc : Pc} {g g' : Signals} {t : ℕ} (h : PipeFree cfg g pc)
    (hs : g.terminate t = some g') : PipeFree cfg g' pc := by
  cases pc with
  | woken w =>
    cases w with
    | batch l =>
      intro e he hfd
      obtain ⟨hstopping, u, hu⟩ := h e he hfd
      obtain ⟨hstopping', hwait⟩ := hstopping.terminate hs
      exact ⟨hstopping', u, hwait u hu⟩
    | interrupted | failed => exact h
  | _ => exact h

theorem Orderly.terminate {g g' : Signals} {t : ℕ} (h : Orderly g)
    (hdisc : g.calls t = .idle → g.isListening = true → ∀ u, (g.calls u).late = false)
    (hs : g.terminate t = some g') : Orderly g' := by
  rcases h with h | h
  · exact h.terminate hdisc hs
  · exact .inr (h.terminate hs).1

theorem Orderly.announce {g : Signals} (h : Orderly g) : Orderly { g with isListening := true } := by
  rcases h with hq | hstop
  · exact .inl ⟨hq.calls, hq.noByte⟩
  · exact .inr ⟨rfl, hstop.calls, hstop.byte⟩

/-- If the pipe is reported, somebody has written to it and is waiting. -/
theorem Orderly.of_report {s : State} (h : Orderly s.signals) {l : List Entry} (hl : s.Reports l)
    {e : Entry} (he : e ∈ l) (hpipe : s.kernel.file e.fd = some .pipe) :
    Stopping s.signals ∧ ∃ t, s.signals.calls t = .waiting := by
  obtain ⟨-, -, hreport, hbyte⟩ := hl.2.2 e he
  rw [hpipe, Option.some_inj] at hreport
  have hpos := hbyte hreport.symm
  rcases h with hq | hstop
  · exact absurd hq.noByte hpos.ne'
  · exact ⟨hstop, hstop.byte hpos⟩

/-- A callback with another number than the pipe's. -/
theorem PipeInv.call {pc : Pc} {k k' : Kernel} {trace : List Callback} {g : Signals}
    {cb : Callback} {rest : List Entry} (h : PipeInv cfg pc k trace g) (hleft : pc ≠ .left)
    (htable : cfg.pipeFd ∈ k'.openFds ∧ k'.file cfg.pipeFd = some .pipe)
    (hcb : cb.fd ≠ cfg.pipeFd) (hrest : ∀ e ∈ rest, e.fd ≠ cfg.pipeFd) :
    PipeInv cfg (.calling cb false rest) k' (trace ++ [cb]) g where
  orderly _ := h.orderly hleft
  table _ := htable
  place := ⟨hcb, hrest⟩
  trace cb' hcb' := by
    rcases List.mem_append.mp hcb' with hcb' | hcb'
    · exact h.trace cb' hcb'
    · rwa [List.mem_singleton.mp hcb']

/-- With a synchronous callback and disciplined calls of `terminate`, every step keeps
the pipe out of the callbacks. -/
theorem PipeInv.step {s s' : State} {a : Act} (h : PipeInv cfg s.pc s.kernel s.trace s.signals)
    (hinv : SyncInv cfg s.pc s.listenSock s.kernel s.trace) (hsync : Sync s a)
    (hdisc : Disciplined s a) (hs : Listen.step cfg s a = some s') :
    PipeInv cfg s'.pc s'.kernel s'.trace s'.signals := by
  have hclose : ∀ fd, fd ≠ cfg.pipeFd → s.pc.running = true →
      cfg.pipeFd ∈ (s.kernel.close {fd}).openFds ∧
        (s.kernel.close {fd}).file cfg.pipeFd = some .pipe := by
    intro fd hfd hrun
    obtain ⟨hopen, hfile⟩ := h.table hrun
    exact ⟨Kernel.mem_openFds_close.mpr ⟨hopen, hfd.symm⟩, hfile⟩
  cases Step.of_step hs with
  | moves hm =>
    obtain ⟨hrun, -, -⟩ := hm.running
    refine ⟨fun _ => h.orderly ?_, fun _ => h.table hrun, h.place.moves hm, h.trace⟩
    rintro hpc
    rw [hpc] at hrun
    cases hrun
  | prepared hpc =>
    obtain ⟨hopen, hfile⟩ := h.table (by rw [hpc]; rfl)
    refine ⟨fun _ => h.orderly (by simp [hpc]), fun _ => ⟨Finset.mem_insert_of_mem hopen, ?_⟩,
      fun e he => (by cases he), h.trace⟩
    exact (s.kernel.watch_file_of_ne cfg.epollFd_ne_pipeFd.symm).trans hfile
  | notPrepared hpc =>
    exact ⟨fun _ => h.orderly (by simp [hpc]), fun hrun => (by cases hrun),
      fun e he => (by cases he), h.trace⟩
  | announce hpc =>
    exact ⟨fun _ => (h.orderly (by simp [hpc])).announce, fun _ => h.table (by rw [hpc]; rfl),
      fun e he => (by cases he), h.trace⟩
  | @wait l hpc hl =>
    obtain ⟨hopen, hfile⟩ := h.table (by rw [hpc]; rfl)
    have horderly : Orderly s.signals := h.orderly (by simp [hpc])
    refine ⟨fun _ => horderly, fun _ => ⟨hopen, hfile⟩, fun e he hfd => ?_, h.trace⟩
    exact horderly.of_report hl he (hfd ▸ hfile)
  | @callback e rest job hpc _ _ =>
    have hrun : s.pc.running = true := by rw [hpc]; rfl
    have hplace := h.place
    rw [hpc] at hplace
    exact h.call (by simp [hpc]) (h.table hrun) (hplace e (List.mem_cons_self ..))
      fun e' he' => hplace e' (List.mem_cons_of_mem _ he')
  | @accept fd sent shut rest hpc hfd =>
    obtain ⟨hopen, hfile⟩ := h.table (by rw [hpc]; rfl)
    have hplace := h.place
    rw [hpc] at hplace
    refine ⟨fun _ => h.orderly (by simp [hpc]), fun _ => ⟨Finset.mem_insert_of_mem hopen, ?_⟩,
      hplace, h.trace⟩
    exact (Kernel.accept_file_of_open hfd hopen).trans hfile
  | insert hpc =>
    have hplace := h.place
    rw [hpc] at hplace
    exact ⟨fun _ => h.orderly (by simp [hpc]), fun _ => h.table (by rw [hpc]; rfl), hplace,
      h.trace⟩
  | @registered fd c rest hpc _ =>
    obtain ⟨hopen, hfile⟩ := h.table (by rw [hpc]; rfl)
    have hplace := h.place
    have hcurrent := hinv.current
    rw [hpc] at hplace hcurrent
    refine h.call (by simp [hpc]) ⟨hopen, hfile⟩ ?_ hplace
    rintro rfl
    rw [hcurrent.2.1] at hfile
    cases hfile
  | @smartClose e rest hpc =>
    have hplace := h.place
    rw [hpc] at hplace
    have hfd : e.fd ≠ cfg.pipeFd := hplace e (List.mem_cons_self ..)
    exact h.call (by simp [hpc]) (hclose e.fd hfd (by rw [hpc]; rfl)) hfd
      fun e' he' => hplace e' (List.mem_cons_of_mem _ he')
  | @answer cb rest hpc =>
    have hplace := h.place
    rw [hpc] at hplace
    exact ⟨fun _ => h.orderly (by simp [hpc]), fun _ => hclose cb.fd hplace.1 (by rw [hpc]; rfl),
      hplace, h.trace⟩
  | closeConns hpc | closeEpoll hpc | closeListen hpc =>
    exact ⟨fun _ => h.orderly (by simp [hpc]), fun hrun => (by cases hrun),
      fun e he => (by cases he), h.trace⟩
  | quit => exact ⟨fun hpc => absurd rfl hpc, fun hrun => (by cases hrun),
      fun e he => (by cases he), h.trace⟩
  | close => exact hsync.elim
  | terminate hg =>
    exact ⟨fun hpc => (h.orderly hpc).terminate hdisc hg, h.table, h.place.terminate hg, h.trace⟩
  | removeFromEpoll | io | peerSend | peerShutdown => exact ⟨h.orderly, h.table, h.place, h.trace⟩

/-! ## The protocol -/

/-- What the listening thread acts on is about the connection for which the kernel
reported it. -/
def Attributed (k : Kernel) : Pc → Prop
  | .smartClosing e _ => e.fd ∈ k.openFds ∧ k.file e.fd = some e.file
  | .calling cb _ _ => k.file cb.fd = some cb.file
  | _ => True

theorem SyncInv.attributed {pc : Pc} {listenSock : Option ℕ} {k : Kernel}
    {trace : List Callback} (h : SyncInv cfg pc listenSock k trace) : Attributed k pc := by
  cases pc with
  | smartClosing e rest =>
    obtain ⟨hopen, -, hfile, -⟩ := h.pending e (List.mem_cons_self ..)
    exact ⟨hopen, hfile⟩
  | calling cb b rest => exact h.current.1
  | _ => trivial

/-- **The event protocol of `listen`.**  With a synchronous callback that closes
exactly what it is told to close, in every state of the first call of `listen`: the
callbacks about a connection are `NEW_SOCKET`, readiness events and at most one final
event, in this order; what the server acts on belongs to the connection for which it
was reported; and no callback has been called with the listening socket or the epoll
descriptor, nor, if the calls of `terminate` are disciplined, with the command
pipe.  In particular, not with the pipe if only one call of `terminate` is made, by any thread and
at any time. -/
theorem protocol_of_sync (cfg : Setup) (acts : List Act) (s : State)
    (hsync : Guarded (step cfg) Sync (init cfg) acts)
    (hrun : run (step cfg) (init cfg) acts = some s) :
    (∀ c, Protocol (jobs s.trace c)) ∧ Attributed s.kernel s.pc ∧
      (∀ cb ∈ s.trace, cb.fd ≠ cfg.listenSock ∧ cb.fd ≠ cfg.epollFd) ∧
      (Guarded (step cfg) Disciplined (init cfg) acts → ∀ cb ∈ s.trace, cb.fd ≠ cfg.pipeFd) ∧
      ∀ t, (∀ u, .terminate u ∈ acts → u = t) → ∀ cb ∈ s.trace, cb.fd ≠ cfg.pipeFd := by
  have hinv : SyncInv cfg s.pc s.listenSock s.kernel s.trace :=
    invariant_of_guarded (I := fun s => SyncInv cfg s.pc s.listenSock s.kernel s.trace)
      (fun s a s' h => h.step) syncInv_init hsync hrun
  have hpipe : Guarded (step cfg) Disciplined (init cfg) acts →
      ∀ cb ∈ s.trace, cb.fd ≠ cfg.pipeFd := by
    intro hdisc
    have hboth : SyncInv cfg s.pc s.listenSock s.kernel s.trace ∧
        PipeInv cfg s.pc s.kernel s.trace s.signals :=
      invariant_of_guarded
        (I := fun s => SyncInv cfg s.pc s.listenSock s.kernel s.trace ∧
          PipeInv cfg s.pc s.kernel s.trace s.signals)
        (fun s a s' h hg hs => ⟨h.1.step hg.1 hs, h.2.step h.1 hg.1 hg.2 hs⟩)
        ⟨syncInv_init, pipeInv_init⟩ (hsync.and hdisc) hrun
    exact hboth.2.trace
  exact ⟨hinv.protocol, hinv.attributed, hinv.names, hpipe, fun t hone =>
    hpipe (disciplined_of_one_call t hone)⟩

/-- The run of one connection from `accept4` to `CLOSE_SOCKET`, and a `terminate` whose
byte in the pipe is reported and never reaches the callback. -/
theorem protocol_of_one_connection :
    let cfg : Setup := ⟨3, 5, 4, false, by decide, by decide, by decide⟩
    let acts : List Act :=
      [.prepare true, .announce, .test, .wait (.batch [⟨3, EPOLLIN, .listener⟩]), .check, .next,
        .accept4 (.conn 7 0 false), .insert, .epollAdd true, .ret, .next, .test,
        .wait (.batch [⟨7, EPOLLIN, .conn 0⟩]), .check, .next, .io 7 10, .ret, .next, .test,
        .wait (.batch [⟨7, EPOLLRDHUP, .conn 0⟩]), .check, .next, .answer, .ret, .next, .test,
        .terminate 0, .terminate 0, .terminate 0, .wait (.batch [⟨4, EPOLLIN, .pipe⟩]), .check]
    ∃ s, run (step cfg) (init cfg) acts = some s ∧ s.pc = .leaving ∧
      jobs s.trace 0 = [.newSocket, .availableForRead, .closeSocket] ∧
      (∀ c, Protocol (jobs s.trace c)) ∧ ∀ cb ∈ s.trace, cb.fd ≠ cfg.pipeFd := by
  intro cfg acts
  have hsync : Guarded (step cfg) Sync (init cfg) acts := by decide
  have h := protocol_of_sync cfg acts _ hsync rfl
  exact ⟨_, rfl, by decide, by decide, h.1, h.2.2.2.2 0 (by simp [acts])⟩

end Listen

end Nbuss
