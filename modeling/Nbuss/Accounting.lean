import Mathlib.Data.Finset.Card
import Nbuss.ListenProtocol

/-!
# Counting connections

`activeConnections` is raised when a connection has been registered with epoll and
lowered by `IGenericServer::close`; `incoming_conn_fd` is filled just before and
emptied by `close` and by `closeSockets`.  With a synchronous callback the two agree
whenever `listen` is between two events.  They part when `listen` leaves with
connections open: `closeSockets` closes the descriptors and clears the set, but it does
not go through `close` and leaves the counter where it was.

So the counter is right for ever exactly when nothing it counts is left for
`closeSockets` to close.  What it counts is a connection that has been announced with
`NEW_SOCKET`; one whose registration has failed is in the set but not in the counter,
and `closeSockets` may have to close it.
-/

namespace Nbuss

namespace Listen

open Transition

variable {cfg : Setup}

/-! ## What is counted -/

/-- The accepted connections that have not been closed. -/
def Kernel.openConns (k : Kernel) : Finset ℕ :=
  (Finset.range k.nextConn).filter fun c => ∃ fd ∈ k.openFds, k.file fd = some (.conn c)

/-- The connection of `fd` has been announced. -/
def told (file : ℕ → Option File) (trace : List Callback) (fd : ℕ) : Bool :=
  match file fd with
  | some (.conn c) => !(jobs trace c).isEmpty
  | _ => false

/-- Nothing has happened yet, or `listen` has been left, or it is about to look at an
entry or to wait. -/
def Pc.between : Pc → Bool
  | .loopHead | .waiting | .woken _ | .batch _ | .left => true
  | _ => false

/-- The counter, the set and the kernel agree whenever `listen` is between two
events. -/
def Accounted (s : State) : Prop :=
  s.pc.between = true →
    s.activeConnections = s.incoming.card ∧ s.incoming.card = s.kernel.openConns.card ∧
      (s.pc = .left → s.activeConnections = 0)

/-- `closeSockets` finds no announced connection open. -/
def NoneLeft (s : State) : Act → Prop
  | .closeConns => ∀ fd ∈ s.incoming, told s.kernel.file s.trace fd = false
  | _ => True

instance (s : State) : ∀ a, Decidable (NoneLeft s a)
  | .closeConns =>
    inferInstanceAs (Decidable (∀ fd ∈ s.incoming, told s.kernel.file s.trace fd = false))
  | .prepare _ | .announce | .test | .wait _ | .check | .next | .accept4 _ | .insert
  | .epollAdd _ | .smartClose | .answer | .ret | .closeEpoll | .closeListen | .quit | .close _
  | .removeFromEpoll _ | .io _ _ | .terminate _ | .peerSend _ _ | .peerShutdown _ =>
    inferInstanceAs (Decidable True)

/-- The command pipe, registered for `EPOLLIN` and with its writing end open, is
reported with `EPOLLIN` and nothing else. -/
def PipeReadable (_ : State) : Act → Prop
  | .wait (.batch l) => ∀ e ∈ l, e.file = .pipe → e.events = EPOLLIN
  | _ => True

theorem told_concat {file : ℕ → Option File} {trace : List Callback} {cb : Callback} {fd : ℕ}
    (h : told file trace fd = true) : told file (trace ++ [cb]) fd = true := by
  unfold told at *
  split at h
  · next c _ =>
    by_cases hcb : cb.file = .conn c
    · simp [jobs_concat_of_eq hcb]
    · rwa [jobs_concat_of_ne hcb]
  · cases h

theorem told_congr {file file' : ℕ → Option File} {trace : List Callback} {fd : ℕ}
    (h : file' fd = file fd) : told file' trace fd = told file trace fd := by
  rw [told, told, h]

theorem told_eq_false {file : ℕ → Option File} {trace : List Callback} {fd c : ℕ}
    (hfile : file fd = some (.conn c)) (h : jobs trace c = []) : told file trace fd = false := by
  simp [told, hfile, h]

/-- A set that holds the open connection descriptors has as many members as there are
open connections. -/
theorem Kernel.Wf.card_openConns {k : Kernel} (h : k.Wf) {fds : Finset ℕ}
    (hfds : ∀ fd ∈ fds, fd ∈ k.openFds ∧ ∃ c, k.file fd = some (.conn c))
    (hall : ∀ fd ∈ k.openFds, ∀ c, k.file fd = some (.conn c) → fd ∈ fds) :
    fds.card = k.openConns.card := by
  choose! conn hconn using fun fd (hfd : fd ∈ fds) => (hfds fd hfd).2
  refine Finset.card_bij (fun fd _ => conn fd) ?_ ?_ ?_
  · intro fd hfd
    have hfile := hconn fd hfd
    rw [Kernel.openConns, Finset.mem_filter, Finset.mem_range]
    exact ⟨h.numbered fd _ hfile, fd, (hfds fd hfd).1, hfile⟩
  · intro fd hfd fd' hfd' heq
    have hfile' := hconn fd' hfd'
    rw [← heq] at hfile'
    exact h.inj fd fd' _ (hconn fd hfd) hfile'
  · intro c hc
    obtain ⟨-, fd, hopen, hfile⟩ := Finset.mem_filter.mp hc
    have hfd := hall fd hopen c hfile
    refine ⟨fd, hfd, ?_⟩
    have heq := hconn fd hfd
    rw [hfile, Option.some_inj, File.conn.injEq] at heq
    exact heq.symm

/-! ## The invariant -/

/-- The descriptor that the listening thread has in hand and is going to see closed is
one of the set. -/
def InHand (incoming : Finset ℕ) : Pc → Prop
  | .smartClosing e _ => e.fd ∈ incoming
  | .calling cb false _ => cb.job = .closeSocket → cb.fd ∈ incoming
  | _ => True

structure AccInv (cfg : Setup) (pc : Pc) (k : Kernel) (trace : List Callback)
    (incoming : Finset ℕ) (active : ℤ) : Prop where
  outside : pc.outside = true → incoming = ∅
  sub : ∀ fd ∈ incoming, fd ∈ k.openFds ∧ ∃ c, k.file fd = some (.conn c)
  all : ∀ fd ∈ k.openFds, ∀ c, k.file fd = some (.conn c) →
    fd ∈ incoming ∨ pc.arriving = some (fd, c)
  announced : pc.running = true → ∀ fd ∈ incoming,
    told k.file trace fd = true ∨ ∃ c rest, pc = .adding fd c rest
  count : active = ((incoming.filter fun fd => told k.file trace fd = true).card : ℤ)
  pipe : pc.running = true → cfg.pipeFd ∈ k.openFds ∧ k.file cfg.pipeFd = some .pipe
  registered : ∀ fd ∈ k.registered, fd = cfg.listenSock ∨ fd = cfg.pipeFd ∨
    ∃ c, k.file fd = some (.conn c)
  pending : ∀ e ∈ pc.pending, e.fd ≠ cfg.listenSock →
    hungUp e.events = true ∨ has e.events EPOLLERR = true → ∃ c, e.file = .conn c
  hand : InHand incoming pc

/-- The parts of the state that the count is about. -/
def Kept (cfg : Setup) (s : State) : Prop :=
  SyncInv cfg s.pc s.listenSock s.kernel s.trace ∧
    AccInv cfg s.pc s.kernel s.trace s.incoming s.activeConnections

theorem kept_init : Kept cfg (init cfg) := by
  have hfile : ∀ fd c, (init cfg).kernel.file fd ≠ some (.conn c) := by
    intro fd c
    simp only [init]
    split_ifs <;> simp
  refine ⟨syncInv_init, fun _ => rfl, ?_, ?_, ?_, rfl, ?_, ?_, ?_, trivial⟩
  · exact fun fd hfd => by simp [init] at hfd
  · exact fun fd _ c hc => absurd hc (hfile fd c)
  · exact fun _ fd hfd => by simp [init] at hfd
  · exact fun _ => ⟨by simp [init], by simp [init, cfg.listenSock_ne_pipeFd.symm]⟩
  · exact fun fd hfd => by simp [init] at hfd
  · exact fun e he => by cases he

/-- Between two events every connection of the set has been announced and counted. -/
theorem Kept.accounted {s : State} (h : Kept cfg s) : Accounted s := by
  obtain ⟨hsync, h⟩ := h
  intro hpc
  have harriving : s.pc.arriving = none := by
    cases hs : s.pc <;> rw [hs] at hpc <;> first | rfl | cases hpc
  have hall : ∀ fd ∈ s.incoming, told s.kernel.file s.trace fd = true := by
    intro fd hfd
    by_cases hrun : s.pc.running = true
    · refine (h.announced hrun fd hfd).resolve_right ?_
      rintro ⟨c, rest, hadding⟩
      rw [hadding] at hpc
      cases hpc
    · have hempty : s.incoming = ∅ := by
        refine h.outside ?_
        cases hs : s.pc <;> rw [hs] at hpc hrun <;> first | rfl | exact absurd rfl hrun | cases hpc
      rw [hempty] at hfd
      simp at hfd
  have hcount : s.activeConnections = s.incoming.card := by
    rw [h.count, Finset.filter_true_of_mem hall]
  refine ⟨hcount, ?_, fun hleft => ?_⟩
  · refine hsync.wf.card_openConns h.sub fun fd hfd c hc => (h.all fd hfd c hc).resolve_right ?_
    simp [harriving]
  · rw [hcount, h.outside (by rw [hleft]; rfl)]
    rfl

/-! ## Steps -/

/-- Where no connection is waiting to be registered, all of the set has been
announced. -/
theorem AccInv.told_of_mem {pc : Pc} {k : Kernel} {trace : List Callback}
    {incoming : Finset ℕ} {active : ℤ} (h : AccInv cfg pc k trace incoming active)
    (hrun : pc.running = true) (hadding : ∀ fd c rest, pc ≠ .adding fd c rest) :
    ∀ fd ∈ incoming, told k.file trace fd = true := by
  intro fd hfd
  refine (h.announced hrun fd hfd).resolve_right ?_
  rintro ⟨c, rest, hpc⟩
  exact hadding fd c rest hpc

theorem Moves.not_adding {s : State} {a : Act} {pc : Pc} (h : Moves cfg s a pc)
    (hpc : pc.running = true) : ∀ fd c rest, s.pc ≠ .adding fd c rest := by
  intro fd c rest
  cases h
  case addFailed => cases hpc
  all_goals simp [*]

/-- The listening thread moves on and nothing else changes. -/
theorem AccInv.moves {s : State} {a : Act} {pc : Pc}
    (h : AccInv cfg s.pc s.kernel s.trace s.incoming s.activeConnections)
    (hsync : SyncInv cfg s.pc s.listenSock s.kernel s.trace) (hm : Moves cfg s a pc) :
    AccInv cfg pc s.kernel s.trace s.incoming s.activeConnections := by
  obtain ⟨hfrom, hto, hinside⟩ := hm.arriving
  obtain ⟨hrun, -, -⟩ := hm.running
  refine
    { h with
      outside := fun hout => by rw [hinside] at hout; cases hout
      all := fun fd hfd c hc => .inl ((h.all fd hfd c hc).resolve_right (by simp [hfrom]))
      announced := fun hrun' fd hfd => .inl (h.told_of_mem hrun (hm.not_adding hrun') fd hfd)
      pipe := fun _ => h.pipe hrun
      pending := fun e he => h.pending e (hm.pending_suffix.subset he)
      hand := ?_ }
  cases hm
  case smart e rest hpc hne hup _ _ =>
    have hmem : e ∈ s.pc.pending := by rw [hpc]; exact List.mem_cons_self ..
    obtain ⟨hopen, -, hfile, -⟩ := hsync.pending e hmem
    have hlisten : e.fd ≠ cfg.listenSock := fun heq => hne (heq ▸ (hsync.listener hrun).1)
    obtain ⟨c, hc⟩ := h.pending e hmem hlisten (.inl hup)
    exact (h.all e.fd hopen c (hc ▸ hfile)).resolve_right (by simp [hfrom])
  all_goals trivial

/-- A callback about a connection that has been announced before. -/
theorem AccInv.call {pc : Pc} {k : Kernel} {trace : List Callback} {incoming : Finset ℕ}
    {active : ℤ} {cb : Callback} {rest : List Entry}
    (h : AccInv cfg pc k trace incoming active) (hrun : pc.running = true)
    (hadding : ∀ fd c rest, pc ≠ .adding fd c rest) (harriving : pc.arriving = none)
    (hrest : rest <:+ pc.pending) (hhand : cb.job = .closeSocket → cb.fd ∈ incoming) :
    AccInv cfg (.calling cb false rest) k (trace ++ [cb]) incoming active := by
  have htold := h.told_of_mem hrun hadding
  have htold' : ∀ fd ∈ incoming, told k.file (trace ++ [cb]) fd = true :=
    fun fd hfd => told_concat (htold fd hfd)
  refine
    { h with
      outside := fun hout => by cases hout
      all := fun fd hfd c hc => .inl ((h.all fd hfd c hc).resolve_right (by simp [harriving]))
      announced := fun _ fd hfd => .inl (htold' fd hfd)
      count := ?_
      pipe := fun _ => h.pipe hrun
      pending := fun e he => h.pending e (hrest.subset he)
      hand := hhand }
  rw [h.count, Finset.filter_true_of_mem htold, Finset.filter_true_of_mem htold']

/-- `IGenericServer::close` for a descriptor of the set that has been counted. -/
theorem AccInv.close {pc pc' : Pc} {k : Kernel} {trace : List Callback} {incoming : Finset ℕ}
    {active : ℤ} {fd : ℕ} (h : AccInv cfg pc k trace incoming active) (hfd : fd ∈ incoming)
    (hrun : pc.running = true) (hadding : ∀ fd c rest, pc ≠ .adding fd c rest)
    (harriving : pc.arriving = none) (houtside : pc'.outside = false)
    (hrest : pc'.pending <:+ pc.pending) (hhand : InHand (incoming.erase fd) pc') :
    AccInv cfg pc' (k.close {fd}) trace (incoming.erase fd) (active - 1) := by
  have htold := h.told_of_mem hrun hadding
  have htold' : ∀ fd' ∈ incoming.erase fd, told (k.close {fd}).file trace fd' = true :=
    fun fd' hfd' => htold fd' (Finset.mem_of_mem_erase hfd')
  obtain ⟨-, c, hc⟩ := h.sub fd hfd
  refine
    { outside := fun hout => by rw [houtside] at hout; cases hout
      sub := fun fd' hfd' => ?_
      all := fun fd' hfd' c hc => ?_
      announced := fun _ fd' hfd' => .inl (htold' fd' hfd')
      count := ?_
      pipe := fun _ => ⟨Kernel.mem_openFds_close.mpr ⟨(h.pipe hrun).1, ?_⟩, (h.pipe hrun).2⟩
      registered := fun fd' hfd' => h.registered fd' (Kernel.mem_registered_close.mp hfd').1
      pending := fun e he => h.pending e (hrest.subset he)
      hand := hhand }
  · obtain ⟨hne, hin⟩ := Finset.mem_erase.mp hfd'
    obtain ⟨hopen, hconn⟩ := h.sub fd' hin
    exact ⟨Kernel.mem_openFds_close.mpr ⟨hopen, hne⟩, hconn⟩
  · obtain ⟨hopen, hne⟩ := Kernel.mem_openFds_close.mp hfd'
    have hin := (h.all fd' hopen c hc).resolve_right (by simp [harriving])
    exact .inl (Finset.mem_erase.mpr ⟨hne, hin⟩)
  · rw [h.count, Finset.filter_true_of_mem htold, Finset.filter_true_of_mem htold',
      Finset.card_erase_of_mem hfd]
    have hpos : 0 < incoming.card := Finset.card_pos.mpr ⟨fd, hfd⟩
    omega
  · rintro rfl
    rw [(h.pipe hrun).2] at hc
    cases hc

/-- The way out after `closeSockets` has emptied the set. -/
theorem AccInv.leave {pc pc' : Pc} {k k' : Kernel} {trace : List Callback}
    {incoming : Finset ℕ} {active : ℤ} (h : AccInv cfg pc k trace incoming active)
    (hpc : pc.outside = true) (harriving : pc.arriving = none) (hrun : pc'.running = false)
    (hfile : k'.file = k.file) (hopen : k'.openFds ⊆ k.openFds)
    (hreg : k'.registered ⊆ k.registered) : AccInv cfg pc' k' trace incoming active := by
  have hempty : incoming = ∅ := h.outside hpc
  have hpending : pc'.pending = [] := by
    cases pc' <;> first | rfl | cases hrun
  refine
    { outside := fun _ => hempty
      sub := fun fd hfd => by simp [hempty] at hfd
      all := fun fd hfd c hc => ?_
      announced := fun _ fd hfd => by simp [hempty] at hfd
      count := ?_
      pipe := fun h => by rw [hrun] at h; cases h
      registered := fun fd hfd => ?_
      pending := fun e he => by simp [hpending] at he
      hand := by cases pc' <;> trivial }
  · rw [hfile] at hc
    exact .inl ((h.all fd (hopen hfd) c hc).resolve_right (by simp [harriving]))
  · rw [h.count, hfile]
  · rw [hfile]
    exact h.registered fd (hreg hfd)

/-- `closeSockets` closes the set.  The counter is left alone, so it has to be zero. -/
theorem AccInv.closeConns {k : Kernel} {trace : List Callback} {incoming : Finset ℕ}
    {active : ℤ} (h : AccInv cfg .leaving k trace incoming active)
    (hnone : ∀ fd ∈ incoming, told k.file trace fd = false) :
    AccInv cfg .closedConns (k.close incoming) trace ∅ active := by
  refine
    { outside := fun _ => rfl
      sub := fun fd hfd => by simp at hfd
      all := fun fd hfd c hc => ?_
      announced := fun _ fd hfd => by simp at hfd
      count := ?_
      pipe := fun hrun => by cases hrun
      registered := fun fd hfd => h.registered fd (Finset.mem_sdiff.mp hfd).1
      pending := fun e he => by cases he
      hand := trivial }
  · obtain ⟨hopen, hnot⟩ := Finset.mem_sdiff.mp hfd
    have hin := (h.all fd hopen c hc).resolve_right (by simp [Pc.arriving])
    exact absurd hin hnot
  · rw [h.count, Finset.filter_false_of_mem]
    · simp
    · intro fd hfd
      simp [hnone fd hfd]

theorem AccInv.accept {rest : List Entry} {listenSock : Option ℕ} {k : Kernel}
    {trace : List Callback} {incoming : Finset ℕ} {active : ℤ} {fd : ℕ}
    (h : AccInv cfg (.accepting rest) k trace incoming active)
    (hsync : SyncInv cfg (.accepting rest) listenSock k trace) (hfd : fd ∉ k.openFds) :
    AccInv cfg (.inserting fd k.nextConn rest) (k.accept fd) trace incoming active := by
  have hkeep : ∀ fd' ∈ k.openFds, (k.accept fd).file fd' = k.file fd' :=
    fun fd' => Kernel.accept_file_of_open hfd
  have hall : ∀ fd' ∈ incoming, told k.file trace fd' = true := h.told_of_mem rfl (by simp)
  have hall' : ∀ fd' ∈ incoming, told (k.accept fd).file trace fd' = true :=
    fun fd' hfd' => (told_congr (hkeep fd' (h.sub fd' hfd').1)).trans (hall fd' hfd')
  obtain ⟨hopen, hpipe⟩ := h.pipe rfl
  refine
    { outside := fun hout => by cases hout
      sub := fun fd' hfd' => ?_
      all := fun fd' hfd' c hc => ?_
      announced := fun _ fd' hfd' => .inl (hall' fd' hfd')
      count := ?_
      pipe := fun _ => ⟨Finset.mem_insert_of_mem hopen, (hkeep _ hopen).trans hpipe⟩
      registered := fun fd' hfd' => ?_
      pending := h.pending
      hand := trivial }
  · obtain ⟨hopen, c, hc⟩ := h.sub fd' hfd'
    exact ⟨Finset.mem_insert_of_mem hopen, c, (hkeep fd' hopen).trans hc⟩
  · rcases Kernel.accept_file_eq_conn hc with ⟨rfl, rfl⟩ | ⟨hne, hc⟩
    · exact .inr rfl
    · have hopen := Finset.mem_of_mem_insert_of_ne hfd' hne
      exact .inl ((h.all fd' hopen c hc).resolve_right (by simp [Pc.arriving]))
  · rw [h.count, Finset.filter_true_of_mem hall, Finset.filter_true_of_mem hall']
  · have hopen := (hsync.registered fd' hfd').1
    rcases h.registered fd' hfd' with h' | h' | ⟨c, hc⟩
    · exact .inl h'
    · exact .inr (.inl h')
    · exact .inr (.inr ⟨c, (hkeep fd' hopen).trans hc⟩)

/-- The set grows by a connection that has not been announced, so the counter may
stay. -/
theorem AccInv.insert {fd c : ℕ} {rest : List Entry} {listenSock : Option ℕ} {k : Kernel}
    {trace : List Callback} {incoming : Finset ℕ} {active : ℤ}
    (h : AccInv cfg (.inserting fd c rest) k trace incoming active)
    (hsync : SyncInv cfg (.inserting fd c rest) listenSock k trace) :
    AccInv cfg (.adding fd c rest) k trace (Insert.insert fd incoming) active := by
  obtain ⟨hopen, hfile, hjobs⟩ := hsync.current
  have hall : ∀ fd' ∈ incoming, told k.file trace fd' = true := h.told_of_mem rfl (by simp)
  refine
    { h with
      outside := fun hout => by cases hout
      sub := fun fd' hfd' => ?_
      all := fun fd' hfd' c' hc' => .inl ?_
      announced := fun _ fd' hfd' => ?_
      count := ?_
      pipe := fun _ => h.pipe rfl
      hand := trivial }
  · rcases Finset.mem_insert.mp hfd' with rfl | hfd'
    · exact ⟨hopen, c, hfile⟩
    · exact h.sub fd' hfd'
  · rcases h.all fd' hfd' c' hc' with hin | harr
    · exact Finset.mem_insert_of_mem hin
    · cases harr
      exact Finset.mem_insert_self _ _
  · rcases Finset.mem_insert.mp hfd' with rfl | hfd'
    · exact .inr ⟨c, rest, rfl⟩
    · exact .inl (hall fd' hfd')
  · rw [h.count, Finset.filter_insert, told_eq_false hfile hjobs]
    simp

/-- The connection that was in the set and not in the counter is announced and
counted. -/
theorem AccInv.registeredConn {fd c : ℕ} {rest : List Entry} {listenSock : Option ℕ}
    {k : Kernel} {trace : List Callback} {incoming : Finset ℕ} {active : ℤ}
    (h : AccInv cfg (.adding fd c rest) k trace incoming active)
    (hsync : SyncInv cfg (.adding fd c rest) listenSock k trace) :
    AccInv cfg (.calling ⟨fd, .newSocket, 0, .conn c⟩ false rest) (k.add fd)
      (trace ++ [⟨fd, .newSocket, 0, .conn c⟩]) incoming (active + 1) := by
  obtain ⟨hopen, hfile, hjobs⟩ := hsync.current
  have hin : fd ∈ incoming := (h.all fd hopen c hfile).resolve_right (by simp [Pc.arriving])
  have hothers : ∀ fd' ∈ incoming, fd' ≠ fd → told k.file trace fd' = true := by
    intro fd' hfd' hne
    refine (h.announced rfl fd' hfd').resolve_right ?_
    rintro ⟨c', rest', heq⟩
    cases heq
    exact hne rfl
  have hall : ∀ fd' ∈ incoming, told (k.add fd).file
      (trace ++ [⟨fd, .newSocket, 0, .conn c⟩]) fd' = true := by
    intro fd' hfd'
    by_cases hne : fd' = fd
    · subst hne
      simp [told, Kernel.add, hfile, jobs_concat_of_eq]
    · exact told_concat (hothers fd' hfd' hne)
  refine
    { outside := fun hout => by cases hout
      sub := h.sub
      all := fun fd' hfd' c' hc' => .inl ((h.all fd' hfd' c' hc').resolve_right ?_)
      announced := fun _ fd' hfd' => .inl (hall fd' hfd')
      count := ?_
      pipe := fun _ => h.pipe rfl
      registered := fun fd' hfd' => ?_
      pending := h.pending
      hand := fun hjob => by cases hjob }
  · simp [Pc.arriving]
  · have hbefore : (incoming.filter fun fd' => told k.file trace fd' = true) =
        incoming.erase fd := by
      ext fd'
      rw [Finset.mem_filter, Finset.mem_erase]
      constructor
      · rintro ⟨hfd', htold⟩
        refine ⟨?_, hfd'⟩
        rintro rfl
        rw [told_eq_false hfile hjobs] at htold
        cases htold
      · rintro ⟨hne, hfd'⟩
        exact ⟨hfd', hothers fd' hfd' hne⟩
    have hpos : 0 < incoming.card := Finset.card_pos.mpr ⟨fd, hin⟩
    have hcount := h.count
    rw [hbefore, Finset.card_erase_of_mem hin] at hcount
    rw [Finset.filter_true_of_mem hall]
    omega
  · rcases Finset.mem_insert.mp hfd' with rfl | hfd'
    · exact .inr (.inr ⟨c, hfile⟩)
    · exact h.registered fd' hfd'

/-- The `epoll` descriptor is created, and the pipe and the listening socket are registered. -/
theorem AccInv.prepare {k : Kernel} {trace : List Callback} {incoming : Finset ℕ} {active : ℤ}
    (h : AccInv cfg .starting k trace incoming active) :
    AccInv cfg .announcing (k.watch cfg.epollFd cfg.pipeFd cfg.listenSock) trace ∅ active := by
  have hempty : incoming = ∅ := h.outside rfl
  obtain ⟨hopen, hfile⟩ := h.pipe rfl
  have hconn : ∀ fd ∈ k.openFds, ∀ c, k.file fd ≠ some (.conn c) := by
    intro fd hfd c hc
    rcases h.all fd hfd c hc with hin | harr
    · simp [hempty] at hin
    · simp [Pc.arriving] at harr
  refine
    { outside := fun _ => rfl
      sub := fun fd hfd => by simp at hfd
      all := fun fd hfd c hc => ?_
      announced := fun _ fd hfd => by simp at hfd
      count := by rw [h.count, hempty]; rfl
      pipe := fun _ => ⟨Finset.mem_insert_of_mem hopen, ?_⟩
      registered := fun fd hfd => ?_
      pending := fun e he => by cases he
      hand := trivial }
  · obtain ⟨hne, hc⟩ := Kernel.watch_file_eq_conn hc
    exact absurd hc (hconn fd (Finset.mem_of_mem_insert_of_ne hfd hne) c)
  · exact (k.watch_file_of_ne cfg.epollFd_ne_pipeFd.symm).trans hfile
  · rcases Finset.mem_insert.mp hfd with hfd | hfd
    · exact .inr (.inl hfd)
    · exact .inl (Finset.mem_singleton.mp hfd)

/-- What the environment keeps to: the callback is synchronous and the pipe is only
ever readable. -/
def Tame (s : State) (a : Act) : Prop := Sync s a ∧ PipeReadable s a

theorem Kept.step {s s' : State} {a : Act} (h : Kept cfg s) (htame : Tame s a)
    (hnone : NoneLeft s a) (hs : Listen.step cfg s a = some s') : Kept cfg s' := by
  refine ⟨h.1.step htame.1 hs, ?_⟩
  obtain ⟨hsync, h⟩ := h
  cases Step.of_step hs with
  | moves hm => exact h.moves hsync hm
  | prepared hpc =>
    rw [hpc] at h
    exact h.prepare
  | notPrepared hpc =>
    have hempty : s.incoming = ∅ := h.outside (by rw [hpc]; rfl)
    have hleft : AccInv cfg .leaving s.kernel s.trace s.incoming s.activeConnections :=
      h.leave (by rw [hpc]; rfl) (by rw [hpc]; rfl) rfl rfl (Finset.Subset.refl _)
        (Finset.Subset.refl _)
    rw [hempty] at hleft
    exact hleft
  | announce hpc =>
    rw [hpc] at h
    exact
      { h with
        outside := fun hout => by cases hout
        announced := fun _ fd hfd => .inl (h.told_of_mem rfl (by simp) fd hfd)
        pipe := fun _ => h.pipe rfl
        hand := trivial }
  | @wait l hpc hl =>
    have hreadable : ∀ e ∈ l, e.file = .pipe → e.events = EPOLLIN := htame.2
    rw [hpc] at h
    refine
      { h with
        outside := fun hout => by cases hout
        announced := fun _ fd hfd => .inl (h.told_of_mem rfl (by simp) fd hfd)
        pipe := fun _ => h.pipe rfl
        pending := fun e he hne hbits => ?_
        hand := trivial }
    obtain ⟨hreg, -, hfile, -⟩ := hl.2.2 e he
    rcases h.registered e.fd hreg with hlisten | hpipe | ⟨c, hc⟩
    · exact absurd hlisten hne
    · -- the pipe is readable and nothing else
      rw [hpipe, (h.pipe rfl).2, Option.some_inj] at hfile
      rw [hreadable e he hfile.symm] at hbits
      exact absurd hbits (by decide)
    · rw [hfile, Option.some_inj] at hc
      exact ⟨c, hc⟩
  | @callback e rest job hpc hne hbranch =>
    rw [hpc] at h hsync
    obtain ⟨hopen, -, hfile, -⟩ := hsync.pending e (List.mem_cons_self ..)
    have hlisten : e.fd ≠ cfg.listenSock := fun heq => hne (heq ▸ (hsync.listener rfl).1)
    refine h.call rfl (by simp) rfl (List.suffix_cons ..) ?_
    rintro rfl
    obtain ⟨c, hc⟩ := h.pending e (List.mem_cons_self ..) hlisten (hungUp_of_closeSocket hbranch)
    exact (h.all e.fd hopen c (hc ▸ hfile)).resolve_right (by simp [Pc.arriving])
  | accept hpc hfd =>
    rw [hpc] at h hsync
    exact h.accept hsync hfd
  | insert hpc =>
    rw [hpc] at h hsync
    exact h.insert hsync
  | registered hpc _ =>
    rw [hpc] at h hsync
    exact h.registeredConn hsync
  | @smartClose e rest hpc =>
    rw [hpc] at h
    have hclosed : AccInv cfg (.batch rest) (s.kernel.close {e.fd}) s.trace
        (s.incoming.erase e.fd) (s.activeConnections - 1) :=
      h.close h.hand rfl (by simp) rfl rfl (List.suffix_cons ..) trivial
    exact hclosed.call rfl (by simp) rfl (List.suffix_refl _) fun hjob => by cases hjob
  | @answer cb rest hpc =>
    have hjob : cb.job = .closeSocket := by
      have howes : s.pc.owes ≠ none := htame.1
      by_contra hjob
      simp [hpc, Pc.owes, hjob] at howes
    rw [hpc] at h
    exact h.close (h.hand hjob) rfl (by simp) rfl rfl (List.suffix_refl _) trivial
  | closeConns hpc =>
    rw [hpc] at h
    exact h.closeConns hnone
  | closeEpoll hpc =>
    exact h.leave (by rw [hpc]; rfl) (by rw [hpc]; rfl) rfl rfl Finset.sdiff_subset
      (Finset.empty_subset _)
  | closeListen hpc =>
    exact h.leave (by rw [hpc]; rfl) (by rw [hpc]; rfl) rfl rfl Finset.sdiff_subset
      Finset.sdiff_subset
  | quit hpc =>
    exact h.leave (by rw [hpc]; rfl) (by rw [hpc]; rfl) rfl rfl (Finset.Subset.refl _)
      (Finset.Subset.refl _)
  | close => exact htame.1.elim
  | removeFromEpoll fd =>
    exact { h with registered := fun fd' hfd' => h.registered fd' (Finset.mem_of_mem_erase hfd') }
  | io | terminate | peerSend | peerShutdown => exact h

/-! ## The counter after `listen` -/

/-- `closeSockets` has left a counter that is not zero. -/
def Miscounted (s : State) : Prop :=
  s.pc.outside = true ∧ s.pc.running = false ∧ s.activeConnections ≠ 0

theorem miscounted_step {s s' : State} {a : Act} (h : Miscounted s) (htame : Tame s a)
    (hs : step cfg s a = some s') : Miscounted s' := by
  obtain ⟨hout, hrun, hcount⟩ := h
  cases Step.of_step hs with
  | moves hm =>
    rw [hm.running.1] at hrun
    cases hrun
  | closeEpoll | closeListen | quit => exact ⟨rfl, rfl, hcount⟩
  | close => exact htame.1.elim
  | removeFromEpoll | io | terminate | peerSend | peerShutdown => exact ⟨hout, hrun, hcount⟩
  | closeConns hpc =>
    rw [hpc] at hout
    cases hout
  | prepared hpc | notPrepared hpc | announce hpc | wait hpc _ | callback hpc _ _ | accept hpc _
  | insert hpc | registered hpc _ | smartClose hpc | answer hpc =>
    rw [hpc] at hrun
    cases hrun

/-- A counted connection is left for `closeSockets`. -/
theorem miscounted_of_not_noneLeft {s s' : State} {a : Act} (h : Kept cfg s)
    (hnone : ¬ NoneLeft s a) (hs : step cfg s a = some s') : Miscounted s' := by
  cases a with
  | closeConns =>
    simp only [NoneLeft, not_forall] at hnone
    obtain ⟨fd, hfd, htold⟩ := hnone
    rw [Bool.not_eq_false] at htold
    have hpos : 0 < (s.incoming.filter fun fd => told s.kernel.file s.trace fd = true).card :=
      Finset.card_pos.mpr ⟨fd, Finset.mem_filter.mpr ⟨hfd, htold⟩⟩
    have hcount := h.2.count
    cases Step.of_step hs with
    | moves hm => cases hm
    | closeConns hpc =>
      refine ⟨rfl, rfl, ?_⟩
      show s.activeConnections ≠ 0
      omega
  | _ => exact absurd trivial hnone

/-- **When the counter is right.**  With a synchronous callback, the counter, the set
and the number of open connections agree whenever `listen` is between two events and
after it has returned, if `closeSockets` finds no announced connection open; and in a
run of `listen` to its return they do only if it finds none. -/
theorem accounted_iff_noneLeft (cfg : Setup) (acts : List Act) (s : State)
    (hsync : Guarded (step cfg) Sync (init cfg) acts)
    (hpipe : Guarded (step cfg) PipeReadable (init cfg) acts)
    (hrun : run (step cfg) (init cfg) acts = some s) :
    (Guarded (step cfg) NoneLeft (init cfg) acts →
        Always (step cfg) Accounted (init cfg) acts) ∧
      (s.pc = .left → Always (step cfg) Accounted (init cfg) acts →
        Guarded (step cfg) NoneLeft (init cfg) acts) := by
  have htame : Guarded (step cfg) Tame (init cfg) acts := hsync.and hpipe
  constructor
  · intro hnone
    have hkept : Always (step cfg) (Kept cfg) (init cfg) acts :=
      always_of_guarded (fun s a s' h hg hs => h.step hg.1 hg.2 hs) kept_init (htame.and hnone)
    exact hkept.mono fun s h => h.accounted
  · intro hleft halways
    have hzero : s.activeConnections = 0 :=
      (halways.of_run hrun (by rw [hleft]; rfl)).2.2 hleft
    refine guarded_of_not_bad (fun s a s' h hK hG hs => h.step hK hG hs)
      (fun s a s' h _ hG hs => miscounted_of_not_noneLeft h hG hs)
      (fun s a s' h hK hs => miscounted_step h hK hs) kept_init htame hrun ?_
    exact fun hbad => hbad.2.2 hzero

/-- One connection is accepted; `rest` follows. -/
def acceptThen (rest : List Act) : List Act :=
  ([.prepare true, .announce, .test, .wait (.batch [⟨3, EPOLLIN, .listener⟩]), .check, .next,
    .accept4 (.conn 7 0 false), .insert, .epollAdd true, .ret, .next, .test] : List Act) ++ rest

/-- The peer hangs up before `terminate` is called, and everything agrees. -/
theorem accounted_hang_up_before_terminate :
    let cfg : Setup := ⟨3, 5, 4, false, by decide, by decide, by decide⟩
    let acts := acceptThen [.wait (.batch [⟨7, EPOLLRDHUP, .conn 0⟩]), .check, .next, .answer,
      .ret, .next, .test, .terminate 0, .terminate 0, .terminate 0,
      .wait (.batch [⟨4, EPOLLIN, .pipe⟩]), .check, .closeConns, .closeEpoll, .closeListen, .quit]
    (∃ s, run (step cfg) (init cfg) acts = some s ∧ s.pc = .left) ∧
      Always (step cfg) Accounted (init cfg) acts := by
  intro cfg acts
  have hpipe : Guarded (step cfg) PipeReadable (init cfg) acts :=
    guarded_of_labels (by simp [acts, acceptThen, PipeReadable]) _
  have h := accounted_iff_noneLeft cfg acts _ (by decide) hpipe rfl
  exact ⟨⟨_, rfl, by decide⟩, h.1 (by decide)⟩

/-- `terminate` is called while a connection is open.  After `listen` has returned the
set is empty and no connection is open, but one is reported. -/
theorem miscounted_after_terminate :
    let cfg : Setup := ⟨3, 5, 4, false, by decide, by decide, by decide⟩
    let acts := acceptThen [.terminate 0, .terminate 0, .terminate 0,
      .wait (.batch [⟨4, EPOLLIN, .pipe⟩]), .check, .closeConns, .closeEpoll, .closeListen, .quit]
    Guarded (step cfg) Sync (init cfg) acts ∧
      ∃ s, run (step cfg) (init cfg) acts = some s ∧ s.pc = .left ∧ s.incoming = ∅ ∧
        s.kernel.openConns = ∅ ∧ s.activeConnections = 1 ∧ ¬ Accounted s := by
  refine ⟨by decide, _, rfl, by decide, by decide, by decide, by decide, fun h => ?_⟩
  exact absurd ((h (by decide)).2.2 (by decide)) (by decide)

end Listen

end Nbuss
