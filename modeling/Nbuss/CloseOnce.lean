import Nbuss.Listen

/-!
# Closing every accepted descriptor once

Two functions pass descriptors to `::close`: `IGenericServer::close`, called by whoever
was told to close a descriptor and by `listen` itself, and the loop of `closeSockets`.
They share a mutex and a set, but `close` does not ask the set whether the number is in
it.  So that every accepted descriptor is closed once depends on every `CLOSE_SOCKET`
being the only one of its connection that is waiting for an answer.

The kernel gives no such guarantee: a connection that is shut down and then reset is
reported twice, and its second `CLOSE_SOCKET` may be handed out before the first is
answered.  Nor does the end of `listen`: an answer that comes after `closeSockets`
closes a number that the server no longer owns.  The two places where this starts are
the guard `OneAtATime`.
-/

namespace Nbuss

namespace Listen

open Transition

variable {cfg : Setup}

/-- The event in the hands of a callback that has not called `close`. -/
def Pc.told : Pc → Option Callback
  | .calling cb false _ => some cb
  | _ => none

/-- Every call of `close` is the answer to a `CLOSE_SOCKET`, early or late. -/
def Answers (s : State) : Act → Prop
  | .close fd => 0 < s.unanswered fd
  | .answer => ∀ cb ∈ s.pc.told, 0 < s.unanswered cb.fd
  | _ => True

/-- A hang-up or an error is looked at only for a descriptor of the set for which no
`CLOSE_SOCKET` is waiting, and `closeSockets` begins only when none is waiting for a
descriptor of the set. -/
def OneAtATime (s : State) : Act → Prop
  | .next => ∀ e ∈ s.pc.upNext, s.listenSock ≠ some e.fd →
      hungUp e.events = true ∨ has e.events EPOLLERR = true →
      e.fd ∈ s.incoming ∧ s.unanswered e.fd = 0
  | .closeConns => ∀ fd ∈ s.incoming, s.unanswered fd = 0
  | _ => True

instance (s : State) : ∀ a, Decidable (Answers s a)
  | .close fd => inferInstanceAs (Decidable (0 < s.unanswered fd))
  | .answer => inferInstanceAs (Decidable (∀ cb ∈ s.pc.told, 0 < s.unanswered cb.fd))
  | .prepare _ | .announce | .test | .wait _ | .check | .next | .accept4 _ | .insert
  | .epollAdd _ | .smartClose | .ret | .closeConns | .closeEpoll | .closeListen | .quit
  | .removeFromEpoll _ | .io _ _ | .terminate _ | .peerSend _ _ | .peerShutdown _ =>
    inferInstanceAs (Decidable True)

instance (s : State) : ∀ a, Decidable (OneAtATime s a)
  | .next => inferInstanceAs (Decidable (∀ e ∈ s.pc.upNext, s.listenSock ≠ some e.fd →
      hungUp e.events = true ∨ has e.events EPOLLERR = true →
      e.fd ∈ s.incoming ∧ s.unanswered e.fd = 0))
  | .closeConns => inferInstanceAs (Decidable (∀ fd ∈ s.incoming, s.unanswered fd = 0))
  | .prepare _ | .announce | .test | .wait _ | .check | .accept4 _ | .insert | .epollAdd _
  | .smartClose | .answer | .ret | .closeEpoll | .closeListen | .quit | .close _
  | .removeFromEpoll _ | .io _ _ | .terminate _ | .peerSend _ _ | .peerShutdown _ =>
    inferInstanceAs (Decidable True)

/-- No `::close` outside the set, none twice, and one for each connection once `listen`
has been left. -/
def ClosedOnce (s : State) : Prop :=
  s.strayCloses = 0 ∧ (∀ c, s.timesClosed c ≤ 1) ∧
    (s.pc = .left → ∀ c < s.kernel.nextConn, s.timesClosed c = 1)

/-- Where the connections are.  A connection is closed, or it is in the set, or
`accept4` has just returned it. -/
structure Books (pc : Pc) (k : Kernel) (incoming : Finset ℕ) (timesClosed : ℕ → ℕ)
    (unanswered : ℕ → ℕ) : Prop where
  wf : k.Wf
  outside : pc.outside = true → incoming = ∅
  held : ∀ fd ∈ incoming, fd ∈ k.openFds ∧ ∃ c, k.file fd = some (.conn c) ∧ timesClosed c = 0
  arriving : ∀ fd c, pc.arriving = some (fd, c) →
    fd ∈ k.openFds ∧ k.file fd = some (.conn c) ∧ timesClosed c = 0 ∧ fd ∉ incoming
  closing : ∀ e, pc.closing = some e → e.fd ∈ incoming ∧ unanswered e.fd = 0
  waiting : ∀ fd, unanswered fd ≤ 1 ∧ (0 < unanswered fd → fd ∈ incoming)
  each : ∀ c < k.nextConn, timesClosed c = 1 ∨ timesClosed c = 0 ∧
    ∃ fd, k.file fd = some (.conn c) ∧ (fd ∈ incoming ∨ pc.arriving = some (fd, c))
  unborn : ∀ c, k.nextConn ≤ c → timesClosed c = 0

/-- The parts of the state that `Books` is about. -/
def Booked (s : State) : Prop :=
  Books s.pc s.kernel s.incoming s.timesClosed s.unanswered ∧ s.strayCloses = 0

theorem Booked.closedOnce {s : State} (h : Booked s) : ClosedOnce s := by
  obtain ⟨hbooks, hstray⟩ := h
  refine ⟨hstray, fun c => ?_, fun hpc c hc => ?_⟩
  · by_cases hc : c < s.kernel.nextConn
    · rcases hbooks.each c hc with h1 | ⟨h0, -⟩ <;> omega
    · have h0 := hbooks.unborn c (by omega)
      omega
  · rcases hbooks.each c hc with h1 | ⟨-, fd, -, hfd | hfd⟩
    · exact h1
    · rw [hbooks.outside (by rw [hpc]; rfl)] at hfd
      simp at hfd
    · rw [hpc] at hfd
      cases hfd

theorem booked_init : Booked (init cfg) := by
  refine ⟨⟨wf_init cfg, fun _ => rfl, ?_, ?_, ?_, ?_, ?_, fun _ _ => rfl⟩, rfl⟩
  · intro fd hfd
    simp [init] at hfd
  · intro fd c h
    cases h
  · intro e h
    cases h
  · intro fd
    exact ⟨Nat.zero_le 1, fun h => absurd h (lt_irrefl 0)⟩
  · intro c hc
    exact absurd hc (Nat.not_lt_zero c)

/-! ## Closing -/

/-- Of a set of descriptors that stand for connections, at most one stands for `c`. -/
theorem Kernel.Wf.held_eq {k : Kernel} (h : k.Wf) {fds : Finset ℕ} {fd c : ℕ}
    (hfd : fd ∈ fds) (hfile : k.file fd = some (.conn c)) : k.held fds c = 1 := by
  rw [Kernel.held, Finset.card_eq_one]
  refine ⟨fd, Finset.ext fun fd' => ?_⟩
  rw [Finset.mem_filter, Finset.mem_singleton]
  constructor
  · rintro ⟨-, hfile'⟩
    exact h.inj fd' fd c hfile' hfile
  · rintro rfl
    exact ⟨hfd, hfile⟩

theorem Kernel.held_eq_zero {k : Kernel} {fds : Finset ℕ} {c : ℕ}
    (h : ∀ fd ∈ fds, k.file fd ≠ some (.conn c)) : k.held fds c = 0 := by
  rw [Kernel.held, Finset.card_eq_zero, Finset.filter_eq_empty_iff]
  exact h

/-- The descriptors of `fds`, all of them in the set, are closed. -/
theorem Books.close {pc pc' : Pc} {k : Kernel} {incoming fds : Finset ℕ}
    {timesClosed unanswered unanswered' : ℕ → ℕ}
    (h : Books pc k incoming timesClosed unanswered) (hfds : fds ⊆ incoming)
    (houtside : pc'.outside = true → incoming \ fds = ∅)
    (harriving : pc'.arriving = pc.arriving) (hclosing : ∀ e, pc'.closing = some e →
      e.fd ∈ incoming \ fds ∧ unanswered' e.fd = 0)
    (hwaiting : ∀ fd, unanswered' fd ≤ 1 ∧ (0 < unanswered' fd → fd ∈ incoming \ fds)) :
    Books pc' (k.close fds) (incoming \ fds) (fun c => timesClosed c + k.held fds c)
      unanswered' := by
  -- a connection whose descriptor stays in the set is not among those closed
  have hother : ∀ fd c, fd ∉ fds → k.file fd = some (.conn c) → k.held fds c = 0 := by
    intro fd c hfd hfile
    refine Kernel.held_eq_zero fun fd' hfd' hfile' => ?_
    rw [h.wf.inj fd' fd c hfile' hfile] at hfd'
    exact hfd hfd'
  refine ⟨h.wf.of_file rfl fun _ _ hc => hc, houtside, ?_, ?_, hclosing, hwaiting, ?_, ?_⟩
  · intro fd hfd
    obtain ⟨hin, hout⟩ := Finset.mem_sdiff.mp hfd
    obtain ⟨hopen, c, hfile, h0⟩ := h.held fd hin
    refine ⟨Finset.mem_sdiff.mpr ⟨hopen, hout⟩, c, hfile, ?_⟩
    simp only [h0, hother fd c hout hfile]
  · intro fd c hpc
    rw [harriving] at hpc
    obtain ⟨hopen, hfile, h0, hout⟩ := h.arriving fd c hpc
    have hnot : fd ∉ fds := fun hin => hout (hfds hin)
    refine ⟨Finset.mem_sdiff.mpr ⟨hopen, hnot⟩, hfile, ?_, fun hin => ?_⟩
    · simp only [h0, hother fd c hnot hfile]
    · exact hout (Finset.mem_sdiff.mp hin).1
  · intro c hc
    rcases h.each c hc with h1 | ⟨h0, fd, hfile, hfd⟩
    · -- closed before: no descriptor of the set stands for it
      refine .inl ?_
      have hzero : k.held fds c = 0 := by
        refine Kernel.held_eq_zero fun fd' hfd' hfile' => ?_
        obtain ⟨-, c', hfile'', h0⟩ := h.held fd' (hfds hfd')
        rw [hfile', Option.some_inj, File.conn.injEq] at hfile''
        subst hfile''
        omega
      simp only [h1, hzero]
    · by_cases hin : fd ∈ fds
      · refine .inl ?_
        simp only [h0, h.wf.held_eq hin hfile]
      · refine .inr ⟨?_, fd, hfile, ?_⟩
        · simp only [h0, hother fd c hin hfile]
        · rw [harriving]
          exact hfd.imp_left fun hfd => Finset.mem_sdiff.mpr ⟨hfd, hin⟩
  · intro c hc
    have hzero : k.held fds c = 0 := by
      refine Kernel.held_eq_zero fun fd _ hfile => ?_
      have hlt := h.wf.numbered fd c hfile
      have hle : k.nextConn ≤ c := hc
      omega
    simp only [h.unborn c hc, hzero]

/-- A single descriptor of the set is closed. -/
theorem Books.closeOne {pc pc' : Pc} {k : Kernel} {incoming : Finset ℕ} {fd : ℕ}
    {timesClosed unanswered unanswered' : ℕ → ℕ}
    (h : Books pc k incoming timesClosed unanswered) (hin : fd ∈ incoming)
    (hinside : pc'.outside = true → incoming.erase fd = ∅)
    (harriving : pc'.arriving = pc.arriving) (hclosing : ∀ e, pc'.closing = some e →
      e.fd ∈ incoming.erase fd ∧ unanswered' e.fd = 0)
    (hwaiting : ∀ fd', unanswered' fd' ≤ 1 ∧ (0 < unanswered' fd' → fd' ∈ incoming.erase fd)) :
    Books pc' (k.close {fd}) (incoming.erase fd) (fun c => timesClosed c + k.held {fd} c)
      unanswered' := by
  rw [← Finset.sdiff_singleton_eq_erase] at *
  exact h.close (Finset.singleton_subset_iff.mpr hin) hinside harriving hclosing hwaiting

/-! ## The other steps -/

/-- The listening thread goes somewhere else, and the descriptors of the set stay what
they are. -/
theorem Books.relocate {pc pc' : Pc} {k k' : Kernel} {incoming : Finset ℕ}
    {timesClosed unanswered : ℕ → ℕ} (h : Books pc k incoming timesClosed unanswered)
    (harriving : pc.arriving = none) (harriving' : pc'.arriving = none)
    (houtside : pc'.outside = true → incoming = ∅)
    (hclosing : ∀ e, pc'.closing = some e → e.fd ∈ incoming ∧ unanswered e.fd = 0)
    (hwf : k'.Wf) (hnext : k'.nextConn = k.nextConn)
    (hkeep : ∀ fd ∈ incoming, k'.file fd = k.file fd ∧ (fd ∈ k.openFds → fd ∈ k'.openFds)) :
    Books pc' k' incoming timesClosed unanswered := by
  refine ⟨hwf, houtside, ?_, ?_, hclosing, h.waiting, ?_, fun c hc => h.unborn c (hnext ▸ hc)⟩
  · intro fd hfd
    obtain ⟨hopen, c, hfile, h0⟩ := h.held fd hfd
    obtain ⟨hsame, hstay⟩ := hkeep fd hfd
    exact ⟨hstay hopen, c, hsame.trans hfile, h0⟩
  · intro fd c hpc
    rw [harriving'] at hpc
    cases hpc
  · intro c hc
    rcases h.each c (hnext ▸ hc) with h1 | ⟨h0, fd, hfile, hfd | hfd⟩
    · exact .inl h1
    · exact .inr ⟨h0, fd, (hkeep fd hfd).1.trans hfile, .inl hfd⟩
    · rw [harriving] at hfd
      cases hfd

/-- The listening thread goes on inside its loop, and is not about to close anything. -/
theorem Books.goOn {pc pc' : Pc} {k k' : Kernel} {incoming : Finset ℕ}
    {timesClosed unanswered : ℕ → ℕ} (h : Books pc k incoming timesClosed unanswered)
    (harriving : pc.arriving = none) (harriving' : pc'.arriving = none)
    (hinside : pc'.outside = false) (hclosing : pc'.closing = none)
    (hwf : k'.Wf) (hnext : k'.nextConn = k.nextConn)
    (hkeep : ∀ fd ∈ incoming, k'.file fd = k.file fd ∧ (fd ∈ k.openFds → fd ∈ k'.openFds)) :
    Books pc' k' incoming timesClosed unanswered := by
  refine h.relocate harriving harriving' (fun hout => ?_) (fun e he => ?_) hwf hnext hkeep
  · rw [hinside] at hout
    cases hout
  · rw [hclosing] at he
    cases he

/-- A connection arrives, under a number that is not open. -/
theorem Books.accept {pc : Pc} {k : Kernel} {incoming : Finset ℕ} {timesClosed unanswered : ℕ → ℕ}
    {fd : ℕ} {rest : List Entry} (h : Books pc k incoming timesClosed unanswered)
    (harriving : pc.arriving = none) (hfd : fd ∉ k.openFds) (hwf : (k.accept fd).Wf) :
    Books (.inserting fd k.nextConn rest) (k.accept fd) incoming timesClosed unanswered := by
  have hkeep : ∀ fd' ∈ incoming, (k.accept fd).file fd' = k.file fd' :=
    fun fd' hfd' => Kernel.accept_file_of_open hfd (h.held fd' hfd').1
  have hfresh : fd ∉ incoming := fun hin => hfd (h.held fd hin).1
  have h0 : timesClosed k.nextConn = 0 := h.unborn _ (le_refl _)
  refine ⟨hwf, fun hout => (by cases hout), ?_, ?_, fun e he => (by cases he), h.waiting, ?_, ?_⟩
  · intro fd' hfd'
    obtain ⟨hopen, c, hfile, h0⟩ := h.held fd' hfd'
    exact ⟨Finset.mem_insert_of_mem hopen, c, (hkeep fd' hfd').trans hfile, h0⟩
  · intro fd' c hpc'
    cases hpc'
    exact ⟨Finset.mem_insert_self _ _, k.accept_file_self fd, h0, hfresh⟩
  · intro c hc
    by_cases hlast : c = k.nextConn
    · subst hlast
      exact .inr ⟨h0, fd, k.accept_file_self fd, .inr rfl⟩
    · have hlt : c < k.nextConn := by
        have hle : c < k.nextConn + 1 := hc
        omega
      rcases h.each c hlt with h1 | ⟨h0, fd', hfile, hfd' | hfd'⟩
      · exact .inl h1
      · exact .inr ⟨h0, fd', (hkeep fd' hfd').trans hfile, .inl hfd'⟩
      · rw [harriving] at hfd'
        cases hfd'
  · exact fun c hc => h.unborn c (Nat.le_of_succ_le hc)

/-- The connection that has arrived is put into the set. -/
theorem Books.insert {pc pc' : Pc} {k : Kernel} {incoming : Finset ℕ}
    {timesClosed unanswered : ℕ → ℕ} {fd c : ℕ}
    (h : Books pc k incoming timesClosed unanswered) (harriving : pc.arriving = some (fd, c))
    (harriving' : pc'.arriving = none) (hinside : pc'.outside = false)
    (hclosing : pc'.closing = none) :
    Books pc' k (Insert.insert fd incoming) timesClosed unanswered := by
  obtain ⟨hopen, hfile, h0, -⟩ := h.arriving fd c harriving
  refine ⟨h.wf, fun hout => ?_, ?_, fun _ _ he => ?_, fun e he => ?_, ?_, ?_, h.unborn⟩
  · rw [hinside] at hout
    cases hout
  · intro fd' hfd'
    rcases Finset.mem_insert.mp hfd' with rfl | hfd'
    · exact ⟨hopen, c, hfile, h0⟩
    · exact h.held fd' hfd'
  · rw [harriving'] at he
    cases he
  · rw [hclosing] at he
    cases he
  · intro fd'
    exact ⟨(h.waiting fd').1, fun hpos => Finset.mem_insert_of_mem ((h.waiting fd').2 hpos)⟩
  · intro c' hc'
    rcases h.each c' hc' with h1 | ⟨h0, fd', hfile', hfd' | hfd'⟩
    · exact .inl h1
    · exact .inr ⟨h0, fd', hfile', .inl (Finset.mem_insert_of_mem hfd')⟩
    · rw [harriving] at hfd'
      cases hfd'
      exact .inr ⟨h0, fd, hfile, .inl (Finset.mem_insert_self _ _)⟩

/-- A callback is made.  If it is `CLOSE_SOCKET`, its descriptor is in the set and no
other one is waiting for it. -/
theorem Books.call {k : Kernel} {incoming : Finset ℕ} {timesClosed unanswered : ℕ → ℕ}
    {cb : Callback} {rest : List Entry}
    (h : Books (.calling cb false rest) k incoming timesClosed unanswered)
    (hcb : cb.job = .closeSocket → cb.fd ∈ incoming ∧ unanswered cb.fd = 0) :
    Books (.calling cb false rest) k incoming timesClosed
      (if cb.job = .closeSocket then
        Function.update unanswered cb.fd (unanswered cb.fd + 1) else unanswered) := by
  split_ifs with hjob
  · obtain ⟨hin, h0⟩ := hcb hjob
    refine
      { h with
        closing := fun e he => by cases he
        waiting := fun fd => ?_ }
    by_cases hfd : fd = cb.fd
    · subst hfd
      simp [h0, hin]
    · rw [Function.update_of_ne hfd]
      exact h.waiting fd
  · exact h

/-- One answer fewer is waiting. -/
theorem Books.waiting_answered {pc : Pc} {k : Kernel} {incoming : Finset ℕ}
    {timesClosed unanswered : ℕ → ℕ} (h : Books pc k incoming timesClosed unanswered)
    (fd fd' : ℕ) :
    Function.update unanswered fd (unanswered fd - 1) fd' ≤ 1 ∧
      (0 < Function.update unanswered fd (unanswered fd - 1) fd' → fd' ∈ incoming.erase fd) := by
  obtain ⟨hle, hin⟩ := h.waiting fd'
  by_cases hfd : fd' = fd
  · subst hfd
    rw [Function.update_self]
    omega
  · rw [Function.update_of_ne hfd]
    exact ⟨hle, fun hpos => Finset.mem_erase.mpr ⟨hfd, hin hpos⟩⟩

/-- `IGenericServer::close` for a descriptor that is in the set. -/
theorem strayCloses_close {s : State} {fd : ℕ} (hfd : fd ∈ s.incoming) :
    (s.close fd).strayCloses = s.strayCloses := if_pos hfd

theorem Booked.step {s s' : State} {a : Act} (h : Booked s) (hanswers : Answers s a)
    (hone : OneAtATime s a) (hs : step cfg s a = some s') : Booked s' := by
  have hwf : s'.kernel.Wf := wf_step h.1.wf hs
  obtain ⟨h, hstray⟩ := h
  cases Step.of_step hs with
  | @moves _ pc hm =>
    obtain ⟨hfrom, hto, hinside⟩ := hm.arriving
    refine ⟨h.relocate hfrom hto ?_ ?_ hwf rfl fun fd _ => ⟨rfl, id⟩, hstray⟩
    · intro hout
      rw [hinside] at hout
      cases hout
    · intro e he
      cases hm
      case smart e' rest hpc hne hup _ _ =>
        cases he
        exact hone e (by rw [hpc]; rfl) hne (.inl hup)
      all_goals cases he
  | prepared hpc =>
    have hempty : s.incoming = ∅ := h.outside (by rw [hpc]; rfl)
    have hsame : Books .announcing _ s.incoming s.timesClosed s.unanswered :=
      h.goOn (by rw [hpc]; rfl) rfl rfl rfl hwf rfl fun fd hfd => by simp [hempty] at hfd
    rw [hempty] at hsame
    exact ⟨hsame, hstray⟩
  | notPrepared hpc =>
    have hempty : s.incoming = ∅ := h.outside (by rw [hpc]; rfl)
    have hsame : Books .leaving s.kernel s.incoming s.timesClosed s.unanswered :=
      h.goOn (by rw [hpc]; rfl) rfl rfl rfl hwf rfl fun fd _ => ⟨rfl, id⟩
    rw [hempty] at hsame
    exact ⟨hsame, hstray⟩
  | announce hpc | wait hpc _ =>
    exact ⟨h.goOn (by rw [hpc]; rfl) rfl rfl rfl hwf rfl fun fd _ => ⟨rfl, id⟩, hstray⟩
  | @callback e rest job hpc hne hbranch =>
    have hsame : Books (.calling ⟨e.fd, job, e.events, e.file⟩ false rest) s.kernel s.incoming
        s.timesClosed s.unanswered :=
      h.goOn (by rw [hpc]; rfl) rfl rfl rfl hwf rfl fun fd _ => ⟨rfl, id⟩
    refine ⟨hsame.call ?_, hstray⟩
    rintro rfl
    exact hone e (by rw [hpc]; rfl) hne (hungUp_of_closeSocket hbranch)
  | accept hpc hfd => exact ⟨h.accept (by rw [hpc]; rfl) hfd hwf, hstray⟩
  | insert hpc => exact ⟨h.insert (by rw [hpc]; rfl) rfl rfl rfl, hstray⟩
  | @registered fd c rest hpc _ =>
    have hsame : Books (.calling ⟨fd, .newSocket, 0, .conn c⟩ false rest) _ s.incoming
        s.timesClosed s.unanswered :=
      h.goOn (by rw [hpc]; rfl) rfl rfl rfl hwf rfl fun fd _ => ⟨rfl, id⟩
    exact ⟨hsame.call fun hjob => (by cases hjob), hstray⟩
  | @smartClose e rest hpc =>
    obtain ⟨hin, h0⟩ := h.closing e (by rw [hpc]; rfl)
    refine ⟨h.closeOne hin (fun hout => by cases hout) (by rw [hpc]; rfl) (fun e he => by cases he)
      fun fd => ⟨(h.waiting fd).1, fun hpos => ?_⟩, (strayCloses_close hin).trans hstray⟩
    refine Finset.mem_erase.mpr ⟨?_, (h.waiting fd).2 hpos⟩
    rintro rfl
    exact absurd h0 (Nat.pos_iff_ne_zero.mp hpos)
  | @answer cb rest hpc =>
    have hin : cb.fd ∈ s.incoming := (h.waiting cb.fd).2 (hanswers cb (by rw [hpc]; rfl))
    exact ⟨h.closeOne hin (fun hout => by cases hout) (by rw [hpc]; rfl) (fun e he => by cases he)
      (h.waiting_answered cb.fd), (strayCloses_close hin).trans hstray⟩
  | closeConns hpc =>
    have hclosed : Books .closedConns (s.kernel.close s.incoming) (s.incoming \ s.incoming)
        s.closeConns.timesClosed s.unanswered := by
      refine h.close (Finset.Subset.refl _) (fun _ => sdiff_self) (by rw [hpc]; rfl)
        (fun e he => by cases he) fun fd => ⟨(h.waiting fd).1, fun hpos => ?_⟩
      have h0 := hone fd ((h.waiting fd).2 hpos)
      omega
    rw [sdiff_self] at hclosed
    exact ⟨hclosed, hstray⟩
  | closeEpoll hpc | closeListen hpc | quit hpc =>
    have hempty : s.incoming = ∅ := h.outside (by rw [hpc]; rfl)
    exact ⟨h.relocate (by rw [hpc]; rfl) rfl (fun _ => hempty) (fun e he => by cases he) hwf rfl
      fun fd hfd => by simp [hempty] at hfd, hstray⟩
  | close fd =>
    have hin : fd ∈ s.incoming := (h.waiting fd).2 hanswers
    refine ⟨h.closeOne hin (fun hout => ?_) rfl (fun e he => ?_) (h.waiting_answered fd),
      (strayCloses_close hin).trans hstray⟩
    · rw [h.outside hout] at hin
      simp at hin
    · obtain ⟨hin', h0⟩ := h.closing e he
      have hne : e.fd ≠ fd := by
        rintro rfl
        exact absurd h0 (Nat.pos_iff_ne_zero.mp hanswers)
      exact ⟨Finset.mem_erase.mpr ⟨hne, hin'⟩, (Function.update_of_ne hne _ _).trans h0⟩
  | removeFromEpoll => exact ⟨{ h with wf := hwf }, hstray⟩
  | io | terminate | peerSend | peerShutdown => exact ⟨h, hstray⟩

/-- **When every accepted descriptor is closed once.**  Over every interleaving with
the threads that answer `CLOSE_SOCKET`: as long as a hang-up is looked at only for a
descriptor of the set with no answer outstanding, and `closeSockets` begins only with
no answer outstanding, every `::close` hits a number of the set, no connection is
closed twice, and all of them are closed when `listen` has been left. -/
theorem closedOnce_of_oneAtATime (cfg : Setup) (acts : List Act)
    (hanswers : Guarded (step cfg) Answers (init cfg) acts)
    (hone : Guarded (step cfg) OneAtATime (init cfg) acts) :
    Always (step cfg) ClosedOnce (init cfg) acts := by
  have hbooked : Always (step cfg) Booked (init cfg) acts :=
    always_of_guarded (fun s a s' h hg hs => h.step hg.1 hg.2 hs) booked_init (hanswers.and hone)
  exact hbooked.mono fun s h => h.closedOnce

/-- A connection is accepted under number 7 and its peer shuts down, which is handed
out; then comes whatever `rest` says. -/
def hangUpThen (rest : List Act) : List Act :=
  ([.prepare true, .announce, .test, .wait (.batch [⟨3, EPOLLIN, .listener⟩]), .check, .next,
    .accept4 (.conn 7 0 false), .insert, .epollAdd true, .ret, .next, .test,
    .wait (.batch [⟨7, EPOLLRDHUP, .conn 0⟩]), .check, .next, .ret, .next, .test] : List Act) ++
    rest

/-- The answer comes before `terminate`: the descriptor is closed by it, and not by
`closeSockets`. -/
theorem closedOnce_answered :
    let cfg : Setup := ⟨3, 5, 4, false, by decide, by decide, by decide⟩
    let acts := hangUpThen [.close 7, .terminate 0, .terminate 0, .terminate 0,
      .wait (.batch [⟨4, EPOLLIN, .pipe⟩]), .check, .closeConns, .closeEpoll, .closeListen, .quit]
    (∃ s, run (step cfg) (init cfg) acts = some s ∧ s.pc = .left ∧ s.timesClosed 0 = 1) ∧
      Always (step cfg) ClosedOnce (init cfg) acts := by
  exact ⟨⟨_, rfl, by decide, by decide⟩,
    closedOnce_of_oneAtATime _ _ (by decide) (by decide)⟩

/-- The connection is reset before the first answer comes.  It is handed out twice, so
`close(7)` is called twice, the second time for a number that is not in the set. -/
theorem closed_twice_after_two_hang_ups :
    let cfg : Setup := ⟨3, 5, 4, false, by decide, by decide, by decide⟩
    let acts := hangUpThen [.wait (.batch [⟨7, EPOLLHUP, .conn 0⟩]), .check, .next, .ret,
      .close 7, .close 7]
    Guarded (step cfg) Answers (init cfg) acts ∧
      ∃ s, run (step cfg) (init cfg) acts = some s ∧ s.timesClosed 0 = 2 ∧
        s.strayCloses = 1 ∧ ¬ ClosedOnce s := by
  refine ⟨by decide, _, rfl, by decide, by decide, fun h => ?_⟩
  exact absurd h.1 (by decide)

end Listen

end Nbuss
