import Nbuss.Listen

/-!
# Smart close

With `use_smart_close` the server closes a connection itself when its peer hangs up
before any I/O has been done on it, and hands out `CLOSE_SOCKET` otherwise.  What it
asks is `is_IO(fd)`, a flag of the descriptor number.  The flag is set by every call of
`read` and `write`, and the reset at `accept4` goes to `fd`, the number of the entry,
which is the listening socket's.  So the flag of a connection's number says whether
there has ever been a call on that number (`IoInv`), and the decision is right exactly
when that comes to the same.

The flag knows about calls of the server and nothing about the peer.  A peer that sends
and hangs up before the first call is treated as one that has never sent anything, and
its bytes are closed away with the connection.
-/

namespace Nbuss

namespace Listen

open Transition

variable {cfg : Setup}

/-! ## Flags and calls -/

/-- A call of `read` or `write` has been made on connection `c`. -/
def IoOn (s : State) (c : ℕ) : Prop := ∃ fd, (fd, some c) ∈ s.ioLog

/-- A call of `read` or `write` has been made on the number `fd`. -/
def IoNumber (s : State) (fd : ℕ) : Prop := ∃ o, (fd, o) ∈ s.ioLog

/-- What the flags remember. -/
structure IoInv (cfg : Setup) (s : State) : Prop where
  wf : s.kernel.Wf
  listenSock : s.pc ≠ .closedListen → s.pc ≠ .left → s.listenSock = some cfg.listenSock
  flag : cfg.useSmartClose = true → ∀ fd, fd ≠ cfg.listenSock →
    (s.isSocketIo fd = true ↔ IoNumber s fd)
  conn : ∀ fd c, (fd, some c) ∈ s.ioLog → s.kernel.Names fd (.conn c)
  unread : ∀ c, ¬ IoOn s c → s.peers.unread c = s.peers.sent c

theorem ioInv_init : IoInv cfg (init cfg) where
  wf := wf_init cfg
  listenSock _ _ := rfl
  flag _ fd _ := by simp [init, IoNumber]
  conn fd c h := by simp [init] at h
  unread _ _ := rfl

/-- The number of an open connection has seen every call that was made on it. -/
theorem IoInv.ioNumber {s : State} (h : IoInv cfg s) {fd c : ℕ}
    (hc : s.kernel.conn? fd = some c) (hio : IoOn s c) : IoNumber s fd := by
  obtain ⟨fd', hlog⟩ := hio
  have hfile := (Kernel.conn?_eq_some.mp hc).2
  have heq : fd = fd' := (h.conn fd' c hlog c rfl).2 fd hfile
  exact ⟨some c, heq ▸ hlog⟩

/-- Steps that make no call and leave the flags and the peers alone. -/
theorem IoInv.frame {s s' : State} {a : Act} (h : IoInv cfg s)
    (hs : Listen.step cfg s a = some s')
    (hlisten : s'.pc ≠ .closedListen → s'.pc ≠ .left →
      s'.listenSock = s.listenSock ∧ s.pc ≠ .closedListen ∧ s.pc ≠ .left)
    (hflag : ∀ fd, fd ≠ cfg.listenSock → s'.isSocketIo fd = s.isSocketIo fd)
    (hlog : s'.ioLog = s.ioLog)
    (hpeers : ∀ c, s.peers.unread c = s.peers.sent c → s'.peers.unread c = s'.peers.sent c) :
    IoInv cfg s' := by
  refine ⟨wf_step h.wf hs, fun h₁ h₂ => ?_, fun hsmart fd hfd => ?_, fun fd c hc => ?_,
    fun c hc => ?_⟩
  · obtain ⟨hsame, h₁, h₂⟩ := hlisten h₁ h₂
    exact hsame.trans (h.listenSock h₁ h₂)
  · rw [hflag fd hfd, IoNumber, hlog]
    exact h.flag hsmart fd hfd
  · rw [hlog] at hc
    exact (h.conn fd c hc).step hs
  · rw [IoOn, hlog] at hc
    exact hpeers c (h.unread c hc)

theorem IoInv.io {s s' : State} {fd n : ℕ} (h : IoInv cfg s)
    (hs : step cfg s (.io fd n) = some s') : IoInv cfg s' := by
  cases hs
  refine ⟨h.wf, h.listenSock, fun hsmart fd' hfd' => ?_, fun fd' c hc => ?_, fun c hc => ?_⟩
  · -- the flag and the log change together
    show (if cfg.useSmartClose then Function.update s.isSocketIo fd true else s.isSocketIo) fd' =
      true ↔ ∃ o, (fd', o) ∈ s.ioLog ++ [(fd, s.kernel.conn? fd)]
    rw [if_pos hsmart]
    by_cases heq : fd' = fd
    · subst heq
      simp
    · rw [Function.update_of_ne heq]
      simpa [heq, IoNumber] using h.flag hsmart fd' hfd'
  · rcases List.mem_append.mp hc with hc | hc
    · exact h.conn fd' c hc
    · rw [List.mem_singleton, Prod.mk.injEq] at hc
      obtain ⟨rfl, hc⟩ := hc
      exact h.wf.names (Kernel.conn?_eq_some.mp hc.symm).2
  · have hold : ¬ IoOn s c := by
      rintro ⟨fd', hfd'⟩
      exact hc ⟨fd', List.mem_append_left _ hfd'⟩
    have hne : s.kernel.conn? fd ≠ some c := by
      intro heq
      exact hc ⟨fd, by simp [heq]⟩
    show (s.peers.read (s.kernel.conn? fd) n).unread c = (s.peers.read (s.kernel.conn? fd) n).sent c
    cases hconn : s.kernel.conn? fd with
    | none => exact h.unread c hold
    | some c' =>
      have hcc : c ≠ c' := by
        rintro rfl
        exact hne hconn
      simp only [Peers.read, Function.update_of_ne hcc]
      exact h.unread c hold

theorem IoInv.step {s s' : State} {a : Act} (h : IoInv cfg s)
    (hs : Listen.step cfg s a = some s') : IoInv cfg s' := by
  cases Step.of_step hs with
  | io fd n => exact h.io hs
  | @accept fd sent shut rest hpc hfd =>
    refine h.frame hs (fun _ _ => ⟨rfl, by simp [hpc], by simp [hpc]⟩) (fun _ _ => rfl) rfl ?_
    intro c hc
    show Function.update s.peers.unread s.kernel.nextConn sent c =
      Function.update s.peers.sent s.kernel.nextConn sent c
    by_cases heq : c = s.kernel.nextConn
    · rw [heq, Function.update_self, Function.update_self]
    · rw [Function.update_of_ne heq, Function.update_of_ne heq, hc]
  | @peerSend c n _ _ =>
    refine h.frame hs (fun h₁ h₂ => ⟨rfl, h₁, h₂⟩) (fun _ _ => rfl) rfl fun c' hc' => ?_
    show Function.update s.peers.unread c (s.peers.unread c + n) c' =
      Function.update s.peers.sent c (s.peers.sent c + n) c'
    by_cases heq : c' = c
    · subst heq
      rw [Function.update_self, Function.update_self, hc']
    · rw [Function.update_of_ne heq, Function.update_of_ne heq, hc']
  | @registered fd c rest hpc _ =>
    refine h.frame hs (fun _ _ => ⟨rfl, by simp [hpc], by simp [hpc]⟩) (fun fd' hfd' => ?_) rfl
      fun _ hc => hc
    show (if cfg.useSmartClose then Function.update s.isSocketIo cfg.listenSock false
      else s.isSocketIo) fd' = s.isSocketIo fd'
    split_ifs
    · exact Function.update_of_ne hfd' _ _
    · rfl
  | moves hm =>
    refine h.frame hs (fun _ _ => ⟨rfl, ?_, ?_⟩) (fun _ _ => rfl) rfl fun _ hc => hc
    all_goals cases hm <;> simp [*]
  | closeListen | quit =>
    exact h.frame hs (fun h₁ h₂ => by simp at h₁ h₂) (fun _ _ => rfl) rfl fun _ hc => hc
  | prepared hpc | notPrepared hpc | announce hpc | wait hpc _ | callback hpc _ _ | insert hpc
  | smartClose hpc | answer hpc | closeConns hpc | closeEpoll hpc =>
    exact h.frame hs (fun _ _ => ⟨rfl, by simp [hpc], by simp [hpc]⟩) (fun _ _ => rfl) rfl
      fun _ hc => hc
  | close | removeFromEpoll | terminate | peerShutdown =>
    exact h.frame hs (fun h₁ h₂ => ⟨rfl, h₁, h₂⟩) (fun _ _ => rfl) rfl fun _ hc => hc

theorem ioInv_of_run {acts : List Act} {s : State}
    (hrun : run (step cfg) (init cfg) acts = some s) : IoInv cfg s :=
  invariant_of_run (fun _ _ _ h => h.step) ioInv_init hrun

/-! ## The decision -/

/-- The hang-up of connection `c`, which is up next under `e.fd`, is decided by the
connection: if no call has been made on it, the server closes it and reports
`SOCKET_IS_CLOSED`; otherwise it reports `CLOSE_SOCKET` and leaves it open. -/
def Decides (cfg : Setup) (s : State) (e : Entry) (rest : List Entry) (c : ℕ) : Prop :=
  (¬ IoOn s c → ∃ s₁ s₂, step cfg s .next = some s₁ ∧ step cfg s₁ .smartClose = some s₂ ∧
      e.fd ∉ s₂.kernel.openFds ∧
      s₂.pc = .calling ⟨e.fd, .socketIsClosed, e.events, e.file⟩ false rest) ∧
    (IoOn s c → ∃ s₁, step cfg s .next = some s₁ ∧ e.fd ∈ s₁.kernel.openFds ∧
      s₁.pc = .calling ⟨e.fd, .closeSocket, e.events, e.file⟩ false rest)

/-- What `listen` does with a hang-up, by the flag of the number. -/
theorem step_next_of_hungUp {s : State} {e : Entry} {rest : List Entry}
    (hsmart : cfg.useSmartClose = true) (hpc : s.pc = .batch (e :: rest))
    (hne : s.listenSock ≠ some e.fd) (hup : hungUp e.events = true) :
    step cfg s .next = some (if s.isSocketIo e.fd then
      s.call ⟨e.fd, .closeSocket, e.events, e.file⟩ rest
      else { s with pc := .smartClosing e rest }) := by
  cases hio : s.isSocketIo e.fd <;>
    simp [step, hpc, State.dispatch, hne, connectionBranch, hup, State.isIo, hsmart, hio]

/-- **When smart close decides by the connection.**  In every reachable state in which
a hang-up of an open connection is up next, the decision is right exactly when a call
of `read` or `write` has been made on this connection, or none was ever made on its
number. -/
theorem decides_iff (cfg : Setup) (hsmart : cfg.useSmartClose = true) (acts : List Act)
    (s : State) (hrun : run (step cfg) (init cfg) acts = some s) (e : Entry) (rest : List Entry)
    (c : ℕ) (hpc : s.pc = .batch (e :: rest)) (hne : s.listenSock ≠ some e.fd)
    (hup : hungUp e.events = true) (hconn : s.kernel.conn? e.fd = some c) :
    Decides cfg s e rest c ↔ IoOn s c ∨ ¬ IoNumber s e.fd := by
  have hinv : IoInv cfg s := ioInv_of_run hrun
  have hlisten : e.fd ≠ cfg.listenSock := by
    intro heq
    rw [hinv.listenSock (by simp [hpc]) (by simp [hpc]), heq] at hne
    exact hne rfl
  have hflag := hinv.flag hsmart e.fd hlisten
  have hnext := step_next_of_hungUp hsmart hpc hne hup
  have hopen := (Kernel.conn?_eq_some.mp hconn).1
  cases hio : s.isSocketIo e.fd with
  | true =>
    have hnumber : IoNumber s e.fd := hflag.mp hio
    rw [hio, if_pos rfl] at hnext
    constructor
    · rintro ⟨hclose, -⟩
      by_contra hcond
      obtain ⟨s₁, s₂, h₁, h₂, -, -⟩ := hclose fun hon => hcond (.inl hon)
      rw [hnext, Option.some_inj] at h₁
      subst h₁
      cases h₂
    · intro hcond
      have hon : IoOn s c := hcond.resolve_right (not_not.mpr hnumber)
      exact ⟨fun hoff => absurd hon hoff, fun _ => ⟨_, hnext, hopen, rfl⟩⟩
  | false =>
    have hnumber : ¬ IoNumber s e.fd := by
      rw [← hflag, hio]
      exact Bool.false_ne_true
    have hoff : ¬ IoOn s c := fun hon => hnumber (hinv.ioNumber hconn hon)
    rw [hio, if_neg Bool.false_ne_true] at hnext
    refine iff_of_true ⟨fun _ => ⟨_, _, hnext, rfl, ?_, rfl⟩, fun hon => absurd hon hoff⟩
      (.inr hnumber)
    show e.fd ∉ (s.kernel.close {e.fd}).openFds
    simp [Kernel.close]

/-- A connection is accepted under number 7 and its hang-up is reported. -/
def sevenHangsUp (c : ℕ) (calls : List Act) : List Act :=
  ([.test, .wait (.batch [⟨3, EPOLLIN, .listener⟩]), .check, .next, .accept4 (.conn 7 0 false),
    .insert, .epollAdd true, .ret, .next, .test] : List Act) ++ calls ++
  ([.wait (.batch [⟨7, EPOLLRDHUP, .conn c⟩]), .check] : List Act)

/-- The server has written to the connection, and hands out its hang-up. -/
theorem decides_after_io :
    let cfg : Setup := ⟨3, 5, 4, true, by decide, by decide, by decide⟩
    ∃ s, run (step cfg) (init cfg)
        (([.prepare true, .announce] : List Act) ++ sevenHangsUp 0 [.io 7 0]) = some s ∧
      IoOn s 0 ∧ Decides cfg s ⟨7, EPOLLRDHUP, .conn 0⟩ [] 0 := by
  intro cfg
  have hon : ∃ s, run (step cfg) (init cfg)
      (([.prepare true, .announce] : List Act) ++ sevenHangsUp 0 [.io 7 0]) = some s ∧
        s.pc = .batch [⟨7, EPOLLRDHUP, .conn 0⟩] ∧ s.listenSock ≠ some 7 ∧
        s.kernel.conn? 7 = some 0 ∧ s.ioLog = [(7, some 0)] :=
    ⟨_, rfl, by decide, by decide, by decide, by decide⟩
  obtain ⟨s, hrun, hpc, hne, hconn, hlog⟩ := hon
  have hio : IoOn s 0 := ⟨7, by rw [hlog]; exact List.mem_singleton_self _⟩
  exact ⟨s, hrun, hio,
    (decides_iff cfg rfl _ s hrun _ [] 0 hpc hne (by decide) hconn).mpr (.inl hio)⟩

/-- The second connection under number 7 hangs up before any call has been made on it.
Because of the calls on the first one, it is handed out as `CLOSE_SOCKET`. -/
theorem not_decides_after_reuse :
    let cfg : Setup := ⟨3, 5, 4, true, by decide, by decide, by decide⟩
    ∃ s, run (step cfg) (init cfg) (([.prepare true, .announce] : List Act) ++
        sevenHangsUp 0 [.io 7 0] ++ ([.next, .answer, .ret, .next] : List Act) ++
        sevenHangsUp 1 []) = some s ∧
      s.kernel.conn? 7 = some 1 ∧ ¬ IoOn s 1 ∧
      ((step cfg s .next).map State.pc) =
        some (.calling ⟨7, .closeSocket, EPOLLRDHUP, .conn 1⟩ false []) ∧
      ¬ Decides cfg s ⟨7, EPOLLRDHUP, .conn 1⟩ [] 1 := by
  intro cfg
  have hstate : ∃ s, run (step cfg) (init cfg) (([.prepare true, .announce] : List Act) ++
      sevenHangsUp 0 [.io 7 0] ++ ([.next, .answer, .ret, .next] : List Act) ++
      sevenHangsUp 1 []) = some s ∧
        s.kernel.conn? 7 = some 1 ∧ s.ioLog = [(7, some 0)] ∧
        ((step cfg s .next).map State.pc) =
          some (.calling ⟨7, .closeSocket, EPOLLRDHUP, .conn 1⟩ false []) :=
    ⟨_, rfl, by decide, by decide, by decide⟩
  obtain ⟨s, hrun, hconn, hlog, hnext⟩ := hstate
  have hoff : ¬ IoOn s 1 := by
    rintro ⟨fd, hfd⟩
    rw [hlog] at hfd
    simp at hfd
  refine ⟨s, hrun, hconn, hoff, hnext, fun hdecides => ?_⟩
  obtain ⟨s₁, s₂, h₁, h₂, -⟩ := hdecides.1 hoff
  rw [h₁, Option.map_some, Option.some_inj] at hnext
  simp [step, hnext] at h₂

/-! ## Bytes that nobody has read -/

/-- When `listen` is about to close a connection itself, none of its bytes is unread;
and if its peer has sent anything, the callback has been told to read or to close. -/
def NothingLost (s : State) : Prop :=
  ∀ e rest c, s.pc = .smartClosing e rest → s.kernel.conn? e.fd = some c →
    s.peers.unread c = 0 ∧ (0 < s.peers.sent c → ∃ cb ∈ s.trace, cb.file = .conn c ∧
      (cb.job = .availableForRead ∨ cb.job = .availableForReadAndWrite ∨ cb.job = .closeSocket))

/-- The branch that closes is taken only for a connection whose peer has sent nothing,
and nothing arrives before the close. -/
def SilentPeer (cfg : Setup) (s : State) : Act → Prop
  | .next => ∀ e ∈ s.pc.upNext, s.listenSock ≠ some e.fd →
      connectionBranch cfg.useSmartClose (s.isIo cfg e.fd) e.events = .smartClose →
      ∀ c ∈ s.kernel.conn? e.fd, s.peers.sent c = 0
  | .peerSend c n => ∀ e ∈ s.pc.closing, s.kernel.conn? e.fd = some c → n = 0
  | _ => True

/-- The connection that is about to be closed has never received anything. -/
def Silent (s : State) : Prop :=
  ∀ e c, s.pc.closing = some e → s.kernel.conn? e.fd = some c →
    s.peers.sent c = 0 ∧ s.peers.unread c = 0

theorem Silent.nothingLost {s : State} (h : Silent s) : NothingLost s := by
  intro e rest c hpc hconn
  obtain ⟨hsent, hunread⟩ := h e c (by rw [hpc]; rfl) hconn
  exact ⟨hunread, fun hpos => by omega⟩

theorem Pc.batch_of_upNext {pc : Pc} {e : Entry} (h : pc.upNext = some e) :
    ∃ rest, pc = .batch (e :: rest) := by
  unfold Pc.upNext at h
  split at h <;> cases h
  exact ⟨_, rfl⟩

theorem Pc.smartClosing_of_closing {pc : Pc} {e : Entry} (h : pc.closing = some e) :
    ∃ rest, pc = .smartClosing e rest := by
  unfold Pc.closing at h
  split at h <;> cases h
  exact ⟨_, rfl⟩

/-- A connection that is open after a `::close` was open before. -/
theorem Kernel.conn?_close {k : Kernel} {fds : Finset ℕ} {fd c : ℕ}
    (h : (k.close fds).conn? fd = some c) : k.conn? fd = some c := by
  obtain ⟨hopen, hfile⟩ := Kernel.conn?_eq_some.mp h
  exact Kernel.conn?_eq_some.mpr ⟨(Finset.mem_sdiff.mp hopen).1, hfile⟩

/-- The flag of a number is down only if none of the bytes of its connection have been
read. -/
theorem IoInv.unread_eq_sent {s : State} (h : IoInv cfg s) {e : Entry} {rest : List Entry}
    {c : ℕ} (hpc : s.pc = .batch (e :: rest)) (hne : s.listenSock ≠ some e.fd)
    (hsmart : cfg.useSmartClose = true) (hio : s.isSocketIo e.fd = false)
    (hconn : s.kernel.conn? e.fd = some c) : s.peers.unread c = s.peers.sent c := by
  have hlisten : e.fd ≠ cfg.listenSock := by
    intro heq
    rw [h.listenSock (by simp [hpc]) (by simp [hpc]), heq] at hne
    exact hne rfl
  refine h.unread c fun hon => ?_
  rw [(h.flag hsmart e.fd hlisten).mpr (h.ioNumber hconn hon)] at hio
  cases hio

theorem Silent.step {s s' : State} {a : Act} (h : Silent s) (hinv : IoInv cfg s)
    (hsilent : SilentPeer cfg s a) (hs : step cfg s a = some s') : Silent s' := by
  cases Step.of_step hs with
  | moves hm =>
    intro e c hclosing hconn
    cases hm
    case smart rest hpc hne hup hsmart hio =>
      cases hclosing
      have hbranch : connectionBranch cfg.useSmartClose (s.isIo cfg e.fd) e.events =
          .smartClose := by
        refine connectionBranch_eq_smartClose_iff.mpr ⟨hup, hsmart, ?_⟩
        rw [State.isIo, if_pos hsmart, hio]
      have hsent : s.peers.sent c = 0 := hsilent e (by rw [hpc]; rfl) hne hbranch c hconn
      exact ⟨hsent, (hinv.unread_eq_sent hpc hne hsmart hio hconn).trans hsent⟩
    all_goals cases hclosing
  | prepared | notPrepared | announce | wait | callback | accept | insert | registered
  | smartClose | answer | closeConns | closeEpoll | closeListen | quit =>
    exact fun e c hclosing => by cases hclosing
  | close fd => exact fun e c hclosing hconn => h e c hclosing (Kernel.conn?_close hconn)
  | io fd n =>
    intro e c hclosing hconn
    obtain ⟨hsent, hunread⟩ := h e c hclosing hconn
    show (s.peers.read (s.kernel.conn? fd) n).sent c = 0 ∧
      (s.peers.read (s.kernel.conn? fd) n).unread c = 0
    cases s.kernel.conn? fd with
    | none => exact ⟨hsent, hunread⟩
    | some c' =>
      refine ⟨hsent, ?_⟩
      by_cases heq : c = c'
      · subst heq
        simp [Peers.read, hunread]
      · simp [Peers.read, Function.update_of_ne heq, hunread]
  | @peerSend c n _ _ =>
    intro e c' hclosing hconn
    obtain ⟨hsent, hunread⟩ := h e c' hclosing hconn
    by_cases heq : c' = c
    · subst heq
      have hn : n = 0 := hsilent e hclosing hconn
      simp [Peers.send, hn, hsent, hunread]
    · simp [Peers.send, Function.update_of_ne heq, hsent, hunread]
  | removeFromEpoll | terminate | peerShutdown => exact h

/-- A connection with an unread byte is about to be closed. -/
def Doomed (s : State) : Prop :=
  ∃ e rest c, s.pc = .smartClosing e rest ∧ s.kernel.conn? e.fd = some c ∧ 0 < s.peers.unread c

theorem Doomed.not_nothingLost {s : State} (h : Doomed s) : ¬ NothingLost s := by
  intro hnothing
  obtain ⟨e, rest, c, hpc, hconn, hpos⟩ := h
  have hunread := (hnothing e rest c hpc hconn).1
  omega

/-- A byte that has been sent to a connection about to be closed is unread. -/
theorem doomed_of_not_silentPeer {s s' : State} {a : Act} (hinv : IoInv cfg s)
    (hsilent : ¬ SilentPeer cfg s a) (hs : step cfg s a = some s') : Doomed s' := by
  cases a with
  | next =>
    simp only [SilentPeer, not_forall] at hsilent
    obtain ⟨e, hnext, hne, hbranch, c, hconn, hsent⟩ := hsilent
    obtain ⟨rest, hpc⟩ := Pc.batch_of_upNext hnext
    have hs' : s' = { s with pc := .smartClosing e rest } := by
      simp only [Listen.step, hpc, State.dispatch, if_neg hne, hbranch, Option.some_inj] at hs
      exact hs.symm
    subst hs'
    obtain ⟨-, hsmart, hio⟩ := connectionBranch_eq_smartClose_iff.mp hbranch
    rw [State.isIo, if_pos hsmart] at hio
    refine ⟨e, rest, c, rfl, hconn, ?_⟩
    show 0 < s.peers.unread c
    rw [hinv.unread_eq_sent hpc hne hsmart hio hconn]
    exact Nat.pos_of_ne_zero hsent
  | peerSend c n =>
    simp only [SilentPeer, not_forall] at hsilent
    obtain ⟨e, hclosing, hconn, hn⟩ := hsilent
    obtain ⟨rest, hpc⟩ := Pc.smartClosing_of_closing hclosing
    cases Step.of_step hs with
    | moves hm => cases hm
    | peerSend =>
      refine ⟨e, rest, c, hpc, hconn, ?_⟩
      simp only [Peers.send, Function.update_self]
      omega
  | _ => exact absurd trivial hsilent

/-! ### At the close

Between the test of the flag and the close another thread may read what has arrived, or close the
connection itself.  Where nobody does, a connection that is doomed is closed with its bytes. -/

/-- What `listen` closes itself has no unread byte at the moment of the close. -/
def ClosesRead (s : State) (a : Act) : Prop := a = .smartClose → NothingLost s

/-- Nobody else uses or closes the connection that `listen` is about to close. -/
def Undisturbed (s : State) : Act → Prop
  | .io fd _ | .close fd => ∀ e ∈ s.pc.closing, fd ≠ e.fd
  | _ => True

theorem Kernel.conn?_close_of_ne {k : Kernel} {fd fd' c : ℕ} (hne : fd ≠ fd')
    (h : k.conn? fd' = some c) : (k.close {fd}).conn? fd' = some c := by
  obtain ⟨hopen, hfile⟩ := Kernel.conn?_eq_some.mp h
  refine Kernel.conn?_eq_some.mpr ⟨Finset.mem_sdiff.mpr ⟨hopen, ?_⟩, hfile⟩
  rw [Finset.mem_singleton]
  exact hne.symm

theorem Doomed.step {s s' : State} {a : Act} (h : Doomed s) (hinv : IoInv cfg s)
    (halone : Undisturbed s a) (hcloses : ClosesRead s a) (hs : step cfg s a = some s') :
    Doomed s' := by
  obtain ⟨e, rest, c, hpc, hconn, hpos⟩ := id h
  have hclosing : e ∈ s.pc.closing := by
    rw [hpc]
    rfl
  cases Step.of_step hs with
  | moves hm => cases hm <;> simp_all
  | smartClose => exact absurd (hcloses rfl) h.not_nothingLost
  | prepared h | notPrepared h | announce h | wait h _ | callback h _ _ | accept h _ | insert h
  | registered h _ | answer h | closeConns h | closeEpoll h | closeListen h | quit h =>
    rw [hpc] at h
    cases h
  | close fd =>
    exact ⟨e, rest, c, hpc, Kernel.conn?_close_of_ne (halone e hclosing) hconn, hpos⟩
  | io fd n =>
    refine ⟨e, rest, c, hpc, hconn, ?_⟩
    show 0 < (s.peers.read (s.kernel.conn? fd) n).unread c
    cases hfd : s.kernel.conn? fd with
    | none => exact hpos
    | some c' =>
      have hcc : c ≠ c' := by
        rintro rfl
        have hnames := hinv.wf.names (Kernel.conn?_eq_some.mp hconn).2
        exact halone e hclosing ((hnames c rfl).2 fd (Kernel.conn?_eq_some.mp hfd).2)
      simpa only [Peers.read, Function.update_of_ne hcc] using hpos
  | @peerSend c' n _ _ =>
    refine ⟨e, rest, c, hpc, hconn, ?_⟩
    by_cases hcc : c = c'
    · subst hcc
      simp only [Peers.send, Function.update_self]
      omega
    · simpa only [Peers.send, Function.update_of_ne hcc] using hpos
  | removeFromEpoll | terminate | peerShutdown => exact ⟨e, rest, c, hpc, hconn, hpos⟩

/-- **When smart close loses nothing.**  Over every run and every timing of the peers:
no connection that `listen` closes itself has an unread byte exactly when the branch
that closes is only taken for connections whose peer has sent nothing, and nothing
arrives between the test of the flag and the close.  This is demanded from the test on; where
nobody else reads from the connection or closes it in between, and the run does not end there,
it comes to the same to demand it at the close. -/
theorem nothingLost_iff (cfg : Setup) (acts : List Act) :
    (Always (step cfg) NothingLost (init cfg) acts ↔
      Guarded (step cfg) (SilentPeer cfg) (init cfg) acts) ∧
    ∀ s, run (step cfg) (init cfg) acts = some s → s.pc.closing = none →
      Guarded (step cfg) Undisturbed (init cfg) acts →
      (Guarded (step cfg) ClosesRead (init cfg) acts ↔
        Guarded (step cfg) (SilentPeer cfg) (init cfg) acts) := by
  have hinit : IoInv cfg (init cfg) ∧ Silent (init cfg) :=
    ⟨ioInv_init, fun e c hclosing => by cases hclosing⟩
  refine ⟨always_iff_guarded (I := fun s => IoInv cfg s ∧ Silent s) ?_ ?_ ?_ hinit, ?_⟩
  · exact fun s h => h.2.nothingLost
  · exact fun s a s' h hg hs => ⟨h.1.step hs, h.2.step h.1 hg hs⟩
  · exact fun s a s' h hg hs => (doomed_of_not_silentPeer h.1 hg hs).not_nothingLost
  · intro s hrun hend halone
    constructor
    · intro hcloses
      refine guarded_of_not_bad (I := fun s => IoInv cfg s ∧ Silent s)
        (B := fun s => IoInv cfg s ∧ Doomed s) ?_ ?_ ?_ hinit (halone.and hcloses) hrun ?_
      · exact fun s a s' h _ hg hs => ⟨h.1.step hs, h.2.step h.1 hg hs⟩
      · exact fun s a s' h _ hg hs => ⟨h.1.step hs, doomed_of_not_silentPeer h.1 hg hs⟩
      · exact fun s a s' h hk hs => ⟨h.1.step hs, h.2.step h.1 hk.1 hk.2 hs⟩
      · rintro ⟨-, e, rest, c, hpc, -⟩
        rw [hpc] at hend
        cases hend
    · intro hsilent
      refine guarded_of_guarded (I := fun s => IoInv cfg s ∧ Silent s) ?_ ?_ hinit hsilent
      · exact fun s a s' h hg hs => ⟨h.1.step hs, h.2.step h.1 hg hs⟩
      · exact fun s a h _ _ => h.2.nothingLost

/-- The peer sends one byte and shuts down before the server has made any call.  Both
are reported in one entry, and the connection is closed with the byte in it. -/
theorem byte_lost_by_smart_close :
    let cfg : Setup := ⟨3, 5, 4, true, by decide, by decide, by decide⟩
    let acts : List Act :=
      [.prepare true, .announce, .test, .wait (.batch [⟨3, EPOLLIN, .listener⟩]), .check, .next,
        .accept4 (.conn 7 0 false), .insert, .epollAdd true, .ret, .next, .test, .peerSend 0 1,
        .peerShutdown 0, .wait (.batch [⟨7, EPOLLIN ||| EPOLLRDHUP, .conn 0⟩]), .check, .next]
    ∃ s, run (step cfg) (init cfg) acts = some s ∧
      s.pc = .smartClosing ⟨7, EPOLLIN ||| EPOLLRDHUP, .conn 0⟩ [] ∧
      s.kernel.conn? 7 = some 0 ∧ s.peers.unread 0 = 1 ∧ ¬ NothingLost s := by
  refine ⟨_, rfl, by decide, by decide, by decide, fun h => ?_⟩
  exact absurd (h _ _ 0 rfl (by decide)).1 (by decide)

end Listen

end Nbuss
