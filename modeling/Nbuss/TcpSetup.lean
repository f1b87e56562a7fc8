import Mathlib.Data.Finset.Lattice.Fold
import Mathlib.Order.Lattice.Nat
import Nbuss.Listen

/-!
# `TcpServer::setup`

`setup` tries five times to open a listening socket.  Every time it asks for the addresses and
tries them one after the other until a socket can be bound to one.  A socket that cannot be
bound is closed by `close(sfd)`; but inside the class this name does not mean the system call.
It is the member function `IGenericServer::close`, which closes the descriptor and takes one
off the counter of active connections.  So no socket is left open, and a server that has been
set up after some failures starts with a negative counter (`setup_clean_iff`).

The state is that of `Listen`, from the moment the members have been constructed; the
number that `socket` returns is any number that is not open (`FreshFd`).
-/

namespace Nbuss

namespace TcpSetup

open Listen

/-- How the kernel chooses a number for a new descriptor: one that is not open. -/
structure FreshFd where
  pick : Finset ℕ → ℕ
  pick_notMem : ∀ openFds, pick openFds ∉ openFds

/-- What becomes of one address: `socket` fails, or `bind` fails, or the socket is bound. -/
inductive AddrAnswer where
  | noSocket
  | notBound (sfd : FreshFd)
  | bound (sfd : FreshFd)

/-- What `getaddrinfo` answers: a failure, or a list of addresses. -/
inductive Attempt where
  | gaiError
  | addrs (result : List AddrAnswer)

/-- `std::runtime_error("cannot open server socket")`. -/
inductive SetupError where
  | cannotOpenServerSocket
  deriving DecidableEq, Repr

def SetupError.what : SetupError → String
  | .cannotOpenServerSocket => "cannot open server socket"

/-- A server whose members have been constructed. -/
def constructed (k : Kernel) : State where
  listenSock := none
  kernel := k

/-- `socket` returns `fd`. -/
def opened (s : State) (fd : ℕ) : State :=
  { s with
    kernel :=
      { s.kernel with
        file := Function.update s.kernel.file fd (some .listener)
        openFds := insert fd s.kernel.openFds } }

/-- The loop of `open_listening_socket` over the addresses: the state it leaves, and the socket
that has been bound. -/
def tryAddrs : List AddrAnswer → State → State × Option ℕ
  | [], s => (s, none)
  | .noSocket :: rp, s => tryAddrs rp s
  | .notBound sfd :: rp, s =>
    let fd := sfd.pick s.kernel.openFds
    -- `close(sfd)` is the member function
    tryAddrs rp ((opened s fd).close fd)
  | .bound sfd :: _, s =>
    let fd := sfd.pick s.kernel.openFds
    (opened s fd, some fd)

/-- `TcpServer::open_listening_socket`, with `none` for `-1`. -/
def openListeningSocket (port : ℕ) (a : Attempt) (s : State) : State × Option ℕ :=
  if 0xFFFF < port then (s, none)
  else
    match a with
    | .gaiError => (s, none)
    | .addrs result => tryAddrs result s

/-- How `setup` ends: the state, and the exception if it throws. -/
structure SetupResult where
  server : State
  error : Option SetupError

/-- The loop of `setup`, with `counter` attempts to go. -/
def setupLoop (port : ℕ) : ℕ → (ℕ → Attempt) → State → SetupResult
  | 0, _, s => ⟨s, if s.listenSock = none then some .cannotOpenServerSocket else none⟩
  | counter + 1, attempts, s =>
    let r := openListeningSocket port (attempts 0) s
    let s' := { r.1 with listenSock := r.2 }
    if r.2 ≠ none then ⟨s', none⟩ else setupLoop port counter (fun i => attempts (i + 1)) s'

/-- `TcpServer::setup`; `attempts i` is what the resolver and the kernel answer the `i`th time. -/
def setup (port : ℕ) (attempts : ℕ → Attempt) (s : State) : SetupResult :=
  setupLoop port 5 attempts s

/-- The server is clean after `setup`: it has returned and the socket is the only one that it
has opened and that is still open, and nothing has been counted; or it has thrown and
all that it has opened is closed. -/
def Clean (k : Kernel) (r : SetupResult) : Prop :=
  match r.error with
  | none => ∃ fd, r.server.listenSock = some fd ∧ fd ∉ k.openFds ∧
      r.server.kernel.openFds = insert fd k.openFds ∧ r.server.incoming = ∅ ∧
      r.server.activeConnections = 0
  | some _ => r.server.kernel.openFds = k.openFds

/-! ## All attempts in one list -/

def AddrAnswer.isBound : AddrAnswer → Bool
  | .bound _ => true
  | _ => false

def AddrAnswer.isNotBound : AddrAnswer → Bool
  | .notBound _ => true
  | _ => false

/-- The addresses that an attempt comes to. -/
def tried (port : ℕ) (a : Attempt) : List AddrAnswer :=
  if 0xFFFF < port then []
  else
    match a with
    | .gaiError => []
    | .addrs result => result

theorem openListeningSocket_eq (port : ℕ) (a : Attempt) (s : State) :
    openListeningSocket port a s = tryAddrs (tried port a) s := by
  unfold openListeningSocket tried
  split_ifs
  · rfl
  · cases a <;> rfl

theorem tryAddrs_append (l m : List AddrAnswer) (s : State) :
    tryAddrs (l ++ m) s =
      if (tryAddrs l s).2 = none then tryAddrs m (tryAddrs l s).1 else tryAddrs l s := by
  induction l generalizing s with
  | nil => rfl
  | cons a l ih =>
    cases a with
    | noSocket => exact ih s
    | notBound sfd => exact ih _
    | bound sfd => rfl

/-- What is assigned to `listen_sock` does not matter on the way. -/
theorem tryAddrs_listenSock (l : List AddrAnswer) (s : State) :
    (tryAddrs l s).1.listenSock = s.listenSock := by
  induction l generalizing s with
  | nil => rfl
  | cons a l ih =>
    cases a with
    | noSocket => exact ih s
    | notBound sfd => exact ih _
    | bound sfd => rfl

/-- The attempts are tried as if they were one list of addresses. -/
theorem setupLoop_eq (port counter : ℕ) (attempts : ℕ → Attempt) {s : State}
    (hs : s.listenSock = none) :
    setupLoop port counter attempts s =
      let r := tryAddrs ((List.range counter).flatMap fun i => tried port (attempts i)) s
      ⟨{ r.1 with listenSock := r.2 },
        if r.2 = none then some .cannotOpenServerSocket else none⟩ := by
  induction counter generalizing attempts s with
  | zero => simp [setupLoop, tryAddrs, ← hs]
  | succ counter ih =>
    have hsame : { (tryAddrs (tried port (attempts 0)) s).1 with listenSock := none } =
        (tryAddrs (tried port (attempts 0)) s).1 := by
      rw [← hs, ← tryAddrs_listenSock (tried port (attempts 0)) s]
    rw [setupLoop, List.range_succ_eq_map, List.flatMap_cons, List.flatMap_map, tryAddrs_append,
      openListeningSocket_eq]
    by_cases hnone : (tryAddrs (tried port (attempts 0)) s).2 = none
    · rw [if_pos hnone]
      simp only [hnone, hsame, ne_eq, not_true_eq_false, if_false]
      exact ih _ ((tryAddrs_listenSock _ s).trans hs)
    · rw [if_neg hnone]
      simp only [hnone, ne_eq, not_false_eq_true, if_true, if_false]

/-! ## What a list of addresses does to the server -/

/-- The sockets that cannot be bound before one can. -/
def failures (l : List AddrAnswer) : ℕ :=
  (l.takeWhile fun a => !a.isBound).countP AddrAnswer.isNotBound

theorem failures_eq_zero_iff (l : List AddrAnswer) :
    failures l = 0 ↔ ∀ a ∈ l.takeWhile fun a => !a.isBound, a.isNotBound = false := by
  rw [failures, List.countP_eq_zero]
  exact forall₂_congr fun a _ => Bool.eq_false_iff.symm

theorem tryAddrs_none_iff (l : List AddrAnswer) (s : State) :
    (tryAddrs l s).2 = none ↔ ∀ a ∈ l, a.isBound = false := by
  induction l generalizing s with
  | nil => exact iff_of_true rfl fun a ha => by cases ha
  | cons a l ih =>
    rw [List.forall_mem_cons]
    cases a with
    | noSocket => exact (ih s).trans (and_iff_right rfl).symm
    | notBound sfd => exact (ih _).trans (and_iff_right rfl).symm
    | bound sfd => exact iff_of_false (Option.some_ne_none _) fun h => by cases h.1

/-- Every socket that cannot be bound is taken off the counter. -/
theorem tryAddrs_activeConnections (l : List AddrAnswer) (s : State) :
    (tryAddrs l s).1.activeConnections = s.activeConnections - failures l := by
  induction l generalizing s with
  | nil => exact (Int.sub_zero _).symm
  | cons a l ih =>
    cases a with
    | noSocket => exact ih s
    | notBound sfd =>
      have hfailures : failures (.notBound sfd :: l) = failures l + 1 := List.countP_cons_of_pos rfl
      rw [tryAddrs, ih, hfailures]
      show s.activeConnections - 1 - (failures l : ℤ) =
        s.activeConnections - ((failures l + 1 : ℕ) : ℤ)
      omega
    | bound sfd => exact (Int.sub_zero _).symm

theorem tryAddrs_incoming (l : List AddrAnswer) {s : State} (hs : s.incoming = ∅) :
    (tryAddrs l s).1.incoming = ∅ := by
  induction l generalizing s with
  | nil => exact hs
  | cons a l ih =>
    cases a with
    | noSocket => exact ih hs
    | notBound sfd =>
      refine ih ?_
      show s.incoming.erase _ = ∅
      rw [hs, Finset.erase_empty]
    | bound sfd => exact hs

/-- A socket that cannot be bound is closed again. -/
theorem openFds_close_opened (s : State) (sfd : FreshFd) :
    ((opened s (sfd.pick s.kernel.openFds)).close (sfd.pick s.kernel.openFds)).kernel.openFds =
      s.kernel.openFds := by
  show insert (sfd.pick s.kernel.openFds) s.kernel.openFds \ {sfd.pick s.kernel.openFds} =
    s.kernel.openFds
  rw [Finset.sdiff_singleton_eq_erase, Finset.erase_insert (sfd.pick_notMem _)]

/-- Nothing is left open but the socket that has been bound. -/
theorem tryAddrs_openFds (l : List AddrAnswer) (s : State) :
    match (tryAddrs l s).2 with
    | none => (tryAddrs l s).1.kernel.openFds = s.kernel.openFds
    | some fd => fd ∉ s.kernel.openFds ∧
        (tryAddrs l s).1.kernel.openFds = insert fd s.kernel.openFds := by
  induction l generalizing s with
  | nil => rfl
  | cons a l ih =>
    cases a with
    | noSocket => exact ih s
    | notBound sfd =>
      have hrest := ih ((opened s (sfd.pick s.kernel.openFds)).close (sfd.pick s.kernel.openFds))
      rw [openFds_close_opened] at hrest
      exact hrest
    | bound sfd => exact ⟨sfd.pick_notMem _, rfl⟩

/-- **When `setup` leaves a clean server.**  Whatever the resolver and the kernel answer, `setup`
returns or throws, and no socket is left open but the one that has been bound.  The server is
clean exactly when `setup` throws or no `bind` fails before the one that succeeds. -/
theorem setup_clean_iff (port : ℕ) (attempts : ℕ → Attempt) (k : Kernel) :
    let l := (List.range 5).flatMap fun i => tried port (attempts i)
    Clean k (setup port attempts (constructed k)) ↔
      (∀ a ∈ l, a.isBound = false) ∨
        ∀ a ∈ l.takeWhile (fun a => !a.isBound), a.isNotBound = false := by
  intro l
  have hopen := tryAddrs_openFds l (constructed k)
  have hcount := tryAddrs_activeConnections l (constructed k)
  have hincoming := tryAddrs_incoming l (s := constructed k) rfl
  rw [setup, setupLoop_eq port 5 attempts rfl, ← failures_eq_zero_iff,
    ← tryAddrs_none_iff l (constructed k)]
  show Clean k ⟨{ (tryAddrs l (constructed k)).1 with listenSock := (tryAddrs l (constructed k)).2 },
    if (tryAddrs l (constructed k)).2 = none then some .cannotOpenServerSocket else none⟩ ↔ _
  cases hfd : (tryAddrs l (constructed k)).2 with
  | none =>
    rw [hfd] at hopen
    exact iff_of_true hopen (.inl rfl)
  | some fd =>
    rw [hfd] at hopen
    have hzero : (tryAddrs l (constructed k)).1.activeConnections = 0 ↔ failures l = 0 := by
      rw [hcount]
      show (0 : ℤ) - failures l = 0 ↔ _
      omega
    rw [← hzero, or_iff_right (Option.some_ne_none fd)]
    constructor
    · rintro ⟨_, -, -, -, -, hactive⟩
      exact hactive
    · exact fun hactive => ⟨fd, rfl, hopen.1, hopen.2, hincoming, hactive⟩

/-- The address is in use the first time and free the second time. -/
theorem negative_counter_after_retry :
    let sfd : FreshFd := ⟨fun openFds => openFds.sup id + 1, fun _ hmem =>
      Nat.not_succ_le_self _ (Finset.le_sup (f := id) hmem)⟩
    let attempts : ℕ → Attempt := fun i => .addrs [if i = 0 then .notBound sfd else .bound sfd]
    let k : Kernel := ⟨fun _ => none, {0, 1, 2}, ∅, 0⟩
    (setup 10001 attempts (constructed k)).error = none ∧
      (setup 10001 attempts (constructed k)).server.listenSock = some 3 ∧
      (setup 10001 attempts (constructed k)).server.activeConnections = -1 ∧
      ¬ Clean k (setup 10001 attempts (constructed k)) := by
  intro sfd attempts k
  refine ⟨rfl, rfl, rfl, ?_⟩
  rintro ⟨fd, -, -, -, -, hactive⟩
  cases hactive

end TcpSetup

end Nbuss
