import Mathlib.Data.List.Nodup
import Nbuss.ClientMode
import Nbuss.ServerRead
import Nbuss.Transition.Runs

/-!
# The descriptor of a client

A client owns one descriptor at most: `data_socket`.  `close` and the destructor close it and
store `-1`, so it is not closed twice.  But `connect` stores what `socket` returns without a
look at what is there.  A client that is connected, or whose last `connect` has failed after
`socket`, has then lost a descriptor, and nothing will ever close it (`nothing_lost_iff`).

The numbers of descriptors are used again; so what the client has obtained is told apart by
the calls of `socket` that returned it (`serial`).  A number that `socket` returns is not
open.  What the other parts of the process have open does not matter, so `files` holds the
descriptors of this client only.  The calls of one client come one after another, and the
last one is its destructor.
-/

namespace Nbuss

namespace ClientSocket

open Transition

/-- `TcpClient` or `UnixSocketClient`. -/
inductive Kind where
  | tcp
  | unix
  deriving DecidableEq, Repr

/-- The exceptions of the clients. -/
inductive Exception where
  | invalidArgument (what : String)
  | runtimeError (what : String)
  deriving DecidableEq, Repr

/-- An open descriptor: which call of `socket` returned it, and its flag word. -/
structure Descriptor where
  serial : ℕ
  flags : ℕ
  deriving DecidableEq, Repr

/-- A client, with `none` for `-1`, and on the kernel's side the descriptors it has open, the
number of those it has obtained, and those that have been closed. -/
structure State where
  dataSocket : Option ℕ := none
  destroyed : Bool := false
  files : ℕ → Option Descriptor := fun _ => none
  obtained : ℕ := 0
  closed : List ℕ := []

/-- What the system answers to a `connect`: the number of the new descriptor if there is one,
and whether the name can be resolved and the peer be connected to. -/
structure Answers where
  socket : Option ℕ
  resolved : Bool
  connected : Bool
  deriving DecidableEq, Repr

/-- `O_RDWR`, the flag word of a new socket without `SOCK_NONBLOCK`. -/
def O_RDWR : ℕ := 2

/-- `data_socket = socket(...)`. -/
def State.assign (s : State) (flags : ℕ) : Option ℕ → State
  | none => { s with dataSocket := none }
  | some fd =>
    { s with
      dataSocket := some fd
      files := Function.update s.files fd (some ⟨s.obtained, flags⟩)
      obtained := s.obtained + 1 }

/-- `TcpClient::connect`.  It does not look at `nonBlockingSocket`. -/
def State.tcpConnect (s : State) (hostname : String) (port : ℕ) (a : Answers) :
    State × Option Exception :=
  if hostname = "" then (s, some (.invalidArgument "missing hostname"))
  else if 65535 < port then (s, some (.invalidArgument "wrong port"))
  else
    let s := s.assign O_RDWR a.socket
    if s.dataSocket = none then (s, some (.runtimeError "socket: error"))
    else if a.resolved = false then
      (s, some (.runtimeError "gethostbyname: error resolving hostname"))
    else if a.connected = false then
      (s, some (.runtimeError "connect: error connecting to server"))
    else (s, none)

/-- The flag word with which `UnixSocketClient` creates its socket. -/
def unixFlags (nonBlockingSocket : Bool) : ℕ :=
  if nonBlockingSocket then O_RDWR ||| O_NONBLOCK else O_RDWR

/-- `UnixSocketClient::connect`. -/
def State.unixConnect (s : State) (nonBlockingSocket : Bool) (sockname : String) (a : Answers) :
    State × Option Exception :=
  if sockname = "" then (s, some (.invalidArgument "missing sockname"))
  else
    let s := s.assign (unixFlags nonBlockingSocket) a.socket
    if s.dataSocket = none then (s, some (.runtimeError "socket error"))
    else if a.connected = false then (s, some (.runtimeError "connect error"))
    else (s, none)

/-- `BaseClient::close`. -/
def State.close (s : State) : State :=
  match s.dataSocket with
  | none => s
  | some fd =>
    { s with
      dataSocket := none
      files := Function.update s.files fd none
      closed := s.closed ++ ((s.files fd).map Descriptor.serial).toList }

/-- `BaseClient::read`. -/
def clientRead (bufferSize : Int) (a : ReadAnswer) : Except Exception (List UInt8) :=
  if bufferSize ≤ 0 then .error (.invalidArgument "invalid buffer_size")
  else
    let buffer := fill (List.replicate bufferSize.toNat 0) a.bytes
    match a with
    | .failed errno =>
      if wouldBlock errno then .ok (resize buffer 0) else .error (.runtimeError "read error")
    | .got bytes => .ok (resize buffer bytes.length)

/-- The arguments of `connect`. -/
inductive Peer : Kind → Type where
  | tcp (hostname : String) (port : ℕ) : Peer .tcp
  | unix (sockname : String) : Peer .unix

/-- The call comes to `socket`. -/
def Peer.Passes : {k : Kind} → Peer k → Prop
  | _, .tcp hostname port => hostname ≠ "" ∧ port ≤ 65535
  | _, .unix sockname => sockname ≠ ""

instance : {k : Kind} → (p : Peer k) → Decidable p.Passes
  | _, .tcp hostname port => inferInstanceAs (Decidable (hostname ≠ "" ∧ port ≤ 65535))
  | _, .unix sockname => inferInstanceAs (Decidable (sockname ≠ ""))

/-- A call of a member function, with the answers of the system. -/
inductive Act (k : Kind) where
  | connect (peer : Peer k) (a : Answers)
  | write (data : List UInt8) (blocking nonBlocking : Fcntl) (answers : List WriteAnswer)
  | read (bufferSize : Int) (a : ReadAnswer)
  | close
  /-- The destructor. -/
  | destroy

/-- How a call ends. -/
inductive Outcome where
  | done
  | count (n : Int)
  | buffer (bytes : List UInt8)
  | threw (e : Exception)
  deriving DecidableEq, Repr

section Calls

variable {k : Kind} (nonBlockingSocket : Bool)

def State.connect (s : State) (a : Answers) : Peer k → State × Option Exception
  | .tcp hostname port => s.tcpConnect hostname port a
  | .unix sockname => s.unixConnect nonBlockingSocket sockname a

/-- `BaseClient::write` or `UnixSocketClient::write` on the descriptor `fd`. -/
def State.write (s : State) (fd : ℕ) (data : List UInt8) (blocking nonBlocking : Fcntl)
    (answers : List WriteAnswer) : Kind → Option (State × Int)
  | .tcp => (clientWrite fd data answers).map fun r => (s, r.ret)
  | .unix =>
    (s.files fd).bind fun d =>
      (unixWrite nonBlockingSocket fd blocking nonBlocking d.flags data answers).map fun w =>
        ({ s with files := Function.update s.files fd (some { d with flags := w.flags }) }, w.ret)

/-- A call of a member function: the client after it, and how it ends. -/
def perform (s : State) : Act k → Option (State × Outcome)
  | .connect peer a =>
    -- `socket` returns a number that is not open
    if a.socket.bind s.files = none then
      let r := s.connect nonBlockingSocket a peer
      some (r.1, match r.2 with
        | none => .done
        | some e => .threw e)
    else none
  | .write data blocking nonBlocking answers =>
    match s.dataSocket with
    -- before any `::write`; if `fcntl` is called with `-1`, it fails
    | none => some (s, .count (-1))
    | some fd =>
      (s.write nonBlockingSocket fd data blocking nonBlocking answers k).map fun r =>
        (r.1, .count r.2)
  | .read bufferSize a =>
    match clientRead bufferSize a with
    | .ok bytes => some (s, .buffer bytes)
    | .error e => some (s, .threw e)
  | .close => some (s.close, .done)
  | .destroy => some ({ s.close with destroyed := true }, .done)

/-- A client that has been destroyed is not called any more. -/
def step (s : State) (a : Act k) : Option State :=
  if s.destroyed then none else (perform nonBlockingSocket s a).map Prod.fst

end Calls

/-! ## Custody -/

/-- Which of the descriptors that the client has obtained is `data_socket`. -/
def State.current (s : State) : Option ℕ :=
  s.dataSocket.bind fun fd => (s.files fd).map Descriptor.serial

/-- The client has lost nothing: what it has obtained and has not closed is its `data_socket`,
and after the destructor everything has been closed exactly once. -/
structure Owned (s : State) : Prop where
  held : ∀ n < s.obtained, n ∉ s.closed → s.current = some n
  released : s.destroyed = true → ∀ n < s.obtained, s.closed.count n = 1

/-- A `connect` that comes to `socket` finds no descriptor in `data_socket`. -/
def Vacant {k : Kind} (s : State) : Act k → Prop
  | .connect peer _ => peer.Passes → s.dataSocket = none
  | _ => True

/-- What has been closed, and then `data_socket`, is all that has been obtained. -/
structure Inv (s : State) : Prop where
  opened : ∀ fd, s.dataSocket = some fd → ∃ n, s.current = some n
  accounted : (s.closed ++ s.current.toList).Perm (List.range s.obtained)
  gone : s.destroyed = true → s.dataSocket = none

theorem inv_init : Inv {} where
  opened := nofun
  accounted := List.Perm.refl _
  gone := nofun

theorem current_of_vacant {s : State} (h : s.dataSocket = none) : s.current = none := by
  rw [State.current, h, Option.bind_none]

theorem Inv.owned {s : State} (h : Inv s) : Owned s where
  held := by
    intro n hn hclosed
    have hmem := h.accounted.mem_iff.mpr (List.mem_range.mpr hn)
    rcases List.mem_append.mp hmem with hmem | hmem
    · exact absurd hmem hclosed
    · exact Option.mem_toList.mp hmem
  released := by
    intro hdestroyed n hn
    have hall := h.accounted
    rw [current_of_vacant (h.gone hdestroyed), Option.toList_none, List.append_nil] at hall
    rw [hall.count_eq]
    exact List.count_eq_one_of_mem List.nodup_range (List.mem_range.mpr hn)

/-! ## One call -/

section Call

variable {s s' : State}

/-- A `connect` whose arguments are refused does nothing. -/
theorem connect_of_not_passes {k : Kind} (nonBlockingSocket : Bool) (s : State) (a : Answers)
    {peer : Peer k} (h : ¬ peer.Passes) : (s.connect nonBlockingSocket a peer).1 = s := by
  cases peer with
  | tcp hostname port =>
    rw [State.connect, State.tcpConnect]
    split_ifs with hname hport
    · rfl
    · rfl
    all_goals exact absurd ⟨hname, Nat.le_of_not_lt hport⟩ h
  | unix sockname => rw [State.connect, State.unixConnect, if_pos (not_not.mp h)]

/-- Any other stores what `socket` returns, and nothing after that changes the client. -/
theorem tcpConnect_fst (s : State) {hostname : String} {port : ℕ} (a : Answers)
    (h : hostname ≠ "" ∧ port ≤ 65535) :
    (s.tcpConnect hostname port a).1 = s.assign O_RDWR a.socket := by
  rw [State.tcpConnect, if_neg h.1, if_neg (Nat.not_lt.mpr h.2)]
  dsimp only
  split_ifs <;> rfl

theorem unixConnect_fst (s : State) (nonBlockingSocket : Bool) {sockname : String} (a : Answers)
    (h : sockname ≠ "") :
    (s.unixConnect nonBlockingSocket sockname a).1 =
      s.assign (unixFlags nonBlockingSocket) a.socket := by
  rw [State.unixConnect, if_neg h]
  dsimp only
  split_ifs <;> rfl

theorem connect_of_passes {k : Kind} (nonBlockingSocket : Bool) (s : State) (a : Answers)
    {peer : Peer k} (h : peer.Passes) :
    ∃ flags, (s.connect nonBlockingSocket a peer).1 = s.assign flags a.socket := by
  cases peer with
  | tcp hostname port => exact ⟨_, tcpConnect_fst s a h⟩
  | unix sockname => exact ⟨_, unixConnect_fst s nonBlockingSocket a h⟩

theorem current_assign (s : State) (flags : ℕ) (socket : Option ℕ) :
    (s.assign flags socket).current = socket.map fun _ => s.obtained := by
  cases socket with
  | none => rfl
  | some fd => simp [State.assign, State.current]

theorem closed_assign (s : State) (flags : ℕ) (socket : Option ℕ) :
    (s.assign flags socket).closed = s.closed := by
  cases socket <;> rfl

theorem destroyed_assign (s : State) (flags : ℕ) (socket : Option ℕ) :
    (s.assign flags socket).destroyed = s.destroyed := by
  cases socket <;> rfl

theorem obtained_le_assign (s : State) (flags : ℕ) (socket : Option ℕ) :
    s.obtained ≤ (s.assign flags socket).obtained := by
  cases socket with
  | none => exact Nat.le_refl _
  | some fd => exact Nat.le_succ _

/-- `socket` is called with nothing in `data_socket`. -/
theorem Inv.assign (h : Inv s) (hvacant : s.dataSocket = none) (hup : s.destroyed = false)
    (flags : ℕ) (socket : Option ℕ) : Inv (s.assign flags socket) where
  opened := by
    intro fd hfd
    cases socket with
    | none => cases hfd
    | some fd' => exact ⟨s.obtained, current_assign s flags (some fd')⟩
  accounted := by
    have hall := h.accounted
    rw [current_of_vacant hvacant, Option.toList_none, List.append_nil] at hall
    rw [current_assign, closed_assign]
    cases socket with
    | none =>
      rw [Option.map_none, Option.toList_none, List.append_nil]
      exact hall
    | some fd =>
      rw [State.assign, List.range_succ]
      exact hall.append_right _
  gone := by
    intro hdestroyed
    rw [destroyed_assign, hup] at hdestroyed
    cases hdestroyed

/-- `socket` is called with a descriptor in `data_socket`. -/
theorem not_owned_assign (h : Inv s) {fd : ℕ} (hfd : s.dataSocket = some fd) (flags : ℕ)
    (socket : Option ℕ) : ¬ Owned (s.assign flags socket) := by
  intro howned
  obtain ⟨n, hn⟩ := h.opened fd hfd
  have hall := h.accounted
  rw [hn, Option.toList_some] at hall
  have hlt : n < s.obtained :=
    List.mem_range.mp (hall.mem_iff.mp (List.mem_append_right _ (List.mem_singleton_self n)))
  have hclosed : n ∉ s.closed := by
    have hnodup := hall.nodup_iff.mpr List.nodup_range
    exact fun hmem => List.disjoint_of_nodup_append hnodup hmem (List.mem_singleton_self n)
  -- the one that was there is not the one that is there
  have hcurrent := howned.held n (hlt.trans_le (obtained_le_assign s flags socket))
    (by rwa [closed_assign])
  rw [current_assign, Option.map_eq_some_iff] at hcurrent
  obtain ⟨-, -, rfl⟩ := hcurrent
  exact Nat.lt_irrefl _ hlt

theorem Inv.close (h : Inv s) : Inv s.close := by
  unfold State.close
  cases hfd : s.dataSocket with
  | none => exact h
  | some fd =>
    refine ⟨nofun, ?_, fun _ => rfl⟩
    have hall := h.accounted
    rw [State.current, hfd, Option.bind_some] at hall
    simpa [State.current] using hall

theorem close_dataSocket (s : State) : s.close.dataSocket = none := by
  unfold State.close
  cases hfd : s.dataSocket with
  | none => exact hfd
  | some fd => rfl

theorem Inv.destroy (h : Inv s) : Inv { s.close with destroyed := true } where
  opened := h.close.opened
  accounted := h.close.accounted
  gone _ := close_dataSocket s

/-- The flag word of a descriptor changes. -/
theorem current_setFlags {fd : ℕ} {d : Descriptor} (hd : s.files fd = some d) (flags : ℕ) :
    State.current { s with files := Function.update s.files fd (some { d with flags := flags }) } =
      s.current := by
  have hserial : ∀ fd', ((Function.update s.files fd (some { d with flags := flags })) fd').map
      Descriptor.serial = (s.files fd').map Descriptor.serial := by
    intro fd'
    by_cases hfd : fd' = fd
    · rw [hfd, Function.update_self, hd]
      rfl
    · rw [Function.update_of_ne hfd]
  simp only [State.current, hserial]

/-- A write may change the flag word of `data_socket`, and nothing else. -/
theorem Inv.write {k : Kind} {nonBlockingSocket : Bool} {fd : ℕ} {data : List UInt8}
    {blocking nonBlocking : Fcntl} {answers : List WriteAnswer} {ret : Int} (h : Inv s)
    (hs : s.write nonBlockingSocket fd data blocking nonBlocking answers k = some (s', ret)) :
    Inv s' := by
  cases k with
  | tcp =>
    obtain ⟨r, -, hr⟩ := Option.map_eq_some_iff.mp hs
    cases hr
    exact h
  | unix =>
    obtain ⟨d, hd, hs⟩ := Option.bind_eq_some_iff.mp hs
    obtain ⟨w, -, hw⟩ := Option.map_eq_some_iff.mp hs
    cases hw
    have hcurrent := current_setFlags hd w.flags
    refine ⟨fun fd' hfd => ?_, ?_, h.gone⟩
    · rw [hcurrent]
      exact h.opened fd' hfd
    · rw [hcurrent]
      exact h.accounted

end Call

/-! ## Sequences of calls -/

section Sequences

variable {k : Kind} {nonBlockingSocket : Bool} {s s' : State}

/-- A step is a call on a client that has not been destroyed. -/
theorem perform_of_step {a : Act k} (h : step nonBlockingSocket s a = some s') :
    s.destroyed = false ∧ ∃ o, perform nonBlockingSocket s a = some (s', o) := by
  rw [step] at h
  split_ifs at h with hdestroyed
  obtain ⟨⟨t, o⟩, hr, rfl⟩ := Option.map_eq_some_iff.mp h
  exact ⟨Bool.eq_false_iff.mpr hdestroyed, o, hr⟩

theorem step_connect {peer : Peer k} {a : Answers}
    (h : step nonBlockingSocket s (.connect peer a) = some s') :
    s.destroyed = false ∧ s' = (s.connect nonBlockingSocket a peer).1 := by
  obtain ⟨hup, o, ho⟩ := perform_of_step h
  rw [perform] at ho
  split_ifs at ho
  cases ho
  exact ⟨hup, rfl⟩

theorem Inv.step {a : Act k} (h : Inv s) (hvacant : Vacant s a)
    (hs : step nonBlockingSocket s a = some s') : Inv s' := by
  obtain ⟨hup, o, ho⟩ := perform_of_step hs
  cases a with
  | connect peer a =>
    obtain ⟨-, rfl⟩ := step_connect hs
    by_cases hpasses : peer.Passes
    · obtain ⟨flags, hflags⟩ := connect_of_passes nonBlockingSocket s a hpasses
      rw [hflags]
      exact h.assign (hvacant hpasses) hup flags a.socket
    · rwa [connect_of_not_passes nonBlockingSocket s a hpasses]
  | write data blocking nonBlocking answers =>
    rw [perform] at ho
    split at ho
    · cases ho
      exact h
    · obtain ⟨⟨t, ret⟩, hw, hr⟩ := Option.map_eq_some_iff.mp ho
      cases hr
      exact h.write hw
  | read bufferSize a =>
    rw [perform] at ho
    split at ho <;> cases ho <;> exact h
  | close =>
    cases ho
    exact h.close
  | destroy =>
    cases ho
    exact h.destroy

/-- A `connect` that finds a descriptor loses it. -/
theorem not_owned_step {a : Act k} (h : Inv s) (hvacant : ¬ Vacant s a)
    (hs : step nonBlockingSocket s a = some s') : ¬ Owned s' := by
  cases a with
  | connect peer a =>
    obtain ⟨-, rfl⟩ := step_connect hs
    obtain ⟨hpasses, hfd⟩ := Classical.not_imp.mp hvacant
    obtain ⟨fd, hfd⟩ := Option.ne_none_iff_exists'.mp hfd
    obtain ⟨flags, hflags⟩ := connect_of_passes nonBlockingSocket s a hpasses
    rw [hflags]
    exact not_owned_assign h hfd flags a.socket
  | write | read | close | destroy => exact absurd trivial hvacant

end Sequences

/-- **When a client loses nothing.**  Along any sequence of calls, the destructor at its end
included, every descriptor is in custody exactly when every `connect` that comes to `socket`
finds `-1` in `data_socket`. -/
theorem nothing_lost_iff (k : Kind) (nonBlockingSocket : Bool) (acts : List (Act k)) :
    Always (step nonBlockingSocket) Owned {} acts ↔
      Guarded (step nonBlockingSocket) Vacant {} acts :=
  always_iff_guarded (fun _ h => h.owned) (fun _ _ _ h hvacant hs => h.step hvacant hs)
    (fun _ _ _ h hvacant hs => not_owned_step h hvacant hs) inv_init

/-- The name of the server cannot be resolved, the second time it can, and the client is
destroyed: the first descriptor is open for ever. -/
theorem retry_loses_descriptor :
    let acts : List (Act .tcp) :=
      [.connect (.tcp "server" 10001) ⟨some 3, false, false⟩,
        .connect (.tcp "server" 10001) ⟨some 4, true, true⟩, .destroy]
    ∃ s, run (step false) {} acts = some s ∧ s.destroyed = true ∧ s.obtained = 2 ∧
      s.closed = [1] ∧ s.files 3 = some ⟨0, O_RDWR⟩ ∧ ¬ Owned s := by
  intro acts
  refine ⟨_, rfl, rfl, rfl, rfl, rfl, fun howned => ?_⟩
  exact absurd (howned.released rfl 0 (by decide)) (by decide)

/-- The socket of a `UnixSocketClient` is created in the mode that was asked for, which is
where `mode_kept_iff` begins. -/
theorem mode_of_unixConnect (s : State) (nonBlockingSocket : Bool) {sockname : String}
    (hname : sockname ≠ "") {a : Answers} {fd : ℕ} (hfd : a.socket = some fd) :
    ∃ d, (s.unixConnect nonBlockingSocket sockname a).1.dataSocket = some fd ∧
      (s.unixConnect nonBlockingSocket sockname a).1.files fd = some d ∧
      d.flags.testBit 11 = nonBlockingSocket := by
  rw [unixConnect_fst s nonBlockingSocket a hname, hfd]
  refine ⟨⟨s.obtained, unixFlags nonBlockingSocket⟩, rfl, Function.update_self .., ?_⟩
  show (unixFlags nonBlockingSocket).testBit 11 = nonBlockingSocket
  cases nonBlockingSocket <;> decide

end ClientSocket

end Nbuss
