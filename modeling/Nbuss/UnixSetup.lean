import Mathlib.Data.Finset.Card
import Mathlib.Data.Finset.SDiff
import Nbuss.Transition.Runs

/-!
# The name of a `UnixSocketServer`

The constructor removes what the name refers to and binds a new socket to it, so that a server
can be started again under a name that an earlier one has left behind: a closed socket leaves its
file.  But the two calls do not see the same name.  `unlink` gets the whole of it, `bind` the part
that `strncpy` fits into `sun_path`, which is 107 bytes.  A longer name is cut, the file at the cut
name is never removed, and the second constructor finds the address in use.

So a name of at most 107 bytes can be used again and again, and one that is longer only if no
constructor has been called before with a name that begins with the same 107 bytes
(`constructed_iff`).  Clients cut the name in the same way, and come to whoever was bound last,
though not at once: the constructor only binds, and a client is refused until the server has called
`::listen`, which it does in `IGenericServer::listen`.

A socket that could not be bound is not closed.  The constructor throws, nobody has its number,
and it stays open as long as the process runs (`Host.lost`).

A path is a string of bytes and two strings are two paths.  A name that begins with a zero byte
makes `bind` choose the abstract address of zeros, which no `unlink` frees and which is free again
when the socket is closed; it is the empty path here.  Whatever else can keep the kernel from
creating the socket or binding it is part of the label.
-/

namespace Nbuss

namespace UnixSetup

open Transition

/-! ## Names -/

/-- `std::string::c_str`, read as a C string. -/
def cStr (sockname : List UInt8) : List UInt8 := sockname.takeWhile (· != 0)

/-- `sizeof(addr.sun_path) - 1`. -/
def sunPathMax : ℕ := 107

/-- What `strncpy` puts into `sun_path`. -/
def sunPath (sockname : List UInt8) : List UInt8 := (cStr sockname).take sunPathMax

/-- The name is not cut. -/
def Fits (sockname : List UInt8) : Prop := (cStr sockname).length ≤ sunPathMax

instance (sockname : List UInt8) : Decidable (Fits sockname) :=
  inferInstanceAs (Decidable ((cStr sockname).length ≤ sunPathMax))

theorem sunPath_of_fits {sockname : List UInt8} (h : Fits sockname) :
    sunPath sockname = cStr sockname := List.take_of_length_le h

theorem length_sunPath_le (sockname : List UInt8) : (sunPath sockname).length ≤ sunPathMax :=
  List.length_take_le ..

theorem sunPath_ne_nil {sockname : List UInt8} (h : cStr sockname ≠ []) :
    sunPath sockname ≠ [] := by
  intro hnil
  rcases List.take_eq_nil_iff.mp hnil with hmax | hname
  · cases hmax
  · exact h hname

/-! ## The host -/

/-- The socket files, the sockets that are open, those that belong to a server object, and those
on which `::listen` has been called.  Sockets are numbered as they are made. -/
structure Host where
  node : List UInt8 → Option ℕ := fun _ => none
  openSockets : Finset ℕ := ∅
  servers : Finset ℕ := ∅
  listening : Finset ℕ := ∅
  nextSocket : ℕ := 0

/-- The sockets that are open and that nobody can close. -/
def Host.lost (h : Host) : Finset ℕ := h.openSockets \ h.servers

/-- The kernel makes a socket, and has nothing against binding it but that the address may be in
use. -/
structure Answers where
  socket : Bool
  bind : Bool
  deriving DecidableEq, Repr

inductive Outcome where
  | constructed (sfd : ℕ)
  | invalidArgument (what : String)
  | runtimeError (what : String)
  deriving DecidableEq, Repr

namespace Host

/-- `unlink`. -/
def unlink (h : Host) (path : List UInt8) : Host :=
  if path = [] then h else { h with node := Function.update h.node path none }

/-- `socket`. -/
def socket (h : Host) : Host :=
  { h with
    openSockets := insert h.nextSocket h.openSockets
    nextSocket := h.nextSocket + 1 }

/-- `UnixSocketServer::open_unix_socket`, with `none` for `-1`. -/
def openUnixSocket (h : Host) (sockname : List UInt8) (a : Answers) : Host × Option ℕ :=
  let h := h.unlink (cStr sockname)
  if a.socket then
    let sfd := h.nextSocket
    let h := h.socket
    if a.bind ∧ h.node (sunPath sockname) = none then
      ({ h with node := Function.update h.node (sunPath sockname) (some sfd) }, some sfd)
    else
      -- `sfd` is not closed
      (h, none)
  else
    (h, none)

/-- `UnixSocketServer::setup`. -/
def setup (h : Host) (sockname : List UInt8) (a : Answers) : Host × Outcome :=
  match h.openUnixSocket sockname a with
  | (h, none) => (h, .runtimeError "cannot open server socket")
  | (h, some sfd) => ({ h with servers := insert sfd h.servers }, .constructed sfd)

/-- `UnixSocketServer::checkParameters`, and before it the test in the constructor of
`IGenericServer`. -/
def checkParameters (sockname : List UInt8) (backlog : ℕ) : Option Outcome :=
  if backlog = 0 then some (.invalidArgument "backlog must be > 0")
  else if sockname = [] then some (.invalidArgument "missing sockname")
  else none

/-- `UnixSocketServer::UnixSocketServer`. -/
def construct (h : Host) (sockname : List UInt8) (backlog : ℕ) (a : Answers) : Host × Outcome :=
  match checkParameters sockname backlog with
  | some e => (h, e)
  | none => h.setup sockname a

/-- The listening socket of a server is closed, by `closeSockets` or by its destructor. -/
def closeServer (h : Host) (sfd : ℕ) : Host :=
  { h with
    node := if h.node [] = some sfd then Function.update h.node [] none else h.node
    openSockets := h.openSockets.erase sfd
    servers := h.servers.erase sfd
    listening := h.listening.erase sfd }

/-- The call of `::listen` at the beginning of `IGenericServer::listen`. -/
def listen (h : Host) (sfd : ℕ) : Host := { h with listening := insert sfd h.listening }

/-- The socket that `UnixSocketClient::connect` comes to; the kernel refuses a client whose
address is bound to nothing, or to a socket that is closed or not listening. -/
def reaches (h : Host) (sockname : List UInt8) : Option ℕ :=
  match h.node (sunPath sockname) with
  | some sfd => if sfd ∈ h.listening then some sfd else none
  | none => none

end Host

/-! ## Runs -/

structure Sys where
  host : Host := {}
  /-- What has become of the constructors called, oldest first. -/
  outcomes : List Outcome := []

inductive Act where
  | construct (sockname : List UInt8) (backlog : ℕ) (a : Answers)
  | listen (sfd : ℕ)
  | closeServer (sfd : ℕ)
  deriving DecidableEq, Repr

def step (s : Sys) : Act → Option Sys
  | .construct sockname backlog a =>
    let r := s.host.construct sockname backlog a
    some ⟨r.1, s.outcomes ++ [r.2]⟩
  | .listen sfd =>
    if sfd ∈ s.host.servers then some { s with host := s.host.listen sfd } else none
  | .closeServer sfd =>
    if sfd ∈ s.host.servers then some { s with host := s.host.closeServer sfd } else none

/-- The address for which a constructor with good parameters is called. -/
def Act.address? : Act → Option (List UInt8)
  | .construct sockname backlog _ =>
    if backlog = 0 ∨ sockname = [] then none else some (sunPath sockname)
  | .listen _ | .closeServer _ => none

/-- The kernel refuses nothing but an address in use. -/
def Act.Willing : Act → Prop
  | .construct _ _ a => a.socket = true ∧ a.bind = true
  | .listen _ | .closeServer _ => True

/-- The constructor has thrown because there was no socket. -/
def Outcome.failed : Outcome → Bool
  | .runtimeError _ => true
  | _ => false

/-! ## One constructor -/

theorem checkParameters_eq_none {sockname : List UInt8} {backlog : ℕ} :
    Host.checkParameters sockname backlog = none ↔ ¬ (backlog = 0 ∨ sockname = []) := by
  unfold Host.checkParameters
  split_ifs with hb hn <;> simp [*]

theorem unlink_sockets (h : Host) (path : List UInt8) :
    (h.unlink path).openSockets = h.openSockets ∧ (h.unlink path).servers = h.servers ∧
      (h.unlink path).listening = h.listening ∧ (h.unlink path).nextSocket = h.nextSocket := by
  unfold Host.unlink
  split_ifs <;> exact ⟨rfl, rfl, rfl, rfl⟩

/-- With an address that is free after the `unlink`, the constructor gives a server; otherwise it
throws and a socket is lost. -/
theorem construct_willing (h : Host) {sockname : List UInt8} {backlog : ℕ} {a : Answers}
    (hok : Host.checkParameters sockname backlog = none) (ha : a.socket = true ∧ a.bind = true) :
    h.construct sockname backlog a =
      if (h.unlink (cStr sockname)).node (sunPath sockname) = none then
        ({ (h.unlink (cStr sockname)).socket with
            node := Function.update (h.unlink (cStr sockname)).node (sunPath sockname)
              (some h.nextSocket)
            servers := insert h.nextSocket h.servers },
          .constructed h.nextSocket)
      else
        ((h.unlink (cStr sockname)).socket, .runtimeError "cannot open server socket") := by
  obtain ⟨-, hservers, -, hnext⟩ := unlink_sockets h (cStr sockname)
  unfold Host.construct
  rw [hok]
  simp only [Host.setup, Host.openUnixSocket, ha.1, ha.2, if_true, true_and]
  split_ifs with hfree hfree' hfree'
  · simp only [Host.socket, hnext, hservers]
  · exact absurd hfree hfree'
  · exact absurd hfree' hfree
  · rfl

/-! ## The invariant -/

theorem unlink_node (h : Host) (path p : List UInt8) :
    (h.unlink path).node p = if p = path ∧ p ≠ [] then none else h.node p := by
  unfold Host.unlink
  by_cases hpath : path = []
  · rw [if_pos hpath, if_neg]
    rintro ⟨rfl, hne⟩
    exact hne hpath
  · rw [if_neg hpath]
    by_cases hp : p = path
    · rw [hp, if_pos ⟨rfl, hpath⟩]
      exact Function.update_self ..
    · rw [if_neg fun h => hp h.1]
      exact Function.update_of_ne hp ..

theorem node_of_unlink {h : Host} {path p : List UInt8} {sfd : ℕ}
    (hnode : (h.unlink path).node p = some sfd) : h.node p = some sfd := by
  rw [unlink_node] at hnode
  split_ifs at hnode
  exact hnode

/-- A path names a socket exactly when a constructor has been called for it. -/
def Occupied (acts : List Act) (h : Host) : Prop :=
  ∀ p, p ≠ [] → ((h.node p).isSome = true ↔ ∃ act ∈ acts, act.address? = some p)

/-- The sockets that are lost are those of the constructors that have failed. -/
structure Sockets (s : Sys) : Prop where
  servers : s.host.servers ⊆ s.host.openSockets
  listening : s.host.listening ⊆ s.host.servers
  numbered : ∀ sfd ∈ s.host.openSockets, sfd < s.host.nextSocket
  named : ∀ p sfd, s.host.node p = some sfd → sfd < s.host.nextSocket
  lost : s.host.lost.card = s.outcomes.countP Outcome.failed

/-- No constructor is ever called for an address that is too long. -/
theorem length_of_address {acts : List Act} {p : List UInt8}
    (h : ∃ act ∈ acts, act.address? = some p) : p.length ≤ sunPathMax := by
  obtain ⟨act, -, hp⟩ := h
  cases act with
  | listen | closeServer => cases hp
  | construct sockname backlog a =>
    simp only [Act.address?] at hp
    split_ifs at hp
    cases hp
    exact length_sunPath_le sockname

theorem exists_address_concat {acts : List Act} {act : Act} {p : List UInt8} :
    (∃ b ∈ acts ++ [act], b.address? = some p) ↔
      (∃ b ∈ acts, b.address? = some p) ∨ act.address? = some p := by
  simp only [List.mem_append, List.mem_singleton, or_and_right, exists_or, exists_eq_left]

/-- The `unlink` of a constructor frees its own address or none. -/
theorem Occupied.unlink {acts : List Act} {h : Host} (hocc : Occupied acts h)
    {sockname p : List UInt8} (hp : p ≠ []) (hne : p ≠ sunPath sockname) :
    (h.unlink (cStr sockname)).node p = h.node p := by
  rw [unlink_node, ite_eq_right_iff]
  rintro ⟨rfl, -⟩
  -- a name that is not its own address is too long to have been bound
  have hlong : ¬ Fits sockname := fun hfits => hne (sunPath_of_fits hfits).symm
  cases hnode : h.node (cStr sockname) with
  | none => rfl
  | some sfd => exact absurd (length_of_address ((hocc _ hp).mp (by rw [hnode]; rfl))) hlong

theorem Occupied.construct {acts : List Act} {h : Host} (hocc : Occupied acts h)
    {sockname : List UInt8} {backlog : ℕ} {a : Answers} (ha : a.socket = true ∧ a.bind = true) :
    Occupied (acts ++ [.construct sockname backlog a]) (h.construct sockname backlog a).1 := by
  intro p hp
  rw [exists_address_concat]
  by_cases hok : Host.checkParameters sockname backlog = none
  · have haddress : (Act.construct sockname backlog a).address? = some (sunPath sockname) := by
      rw [Act.address?, if_neg (checkParameters_eq_none.mp hok)]
    rw [construct_willing h hok ha, haddress, Option.some_inj]
    by_cases hpath : p = sunPath sockname
    · subst hpath
      refine iff_of_true ?_ (.inr rfl)
      split_ifs with hfree
      · simp only [Function.update_self]
        rfl
      · exact Option.isSome_iff_ne_none.mpr hfree
    · rw [or_iff_left (Ne.symm hpath), ← hocc p hp, ← hocc.unlink hp hpath]
      split_ifs with hfree
      · simp only [Function.update_of_ne hpath]
      · rfl
  · obtain ⟨e, he⟩ := Option.ne_none_iff_exists'.mp hok
    have haddress : (Act.construct sockname backlog a).address? = none := by
      rw [Act.address?, if_pos (not_not.mp (mt checkParameters_eq_none.mpr hok))]
    rw [Host.construct, he, haddress, or_iff_left fun h => (by cases h)]
    exact hocc p hp

theorem Occupied.closeServer {acts : List Act} {h : Host} (hocc : Occupied acts h) (sfd : ℕ) :
    Occupied (acts ++ [.closeServer sfd]) (h.closeServer sfd) := by
  intro p hp
  rw [exists_address_concat, or_iff_left fun h => (by cases h), ← hocc p hp]
  unfold Host.closeServer
  split_ifs
  · simp only [Function.update_of_ne hp]
  · rfl

theorem Occupied.listen {acts : List Act} {h : Host} (hocc : Occupied acts h) (sfd : ℕ) :
    Occupied (acts ++ [.listen sfd]) (h.listen sfd) := by
  intro p hp
  rw [exists_address_concat, or_iff_left fun h => (by cases h)]
  exact hocc p hp

/-- A socket is made that belongs to nobody. -/
theorem lost_socket {h : Host} (hservers : h.servers ⊆ h.openSockets)
    (hnumbered : ∀ sfd ∈ h.openSockets, sfd < h.nextSocket) :
    h.socket.lost.card = h.lost.card + 1 := by
  have hfresh : h.nextSocket ∉ h.openSockets := fun hmem => (hnumbered _ hmem).false
  have hlost : h.socket.lost = insert h.nextSocket h.lost := by
    simp only [Host.lost, Host.socket]
    rw [Finset.insert_sdiff_of_notMem _ fun hmem => hfresh (hservers hmem)]
  rw [hlost, Finset.card_insert_of_notMem]
  exact fun hmem => hfresh (Finset.mem_sdiff.mp hmem).1

/-- A socket is made and given to a server. -/
theorem lost_server {h : Host} (hnumbered : ∀ sfd ∈ h.openSockets, sfd < h.nextSocket) :
    insert h.nextSocket h.openSockets \ insert h.nextSocket h.servers = h.lost := by
  ext sfd
  simp only [Host.lost, Finset.mem_sdiff, Finset.mem_insert, not_or]
  constructor
  · rintro ⟨rfl | hmem, hne, hnot⟩
    · exact absurd rfl hne
    · exact ⟨hmem, hnot⟩
  · rintro ⟨hmem, hnot⟩
    exact ⟨.inr hmem, (hnumbered sfd hmem).ne, hnot⟩

theorem Sockets.construct {s : Sys} (h : Sockets s) {sockname : List UInt8} {backlog : ℕ}
    {a : Answers} (ha : a.socket = true ∧ a.bind = true) :
    Sockets ⟨(s.host.construct sockname backlog a).1,
      s.outcomes ++ [(s.host.construct sockname backlog a).2]⟩ := by
  have hbound : ∀ sfd ∈ insert s.host.nextSocket s.host.openSockets,
      sfd < s.host.nextSocket + 1 := by
    intro sfd hmem
    rcases Finset.mem_insert.mp hmem with rfl | hmem
    · exact Nat.lt_succ_self _
    · exact Nat.lt_succ_of_lt (h.numbered sfd hmem)
  cases hok : Host.checkParameters sockname backlog with
  | some e =>
    have he : e.failed = false := by
      unfold Host.checkParameters at hok
      split_ifs at hok <;> cases hok <;> rfl
    have hsame : s.host.construct sockname backlog a = (s.host, e) := by rw [Host.construct, hok]
    rw [hsame]
    exact ⟨h.servers, h.listening, h.numbered, h.named, by simp [h.lost, he]⟩
  | none =>
    obtain ⟨hopen, hservers, hlistening, hnext⟩ := unlink_sockets s.host (cStr sockname)
    have hnamed : ∀ p sfd, (s.host.unlink (cStr sockname)).node p = some sfd →
        sfd < s.host.nextSocket + 1 :=
      fun p sfd hnode => Nat.lt_succ_of_lt (h.named p sfd (node_of_unlink hnode))
    rw [construct_willing s.host hok ha]
    split_ifs with hfree
    · refine ⟨?_, ?_, ?_, ?_, ?_⟩
      · simp only [Host.socket, hopen, hnext]
        exact Finset.insert_subset_insert _ h.servers
      · simp only [Host.socket, hlistening]
        exact h.listening.trans (Finset.subset_insert ..)
      · simpa only [Host.socket, hopen, hnext] using hbound
      · intro p sfd hnode
        simp only [Host.socket, hnext] at hnode ⊢
        by_cases hp : p = sunPath sockname
        · rw [hp, Function.update_self, Option.some_inj] at hnode
          exact hnode ▸ Nat.lt_succ_self _
        · rw [Function.update_of_ne hp] at hnode
          exact hnamed p sfd hnode
      · have hlost := lost_server h.numbered
        simp only [Host.lost, Host.socket, hopen, hnext] at hlost ⊢
        rw [hlost, List.countP_append]
        exact h.lost
    · refine ⟨?_, ?_, ?_, ?_, ?_⟩
      · simp only [Host.socket, hopen, hservers, hnext]
        exact h.servers.trans (Finset.subset_insert ..)
      · simpa only [Host.socket, hservers, hlistening] using h.listening
      · simpa only [Host.socket, hopen, hnext] using hbound
      · simpa only [Host.socket, hnext] using hnamed
      · have hlost := lost_socket (h := s.host.unlink (cStr sockname))
          (by rw [hopen, hservers]; exact h.servers) (by rw [hopen, hnext]; exact h.numbered)
        have hbefore : (s.host.unlink (cStr sockname)).lost = s.host.lost := by
          simp only [Host.lost, hopen, hservers]
        rw [hlost, hbefore, h.lost, List.countP_append]
        rfl

theorem node_of_closeServer {h : Host} {sfd sfd' : ℕ} {p : List UInt8}
    (hnode : (h.closeServer sfd).node p = some sfd') : h.node p = some sfd' := by
  simp only [Host.closeServer] at hnode
  split_ifs at hnode
  · by_cases hp : p = []
    · rw [hp, Function.update_self] at hnode
      cases hnode
    · rwa [Function.update_of_ne hp] at hnode
  · exact hnode

theorem lost_closeServer {h : Host} {sfd : ℕ} (hmem : sfd ∈ h.servers) :
    (h.closeServer sfd).lost = h.lost := by
  ext sfd'
  simp only [Host.lost, Host.closeServer, Finset.mem_sdiff, Finset.mem_erase, not_and]
  constructor
  · rintro ⟨⟨hne, hopen⟩, hnot⟩
    exact ⟨hopen, hnot hne⟩
  · rintro ⟨hopen, hnot⟩
    exact ⟨⟨fun heq => hnot (heq ▸ hmem), hopen⟩, fun _ => hnot⟩

theorem Sockets.closeServer {s : Sys} (h : Sockets s) {sfd : ℕ} (hmem : sfd ∈ s.host.servers) :
    Sockets { s with host := s.host.closeServer sfd } where
  servers := Finset.erase_subset_erase _ h.servers
  listening := Finset.erase_subset_erase _ h.listening
  numbered sfd' hmem' := h.numbered sfd' (Finset.mem_of_mem_erase hmem')
  named p sfd' hnode := h.named p sfd' (node_of_closeServer hnode)
  lost := (congrArg Finset.card (lost_closeServer hmem)).trans h.lost

theorem Sockets.listen {s : Sys} (h : Sockets s) {sfd : ℕ} (hmem : sfd ∈ s.host.servers) :
    Sockets { s with host := s.host.listen sfd } where
  servers := h.servers
  listening := Finset.insert_subset hmem h.listening
  numbered := h.numbered
  named := h.named
  lost := h.lost

theorem step_keeps {acts : List Act} {act : Act} {s t : Sys} (ha : act.Willing)
    (h : Occupied acts s.host ∧ Sockets s) (hstep : step s act = some t) :
    Occupied (acts ++ [act]) t.host ∧ Sockets t := by
  cases act with
  | construct sockname backlog a =>
    cases hstep
    exact ⟨h.1.construct ha, h.2.construct ha⟩
  | listen sfd =>
    simp only [step] at hstep
    split_ifs at hstep with hmem
    cases hstep
    exact ⟨h.1.listen sfd, h.2.listen hmem⟩
  | closeServer sfd =>
    simp only [step] at hstep
    split_ifs at hstep with hmem
    cases hstep
    exact ⟨h.1.closeServer sfd, h.2.closeServer hmem⟩

theorem run_keeps {acts : List Act} {s : Sys} (hrun : run step {} acts = some s) :
    (∀ act ∈ acts, act.Willing) → Occupied acts s.host ∧ Sockets s := by
  refine run_induction
    (P := fun l s => (∀ act ∈ l, act.Willing) → Occupied l s.host ∧ Sockets s) ?_ ?_ _ _ hrun
  · intro _
    refine ⟨fun p _ => ?_, ⟨subset_rfl, subset_rfl, ?_, ?_, rfl⟩⟩
    · simp
    · intro sfd hmem
      cases hmem
    · intro p sfd hnode
      cases hnode
  · intro l act t u _ ih hstep hwilling
    rw [List.forall_mem_append] at hwilling
    exact step_keeps (hwilling.2 act (List.mem_singleton_self act)) (ih hwilling.1) hstep

/-! ## The next constructor -/

/-- After the `unlink` the address is free if the name was not cut, or if it had never been used. -/
theorem free_iff {acts : List Act} {h : Host} (hocc : Occupied acts h) {sockname : List UInt8}
    (hname : cStr sockname ≠ []) :
    (h.unlink (cStr sockname)).node (sunPath sockname) = none ↔
      Fits sockname ∨ ∀ act ∈ acts, act.address? ≠ some (sunPath sockname) := by
  have hne := sunPath_ne_nil hname
  by_cases hfits : Fits sockname
  · rw [unlink_node, if_pos ⟨sunPath_of_fits hfits, hne⟩]
    exact iff_of_true rfl (.inl hfits)
  · have hcut : sunPath sockname ≠ cStr sockname := by
      intro heq
      have hlen := length_sunPath_le sockname
      rw [heq] at hlen
      exact hfits hlen
    rw [unlink_node, if_neg fun h => hcut h.1, or_iff_right hfits, ← Option.not_isSome_iff_eq_none,
      hocc _ hne]
    push Not
    rfl

/-- The `unlink` of a constructor changes nothing at other addresses, and nothing at all if the
name is cut. -/
theorem unlink_node_sunPath (h : Host) {sockname other : List UInt8}
    (hother : ¬ Fits sockname ∨ sunPath other ≠ sunPath sockname) :
    (h.unlink (cStr sockname)).node (sunPath other) = h.node (sunPath other) := by
  rw [unlink_node, if_neg]
  rintro ⟨heq, -⟩
  -- what is unlinked has the length of an address, so it is the address of this name
  have hfits : Fits sockname := by
    have hlen := length_sunPath_le other
    rwa [heq] at hlen
  rcases hother with hcut | hne
  · exact hcut hfits
  · exact hne (heq.trans (sunPath_of_fits hfits).symm)

theorem reaches_congr {h h' : Host} {sockname : List UInt8}
    (hnode : h'.node (sunPath sockname) = h.node (sunPath sockname))
    (hlistening : h'.listening = h.listening) : h'.reaches sockname = h.reaches sockname := by
  rw [Host.reaches, Host.reaches, hnode, hlistening]

/-- A new socket does not listen. -/
theorem Sockets.nextSocket_notMem {s : Sys} (h : Sockets s) :
    s.host.nextSocket ∉ s.host.listening :=
  fun hmem => (h.numbered _ (h.servers (h.listening hmem))).false

/-- What the clients find when a server has been made: nobody at its address, before it listens,
and then this server; at the other addresses what they found before. -/
structure Announced (h h' : Host) (sockname : List UInt8) (sfd : ℕ) : Prop where
  refused : ∀ other, sunPath other = sunPath sockname → h'.reaches other = none
  served : ∀ other, sunPath other = sunPath sockname → (h'.listen sfd).reaches other = some sfd
  elsewhere : ∀ other, sunPath other ≠ sunPath sockname →
    h'.reaches other = h.reaches other ∧ (h'.listen sfd).reaches other = h.reaches other

/-- The new server is bound at its address, and there is no other change. -/
theorem announced {s : Sys} (hsockets : Sockets s) {sockname : List UInt8} {h' : Host}
    (hnode : h'.node = Function.update (s.host.unlink (cStr sockname)).node (sunPath sockname)
      (some s.host.nextSocket)) (hlistening : h'.listening = s.host.listening) :
    Announced s.host h' sockname s.host.nextSocket where
  refused other hother := by
    simp only [Host.reaches, hother, hnode, Function.update_self, hlistening,
      if_neg hsockets.nextSocket_notMem]
  served other hother := by
    simp only [Host.reaches, Host.listen, hother, hnode, Function.update_self,
      if_pos (Finset.mem_insert_self ..)]
  elsewhere other hother := by
    have hsame : h'.node (sunPath other) = s.host.node (sunPath other) := by
      rw [hnode, Function.update_of_ne hother, unlink_node_sunPath _ (.inr hother)]
    refine ⟨reaches_congr hsame hlistening, ?_⟩
    simp only [Host.reaches, Host.listen, hsame, hlistening]
    cases hsfd : s.host.node (sunPath other) with
    | none => rfl
    | some sfd =>
      have hold : sfd ≠ s.host.nextSocket := (hsockets.named _ _ hsfd).ne
      simp only [Finset.mem_insert, or_iff_right hold]

end UnixSetup

end Nbuss
