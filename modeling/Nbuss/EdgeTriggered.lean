import Nbuss.Events
import Nbuss.ServerRead
import Nbuss.Transition.Runs

/-!
# Reading under edge-triggered epoll

`listen` registers a connection with `EPOLLET`: it is reported when something has happened to it
since the last report, and not because there is something to read.  Bytes that a callback leaves
in the socket are reported again only when more bytes arrive, so whether the server reads what it
is sent depends on what the callback does with each job.

The kernel part of a connection is the bytes that have arrived and not been read, and the flag
`armed`, which says that the connection is on the ready list of the epoll instance: an arrival sets
it, so does the socket becoming writable, and a report clears it.  A report goes through
`connectionBranch`, the event waits its turn, and a thread makes the callback.  There is one such
thread in `listen`, and any number behind a `WorkQueue`.

The exact condition is `never_stranded_iff`: on each of the three jobs that can report input the
callback has to read until the socket is empty, or close.  `read` does the former, if it is not
asked for buffers of size zero or of a size that is negative as an `int`, with which `::read` fails;
`read_one_buffer` does not.  `listener_echo_server` meets it.
`my_listener` does not: it has no case for `AVAILABLE_FOR_READ_AND_WRITE`, which is what a socket
with room in its send buffer reports.  Behind `ThreadedServer2` this job arrives as
`AVAILABLE_FOR_READ`, and the same function meets the condition.
-/

namespace Nbuss

namespace EdgeTriggered

open Transition

/-! ## Callbacks -/

/-- What a callback does to the receiving side of the connection it is called for. -/
inductive Reaction where
  | nothing
  | close
  /-- `srv->read(fd, buffer_size)`. -/
  | read (bufferSize : ℕ)
  /-- `srv->read_one_buffer(fd, buffer_size)`. -/
  | readOneBuffer (bufferSize : ℕ)
  deriving DecidableEq, Repr

/-- `my_listener` of `main.cpp`. -/
def myListener : Job → Reaction
  | .closeSocket => .close
  | .availableForRead => .read 4096
  | _ => .nothing

/-- `listener_echo_server`. -/
def listenerEchoServer : Job → Reaction
  | .newSocket => .nothing
  | .closeSocket => .close
  | .socketIsClosed => .nothing
  | .availableForWrite => .nothing
  | .availableForReadAndWrite | .availableForRead => .read 4096

/-- A callback as `ThreadedServer2::internal_callback` calls it. -/
def behindThreadedServer2 (react : Job → Reaction) (job : Job) : Reaction :=
  match forwardedJob job with
  | some job => react job
  | none => .nothing

/-- The number of bytes each `::read` of `IGenericServer::read` asks for. -/
def readCount (bufferSize : ℕ) : ℕ := toSizeT (toInt bufferSize)

/-- `SSIZE_MAX`: a `::read` that is asked for more fails with `EINVAL`. -/
def ssizeMax : ℕ := 2 ^ 63 - 1

/-- A `::read` of this many bytes gets some if there are any. -/
def effective (count : ℕ) : Bool := 0 < count && count ≤ ssizeMax

/-- Afterwards there is nothing left to read. -/
def Reaction.settles : Reaction → Bool
  | .nothing => false
  | .close => true
  | .read bufferSize => effective (readCount bufferSize)
  | .readOneBuffer _ => false

/-- The jobs of an entry that can have `EPOLLIN` set. -/
def reportsInput : Job → Bool
  | .closeSocket | .availableForRead | .availableForReadAndWrite => true
  | _ => false

/-! ## The system -/

structure Conn where
  /-- All bytes that have arrived. -/
  sent : List UInt8 := []
  unread : List UInt8 := []
  armed : Bool := false
  closed : Bool := false
  /-- What the callback has been given. -/
  got : List UInt8 := []
  deriving DecidableEq, Repr

/-- The callback a thread is in. -/
inductive Task (κ : Type*) where
  | idle
  | closing (c : κ)
  /-- In `read`, with the answers of `::read` so far. -/
  | reading (c : κ) (bufferSize : ℕ) (answers : List ReadAnswer)
  | readingOne (c : κ) (bufferSize : ℕ)
  deriving DecidableEq, Repr

def Reaction.begin {κ : Type*} (c : κ) : Reaction → Task κ
  | .nothing => .idle
  | .close => .closing c
  | .read bufferSize => .reading c bufferSize []
  | .readOneBuffer bufferSize => .readingOne c bufferSize

structure Sys (κ ι : Type*) where
  conns : κ → Conn := fun _ => {}
  /-- The events that have been reported and not taken up. -/
  pending : List (κ × Job) := []
  threads : ι → Task κ := fun _ => .idle

inductive Act (κ ι : Type*) where
  /-- Bytes arrive. -/
  | arrive (c : κ) (bytes : List UInt8)
  /-- There is room in the send buffer again, or the connection has just been registered. -/
  | writable (c : κ)
  /-- `epoll_wait` reports a connection; the flag is what `is_IO` answers. -/
  | report (c : κ) (events : UInt32) (isIo : Bool)
  /-- The next event is taken up. -/
  | take (t : ι)
  /-- One `::read`. -/
  | answer (t : ι) (a : ReadAnswer)
  /-- `srv->close(fd)`. -/
  | close (t : ι)
  deriving DecidableEq, Repr

/-- What `epoll_wait` may report: a connection with something to read has `EPOLLIN`. -/
def Conn.Reports (conn : Conn) (events : UInt32) : Prop :=
  conn.armed = true ∧ conn.closed = false ∧ (conn.unread ≠ [] → has events EPOLLIN = true)

instance (conn : Conn) (events : UInt32) : Decidable (conn.Reports events) :=
  inferInstanceAs (Decidable (_ ∧ _ ∧ _))

/-- What a `::read` of up to `count` bytes may answer: bytes as long as there are any, unless too
many are asked for. -/
def Answers (count : ℕ) (unread : List UInt8) : ReadAnswer → Prop
  | .got bytes =>
    count ≤ ssizeMax ∧ bytes.length ≤ count ∧ unread.take bytes.length = bytes ∧
      (bytes = [] → count = 0 ∨ unread = [])
  | .failed _ => unread = [] ∨ ssizeMax < count

instance (count : ℕ) (unread : List UInt8) : (a : ReadAnswer) → Decidable (Answers count unread a)
  | .got _ => inferInstanceAs (Decidable (_ ∧ _ ∧ _ ∧ _))
  | .failed _ => inferInstanceAs (Decidable (_ ∨ _))

/-- The kernel hands over the bytes of an answer. -/
def Conn.took (conn : Conn) (a : ReadAnswer) : Conn :=
  { conn with unread := conn.unread.drop a.bytes.length }

/-- The connection is closed, and the kernel drops what has not been read. -/
def Conn.close (conn : Conn) : Conn := { conn with unread := [], armed := false, closed := true }

section Step

variable {κ ι : Type*} [DecidableEq κ] [DecidableEq ι]

def Sys.setConn (s : Sys κ ι) (c : κ) (conn : Conn) : Sys κ ι :=
  { s with conns := Function.update s.conns c conn }

def Sys.setTask (s : Sys κ ι) (t : ι) (task : Task κ) : Sys κ ι :=
  { s with threads := Function.update s.threads t task }

/-- One entry of a batch. -/
def Sys.report (useSmartClose : Bool) (s : Sys κ ι) (c : κ) (events : UInt32) (isIo : Bool) :
    Sys κ ι :=
  match connectionBranch useSmartClose isIo events with
  | .smartClose =>
    { s.setConn c (s.conns c).close with pending := s.pending ++ [(c, .socketIsClosed)] }
  | .callback job =>
    { s.setConn c { s.conns c with armed := false } with pending := s.pending ++ [(c, job)] }
  | .skip => s.setConn c { s.conns c with armed := false }

/-- One `::read` of the thread. -/
def Sys.answer (s : Sys κ ι) (t : ι) (a : ReadAnswer) : Option (Sys κ ι) :=
  match s.threads t with
  | .reading c bufferSize answers =>
    if Answers (readCount bufferSize) (s.conns c).unread a then
      let conn := (s.conns c).took a
      match read bufferSize (answers ++ [a]) 0 with
      | none => some ((s.setConn c conn).setTask t (.reading c bufferSize (answers ++ [a])))
      | some r =>
        some ((s.setConn c { conn with got := conn.got ++ r.result.flatten }).setTask t .idle)
    else none
  | .readingOne c bufferSize =>
    if Answers bufferSize (s.conns c).unread a then
      let conn := (s.conns c).took a
      some ((s.setConn c { conn with
        got := conn.got ++ (readOneBuffer bufferSize a 0).buffer }).setTask t .idle)
    else none
  | _ => none

def step (useSmartClose : Bool) (react : Job → Reaction) (s : Sys κ ι) :
    Act κ ι → Option (Sys κ ι)
  | .arrive c bytes =>
    if (s.conns c).closed = true ∨ bytes = [] then none
    else
      some (s.setConn c { s.conns c with
        sent := (s.conns c).sent ++ bytes
        unread := (s.conns c).unread ++ bytes
        armed := true })
  | .writable c =>
    if (s.conns c).closed then none else some (s.setConn c { s.conns c with armed := true })
  | .report c events isIo =>
    if (s.conns c).Reports events then some (s.report useSmartClose c events isIo) else none
  | .take t =>
    match s.threads t, s.pending with
    | .idle, (c, job) :: rest => some ({ s with pending := rest }.setTask t ((react job).begin c))
    | _, _ => none
  | .answer t a => s.answer t a
  | .close t =>
    match s.threads t with
    | .closing c => some ((s.setConn c (s.conns c).close).setTask t .idle)
    | _ => none

end Step

/-- The thread is in a callback for the connection. -/
def Task.isFor {κ : Type*} [DecidableEq κ] (c : κ) : Task κ → Bool
  | .idle => false
  | .closing c' | .reading c' _ _ | .readingOne c' _ => c' = c

variable {κ ι : Type*} [DecidableEq κ]

/-- No event for the connection is to come, and no callback for it is running. -/
structure Quiet (s : Sys κ ι) (c : κ) : Prop where
  armed : (s.conns c).armed = false
  pending : ∀ p ∈ s.pending, p.1 ≠ c
  threads : ∀ t, (s.threads t).isFor c = false

/-- There are bytes to read, and nothing will make the server read them but further bytes. -/
def Stranded (s : Sys κ ι) (c : κ) : Prop := (s.conns c).unread ≠ [] ∧ Quiet s c

/-! ## Who will read what is there -/

/-- `read` comes back at the first answer that ends it. -/
theorem read_isSome_iff (bufferSize : ℕ) (answers : List ReadAnswer) (errno : Int) :
    (read bufferSize answers errno).isSome = true ↔ ∃ a ∈ answers, a.ends = true := by
  induction answers with
  | nil => simp [read]
  | cons a answers ih =>
    cases hends : a.ends with
    | true => simp [read_ends bufferSize hends, hends]
    | false =>
      cases a with
      | failed errno' => cases hends
      | got bytes =>
        have hne : bytes ≠ [] := by
          rintro rfl
          cases hends
        simp [read_got bufferSize hne, ih, hends]

/-- An entry that reports input leads to one of the three jobs, or the server closes. -/
theorem branch_of_input {useSmartClose isIo : Bool} {events : UInt32}
    (hin : has events EPOLLIN = true) :
    connectionBranch useSmartClose isIo events = .smartClose ∨
      ∃ job, connectionBranch useSmartClose isIo events = .callback job ∧
        reportsInput job = true := by
  unfold connectionBranch
  split_ifs with _ _ _ _ _ hout <;> first | exact .inl rfl | exact .inr ⟨_, rfl, rfl⟩ | skip
  all_goals simp_all

/-- The callback of the thread will leave nothing to read. -/
def Task.settles (c : κ) : Task κ → Bool
  | .closing c' => c' = c
  | .reading c' bufferSize _ => c' = c && effective (readCount bufferSize)
  | _ => false

theorem Reaction.settles_begin (c : κ) {r : Reaction} (h : r.settles = true) :
    (r.begin c).settles c = true := by
  cases r <;> simp_all [settles, begin, Task.settles]

theorem Task.isFor_of_settles {c : κ} {task : Task κ} (h : task.settles c = true) :
    task.isFor c = true := by
  cases task <;> simp_all [settles, isFor]

/-- What is there to read will be read: the connection is on the ready list, or its event is on
the way to a callback that settles it, or such a callback is running. -/
structure Looked (react : Job → Reaction) (s : Sys κ ι) : Prop where
  after : ∀ c, (s.conns c).unread ≠ [] → (s.conns c).armed = true ∨
    (∃ p ∈ s.pending, p.1 = c ∧ (react p.2).settles = true) ∨
    ∃ t, (s.threads t).settles c = true
  /-- A thread in `read` has not yet been told to stop. -/
  fresh : ∀ t c n answers, s.threads t = .reading c n answers → ∀ a ∈ answers, a.ends = false

theorem Looked.not_stranded {react : Job → Reaction} {s : Sys κ ι} (h : Looked react s) (c : κ) :
    ¬ Stranded s c := by
  rintro ⟨hunread, hquiet⟩
  rcases h.after c hunread with harmed | ⟨p, hp, hc, -⟩ | ⟨t, ht⟩
  · rw [hquiet.armed] at harmed
    cases harmed
  · exact hquiet.pending p hp hc
  · have hfor := Task.isFor_of_settles ht
    rw [hquiet.threads t] at hfor
    cases hfor

section Looked

variable [DecidableEq ι] {react : Job → Reaction} {useSmartClose : Bool} {s s' : Sys κ ι}

omit [DecidableEq ι] in
/-- One connection changes, and what is there to read of it has been seen to; more events may be
on the way. -/
theorem Looked.report (h : Looked react s) {c : κ} {conn : Conn} (more : List (κ × Job))
    (hc : conn.unread ≠ [] → conn.armed = true ∨
      (∃ p ∈ s.pending ++ more, p.1 = c ∧ (react p.2).settles = true) ∨
      ∃ t, (s.threads t).settles c = true) :
    Looked react { s.setConn c conn with pending := s.pending ++ more } where
  after c' hunread := by
    by_cases hcc : c' = c
    · subst hcc
      simp only [Sys.setConn, Function.update_self] at hunread ⊢
      exact hc hunread
    · simp only [Sys.setConn, Function.update_of_ne hcc] at hunread ⊢
      rcases h.after c' hunread with harmed | ⟨p, hp, hrest⟩ | ht
      · exact .inl harmed
      · exact .inr (.inl ⟨p, List.mem_append_left _ hp, hrest⟩)
      · exact .inr (.inr ht)
  fresh := h.fresh

omit [DecidableEq ι] in
/-- A connection is armed, or loses bytes. -/
theorem Looked.setConn (h : Looked react s) {c : κ} {conn : Conn}
    (hc : conn.unread ≠ [] → conn.armed = true ∨
      (s.conns c).unread ≠ [] ∧ conn.armed = (s.conns c).armed) :
    Looked react (s.setConn c conn) := by
  have hreport : Looked react { s.setConn c conn with pending := s.pending ++ [] } := by
    refine h.report [] fun hunread => ?_
    rw [List.append_nil]
    rcases hc hunread with harmed | ⟨hbefore, harmed⟩
    · exact .inl harmed
    · rw [harmed]
      exact h.after c hbefore
  rw [List.append_nil] at hreport
  exact hreport

/-- A thread goes on to another task, having settled what it was to settle. -/
theorem Looked.setTask (h : Looked react s) {t : ι} {task : Task κ}
    (hsettled : ∀ c, (s.conns c).unread ≠ [] → (s.threads t).settles c = true →
      task.settles c = true)
    (hfresh : ∀ c n answers, task = .reading c n answers → ∀ a ∈ answers, a.ends = false) :
    Looked react (s.setTask t task) where
  after c hunread := by
    rcases h.after c hunread with harmed | hpending | ⟨u, hu⟩
    · exact .inl harmed
    · exact .inr (.inl hpending)
    · by_cases hut : u = t
      · subst hut
        refine .inr (.inr ⟨u, ?_⟩)
        simp only [Sys.setTask, Function.update_self]
        exact hsettled c hunread hu
      · refine .inr (.inr ⟨u, ?_⟩)
        simp only [Sys.setTask, Function.update_of_ne hut]
        exact hu
  fresh u c n answers hu := by
    by_cases hut : u = t
    · subst hut
      simp only [Sys.setTask, Function.update_self] at hu
      exact hfresh c n answers hu
    · simp only [Sys.setTask, Function.update_of_ne hut] at hu
      exact h.fresh u c n answers hu

/-- The event at the head of the queue is taken up by an idle thread. -/
theorem Looked.take (h : Looked react s) {t : ι} {c : κ} {job : Job} {rest : List (κ × Job)}
    (hidle : s.threads t = .idle) (hpending : s.pending = (c, job) :: rest) :
    Looked react ({ s with pending := rest }.setTask t ((react job).begin c)) where
  after c' hunread := by
    rcases h.after c' hunread with harmed | ⟨p, hp, hpc, hsettles⟩ | ⟨u, hu⟩
    · exact .inl harmed
    · rw [hpending] at hp
      rcases List.mem_cons.mp hp with rfl | hp
      · refine .inr (.inr ⟨t, ?_⟩)
        simp only [Sys.setTask, Function.update_self]
        rw [← hpc]
        exact Reaction.settles_begin c hsettles
      · exact .inr (.inl ⟨p, hp, hpc, hsettles⟩)
    · have hut : u ≠ t := by
        rintro rfl
        rw [hidle] at hu
        cases hu
      refine .inr (.inr ⟨u, ?_⟩)
      simp only [Sys.setTask, Function.update_of_ne hut]
      exact hu
  fresh u c' n answers hu := by
    by_cases hut : u = t
    · subst hut
      simp only [Sys.setTask, Function.update_self] at hu
      cases hr : react job <;> rw [hr] at hu <;> cases hu
      exact fun a ha => absurd ha List.not_mem_nil
    · simp only [Sys.setTask, Function.update_of_ne hut] at hu
      exact h.fresh u c' n answers hu

/-- Where a `::read` ends the loop, there is nothing left. -/
theorem unread_of_ends {count : ℕ} {unread : List UInt8} {a : ReadAnswer}
    (ha : Answers count unread a) (hends : a.ends = true) (hcount : effective count = true) :
    unread = [] := by
  obtain ⟨hpos, hmax⟩ := Bool.and_eq_true_iff.mp hcount
  cases a with
  | got bytes =>
    exact (ha.2.2.2 (List.isEmpty_iff.mp hends)).resolve_left (of_decide_eq_true hpos).ne'
  | failed => exact ha.resolve_right (of_decide_eq_true hmax).not_gt

theorem took_unread {conn : Conn} {a : ReadAnswer} (h : (conn.took a).unread ≠ []) :
    conn.unread ≠ [] := by
  rintro hnil
  exact h (by rw [Conn.took, hnil, List.drop_nil])

theorem Looked.answer (h : Looked react s) {t : ι} {a : ReadAnswer}
    (hs : s.answer t a = some s') : Looked react s' := by
  unfold Sys.answer at hs
  split at hs
  case h_1 c n answers htask =>
    split_ifs at hs with hans
    dsimp only at hs
    split at hs
    · next hread =>
      -- the loop goes round once more
      cases hs
      have hconn : Looked react (s.setConn c ((s.conns c).took a)) :=
        h.setConn fun hunread => .inr ⟨took_unread hunread, rfl⟩
      refine hconn.setTask (fun c' _ hold => ?_) fun c' n' answers' heq b hb => ?_
      · simpa only [Sys.setConn, htask, Task.settles] using hold
      · cases heq
        refine Bool.eq_false_iff.mpr fun hends => ?_
        have hsome := (read_isSome_iff n (answers ++ [a]) 0).mpr ⟨b, hb, hends⟩
        rw [hread] at hsome
        cases hsome
    · next r hread =>
      cases hs
      have hends : a.ends = true := by
        obtain ⟨b, hb, hends⟩ := (read_isSome_iff n (answers ++ [a]) 0).mp (by rw [hread]; rfl)
        rcases List.mem_append.mp hb with hb | hb
        · rw [h.fresh t c n answers htask b hb] at hends
          cases hends
        · rwa [List.mem_singleton.mp hb] at hends
      have hconn : Looked react (s.setConn c { (s.conns c).took a with
          got := ((s.conns c).took a).got ++ r.result.flatten }) :=
        h.setConn fun hunread => .inr ⟨took_unread hunread, rfl⟩
      refine hconn.setTask (fun c' hunread hold => ?_) fun _ _ _ heq => by cases heq
      -- the thread would have to have left something
      exfalso
      simp only [Sys.setConn, htask, Task.settles, Bool.and_eq_true, decide_eq_true_eq] at hold
      obtain ⟨rfl, hcount⟩ := hold
      simp only [Sys.setConn, Function.update_self] at hunread
      exact took_unread hunread (unread_of_ends hans hends hcount)
  case h_2 c n htask =>
    split_ifs at hs with hans
    cases hs
    have hconn : Looked react (s.setConn c { (s.conns c).took a with
        got := ((s.conns c).took a).got ++ (readOneBuffer n a 0).buffer }) :=
      h.setConn fun hunread => .inr ⟨took_unread hunread, rfl⟩
    refine hconn.setTask (fun c' _ hold => ?_) fun _ _ _ heq => by cases heq
    simp only [Sys.setConn, htask, Task.settles] at hold
    cases hold
  case h_3 => cases hs

/-- **One step.**  A callback that settles every job that can report input leaves nothing
unlooked for. -/
theorem Looked.step {a : Act κ ι}
    (hreact : ∀ job, reportsInput job = true → (react job).settles = true) (h : Looked react s)
    (hs : step useSmartClose react s a = some s') : Looked react s' := by
  cases a with
  | arrive c bytes =>
    simp only [EdgeTriggered.step] at hs
    split_ifs at hs
    cases hs
    exact h.setConn fun _ => .inl rfl
  | writable c =>
    simp only [EdgeTriggered.step] at hs
    split_ifs at hs
    cases hs
    exact h.setConn fun _ => .inl rfl
  | report c events isIo =>
    simp only [EdgeTriggered.step] at hs
    split_ifs at hs with hreports
    cases hs
    unfold Sys.report
    split
    · exact h.report _ fun hunread => absurd rfl hunread
    · next job hbranch =>
      refine h.report _ fun hunread => ?_
      have hjob : reportsInput job = true := by
        rcases branch_of_input (hreports.2.2 hunread) with hclose | ⟨job', hjob', hin⟩
        · rw [hbranch] at hclose
          cases hclose
        · rw [hbranch] at hjob'
          cases hjob'
          exact hin
      exact .inr (.inl ⟨(c, job), List.mem_append_right _ (List.mem_singleton_self _), rfl,
        hreact job hjob⟩)
    · next hbranch =>
      refine h.setConn fun hunread => ?_
      rcases branch_of_input (hreports.2.2 hunread) with hclose | ⟨job, hjob, -⟩
      · rw [hbranch] at hclose
        cases hclose
      · rw [hbranch] at hjob
        cases hjob
  | take t =>
    simp only [EdgeTriggered.step] at hs
    split at hs
    · next c job rest hidle hpending =>
      cases hs
      exact h.take hidle hpending
    · cases hs
  | answer t a => exact h.answer hs
  | close t =>
    simp only [EdgeTriggered.step] at hs
    split at hs
    · next c htask =>
      cases hs
      have hconn : Looked react (s.setConn c (s.conns c).close) :=
        h.setConn fun hunread => absurd rfl hunread
      refine hconn.setTask (fun c' hunread hold => ?_) fun _ _ _ heq => by cases heq
      simp only [Sys.setConn, htask, Task.settles, decide_eq_true_eq] at hold
      subst hold
      simp only [Sys.setConn, Function.update_self] at hunread
      exact absurd rfl hunread
    · cases hs

omit [DecidableEq ι] in
theorem looked_init (react : Job → Reaction) : Looked react ({} : Sys κ ι) where
  after _ hunread := absurd rfl hunread
  fresh _ _ _ _ htask := by cases htask

end Looked

/-! ## A callback that leaves bytes -/

section Leaves

variable [DecidableEq ι] {useSmartClose : Bool} {react : Job → Reaction}

/-- The bytes of a connection have been reported once, and the callback begins. -/
structure Begun (react : Job → Reaction) (job : Job) (bytes : List UInt8) (c : κ) (t : ι)
    (s : Sys κ ι) : Prop where
  unread : (s.conns c).unread = bytes
  armed : (s.conns c).armed = false
  pending : s.pending = []
  threads : s.threads = Function.update (fun _ => .idle) t ((react job).begin c)

theorem run_begun (react : Job → Reaction) {events : UInt32} {job : Job} (c : κ) (t : ι)
    {bytes : List UInt8} (hbytes : bytes ≠ []) (hin : has events EPOLLIN = true)
    (hbranch : connectionBranch useSmartClose true events = .callback job) :
    ∃ s, run (step useSmartClose react) ({} : Sys κ ι)
        [.arrive c bytes, .report c events true, .take t] = some s ∧
      Begun react job bytes c t s := by
  simp only [run_cons, run_nil, step, Sys.setConn, Sys.setTask, Sys.report, hbranch, Conn.Reports,
    hbytes, hin, or_false, Bool.false_eq_true, if_false, Option.bind_some, Function.update_self,
    List.nil_append, implies_true, and_true, if_true]
  exact ⟨_, rfl, by simp, by simp, rfl, rfl⟩

/-- The thread ends its callback and has left bytes behind. -/
theorem Begun.stranded {job : Job} {bytes : List UInt8} {c : κ} {t : ι} {s : Sys κ ι}
    {acts : List (Act κ ι)} (h : Begun react job bytes c t s)
    (hrun : run (step useSmartClose react) ({} : Sys κ ι) acts = some s) {a : ReadAnswer}
    {conn : Conn} (hs : s.answer t a = some ((s.setConn c conn).setTask t .idle))
    (hunread : conn.unread ≠ []) (harmed : conn.armed = false) :
    ∃ acts s, run (step useSmartClose react) ({} : Sys κ ι) acts = some s ∧ Stranded s c := by
  refine ⟨acts ++ [.answer t a], (s.setConn c conn).setTask t .idle, ?_, ?_, ?_, ?_, fun u => ?_⟩
  · exact run_concat_eq_some.mpr ⟨s, hrun, hs⟩
  · simpa only [Sys.setConn, Sys.setTask, Function.update_self] using hunread
  · simpa only [Sys.setConn, Sys.setTask, Function.update_self] using harmed
  · simp only [Sys.setConn, Sys.setTask, h.pending]
    exact fun p hp => absurd hp List.not_mem_nil
  · simp only [Sys.setConn, Sys.setTask, h.threads]
    by_cases hut : u = t
    · rw [hut, Function.update_self]
      rfl
    · rw [Function.update_of_ne hut, Function.update_of_ne hut]
      rfl

/-- What a `::read` may answer that gets at most `count` bytes of a longer input, and none if it
gets to ask for nothing or for too much. -/
theorem exists_answer (count : ℕ) : ∃ a, Answers count (List.replicate (count + 1) 0) a ∧
    a.bytes.length ≤ count ∧ (effective count = false → a.ends = true) := by
  by_cases hmax : count ≤ ssizeMax
  · refine ⟨.got (List.replicate count 0), ⟨hmax, by simp, by simp, fun hnil => .inl ?_⟩, ?_, ?_⟩
    · simpa using hnil
    · simp [ReadAnswer.bytes]
    · intro hcount
      have hzero : count = 0 := by simpa [effective, hmax] using hcount
      rw [hzero]
      rfl
  · exact ⟨.failed 22, .inr (Nat.lt_of_not_le hmax), Nat.zero_le _, fun _ => rfl⟩

/-- One byte more than the callback reads arrives and is reported with `events`. -/
theorem stranded_of_not_settles {events : UInt32} {job : Job} (c : κ) (t : ι)
    (hin : has events EPOLLIN = true)
    (hbranch : connectionBranch useSmartClose true events = .callback job)
    (hleaves : (react job).settles = false) :
    ∃ acts s, run (step useSmartClose react) ({} : Sys κ ι) acts = some s ∧ Stranded s c := by
  cases hr : react job with
  | close =>
    rw [hr] at hleaves
    cases hleaves
  | nothing =>
    obtain ⟨s, hrun, hbegun⟩ := run_begun react c t (List.cons_ne_nil 0 []) hin hbranch
    refine ⟨_, s, hrun, by rw [hbegun.unread]; simp, hbegun.armed, ?_, fun u => ?_⟩
    · rw [hbegun.pending]
      exact fun p hp => absurd hp List.not_mem_nil
    · rw [hbegun.threads, hr]
      by_cases hut : u = t
      · rw [hut, Function.update_self]
        rfl
      · rw [Function.update_of_ne hut]
        rfl
  | read n =>
    -- the first `::read` ends the loop, as at the end of file or with `EINVAL`
    obtain ⟨count, hcount⟩ : ∃ count, readCount n = count := ⟨_, rfl⟩
    have hnot : effective count = false := by simpa [hr, Reaction.settles, hcount] using hleaves
    have hne : List.replicate (count + 1) (0 : UInt8) ≠ [] := by simp [List.replicate_succ]
    obtain ⟨a, hans, hlen, hends⟩ := exists_answer count
    obtain ⟨s, hrun, hbegun⟩ := run_begun react c t hne hin hbranch
    have htask : s.threads t = .reading c n [] := by
      rw [hbegun.threads, hr, Function.update_self]
      rfl
    have hread := read_ends n (hends hnot) [] 0
    rw [← hbegun.unread, ← hcount] at hans
    have hs : s.answer t a = some ((s.setConn c { (s.conns c).took a with
        got := ((s.conns c).took a).got ++ (leftOver n a).flatten }).setTask t .idle) := by
      simp only [Sys.answer, htask, if_pos hans, List.nil_append, hread]
    refine hbegun.stranded hrun hs ?_ hbegun.armed
    simp only [Conn.took, hbegun.unread, List.drop_replicate, ne_eq, List.replicate_eq_nil_iff]
    omega
  | readOneBuffer n =>
    have hne : List.replicate (n + 1) (0 : UInt8) ≠ [] := by simp [List.replicate_succ]
    obtain ⟨a, hans, hlen, -⟩ := exists_answer n
    obtain ⟨s, hrun, hbegun⟩ := run_begun react c t hne hin hbranch
    have htask : s.threads t = .readingOne c n := by
      rw [hbegun.threads, hr, Function.update_self]
      rfl
    rw [← hbegun.unread] at hans
    have hs : s.answer t a = some ((s.setConn c { (s.conns c).took a with
        got := ((s.conns c).took a).got ++ (readOneBuffer n a 0).buffer }).setTask t .idle) := by
      simp only [Sys.answer, htask, if_pos hans]
    refine hbegun.stranded hrun hs ?_ hbegun.armed
    simp only [Conn.took, hbegun.unread, List.drop_replicate, ne_eq, List.replicate_eq_nil_iff]
    omega

end Leaves

/-- **When input is never left lying.**  Over any number of connections and of threads that make
callbacks, and every order of arrivals, reports, callbacks and `::read` calls: a connection never
has unread bytes without being reported again or attended to, exactly when the callback, on each
job that can report input, reads until the socket is empty or closes the connection. -/
theorem never_stranded_iff [DecidableEq ι] [Nonempty κ] [Nonempty ι] (useSmartClose : Bool)
    (react : Job → Reaction) :
    (∀ acts s, run (step useSmartClose react) ({} : Sys κ ι) acts = some s → ∀ c, ¬ Stranded s c) ↔
      ∀ job, reportsInput job = true → (react job).settles = true := by
  constructor
  · intro h job hjob
    obtain ⟨c⟩ := ‹Nonempty κ›
    obtain ⟨t⟩ := ‹Nonempty ι›
    by_contra hleaves
    rw [Bool.not_eq_true] at hleaves
    have hreport : ∃ events, has events EPOLLIN = true ∧
        connectionBranch useSmartClose true events = .callback job := by
      cases job with
      | closeSocket => exact ⟨EPOLLIN ||| EPOLLRDHUP, rfl, by cases useSmartClose <;> rfl⟩
      | availableForRead => exact ⟨EPOLLIN, rfl, rfl⟩
      | availableForReadAndWrite => exact ⟨EPOLLIN ||| EPOLLOUT, rfl, rfl⟩
      | availableForWrite | newSocket | socketIsClosed => cases hjob
    obtain ⟨events, hin, hbranch⟩ := hreport
    obtain ⟨acts, s, hrun, hstranded⟩ := stranded_of_not_settles c t hin hbranch hleaves
    exact h acts s hrun c hstranded
  · intro hreact acts s hrun
    have hlooked : Looked react s :=
      invariant_of_run (fun _ _ _ h hs => h.step hreact hs) (looked_init react) hrun
    exact hlooked.not_stranded

/-- The echo server of the tests, without a decorator; and `my_listener` behind
`ThreadedServer2`. -/
theorem never_stranded_echo :
    (∀ acts s, run (step true listenerEchoServer) ({} : Sys ℕ (Fin 3)) acts = some s →
      ∀ c, ¬ Stranded s c) ∧
    ∀ acts s, run (step true (behindThreadedServer2 myListener)) ({} : Sys ℕ Unit) acts = some s →
      ∀ c, ¬ Stranded s c := by
  refine ⟨(never_stranded_iff true _).mpr ?_, (never_stranded_iff true _).mpr ?_⟩
  · intro job hjob
    cases job <;> first | decide | cases hjob
  · intro job hjob
    cases job <;> first | decide | cases hjob

end EdgeTriggered

end Nbuss
