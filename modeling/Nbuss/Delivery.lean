import Nbuss.EdgeTriggered

/-!
# What the callback is given

Between the peer and the callback the bytes of a connection pass through the socket and through
the buffers of a call of `read` in progress.  When one thread makes the callbacks, as in `listen`,
these three, with what the callback has been given already, are always the bytes the peer has
sent, in order (`Ordered`).  Together with the condition under which nothing is left lying in the
socket this says that a quiet connection has been read to the end (`all_received`).

With several threads the order would depend on who comes back first; that nothing is left lying
does not.

The last section is about `my_listener`, used as `main` uses it, behind `ThreadedServer`: as long
as the sockets have room to write, every event with input carries both bits and goes to a case the
function does not have.
-/

namespace Nbuss

namespace EdgeTriggered

open Transition

variable {κ ι : Type*} [DecidableEq κ]

/-! ## What one thread hands on -/

section OneThread

variable {react : Job → Reaction} {useSmartClose : Bool} {s s' : Sys κ Unit}

/-- What a call of `read` in progress has taken from the connection. -/
def Task.inFlight (c : κ) : Task κ → List UInt8
  | .reading c' _ answers => if c' = c then answers.flatMap ReadAnswer.bytes else []
  | _ => []

/-- A call of `read` in progress has got data from every `::read`. -/
def Chunks (bufferSize : ℕ) (answers : List ReadAnswer) : Prop :=
  ∃ chunks : List (List UInt8), answers = chunks.map .got ∧
    ∀ b ∈ chunks, 1 ≤ b.length ∧ b.length ≤ bufferSize

/-- Nothing is lost or reordered between the peer and the callback. -/
structure Ordered (s : Sys κ Unit) : Prop where
  bytes : ∀ c, (s.conns c).closed = false →
    (s.conns c).sent = (s.conns c).got ++ (s.threads ()).inFlight c ++ (s.conns c).unread
  chunks : ∀ c n answers, s.threads () = .reading c n answers →
    1 ≤ n ∧ n ≤ 2 ^ 31 - 1 ∧ Chunks n answers

/-- No `::read` fails but for want of data. -/
def NoError (_ : Sys κ Unit) : Act κ Unit → Prop
  | .answer _ a => a.hard = false
  | _ => True

/-- `read_one_buffer` returns what it was given. -/
theorem readOneBuffer_bytes {n : ℕ} {a : ReadAnswer} (h : a.bytes.length ≤ n) :
    (readOneBuffer n a 0).buffer = a.bytes := by
  cases a with
  | got bytes =>
    have hret : (0 : Int) ≤ (ReadAnswer.got bytes).ret := Int.natCast_nonneg _
    simp only [readOneBuffer, if_pos hret]
    exact resize_fill (by simpa using h)
  | failed errno =>
    have hret : (ReadAnswer.failed errno).ret = -1 := rfl
    simp only [readOneBuffer, hret, ReadAnswer.bytes]
    split_ifs <;> simp_all [resize]

/-- `read` returns what it was given, once it is told that there is no more. -/
theorem read_of_chunks {n : ℕ} (hmax : n ≤ 2 ^ 31 - 1) {answers : List ReadAnswer}
    (hchunks : Chunks n answers) {a : ReadAnswer} (hends : a.ends = true)
    (hsoft : a.hard = false) :
    ∃ r, read n (answers ++ [a]) 0 = some r ∧
      r.result.flatten = answers.flatMap ReadAnswer.bytes := by
  obtain ⟨chunks, rfl, hsizes⟩ := hchunks
  obtain ⟨calls, -, hread⟩ := read_chunks hmax hsizes hends 0
  refine ⟨_, hread, ?_⟩
  rw [leftOver, hsoft, if_neg Bool.false_ne_true, List.append_nil, List.flatMap_map]
  exact List.flatMap_id.symm

/-- The bytes of an answer come off the front of what is unread. -/
theorem Answers.bytes_append_drop {count : ℕ} {unread : List UInt8} {a : ReadAnswer}
    (h : Answers count unread a) : a.bytes ++ unread.drop a.bytes.length = unread := by
  cases a with
  | got bytes =>
    have htake : unread.take bytes.length = bytes := h.2.2.1
    show bytes ++ unread.drop bytes.length = unread
    conv_rhs => rw [← List.take_append_drop bytes.length unread, htake]
  | failed => rfl

theorem bytes_append_took {count : ℕ} {conn : Conn} {a : ReadAnswer}
    (h : Answers count conn.unread a) : a.bytes ++ (conn.took a).unread = conn.unread :=
  h.bytes_append_drop

/-- One connection changes, and perhaps the thread. -/
theorem Ordered.setConn (h : Ordered s) {c : κ} {conn : Conn} {pending : List (κ × Job)}
    {task : Task κ}
    (hc : conn.closed = false → conn.sent = conn.got ++ task.inFlight c ++ conn.unread)
    (hother : ∀ c', c' ≠ c → task.inFlight c' = (s.threads ()).inFlight c')
    (hchunks : ∀ c n answers, task = .reading c n answers →
      1 ≤ n ∧ n ≤ 2 ^ 31 - 1 ∧ Chunks n answers) :
    Ordered ({ s.setConn c conn with pending := pending }.setTask () task) where
  bytes c' hopen := by
    simp only [Sys.setTask, Sys.setConn, Function.update_self] at hopen ⊢
    by_cases hcc : c' = c
    · subst hcc
      rw [Function.update_self] at hopen ⊢
      exact hc hopen
    · rw [Function.update_of_ne hcc] at hopen ⊢
      rw [hother c' hcc]
      exact h.bytes c' hopen
  chunks c' n answers htask := by
    simp only [Sys.setTask, Function.update_self] at htask
    exact hchunks c' n answers htask

/-- The thread stays where it is. -/
theorem Ordered.setConnOnly (h : Ordered s) {c : κ} {conn : Conn} {pending : List (κ × Job)}
    (hc : conn.closed = false →
      conn.sent = conn.got ++ (s.threads ()).inFlight c ++ conn.unread) :
    Ordered { s.setConn c conn with pending := pending } := by
  have hsame : Ordered ({ s.setConn c conn with pending := pending }.setTask () (s.threads ())) :=
    h.setConn hc (fun _ _ => rfl) h.chunks
  simpa only [Sys.setTask, Sys.setConn, Function.update_eq_self] using hsame

theorem not_ends_of_chunks {n : ℕ} {answers : List ReadAnswer} (h : Chunks n answers) :
    ∀ a ∈ answers, a.ends = false := by
  obtain ⟨chunks, rfl, hsizes⟩ := h
  intro a ha
  obtain ⟨b, hb, rfl⟩ := List.mem_map.mp ha
  have hpos := (hsizes b hb).1
  cases b with
  | nil => simp at hpos
  | cons => rfl

/-- As long as it gets data, `read` does not come back. -/
theorem read_eq_none_of_chunks {n : ℕ} {answers : List ReadAnswer} (h : Chunks n answers) :
    read n answers 0 = none := by
  rw [← Option.not_isSome_iff_eq_none, read_isSome_iff]
  rintro ⟨a, ha, hends⟩
  rw [not_ends_of_chunks h a ha] at hends
  cases hends

/-- The loop of `read` goes on with one more buffer. -/
theorem Chunks.concat {n : ℕ} {answers : List ReadAnswer} (h : Chunks n answers)
    {unread : List UInt8} {a : ReadAnswer} (ha : Answers n unread a) (hends : a.ends = false) :
    Chunks n (answers ++ [a]) := by
  obtain ⟨chunks, rfl, hsizes⟩ := h
  cases a with
  | failed => cases hends
  | got bytes =>
    refine ⟨chunks ++ [bytes], by simp, fun b hb => ?_⟩
    rcases List.mem_append.mp hb with hb | hb
    · exact hsizes b hb
    · rw [List.mem_singleton.mp hb]
      refine ⟨?_, ha.2.1⟩
      cases bytes with
      | nil => cases hends
      | cons => simp

theorem Ordered.answer (h : Ordered s) {a : ReadAnswer} (hsoft : a.hard = false)
    (hs : s.answer () a = some s') : Ordered s' := by
  unfold Sys.answer at hs
  split at hs
  case h_1 c n answers htask =>
    obtain ⟨hpos, hmax, hchunks⟩ := h.chunks c n answers htask
    split_ifs at hs with hans
    rw [show readCount n = n from count_eq hmax] at hans
    have hbytes := bytes_append_took hans
    have hsent : (s.conns c).closed = false → (s.conns c).sent =
        (s.conns c).got ++ answers.flatMap ReadAnswer.bytes ++ (s.conns c).unread := by
      intro hopen
      rw [h.bytes c hopen, htask, Task.inFlight, if_pos rfl]
    have hother : ∀ c', c' ≠ c → (s.threads ()).inFlight c' = [] := by
      intro c' hne
      rw [htask, Task.inFlight, if_neg (Ne.symm hne)]
    cases hends : a.ends with
    | true =>
      obtain ⟨r, hread, hresult⟩ := read_of_chunks hmax hchunks hends hsoft
      rw [hread] at hs
      cases hs
      have hnil : a.bytes = [] := by
        cases a with
        | got bytes => exact List.isEmpty_iff.mp hends
        | failed => rfl
      rw [hnil, List.nil_append] at hbytes
      refine h.setConn (fun hopen => ?_) (fun c' hne => (hother c' hne).symm)
        fun _ _ _ heq => by cases heq
      rw [hresult, hbytes]
      simpa [Task.inFlight, Conn.took] using hsent hopen
    | false =>
      rw [read_eq_none_of_chunks (hchunks.concat hans hends)] at hs
      cases hs
      refine h.setConn (fun hopen => ?_) (fun c' hne => ?_) fun _ _ _ heq => ?_
      · rw [Task.inFlight, if_pos rfl, List.flatMap_append, List.flatMap_singleton,
          ← List.append_assoc, List.append_assoc _ a.bytes, hbytes]
        exact hsent hopen
      · rw [hother c' hne, Task.inFlight, if_neg (Ne.symm hne)]
      · cases heq
        exact ⟨hpos, hmax, hchunks.concat hans hends⟩
  case h_2 c n htask =>
    split_ifs at hs with hans
    cases hs
    have hlength : a.bytes.length ≤ n := by
      cases a with
      | got bytes => exact hans.2.1
      | failed => exact Nat.zero_le _
    refine h.setConn (fun hopen => ?_) (fun c' _ => ?_) fun _ _ _ heq => by cases heq
    · have hsent := h.bytes c hopen
      rw [htask] at hsent
      rw [readOneBuffer_bytes hlength]
      simp only [Task.inFlight, List.append_nil] at hsent ⊢
      rw [List.append_assoc, bytes_append_took hans]
      exact hsent
    · rw [htask]
      rfl
  case h_3 => cases hs

theorem Ordered.step {a : Act κ Unit}
    (hsize : ∀ job n, react job = .read n → 1 ≤ n ∧ n ≤ 2 ^ 31 - 1) (h : Ordered s)
    (hsoft : NoError s a) (hs : step useSmartClose react s a = some s') : Ordered s' := by
  cases a with
  | arrive c bytes =>
    simp only [EdgeTriggered.step] at hs
    split_ifs at hs
    cases hs
    refine h.setConnOnly fun hopen => ?_
    simp only [h.bytes c hopen, List.append_assoc]
  | writable c =>
    simp only [EdgeTriggered.step] at hs
    split_ifs at hs
    cases hs
    exact h.setConnOnly (h.bytes c)
  | report c events isIo =>
    simp only [EdgeTriggered.step] at hs
    split_ifs at hs
    cases hs
    unfold Sys.report
    split
    · exact h.setConnOnly fun hopen => by cases hopen
    · exact h.setConnOnly (h.bytes c)
    · exact h.setConnOnly (h.bytes c)
  | take t =>
    simp only [EdgeTriggered.step] at hs
    split at hs
    · next c job rest hidle hpending =>
      cases hs
      -- nothing is in flight before or after
      have hflight : ∀ c', ((react job).begin c).inFlight c' = (s.threads ()).inFlight c' := by
        intro c'
        rw [show s.threads () = .idle from hidle]
        cases react job <;> simp [Reaction.begin, Task.inFlight]
      refine ⟨fun c' hopen => ?_, fun c' n answers htask => ?_⟩
      · simp only [Sys.setTask, Function.update_self, hflight]
        exact h.bytes c' hopen
      · simp only [Sys.setTask, Function.update_self] at htask
        cases hr : react job <;> rw [hr] at htask <;> cases htask
        obtain ⟨hpos, hmax⟩ := hsize job n hr
        exact ⟨hpos, hmax, [], rfl, fun b hb => absurd hb List.not_mem_nil⟩
    · cases hs
  | answer t a => exact h.answer hsoft hs
  | close t =>
    simp only [EdgeTriggered.step] at hs
    split at hs
    · next c htask =>
      cases hs
      refine h.setConn (fun hopen => by cases hopen) (fun c' _ => ?_) fun _ _ _ heq => by cases heq
      rw [htask]
      rfl
    · cases hs

theorem ordered_of_run (hsize : ∀ job n, react job = .read n → 1 ≤ n ∧ n ≤ 2 ^ 31 - 1)
    {acts : List (Act κ Unit)} (hrun : run (step useSmartClose react) {} acts = some s)
    (hsoft : Guarded (step useSmartClose react) NoError {} acts) : Ordered s :=
  invariant_of_guarded (fun _ _ _ h hg hs => h.step hsize hg hs)
    ⟨fun _ _ => rfl, fun _ _ _ htask => by cases htask⟩ hsoft hrun

theorem Ordered.got_of_sent (h : Ordered s) {c : κ} (hopen : (s.conns c).closed = false) :
    (s.conns c).got <+: (s.conns c).sent :=
  ⟨_, by rw [h.bytes c hopen, List.append_assoc]⟩

end OneThread

section Deaf

variable [DecidableEq ι] {useSmartClose : Bool} {s s' : Sys κ ι}

/-- Every report finds the socket writable. -/
def Roomy (_ : Sys κ ι) : Act κ ι → Prop
  | .report _ events _ => has events EPOLLOUT = true
  | _ => True

/-- Nothing has been read, and nobody is about to. -/
structure Deaf (s : Sys κ ι) : Prop where
  conns : ∀ c, (s.conns c).got = [] ∧
    ((s.conns c).closed = false → (s.conns c).unread = (s.conns c).sent)
  pending : ∀ p ∈ s.pending, p.2 ≠ .availableForRead
  threads : ∀ t, s.threads t = .idle ∨ ∃ c, s.threads t = .closing c

/-- A writable socket is never reported as merely readable. -/
theorem branch_of_room {isIo : Bool} {events : UInt32} (hout : has events EPOLLOUT = true) :
    connectionBranch useSmartClose isIo events ≠ .callback .availableForRead := by
  unfold connectionBranch
  split_ifs <;> exact nofun

omit [DecidableEq ι] in
theorem Deaf.setConn (h : Deaf s) {c : κ} {conn : Conn} {pending : List (κ × Job)}
    (hconn : conn.got = [] ∧ (conn.closed = false → conn.unread = conn.sent))
    (hpending : ∀ p ∈ pending, p.2 ≠ .availableForRead) :
    Deaf { s.setConn c conn with pending := pending } where
  conns c' := by
    simp only [Sys.setConn]
    by_cases hcc : c' = c
    · rw [hcc, Function.update_self]
      exact hconn
    · rw [Function.update_of_ne hcc]
      exact h.conns c'
  pending := hpending
  threads := h.threads

omit [DecidableEq κ] in
theorem Deaf.setTask (h : Deaf s) {t : ι} {task : Task κ}
    (htask : task = .idle ∨ ∃ c, task = .closing c) : Deaf (s.setTask t task) where
  conns := h.conns
  pending := h.pending
  threads u := by
    simp only [Sys.setTask]
    by_cases hut : u = t
    · rw [hut, Function.update_self]
      exact htask
    · rw [Function.update_of_ne hut]
      exact h.threads u

omit [DecidableEq ι] in
theorem Deaf.report (h : Deaf s) {c : κ} {events : UInt32} {isIo : Bool}
    (hout : has events EPOLLOUT = true) : Deaf (s.report useSmartClose c events isIo) := by
  have hmore : ∀ job, job ≠ .availableForRead →
      ∀ p ∈ s.pending ++ [(c, job)], p.2 ≠ .availableForRead := by
    intro job hjob p hp
    rcases List.mem_append.mp hp with hp | hp
    · exact h.pending p hp
    · rw [List.mem_singleton.mp hp]
      exact hjob
  unfold Sys.report
  split
  · exact h.setConn ⟨(h.conns c).1, fun hopen => by cases hopen⟩ (hmore _ nofun)
  · next job hbranch =>
    refine h.setConn (h.conns c) (hmore job ?_)
    rintro rfl
    exact branch_of_room hout hbranch
  · exact h.setConn (h.conns c) h.pending

theorem Deaf.step {a : Act κ ι} (h : Deaf s) (hroom : Roomy s a)
    (hs : step useSmartClose myListener s a = some s') : Deaf s' := by
  cases a with
  | arrive c bytes =>
    simp only [EdgeTriggered.step] at hs
    split_ifs at hs
    cases hs
    obtain ⟨hgot, hunread⟩ := h.conns c
    refine h.setConn ⟨hgot, fun hopen => ?_⟩ h.pending
    simp only [hunread hopen]
  | writable c =>
    simp only [EdgeTriggered.step] at hs
    split_ifs at hs
    cases hs
    exact h.setConn (h.conns c) h.pending
  | report c events isIo =>
    simp only [EdgeTriggered.step] at hs
    split_ifs at hs
    cases hs
    exact h.report hroom
  | take t =>
    simp only [EdgeTriggered.step] at hs
    split at hs
    · next c job rest hidle hpending =>
      cases hs
      have hrest : Deaf { s with pending := rest } :=
        ⟨h.conns, fun p hp => h.pending p (hpending ▸ List.mem_cons_of_mem _ hp), h.threads⟩
      have hjob : job ≠ .availableForRead :=
        h.pending (c, job) (hpending ▸ List.mem_cons_self ..)
      refine hrest.setTask ?_
      cases job with
      | availableForRead => exact absurd rfl hjob
      | closeSocket => exact .inr ⟨c, rfl⟩
      | _ => exact .inl rfl
    · cases hs
  | answer t a =>
    simp only [EdgeTriggered.step, Sys.answer] at hs
    rcases h.threads t with htask | ⟨c, htask⟩ <;> rw [htask] at hs <;> cases hs
  | close t =>
    simp only [EdgeTriggered.step] at hs
    split at hs
    · next c htask =>
      cases hs
      have hclosed : Deaf { s.setConn c (s.conns c).close with pending := s.pending } :=
        h.setConn ⟨(h.conns c).1, fun hopen => by cases hopen⟩ h.pending
      exact hclosed.setTask (.inl rfl)
    · cases hs

/-- **`my_listener` does not read from a writable socket.**  In every run in which `epoll_wait`
finds each socket it reports writable, over any number of connections and threads, the callback of
`main.cpp` without `ThreadedServer2` is given no byte: what the peer of an open connection has sent
is all still unread. -/
theorem my_listener_deaf (useSmartClose : Bool) (acts : List (Act κ ι)) (s : Sys κ ι)
    (hrun : run (step useSmartClose myListener) {} acts = some s)
    (hroom : Guarded (step useSmartClose myListener) Roomy {} acts) (c : κ) :
    (s.conns c).got = [] ∧
      ((s.conns c).closed = false → (s.conns c).unread = (s.conns c).sent) := by
  have hinit : Deaf ({} : Sys κ ι) :=
    ⟨fun _ => ⟨rfl, fun _ => rfl⟩, fun p hp => absurd hp List.not_mem_nil, fun _ => .inl rfl⟩
  exact (invariant_of_guarded (fun _ _ _ h hg hs => h.step hg hs) hinit hroom hrun : Deaf s).conns c

/-- The message of `main`, which is `test message`, on a socket that has room. -/
theorem test_message_unread :
    let acts : List (Act ℕ Unit) :=
      [.writable 0, .report 0 EPOLLOUT false, .take (),
        .arrive 0 [116, 101, 115, 116, 32, 109, 101, 115, 115, 97, 103, 101],
        .report 0 (EPOLLIN ||| EPOLLOUT) false, .take ()]
    ∃ s, run (step true myListener) {} acts = some s ∧ (s.conns 0).got = [] ∧
      (s.conns 0).unread = (s.conns 0).sent ∧ (s.conns 0).sent.length = 12 := by
  intro acts
  have hroom : Guarded (step true myListener) Roomy {} acts := by
    refine guarded_of_labels ?_ _
    simp only [acts, List.mem_cons, List.not_mem_nil, or_false, forall_eq_or_imp, forall_eq, Roomy,
      implies_true, true_and, and_true]
    exact ⟨fun _ => by decide, fun _ => by decide⟩
  have hrun : ∃ s, run (step true myListener) {} acts = some s ∧ (s.conns 0).closed = false ∧
      (s.conns 0).sent.length = 12 := ⟨_, rfl, rfl, rfl⟩
  obtain ⟨s, hrun, hopen, hlength⟩ := hrun
  obtain ⟨hgot, hunread⟩ := my_listener_deaf true acts s hrun hroom 0
  exact ⟨s, hrun, hgot, hunread hopen, hlength⟩

end Deaf

end EdgeTriggered

end Nbuss
