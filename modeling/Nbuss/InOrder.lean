import Nbuss.Delivery

/-!
# One reader or several

`listen` makes the callbacks on one thread, and a `WorkQueue` on as many as it is told to have.
For a callback that reads, this decides about the order of the bytes.  A connection that gets
bytes while its last event waits in the queue is reported again, the two events are taken up by
two consumers, and each of the two calls of `read` gets a part of the bytes.  Who comes back
first is heard first, whatever part it has.

So the callback is given the bytes in the order in which they were sent, whatever happens, exactly
if there is one thread (`in_order_iff`).  The proof for one thread is that of `Ordered`; which
name the thread has does not matter (`step_rename`).
-/

namespace Nbuss

namespace EdgeTriggered

open Transition

variable {κ ι : Type*} [DecidableEq κ]

/-! ## The only thread -/

section Rename

variable [DecidableEq ι] [Subsingleton ι] {useSmartClose : Bool} {react : Job → Reaction}
  {s s' : Sys κ ι}

/-- The system with its only thread renamed. -/
def Sys.rename (t : ι) (s : Sys κ ι) : Sys κ Unit where
  conns := s.conns
  pending := s.pending
  threads _ := s.threads t

def Act.rename : Act κ ι → Act κ Unit
  | .arrive c bytes => .arrive c bytes
  | .writable c => .writable c
  | .report c events isIo => .report c events isIo
  | .take _ => .take ()
  | .answer _ a => .answer () a
  | .close _ => .close ()

omit [DecidableEq κ] in
theorem rename_setTask (t u : ι) (s : Sys κ ι) (task : Task κ) :
    (s.setTask u task).rename t = (s.rename t).setTask () task := by
  cases Subsingleton.elim u t
  have hthreads : (fun _ : Unit => Function.update s.threads t task t) =
      Function.update (fun _ : Unit => s.threads t) () task := by
    funext x
    rw [Function.update_self, Function.update_self]
  simp only [Sys.rename, Sys.setTask, hthreads]

theorem answer_rename (t u : ι) {a : ReadAnswer} (hs : s.answer u a = some s') :
    (s.rename t).answer () a = some (s'.rename t) := by
  cases Subsingleton.elim u t
  simp only [Sys.answer] at hs ⊢
  have htask : (s.rename t).threads () = s.threads t := rfl
  rw [htask]
  split at hs
  · split_ifs at hs with hans
    refine (if_pos hans).trans ?_
    split at hs
    all_goals
      cases hs
      rw [rename_setTask]
      rfl
  · split_ifs at hs with hans
    cases hs
    rw [rename_setTask]
    exact if_pos hans
  · cases hs

theorem step_rename (t : ι) {a : Act κ ι} (hs : step useSmartClose react s a = some s') :
    step useSmartClose react (s.rename t) a.rename = some (s'.rename t) := by
  cases a with
  | arrive c bytes =>
    simp only [step] at hs
    split_ifs at hs with hclosed
    cases hs
    exact if_neg hclosed
  | writable c =>
    simp only [step] at hs
    split_ifs at hs with hclosed
    cases hs
    exact if_neg hclosed
  | report c events isIo =>
    simp only [step] at hs
    split_ifs at hs with hreports
    cases hs
    refine (if_pos hreports).trans ?_
    unfold Sys.report
    split <;> rfl
  | take u =>
    cases Subsingleton.elim u t
    simp only [step] at hs
    split at hs
    · next c job rest hidle hpending =>
      cases hs
      rw [rename_setTask]
      have hidle' : (s.rename t).threads () = .idle := hidle
      have hpending' : (s.rename t).pending = (c, job) :: rest := hpending
      simp only [step, Act.rename, hidle', hpending']
      rfl
    · cases hs
  | answer u a => exact answer_rename t u hs
  | close u =>
    cases Subsingleton.elim u t
    simp only [step] at hs
    split at hs
    · next c hclosing =>
      cases hs
      rw [rename_setTask]
      have hclosing' : (s.rename t).threads () = .closing c := hclosing
      simp only [step, Act.rename, hclosing']
      rfl
    · cases hs

theorem run_rename (t : ι) (acts : List (Act κ ι))
    (hrun : run (step useSmartClose react) ({} : Sys κ ι) acts = some s) :
    run (step useSmartClose react) {} (acts.map Act.rename) = some (s.rename t) := by
  refine run_induction (P := fun acts s =>
    run (step useSmartClose react) {} (acts.map Act.rename) = some (s.rename t)) rfl ?_ acts s hrun
  intro l a u v _ ih hs
  rw [List.map_append, run_append_of_eq_some ih]
  exact (run_singleton ..).trans (step_rename t hs)

end Rename

/-! ## Two threads -/

section TwoReaders

variable [DecidableEq ι] {react : Job → Reaction}

/-- The first byte has been read when the second one arrives; it is reported to another thread,
which comes back first. -/
def overtaking (c : κ) (t u : ι) : List (Act κ ι) :=
  [.arrive c [1], .report c EPOLLIN false, .take t, .answer t (.got [1]), .arrive c [2],
    .report c EPOLLIN false, .take u, .answer u (.got [2]), .answer u (.failed EAGAIN),
    .answer t (.failed EAGAIN)]

theorem run_overtaking (useSmartClose : Bool) {n : ℕ}
    (hread : react .availableForRead = .read n) (hpos : 1 ≤ n) (hmax : n ≤ 2 ^ 31 - 1) (c : κ)
    {t u : ι} (htu : t ≠ u) :
    ∃ s, run (step useSmartClose react) ({} : Sys κ ι) (overtaking c t u) = some s ∧
      (s.conns c).closed = false ∧ (s.conns c).sent = [1, 2] ∧ (s.conns c).got = [2, 1] := by
  have hbranch : connectionBranch useSmartClose false EPOLLIN = .callback .availableForRead := by
    cases useSmartClose <;> decide
  have hin : has EPOLLIN EPOLLIN = true := by decide
  have hcount : readCount n = n := count_eq hmax
  have hssize : n ≤ ssizeMax := hmax.trans (by decide)
  have hopen : ∀ b, Nbuss.read n [.got [b]] 0 = none := fun b =>
    read_eq_none_of_chunks ⟨[[b]], rfl, by simpa using hpos⟩
  have hdone : ∀ b, ∃ calls, Nbuss.read n [.got [b], .failed EAGAIN] 0 =
      some ⟨[[b]], EAGAIN, calls, []⟩ := by
    intro b
    have hsizes : ∀ b' ∈ [[b]], 1 ≤ b'.length ∧ b'.length ≤ n := by simpa using hpos
    obtain ⟨calls, -, h⟩ := read_chunks hmax hsizes
      (show (ReadAnswer.failed EAGAIN).ends = true from rfl) 0
    exact ⟨calls, h⟩
  obtain ⟨calls₁, hdone₁⟩ := hdone 1
  obtain ⟨calls₂, hdone₂⟩ := hdone 2
  simp [run_cons, overtaking, step, Sys.setConn, Sys.setTask, Sys.report, hbranch, hin,
    Conn.Reports, Sys.answer, hread, Reaction.begin, hcount, Answers, hssize, hpos, hopen, hdone₁,
    hdone₂, Conn.took, ReadAnswer.bytes, htu, htu.symm, Function.update_of_ne]

end TwoReaders

/-- **When the bytes come in order.**  For a callback that reads what it is told is there, with
buffers of at least one byte and of a size that an `int` holds, over all runs in which no `::read`
fails but for want of data, any number of connections and every order of events: what the callback
has been given of an open connection is always the beginning of what its peer has sent, exactly if
the callbacks are made by one thread. -/
theorem in_order_iff [DecidableEq ι] [Nonempty κ] [Nonempty ι] (useSmartClose : Bool)
    (react : Job → Reaction) (hread : ∃ n, react .availableForRead = .read n)
    (hsize : ∀ job n, react job = .read n → 1 ≤ n ∧ n ≤ 2 ^ 31 - 1) :
    (∀ (acts : List (Act κ ι)) (s : Sys κ ι), run (step useSmartClose react) {} acts = some s →
      (∀ t a, .answer t a ∈ acts → a.hard = false) →
      ∀ c, (s.conns c).closed = false → (s.conns c).got <+: (s.conns c).sent) ↔
    Subsingleton ι := by
  constructor
  · intro hall
    by_contra hmany
    obtain ⟨t, u, htu⟩ := not_subsingleton_iff_nontrivial.mp hmany
    obtain ⟨n, hn⟩ := hread
    obtain ⟨hpos, hmax⟩ := hsize _ n hn
    obtain ⟨s, hrun, hopen, hsent, hgot⟩ :=
      run_overtaking useSmartClose hn hpos hmax (Classical.arbitrary κ) htu
    have hprefix := hall _ s hrun ?_ _ hopen
    · rw [hsent, hgot] at hprefix
      revert hprefix
      decide
    · intro t' a ha
      simp only [overtaking, List.mem_cons, List.not_mem_nil, Act.answer.injEq, reduceCtorEq,
        false_or, or_false] at ha
      rcases ha with ⟨-, rfl⟩ | ⟨-, rfl⟩ | ⟨-, rfl⟩ | ⟨-, rfl⟩ <;> rfl
  · intro _ acts s hrun hsoft c hopen
    have hrun' := run_rename (Classical.arbitrary ι) acts hrun
    refine (ordered_of_run hsize hrun' (guarded_of_labels ?_ _)).got_of_sent hopen
    intro b hb _
    obtain ⟨a, ha, rfl⟩ := List.mem_map.mp hb
    cases a with
    | answer t a => exact hsoft t a ha
    | arrive | writable | report | take | close => trivial

/-- A `WorkQueue` with one consumer, and one with two, for a callback that reads as
`listener_echo_server` does. -/
theorem in_order_for_one_consumer :
    (∀ (acts : List (Act ℕ (Fin 1))) (s : Sys ℕ (Fin 1)),
      run (step false listenerEchoServer) {} acts = some s →
      (∀ t a, .answer t a ∈ acts → a.hard = false) →
      ∀ c, (s.conns c).closed = false → (s.conns c).got <+: (s.conns c).sent) ∧
    ¬ ∀ (acts : List (Act ℕ (Fin 2))) (s : Sys ℕ (Fin 2)),
      run (step false listenerEchoServer) {} acts = some s →
      (∀ t a, .answer t a ∈ acts → a.hard = false) →
      ∀ c, (s.conns c).closed = false → (s.conns c).got <+: (s.conns c).sent := by
  have hsize : ∀ job n, listenerEchoServer job = .read n → 1 ≤ n ∧ n ≤ 2 ^ 31 - 1 := by
    intro job n hn
    cases job <;> cases hn <;> decide
  refine ⟨(in_order_iff false listenerEchoServer ⟨4096, rfl⟩ hsize).mpr inferInstance, ?_⟩
  intro hall
  have hone := (in_order_iff false listenerEchoServer ⟨4096, rfl⟩ hsize).mp hall
  exact absurd (hone.elim 0 1) (by decide)

end EdgeTriggered

end Nbuss
