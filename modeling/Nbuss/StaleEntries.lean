import Nbuss.Listen

/-!
# Entries that outlive their connection

While the listening thread works through a batch, another thread may close a
connection that has an entry further down, and `accept4`, called for the listening
socket's entry of the same batch, may give the number out again.  The entry then
carries the number of a healthy connection that it was not reported for.  Nothing in
`listen` can tell: the array `events` holds numbers only, and `remove_from_epoll` does
not reach into a batch that has been returned.

What an entry acts on is right as long as the number has not been given out again, so
the only step that matters is `accept4`.
-/

namespace Nbuss

namespace Listen

open Transition

variable {cfg : Setup}

/-- What the listening thread acts on, by calling the callback or by closing the
descriptor itself, concerns the file that its number was last given to.  The number
may have been closed meanwhile; it has not been given to another connection. -/
def Faithful (file : ℕ → Option File) : Pc → Prop
  | .smartClosing e _ => file e.fd = some e.file
  | .calling cb _ _ => file cb.fd = some cb.file
  | _ => True

/-- `accept4` does not return the number of an entry that is still to be looked at. -/
def NoReuse (s : State) : Act → Prop
  | .accept4 (.conn fd _ _) => ∀ e ∈ s.pc.pending, e.fd ≠ fd
  | _ => True

instance (s : State) : ∀ a, Decidable (NoReuse s a)
  | .accept4 (.conn fd _ _) => inferInstanceAs (Decidable (∀ e ∈ s.pc.pending, e.fd ≠ fd))
  | .accept4 .wouldBlock | .accept4 .failed
  | .prepare _ | .announce | .test | .wait _ | .check | .next | .insert | .epollAdd _
  | .smartClose | .answer | .ret | .closeConns | .closeEpoll | .closeListen | .quit | .close _
  | .removeFromEpoll _ | .io _ _ | .terminate _ | .peerSend _ _ | .peerShutdown _ =>
    inferInstanceAs (Decidable True)

/-- Every number the listening thread carries stands for what it stood for when the
kernel named it. -/
def Known (file : ℕ → Option File) (pc : Pc) : Prop :=
  ∀ p ∈ pc.carried, file p.1 = some p.2

theorem Known.faithful {file : ℕ → Option File} {pc : Pc} (h : Known file pc) :
    Faithful file pc := by
  cases pc with
  | smartClosing e rest => exact h (e.fd, e.file) (List.mem_cons_self ..)
  | calling cb b rest => exact h (cb.fd, cb.file) (List.mem_cons_self ..)
  | _ => trivial

theorem Known.step {s s' : State} {a : Act} (h : Known s.kernel.file s.pc) (hreuse : NoReuse s a)
    (hs : step cfg s a = some s') : Known s'.kernel.file s'.pc := by
  intro p hp
  rcases carried_step hs hp with hold | ⟨hsame, hfile⟩ | ⟨fd, hsame, rfl⟩
  · have hfile := h p hold
    -- a file changes hands only in `accept4`, and when the epoll instance is created
    cases Step.of_step hs with
    | accept hpc _ =>
      rw [hpc] at hold
      obtain ⟨e, he, rfl⟩ := List.mem_map.mp hold
      have hne := hreuse e (by rw [hpc]; exact he)
      exact (s.kernel.accept_file_of_ne hne).trans hfile
    | prepared hpc =>
      rw [hpc] at hold
      cases hold
    | _ => exact hfile
  · rw [hsame]
    exact hfile
  · rw [hsame]
    exact s.kernel.accept_file_self fd

/-- **When no entry is applied to another connection.**  Whatever other threads close
or remove from epoll, and whenever they do it: as long as `accept4` returns no number
for which an entry of the current batch is still to be looked at, everything `listen`
acts on concerns the connection for which the kernel reported it. -/
theorem faithful_of_noReuse (cfg : Setup) (acts : List Act)
    (hreuse : Guarded (step cfg) NoReuse (init cfg) acts) :
    Always (step cfg) (fun s => Faithful s.kernel.file s.pc) (init cfg) acts := by
  have hinit : Known (init cfg).kernel.file (init cfg).pc := fun p hp => by cases hp
  have hknown : Always (step cfg) (fun s => Known s.kernel.file s.pc) (init cfg) acts :=
    always_of_guarded (fun s a s' h => h.step) hinit hreuse
  exact hknown.mono fun s h => h.faithful

/-- The peer under number 7 shuts down, which is reported to the callback, and then
resets the connection.  The next batch holds a new connection and the second hang-up.
A consumer that answers the first report closes 7 while the batch is being worked
through, and `accept4` answers `fd`. -/
def lateHangUp (fd : ℕ) : List Act :=
  [.prepare true, .announce, .test, .wait (.batch [⟨3, EPOLLIN, .listener⟩]), .check, .next,
    .accept4 (.conn 7 0 false), .insert, .epollAdd true, .ret, .next, .test,
    .wait (.batch [⟨7, EPOLLRDHUP, .conn 0⟩]), .check, .next, .ret, .next, .test,
    .wait (.batch [⟨3, EPOLLIN, .listener⟩, ⟨7, EPOLLHUP, .conn 0⟩]), .check,
    .removeFromEpoll 7, .close 7, .next, .accept4 (.conn fd 0 false), .insert, .epollAdd true,
    .ret, .next]

/-- When the number is not given out again, the stale entry is still delivered, for
the connection it was reported for. -/
theorem faithful_lateHangUp_other_number :
    let cfg : Setup := ⟨3, 5, 4, false, by decide, by decide, by decide⟩
    (∃ s, run (step cfg) (init cfg) (lateHangUp 8) = some s ∧
      s.pc = .calling ⟨7, .closeSocket, EPOLLHUP, .conn 0⟩ false []) ∧
      Always (step cfg) (fun s => Faithful s.kernel.file s.pc) (init cfg) (lateHangUp 8) := by
  exact ⟨⟨_, rfl, by decide⟩, faithful_of_noReuse _ (lateHangUp 8) (by decide)⟩

/-- `CLOSE_SOCKET` for number 7 is delivered because connection 0 was reset, while 7
belongs to connection 1, which is healthy. -/
theorem not_faithful_lateHangUp_same_number :
    let cfg : Setup := ⟨3, 5, 4, false, by decide, by decide, by decide⟩
    ∃ s, run (step cfg) (init cfg) (lateHangUp 7) = some s ∧
      s.pc = .calling ⟨7, .closeSocket, EPOLLHUP, .conn 0⟩ false [] ∧
      s.kernel.conn? 7 = some 1 ∧ s.peers.shut 1 = false ∧ ¬ Faithful s.kernel.file s.pc := by
  refine ⟨_, rfl, by decide, by decide, by decide, ?_⟩
  show ¬ (some (File.conn 1) = some (File.conn 0))
  decide

end Listen

end Nbuss
