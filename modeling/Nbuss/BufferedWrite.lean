import Mathlib.Algebra.Order.Ring.Nat
import Mathlib.Data.Finset.Max
import Nbuss.Events
import Nbuss.SocketData
import Nbuss.Transition.Runs

/-!
# Buffered writes of `ThreadedServer2`

`ThreadedServer2::write` promises a caller that its bytes will go out: what the
kernel does not take at once is to be put into the write queue of the descriptor,
and `write_queue_worker` sends it when the descriptor becomes writable.  This
module has the three pieces that share the stream: `write`, the worker's inner
loop with `write_holding_lock`, and `internal_callback`, which tells the worker
which descriptors are writable.

## Where the bytes go

`write` takes its queue by `auto writeQueue = sd.getWriteQueue();`.  The right-hand
side is a reference, but `auto` is not, so `writeQueue` is a copy of the deque, and
the `push_front` of the unsent remainder goes into the copy.  The copy dies when
`write` returns.  The worker, which says `auto &writeQueue`, works on the real queue.

The model keeps the two apart: `write` returns the `SocketData` as it was, and the
local deque separately (`TsWrite.localQueue`).  The consequence is that the queue of
every descriptor stays empty (`Ts2.Idle`), the worker never has anything to send,
and a byte the kernel does not take in the call itself is lost.  So the stream of a
descriptor is intact exactly as long as no `::write` made for non-empty data has
failed, be it with `EAGAIN` or for good.
-/

namespace Nbuss

open Transition

/-! ## `write_holding_lock` and the worker's loop -/

/-- What `write_holding_lock` leaves behind. -/
structure HeldWrite where
  ret : Int
  writeQueue : List WriteItem
  calls : List WriteCall
  rest : List WriteAnswer
  deriving DecidableEq, Repr

/-- `ThreadedServer2::write_holding_lock`.  The item has been taken from the back
of `writeQueue`; unless it is sent completely, it goes back there, without the
bytes that were sent. -/
def writeHoldingLock (fd : ℕ) (item : WriteItem) (writeQueue : List WriteItem)
    (answers : List WriteAnswer) : Option HeldWrite :=
  (serverWrite fd item.data answers).map fun (r : WriteResult) =>
    if r.ret = (item.data.length : Int) then
      ⟨r.ret, writeQueue, r.calls, r.rest⟩
    else if r.ret = -1 then
      ⟨-1, pushBack writeQueue item, r.calls, r.rest⟩
    else if r.ret < (item.data.length : Int) then
      ⟨-1, pushBack writeQueue ⟨item.data.drop r.ret.toNat⟩, r.calls, r.rest⟩
    else
      ⟨-1, pushBack writeQueue item, r.calls, r.rest⟩

/-- What a drain pass leaves behind. -/
structure Drained where
  writeQueue : List WriteItem
  calls : List WriteCall
  rest : List WriteAnswer
  deriving DecidableEq, Repr

/-- The inner loop of `write_queue_worker`: take the item at the back, try to
send it, stop when the descriptor is no longer writable.  When
`write_holding_lock` does not answer `-1` it has left `writeQueue` alone
(`writeHoldingLock_writeQueue`), so the loop goes on with it. -/
def drainLoop (fd : ℕ) : List WriteItem → List WriteAnswer → Option Drained
  | [], answers => some ⟨[], [], answers⟩
  | item :: writeQueue, answers =>
    (writeHoldingLock fd item writeQueue answers).bind fun w =>
      if w.ret = -1 then
        some ⟨w.writeQueue, w.calls, w.rest⟩
      else
        (drainLoop fd writeQueue w.rest).map fun d => { d with calls := w.calls ++ d.calls }

theorem writeHoldingLock_writeQueue {fd : ℕ} {item : WriteItem} {writeQueue : List WriteItem}
    {answers : List WriteAnswer} {w : HeldWrite}
    (h : writeHoldingLock fd item writeQueue answers = some w) (hret : w.ret ≠ -1) :
    w.writeQueue = writeQueue := by
  obtain ⟨r, -, rfl⟩ := Option.map_eq_some_iff.mp h
  split_ifs at hret ⊢ <;> first | rfl | exact absurd rfl hret

/-- The answers that are not left over are those of the calls, in order. -/
theorem writeHoldingLock_answers {fd : ℕ} {item : WriteItem} {writeQueue : List WriteItem}
    {answers : List WriteAnswer} {w : HeldWrite}
    (h : writeHoldingLock fd item writeQueue answers = some w) :
    w.calls.map WriteCall.answer ++ w.rest = answers := by
  have hfd : (fd : Int) ≠ -1 := by omega
  obtain ⟨r, hr, rfl⟩ := Option.map_eq_some_iff.mp h
  rw [serverWrite, if_neg hfd] at hr
  obtain ⟨e, he, rfl⟩ := Option.map_eq_some_iff.mp hr
  split_ifs <;> exact writeLoop_answers he

/-- With enough answers `write_holding_lock` comes back, and what it leaves over is what
it had beyond one for each byte. -/
theorem exists_writeHoldingLock (fd : ℕ) (item : WriteItem) (writeQueue : List WriteItem)
    {answers : List WriteAnswer} {n : ℕ}
    (henough : max 1 item.data.length + n ≤ answers.length) :
    ∃ w, writeHoldingLock fd item writeQueue answers = some w ∧ n ≤ w.rest.length := by
  have hfd : (fd : Int) ≠ -1 := by omega
  have hne : answers ≠ [] := by
    rintro rfl
    rw [List.length_nil] at henough
    omega
  obtain ⟨e, he⟩ := exists_writeLoop 0 hne (show item.data.length ≤ answers.length by omega)
  have hcalls := writeLoop_calls_length he
  have hused := congrArg List.length (writeLoop_answers he)
  rw [List.length_append, List.length_map] at hused
  have hrest : n ≤ e.rest.length := by omega
  have hwrite : serverWrite fd item.data answers = some ⟨e.ret, e.calls, e.rest⟩ := by
    rw [serverWrite, if_neg hfd, he, Option.map_some]
  rw [writeHoldingLock, hwrite, Option.map_some]
  refine ⟨_, rfl, ?_⟩
  split_ifs <;> exact hrest

/-- **One item of the queue.**  Either it has been sent and the queue is as it was, or
what is left of it is back where it was taken from and the kernel has just answered
`EAGAIN`. -/
theorem writeHoldingLock_spec {fd : ℕ} {item : WriteItem} {writeQueue : List WriteItem}
    {answers : List WriteAnswer} {w : HeldWrite}
    (h : writeHoldingLock fd item writeQueue answers = some w)
    (hok : ∀ c ∈ w.calls, c.Fits ∧ c.OnlyEAGAIN) :
    (w.ret ≠ -1 ∧ accepted w.calls = item.data) ∨
      (w.ret = -1 ∧ w.calls.getLast?.map WriteCall.answer = some (.failed EAGAIN) ∧
        ∃ left, w.writeQueue = pushBack writeQueue ⟨left⟩ ∧
          accepted w.calls ++ left = item.data) := by
  have hfd : (fd : Int) ≠ -1 := by omega
  obtain ⟨r, hr, rfl⟩ := Option.map_eq_some_iff.mp h
  rw [serverWrite, if_neg hfd] at hr
  obtain ⟨e, he, rfl⟩ := Option.map_eq_some_iff.mp hr
  have hcalls : ∀ c ∈ e.calls, c.Fits ∧ c.OnlyEAGAIN := by
    intro c hc
    refine hok c ?_
    dsimp only
    split_ifs <;> exact hc
  obtain ⟨n, hn, hsent, hacc, hend⟩ := writeLoop_spec he fun c hc => (hcalls c hc).1
  rw [Nat.zero_add] at hsent
  rcases hend with ⟨⟨k, hc⟩, hlen⟩ | ⟨⟨errno, hc⟩, hlen⟩
  · -- the last answer took the rest
    have hret : e.ret = (item.data.length : Int) := by rw [LoopEnd.ret, hc, hsent, hlen]
    rw [if_pos hret]
    refine Or.inl ⟨show e.ret ≠ -1 by omega, ?_⟩
    rw [hacc, hlen, List.take_length]
  · -- the failure the loop stopped at is an `EAGAIN`
    obtain ⟨c, hcmem, hcanswer⟩ : ∃ c ∈ e.calls, c.answer = .failed errno := by
      have hmem := (writeLoop_failed_iff he errno).mpr hc
      exact List.mem_map.mp hmem
    have herrno : errno = EAGAIN := by
      have honly := (hcalls c hcmem).2
      rw [WriteCall.OnlyEAGAIN, hcanswer] at honly
      exact honly
    subst herrno
    have hlast : e.calls.getLast?.map WriteCall.answer = some (.failed EAGAIN) := by
      rw [writeLoop_last he, hc]
    have hret : e.ret = if 0 < n then (n : Int) else -1 := by
      rw [LoopEnd.ret, hc, hsent]
      rfl
    have hne : e.ret ≠ (item.data.length : Int) := by
      rw [hret]
      rcases hlen with hlt | hnil
      · split_ifs <;> omega
      · rw [hnil, List.length_nil] at hn ⊢
        split_ifs <;> omega
    rw [if_neg hne]
    refine Or.inr ?_
    by_cases h0 : 0 < n
    · rw [if_pos h0] at hret
      have hneg : e.ret ≠ -1 := by omega
      have hlt : e.ret < (item.data.length : Int) := by omega
      rw [if_neg hneg, if_pos hlt]
      refine ⟨rfl, hlast, item.data.drop n, ?_, ?_⟩
      · rw [hret, Int.toNat_natCast]
      · rw [hacc, List.take_append_drop]
    · rw [if_neg h0] at hret
      rw [if_pos hret]
      have hn0 : n = 0 := by omega
      refine ⟨rfl, hlast, item.data, rfl, ?_⟩
      rw [hacc, hn0, List.take_zero, List.nil_append]

/-- How many answers a pass over the queue uses at most: one for each byte, and one for
an empty item. -/
def callsNeeded (writeQueue : List WriteItem) : ℕ :=
  (writeQueue.map fun item => max 1 item.data.length).sum

theorem exists_drainLoop (fd : ℕ) {writeQueue : List WriteItem} {answers : List WriteAnswer}
    (henough : callsNeeded writeQueue ≤ answers.length) :
    ∃ d, drainLoop fd writeQueue answers = some d := by
  induction writeQueue generalizing answers with
  | nil => exact ⟨_, rfl⟩
  | cons item writeQueue ih =>
    rw [callsNeeded, List.map_cons, List.sum_cons] at henough
    obtain ⟨w, hw, hrest⟩ := exists_writeHoldingLock fd item writeQueue henough
    obtain ⟨d, hd⟩ := ih hrest
    rw [drainLoop, hw, Option.bind_some]
    split_ifs
    · exact ⟨_, rfl⟩
    · exact ⟨_, by rw [hd, Option.map_some]⟩

/-- The calls of a pass are those the kernel has answered. -/
theorem drainLoop_answers {fd : ℕ} {writeQueue : List WriteItem} {answers : List WriteAnswer}
    {d : Drained} (h : drainLoop fd writeQueue answers = some d) :
    d.calls.map WriteCall.answer ++ d.rest = answers := by
  induction writeQueue generalizing answers d with
  | nil =>
    rw [drainLoop, Option.some_inj] at h
    subst h
    rfl
  | cons item writeQueue ih =>
    rw [drainLoop, Option.bind_eq_some_iff] at h
    obtain ⟨w, hw, h⟩ := h
    have hitem := writeHoldingLock_answers hw
    split_ifs at h with hret
    · rw [Option.some_inj] at h
      subst h
      exact hitem
    · obtain ⟨d', hd', rfl⟩ := Option.map_eq_some_iff.mp h
      rw [List.map_append, List.append_assoc, ih hd', hitem]

/-- **What a pass does.**  What the kernel took, followed by what is left, is the queue
as it was; and something is left only behind an `EAGAIN`. -/
theorem drainLoop_spec {fd : ℕ} {writeQueue : List WriteItem} {answers : List WriteAnswer}
    {d : Drained} (h : drainLoop fd writeQueue answers = some d)
    (hok : ∀ c ∈ d.calls, c.Fits ∧ c.OnlyEAGAIN) :
    accepted d.calls ++ d.writeQueue.flatMap WriteItem.data =
        writeQueue.flatMap WriteItem.data ∧
      (d.writeQueue = [] ∨
        d.calls.getLast?.map WriteCall.answer = some (.failed EAGAIN)) := by
  induction writeQueue generalizing answers d with
  | nil =>
    rw [drainLoop, Option.some_inj] at h
    subst h
    exact ⟨rfl, Or.inl rfl⟩
  | cons item writeQueue ih =>
    rw [drainLoop, Option.bind_eq_some_iff] at h
    obtain ⟨w, hw, h⟩ := h
    split_ifs at h with hret
    · -- the item is back in the queue
      rw [Option.some_inj] at h
      subst h
      rcases writeHoldingLock_spec hw hok with ⟨hne, -⟩ | ⟨-, hlast, left, hqueue, hleft⟩
      · exact absurd hret hne
      · refine ⟨?_, Or.inr hlast⟩
        rw [hqueue, pushBack, List.flatMap_cons, List.flatMap_cons, ← List.append_assoc, hleft]
    · -- the item has been sent
      obtain ⟨d', hd', rfl⟩ := Option.map_eq_some_iff.mp h
      have hokw : ∀ c ∈ w.calls, c.Fits ∧ c.OnlyEAGAIN := fun c hc =>
        hok c (List.mem_append_left _ hc)
      have hokd : ∀ c ∈ d'.calls, c.Fits ∧ c.OnlyEAGAIN := fun c hc =>
        hok c (List.mem_append_right _ hc)
      rcases writeHoldingLock_spec hw hokw with ⟨-, hsent⟩ | ⟨hneg, -⟩
      · obtain ⟨hbytes, hend⟩ := ih hd' hokd
        refine ⟨?_, ?_⟩
        · rw [accepted_append, hsent, List.append_assoc, hbytes, List.flatMap_cons]
        · rcases hend with hempty | hlast
          · exact Or.inl hempty
          · obtain ⟨c, hc, hcanswer⟩ := Option.map_eq_some_iff.mp hlast
            refine Or.inr ?_
            rw [List.getLast?_append, hc]
            exact congrArg some hcanswer
      · exact absurd hneg hret

/-- What `ThreadedServer2::write` leaves behind.  `localQueue` is the local variable
`writeQueue` at the moment of return. -/
structure TsWrite where
  ret : Int
  sd : SocketData
  localQueue : List WriteItem
  calls : List WriteCall
  rest : List WriteAnswer
  deriving DecidableEq, Repr

/-- The part of `write` behind the label `add_to_write_queue`: the bytes that are
left are copied into an item, the item is pushed on the deque, and the caller is
told that everything was written. -/
def addToWriteQueue (originalDataSize : ℕ) (sd : SocketData) (writeQueue : List WriteItem)
    (data : List UInt8) (calls : List WriteCall) (rest : List WriteAnswer) : TsWrite :=
  ⟨originalDataSize, sd, pushFront writeQueue ⟨data⟩, calls, rest⟩

/-- `ThreadedServer2::write(fd, data, data_size)`, with `sd` the socket data of
`fd`. -/
def write (fd : ℕ) (sd : SocketData) (data : List UInt8) (answers : List WriteAnswer) :
    Option TsWrite :=
  -- `auto writeQueue = sd.getWriteQueue();` is a copy
  let writeQueue := sd.writeQueue
  if writeQueue.length = 0 then
    (serverWrite fd data answers).map fun (r : WriteResult) =>
      if r.ret = (data.length : Int) then
        ⟨r.ret, sd, writeQueue, r.calls, r.rest⟩
      else if r.ret = -1 then
        addToWriteQueue data.length sd writeQueue data r.calls r.rest
      else if r.ret < (data.length : Int) then
        addToWriteQueue data.length sd writeQueue (data.drop r.ret.toNat) r.calls r.rest
      else
        addToWriteQueue data.length sd writeQueue data r.calls r.rest
  else
    some (addToWriteQueue data.length sd writeQueue data [] answers)

/-- `write` leaves the socket data alone, and always reports that the whole buffer
was written. -/
theorem write_sd_ret {fd : ℕ} {sd : SocketData} {data : List UInt8}
    {answers : List WriteAnswer} {w : TsWrite} (h : write fd sd data answers = some w) :
    w.sd = sd ∧ w.ret = data.length := by
  unfold write at h
  dsimp only at h
  split_ifs at h with hempty
  · obtain ⟨r, -, rfl⟩ := Option.map_eq_some_iff.mp h
    split_ifs with hall
    · exact ⟨rfl, hall⟩
    all_goals exact ⟨rfl, rfl⟩
  · rw [Option.some_inj] at h
    rw [← h]
    exact ⟨rfl, rfl⟩

/-- With an empty queue, the `::write` calls of `write` are those of the write
loop. -/
theorem write_calls {fd : ℕ} {sd : SocketData} {data : List UInt8}
    {answers : List WriteAnswer} {w : TsWrite} (h : write fd sd data answers = some w)
    (hq : sd.writeQueue = []) :
    ∃ e, writeLoop answers 0 data = some e ∧ w.calls = e.calls ∧ w.rest = e.rest := by
  have hfd : (fd : Int) ≠ -1 := by omega
  unfold write serverWrite at h
  rw [hq] at h
  simp only [List.length_nil, if_true, if_neg hfd, Option.map_map] at h
  obtain ⟨e, he, rfl⟩ := Option.map_eq_some_iff.mp h
  refine ⟨e, he, ?_⟩
  dsimp only [Function.comp_apply]
  split_ifs <;> exact ⟨rfl, rfl⟩

/-- **A write on an empty queue.**  All of the data reaches the kernel unless some
`::write` answered `EAGAIN` while bytes were left. -/
theorem write_accepted_iff {fd : ℕ} {sd : SocketData} {data : List UInt8}
    {answers : List WriteAnswer} {w : TsWrite} (h : write fd sd data answers = some w)
    (hq : sd.writeQueue = []) (hrest : w.rest = []) (hfit : ∀ c ∈ w.calls, c.Fits) :
    accepted w.calls = data ↔ data = [] ∨ ∀ errno, .failed errno ∉ answers := by
  obtain ⟨e, he, hcalls, hrest'⟩ := write_calls h hq
  have hused : e.calls.map WriteCall.answer = answers := by
    have := writeLoop_answers he
    rwa [← hrest', hrest, List.append_nil] at this
  have hfailed : ∀ errno, .failed errno ∈ answers ↔ e.c = .failed errno := by
    intro errno
    rw [← hused]
    exact writeLoop_failed_iff he errno
  obtain ⟨n, hn, -, hacc, hend⟩ := writeLoop_spec he (hcalls ▸ hfit)
  have htake : accepted w.calls = data ↔ n = data.length := by
    rw [hcalls, hacc, List.take_eq_self_iff]
    omega
  rw [htake]
  rcases hend with ⟨⟨k, hc⟩, hlen⟩ | ⟨⟨errno, hc⟩, hlen⟩
  · refine ⟨fun _ => Or.inr fun errno hmem => ?_, fun _ => hlen⟩
    rw [hfailed, hc] at hmem
    cases hmem
  · constructor
    · intro hn'
      exact Or.inl (hlen.resolve_left (by omega))
    · rintro (rfl | hno)
      · exact Nat.le_zero.mp hn
      · exact absurd ((hfailed errno).mpr hc) (hno errno)

/-! ## What the caller of `write` is told -/

/-- With enough answers `write` comes back. -/
theorem exists_write (fd : ℕ) (sd : SocketData) {data : List UInt8} {answers : List WriteAnswer}
    (hne : answers ≠ []) (henough : data.length ≤ answers.length) :
    ∃ w, write fd sd data answers = some w := by
  have hfd : (fd : Int) ≠ -1 := by omega
  obtain ⟨e, he⟩ := exists_writeLoop 0 hne henough
  unfold write serverWrite
  rw [if_neg hfd, he]
  dsimp only
  split_ifs
  · exact ⟨_, rfl⟩
  · exact ⟨_, rfl⟩

/-- The kernel gives up while `m` bytes are left: it answers with a hard error.  (Or with `0`
although something was asked, which a socket does not do.) -/
def GivesUp : ℕ → List WriteAnswer → Prop
  | _, [] => False
  | m, .wrote k :: answers => if 0 < k ∧ k < m then GivesUp (m - k) answers else k = 0 ∧ 0 < m
  | _, .failed errno :: _ => wouldBlock errno = false

theorem writeLoop_givesUp_iff {answers : List WriteAnswer} {p : ℕ} {data : List UInt8}
    {e : LoopEnd} (h : writeLoop answers p data = some e) :
    GivesUp data.length answers ↔
      (∃ errno, e.c = .failed errno ∧ wouldBlock errno = false) ∨
        (∃ k, e.c = .wrote k) ∧ accepted e.calls ≠ data := by
  induction answers generalizing p data e with
  | nil => simp [writeLoop] at h
  | cons a answers ih =>
    cases a with
    | failed errno =>
      rw [writeLoop, Option.some_inj] at h
      subst h
      simp [GivesUp]
    | wrote k =>
      rw [writeLoop] at h
      rw [GivesUp]
      by_cases hpart : 0 < k ∧ k < data.length
      · rw [if_pos hpart] at h
        obtain ⟨e', he', rfl⟩ := Option.map_eq_some_iff.mp h
        have hrest := ih he'
        have hacc : accepted (⟨data, .wrote k⟩ :: e'.calls) ≠ data ↔
            accepted e'.calls ≠ data.drop k := by
          rw [accepted_cons, accepted_wrote]
          conv_lhs => rw [← List.take_append_drop k data, List.take_left' (by simp; omega)]
          exact not_congr (List.append_right_inj _)
        rw [List.length_drop] at hrest
        rw [if_pos hpart, hrest, ← hacc]
      · rw [if_neg hpart, Option.some_inj] at h
        subst h
        have hacc : accepted [⟨data, .wrote k⟩] ≠ data ↔ k = 0 ∧ 0 < data.length := by
          rw [accepted_cons, accepted_wrote, accepted_nil, List.append_nil, Ne,
            List.take_eq_self_iff]
          omega
        rw [if_neg hpart, hacc]
        simp

/-- The call tells the truth: it reports everything as written only if the kernel has it or will
take it later, and an error is reported as an error and queues nothing. -/
structure Honest (sd : SocketData) (data : List UInt8) (w : TsWrite) : Prop where
  success : w.ret = data.length → accepted w.calls = data ∨
    (∃ errno, w.calls.getLast?.map WriteCall.answer = some (.failed errno) ∧
      wouldBlock errno = true) ∨ sd.writeQueue ≠ []
  error : ∀ errno, wouldBlock errno = false →
    .failed errno ∈ w.calls.map WriteCall.answer →
      w.ret ≠ data.length ∧ w.sd.writeQueue = sd.writeQueue

/-- With an empty queue `write` tells the truth unless the kernel gives up: everything is always
reported as written. -/
theorem honest_iff_of_empty {fd : ℕ} {sd : SocketData} {data : List UInt8}
    {answers : List WriteAnswer} {w : TsWrite} (hw : write fd sd data answers = some w)
    (hq : sd.writeQueue = []) : Honest sd data w ↔ ¬ GivesUp data.length answers := by
  obtain ⟨-, hret⟩ := write_sd_ret hw
  obtain ⟨e, he, hcalls, -⟩ := write_calls hw hq
  have hlast : w.calls.getLast?.map WriteCall.answer = some e.c := by
    rw [hcalls]
    exact writeLoop_last he
  have hfailed : ∀ errno, .failed errno ∈ w.calls.map WriteCall.answer ↔ e.c = .failed errno := by
    intro errno
    rw [hcalls]
    exact writeLoop_failed_iff he errno
  rw [writeLoop_givesUp_iff he, ← hcalls]
  constructor
  · rintro ⟨hsuccess, herror⟩ (⟨errno, hc, hhard⟩ | ⟨⟨k, hc⟩, hmissing⟩)
    · exact (herror errno hhard ((hfailed errno).mpr hc)).1 hret
    · rcases hsuccess hret with hall | ⟨errno, hblock, -⟩ | hqueued
      · exact hmissing hall
      · rw [hlast, hc] at hblock
        cases hblock
      · exact hqueued hq
  · refine fun hgoes => ⟨fun _ => ?_, fun errno hhard hmem => ?_⟩
    · cases hc : e.c with
      | wrote k => exact .inl (by_contra fun hmissing => hgoes (.inr ⟨⟨k, hc⟩, hmissing⟩))
      | failed errno =>
        refine .inr (.inl ⟨errno, by rw [hlast, hc], ?_⟩)
        cases hblock : wouldBlock errno with
        | true => rfl
        | false => exact absurd (.inl ⟨errno, hc, hblock⟩) hgoes
    · exact absurd (.inl ⟨errno, (hfailed errno).mp hmem, hhard⟩) hgoes

/-- With something in the queue no `::write` is made, so there is nothing to tell. -/
theorem honest_of_queued {fd : ℕ} {sd : SocketData} {data : List UInt8}
    {answers : List WriteAnswer} {w : TsWrite} (hw : write fd sd data answers = some w)
    (hq : sd.writeQueue ≠ []) : Honest sd data w := by
  have hnone : w.calls = [] := by
    unfold write at hw
    dsimp only at hw
    rw [if_neg (fun hlen => hq (List.eq_nil_of_length_eq_zero hlen)), Option.some_inj] at hw
    rw [← hw]
    rfl
  refine ⟨fun _ => .inr (.inr hq), fun errno _ hmem => ?_⟩
  rw [hnone] at hmem
  cases hmem

/-- **When `write` does not report success for a failed connection.**  For every state of the
socket data, all data and whatever the kernel answers, the call comes back; it tells the truth
exactly when it only queues or the kernel does not give up. -/
theorem write_honest_iff (fd : ℕ) (sd : SocketData) (data : List UInt8)
    (answers : List WriteAnswer) (hne : answers ≠ []) (henough : data.length ≤ answers.length) :
    ∃ w, write fd sd data answers = some w ∧
      (Honest sd data w ↔ sd.writeQueue ≠ [] ∨ ¬ GivesUp data.length answers) := by
  obtain ⟨w, hw⟩ := exists_write fd sd hne henough
  refine ⟨w, hw, ?_⟩
  by_cases hq : sd.writeQueue = []
  · rw [honest_iff_of_empty hw hq, or_iff_right (not_not.mpr hq)]
  · exact iff_of_true (honest_of_queued hw hq) (.inl hq)

/-- One byte of two is taken and then the kernel would block: the other one is to be queued, and
`2` is reported. -/
theorem write_honest_after_part :
    ∃ w, write 7 {} [104, 105] [.wrote 1, .failed EAGAIN] = some w ∧ Honest {} [104, 105] w := by
  obtain ⟨w, hw, hhonest⟩ := write_honest_iff 7 {} [104, 105] [.wrote 1, .failed EAGAIN]
    (by decide) (by decide)
  exact ⟨w, hw, hhonest.mpr (.inr (by simp [GivesUp]))⟩

/-- The peer is gone (`EPIPE`): no byte is taken, and `2` is reported. -/
theorem write_reports_success_for_broken_pipe :
    ∃ w, write 7 {} [104, 105] [.failed 32, .failed 32] = some w ∧ w.ret = 2 ∧
      accepted w.calls = [] ∧ ¬ Honest {} [104, 105] w := by
  refine ⟨_, rfl, rfl, rfl, fun hhonest => ?_⟩
  exact (hhonest.error 32 (by decide) (by decide)).1 rfl

/-! ## The server as a whole -/

/-- The part of `ThreadedServer2` that buffered writes use, with two things the
program does not see: the bytes the kernel has accepted on each descriptor, and
the data of the `write` calls that returned their full `data_size`. -/
structure Ts2 where
  internalSocketData : ℕ → SocketData
  readyToWriteSet : Finset ℕ
  accepted : ℕ → List UInt8
  written : ℕ → List (List UInt8)

namespace Ts2

/-- No descriptor has been used. -/
def init : Ts2 := ⟨fun _ => {}, ∅, fun _ => [], fun _ => []⟩

/-- Insert a descriptor into `readyToWriteSet`. -/
def markReady (st : Ts2) (fd : ℕ) : Ts2 :=
  { st with readyToWriteSet := insert fd st.readyToWriteSet }

/-- `ThreadedServer2::cleanup(fd)`. -/
def cleanup (st : Ts2) (fd : ℕ) : Option Ts2 :=
  (st.internalSocketData fd).lock.map fun sd =>
    { st with
      internalSocketData := Function.update st.internalSocketData fd sd.cleanup.release }

/-- `ThreadedServer2::internal_callback`: the state after it, and the job handed on
to `callback_function`.  `get_socket_data` in the case `NEW_SOCKET` only creates an
entry that the map would create anyway. -/
def internalCallback (st : Ts2) (fd : ℕ) (job : Job) : Option (Ts2 × Option Job) :=
  match job with
  | .availableForReadAndWrite => some (st.markReady fd, forwardedJob job)
  | .availableForWrite => some (st.markReady fd, forwardedJob job)
  | .newSocket | .closeSocket | .availableForRead => some (st, forwardedJob job)
  | .socketIsClosed => (st.cleanup fd).map fun st' => (st', forwardedJob job)

/-- The kernel has kept its promise in these calls: what it reports is possible, and no answer
is left over.  A call may fail in any way. -/
def KernelOk (calls : List WriteCall) (rest : List WriteAnswer) : Prop :=
  rest = [] ∧ ∀ c ∈ calls, c.Fits

instance (calls : List WriteCall) (rest : List WriteAnswer) : Decidable (KernelOk calls rest) :=
  inferInstanceAs (Decidable (_ ∧ _))

/-- The kernel takes the bytes of these calls into the stream of `fd`. -/
def deliver (st : Ts2) (fd : ℕ) (calls : List WriteCall) : Ts2 :=
  { st with
    accepted := Function.update st.accepted fd (st.accepted fd ++ Nbuss.accepted calls) }

/-- One pass of `write_queue_worker`: extract the first descriptor of
`readyToWriteSet`, lock its socket data, drain its queue, release. -/
def workerPass (st : Ts2) (answers : List WriteAnswer) : Option Ts2 :=
  if h : st.readyToWriteSet.Nonempty then
    let fd := st.readyToWriteSet.min' h
    (st.internalSocketData fd).lock.bind fun sd =>
      (drainLoop fd sd.writeQueue answers).bind fun d =>
        if KernelOk d.calls d.rest then
          some ({ st with
            readyToWriteSet := st.readyToWriteSet.erase fd
            internalSocketData := Function.update st.internalSocketData fd
              (SocketData.release { sd with writeQueue := d.writeQueue }) }.deliver fd d.calls)
        else
          none
  else
    none

/-- What can happen to the buffered writes: a call of `write`, one of the two events
that report a writable descriptor, a pass of the worker. -/
inductive Op where
  | write (fd : ℕ) (data : List UInt8) (answers : List WriteAnswer)
  | availableForWrite (fd : ℕ)
  | availableForReadAndWrite (fd : ℕ)
  | workerPass (answers : List WriteAnswer)

/-- One atomic operation.  The answers of the kernel are part of the label, and a
step in which it breaks its promise does not exist. -/
def step (st : Ts2) : Op → Option Ts2
  | .write fd data answers =>
    (Nbuss.write fd (st.internalSocketData fd) data answers).bind fun w =>
      if KernelOk w.calls w.rest then
        some ({ st with
          internalSocketData := Function.update st.internalSocketData fd w.sd
          written :=
            if w.ret = (data.length : Int) then
              Function.update st.written fd (st.written fd ++ [data])
            else
              st.written }.deliver fd w.calls)
      else
        none
  | .availableForWrite fd => (st.internalCallback fd .availableForWrite).map Prod.fst
  | .availableForReadAndWrite fd =>
    (st.internalCallback fd .availableForReadAndWrite).map Prod.fst
  | .workerPass answers => st.workerPass answers

/-- The stream of `fd` is intact: what the kernel has accepted, followed by what
still waits in the queue, is the data of the successful writes in call order. -/
def Intact (fd : ℕ) (st : Ts2) : Prop :=
  st.accepted fd ++ (st.internalSocketData fd).queued = (st.written fd).flatten

instance (fd : ℕ) : DecidablePred (Intact fd) := fun _ => inferInstanceAs (Decidable (_ = _))

/-- The kernel takes all the data of a write on `fd` while the call lasts. -/
def TakenAtOnce (fd : ℕ) (_ : Ts2) : Op → Prop
  | .write fd' data answers => fd' = fd → data = [] ∨ ∀ errno, .failed errno ∉ answers
  | _ => True

/-- Nothing is queued and nobody holds a lock. -/
def Idle (st : Ts2) : Prop := ∀ fd, st.internalSocketData fd = {}

/-! ### One step -/

/-- A write leaves the socket data as they were and appends what the kernel took. -/
theorem step_write {st st' : Ts2} {fd : ℕ} {data : List UInt8} {answers : List WriteAnswer}
    (h : step st (.write fd data answers) = some st') :
    ∃ w, Nbuss.write fd (st.internalSocketData fd) data answers = some w ∧
      KernelOk w.calls w.rest ∧
      st' = { st with
        written := Function.update st.written fd (st.written fd ++ [data])
      }.deliver fd w.calls := by
  rw [step, Option.bind_eq_some_iff] at h
  obtain ⟨w, hw, h⟩ := h
  obtain ⟨hsd, hret⟩ := write_sd_ret hw
  rw [if_pos hret, hsd, Function.update_eq_self] at h
  split_ifs at h with hok
  rw [Option.some_inj] at h
  exact ⟨w, hw, hok, h.symm⟩

/-- A pass of the worker over idle socket data changes `readyToWriteSet` only. -/
theorem step_workerPass {st st' : Ts2} {answers : List WriteAnswer} (hidle : st.Idle)
    (h : step st (.workerPass answers) = some st') :
    st'.internalSocketData = st.internalSocketData ∧ st'.accepted = st.accepted ∧
      st'.written = st.written := by
  rw [step, workerPass] at h
  split_ifs at h with hne
  have hlock : (st.internalSocketData (st.readyToWriteSet.min' hne)).lock = some { uses := 1 } := by
    rw [hidle (st.readyToWriteSet.min' hne)]
    rfl
  simp only [hlock, Option.bind_some, drainLoop] at h
  split_ifs at h with hok
  rw [Option.some_inj] at h
  subst h
  refine ⟨?_, ?_, rfl⟩
  · -- locking and releasing leaves the idle socket data idle
    refine (Function.update_eq_iff).mpr ⟨?_, fun _ _ => rfl⟩
    rw [hidle (st.readyToWriteSet.min' hne)]
    rfl
  · simp [deliver]

theorem idle_step {st st' : Ts2} {op : Op} (hidle : st.Idle) (h : step st op = some st') :
    st'.Idle := by
  cases op with
  | write fd data answers =>
    obtain ⟨w, -, -, rfl⟩ := step_write h
    exact hidle
  | availableForWrite fd | availableForReadAndWrite fd =>
    rw [step, internalCallback, Option.map_some, Option.some_inj] at h
    rw [← h]
    exact hidle
  | workerPass answers =>
    intro fd
    rw [(step_workerPass hidle h).1]
    exact hidle fd

/-- A step of another kind than a write on `fd` leaves the stream of `fd` alone; a
write on `fd` keeps it intact exactly when the kernel took all the data. -/
theorem intact_step_iff {fd : ℕ} {st st' : Ts2} {op : Op} (hidle : st.Idle)
    (hintact : st.Intact fd) (h : step st op = some st') :
    st'.Intact fd ↔ TakenAtOnce fd st op := by
  cases op with
  | write fd' data answers =>
    obtain ⟨w, hw, ⟨hrest, hcalls⟩, rfl⟩ := step_write h
    by_cases hfd : fd' = fd
    · subst hfd
      have hacc := write_accepted_iff hw (by rw [hidle]) hrest hcalls
      simp only [TakenAtOnce, true_imp_iff, ← hacc]
      have hempty : (st.internalSocketData fd').queued = [] := by rw [hidle fd']; rfl
      rw [Intact, hempty, List.append_nil] at hintact
      simp [Intact, deliver, hempty, hintact]
    · simpa [TakenAtOnce, hfd, Intact, deliver, Function.update_of_ne (Ne.symm hfd)] using hintact
  | availableForWrite fd' | availableForReadAndWrite fd' =>
    rw [step, internalCallback, Option.map_some, Option.some_inj] at h
    subst h
    exact iff_of_true hintact trivial
  | workerPass answers =>
    obtain ⟨hsd, hacc, hwr⟩ := step_workerPass hidle h
    refine iff_of_true ?_ trivial
    rwa [Intact, hsd, hacc, hwr]

/-! ### Whole runs -/

/-- **When a stream stays intact.**  In a run of writes, events and worker passes the stream of `fd`
is intact in every state exactly when no write of non-empty data on `fd` met an `EAGAIN` or another
failure: what the kernel does not take during the call is queued on a copy of the queue, and no
worker pass ever sees it. -/
theorem stream_intact_iff (fd : ℕ) (ops : List Op) :
    Always step (Intact fd) init ops ↔ Guarded step (TakenAtOnce fd) init ops := by
  refine always_iff_guarded (I := fun st => st.Idle ∧ st.Intact fd) ?_ ?_ ?_ ?_
  · exact fun st h => h.2
  · rintro st op st' ⟨hidle, hintact⟩ hg hs
    exact ⟨idle_step hidle hs, (intact_step_iff hidle hintact hs).mpr hg⟩
  · rintro st op st' ⟨hidle, hintact⟩ hg hs hP
    exact hg ((intact_step_iff hidle hintact hs).mp hP)
  · exact ⟨fun _ => rfl, rfl⟩

/-- The kernel's buffer is full, `write` reports two bytes written, and they are
neither sent nor queued. -/
theorem stream_lost_on_eagain :
    ∃ st, run step init [.write 7 [104, 105] [.failed EAGAIN]] = some st ∧
      st.written 7 = [[104, 105]] ∧ st.accepted 7 = [] ∧
      (st.internalSocketData 7).queued = [] ∧ ¬ st.Intact 7 :=
  ⟨_, rfl, by decide, by decide, by decide, by decide⟩

/-! ### What the peer gets -/

/-- What the peer has received are beginnings of the buffers, one of each, in call order. -/
def Beginnings (fd : ℕ) (st : Ts2) : Prop :=
  ∃ parts, List.Forall₂ (· <+: ·) parts (st.written fd) ∧ st.accepted fd = parts.flatten

/-- What the kernel takes of a write on an empty queue is a beginning of the data. -/
theorem accepted_prefix_of_write {fd : ℕ} {sd : SocketData} {data : List UInt8}
    {answers : List WriteAnswer} {w : TsWrite} (h : Nbuss.write fd sd data answers = some w)
    (hq : sd.writeQueue = []) (hfit : ∀ c ∈ w.calls, c.Fits) :
    Nbuss.accepted w.calls <+: data := by
  obtain ⟨e, he, hcalls, -⟩ := write_calls h hq
  obtain ⟨n, -, -, hacc, -⟩ := writeLoop_spec he (hcalls ▸ hfit)
  rw [hcalls, hacc]
  exact List.take_prefix n data

theorem beginnings_step {fd : ℕ} {st st' : Ts2} {op : Op} (hidle : st.Idle)
    (hparts : st.Beginnings fd) (h : step st op = some st') : st'.Beginnings fd := by
  obtain ⟨parts, hprefix, hacc⟩ := hparts
  cases op with
  | write fd' data answers =>
    obtain ⟨w, hw, ⟨-, hcalls⟩, rfl⟩ := step_write h
    by_cases hfd : fd' = fd
    · subst hfd
      have hpart := accepted_prefix_of_write hw (by rw [hidle]) hcalls
      refine ⟨parts ++ [Nbuss.accepted w.calls], ?_, ?_⟩
      · simp only [deliver, Function.update_self]
        exact List.rel_append hprefix (.cons hpart .nil)
      · simp only [deliver, Function.update_self, hacc, List.flatten_append]
        simp
    · refine ⟨parts, ?_, ?_⟩
      · simpa only [deliver, Function.update_of_ne (Ne.symm hfd)] using hprefix
      · simpa only [deliver, Function.update_of_ne (Ne.symm hfd)] using hacc
  | availableForWrite fd' | availableForReadAndWrite fd' =>
    rw [step, internalCallback, Option.map_some, Option.some_inj] at h
    subst h
    exact ⟨parts, hprefix, hacc⟩
  | workerPass answers =>
    obtain ⟨-, hacc', hwr⟩ := step_workerPass hidle h
    exact ⟨parts, by rwa [hwr], by rw [hacc', hacc]⟩

end Ts2

end Nbuss
