import Mathlib.Algebra.Ring.Nat
import Nbuss.ServerWrite

/-!
# The write loop of the client

`BaseClient::write` is a copy of the loop of `IGenericServer::write` that has gone its
own way at the end.  Both loops add a partial count to the pointer and go on.  When the
last answer is a count, the server adds it to the pointer before it leaves the loop; the
client leaves the loop as it is, and then returns the distance `p - data`.  So the
client does not count the bytes of its last call.  It also returns the distance through
a cast to `int`.

The calls of `::write` are the same, because the loops go on under the same condition
(`clientLoop_eq`).  The values agree exactly when the last answer is not a positive
count.
-/

namespace Nbuss

/-- The loop of `BaseClient::write`.  At the end `sent` is what `p - data` is there: the
last count is not in it. -/
def clientLoop : List WriteAnswer → ℕ → List UInt8 → Option LoopEnd
  | [], _, _ => none
  | .wrote k :: answers, p, data =>
    if 0 < k ∧ k < data.length then
      (clientLoop answers (p + k) (data.drop k)).map fun e =>
        { e with calls := ⟨data, .wrote k⟩ :: e.calls }
    else
      some ⟨.wrote k, p, [⟨data, .wrote k⟩], answers⟩
  | .failed errno :: answers, p, data =>
    some ⟨.failed errno, p, [⟨data, .failed errno⟩], answers⟩

/-- The value returned after the client's loop. -/
def LoopEnd.clientRet (e : LoopEnd) : Int :=
  match e.c with
  | .failed errno =>
    if wouldBlock errno then
      if 0 < e.sent then (e.sent : Int) else -1
    else
      -1
  | .wrote _ => toInt e.sent

/-- `BaseClient::write(data, data_size)` on the descriptor `data_socket`. -/
def clientWrite (dataSocket : Int) (data : List UInt8) (answers : List WriteAnswer) :
    Option WriteResult :=
  if dataSocket = -1 then
    some ⟨-1, [], answers⟩
  else
    (clientLoop answers 0 data).map fun e => ⟨e.clientRet, e.calls, e.rest⟩

/-- The bytes of the last answer, if it is a count. -/
def WriteAnswer.count : WriteAnswer → ℕ
  | .wrote k => k
  | .failed _ => 0

/-- **The two loops make the same calls.**  They differ in the pointer they end with,
and only by the last count. -/
theorem clientLoop_eq (answers : List WriteAnswer) (p : ℕ) (data : List UInt8) :
    writeLoop answers p data =
      (clientLoop answers p data).map fun e => { e with sent := e.sent + e.c.count } := by
  induction answers generalizing p data with
  | nil => rfl
  | cons a answers ih =>
    cases a with
    | failed errno => rfl
    | wrote k =>
      rw [writeLoop, clientLoop]
      by_cases hpart : 0 < k ∧ k < data.length
      · rw [if_pos hpart, if_pos hpart, ih, Option.map_map, Option.map_map]
        rfl
      · rw [if_neg hpart, if_neg hpart, Option.map_some]
        have hsent : (if 0 < k then p + k else p) = p + k := by
          split_ifs <;> omega
        rw [hsent]
        rfl

/-- The kernel leaves something over, `p` bytes having been sent and `m` being left: the
last answer is a failure, or it is `0` and what has been sent fits an `int`. -/
def LeavesOver : ℕ → ℕ → List WriteAnswer → Prop
  | _, _, [] => True
  | p, m, .wrote k :: answers =>
    if 0 < k ∧ k < m then LeavesOver (p + k) (m - k) answers else k = 0 ∧ p < 2 ^ 31
  | _, _, .failed _ :: _ => True

/-- The values agree at the end of a loop exactly when the last answer is a failure, or
a zero after a distance that the cast does not change. -/
theorem ret_eq_clientRet_iff (e : LoopEnd) :
    e.clientRet = { e with sent := e.sent + e.c.count }.ret ↔
      ∀ k, e.c = .wrote k → k = 0 ∧ e.sent < 2 ^ 31 := by
  cases hc : e.c with
  | failed errno =>
    simp only [LoopEnd.clientRet, LoopEnd.ret, hc, WriteAnswer.count, Nat.add_zero]
    exact iff_of_true rfl fun k hk => by cases hk
  | wrote k =>
    have hcast : toInt e.sent = ((e.sent + k : ℕ) : Int) ↔ k = 0 ∧ e.sent < 2 ^ 31 := by
      rw [toInt, Int.bmod_def]
      split_ifs <;> omega
    simpa [LoopEnd.clientRet, LoopEnd.ret, hc, WriteAnswer.count] using hcast

theorem clientLoop_leavesOver_iff {answers : List WriteAnswer} {p : ℕ} {data : List UInt8}
    {e : LoopEnd} (h : clientLoop answers p data = some e) :
    LeavesOver p data.length answers ↔ ∀ k, e.c = .wrote k → k = 0 ∧ e.sent < 2 ^ 31 := by
  induction answers generalizing p data e with
  | nil => simp [clientLoop] at h
  | cons a answers ih =>
    cases a with
    | failed errno =>
      rw [clientLoop, Option.some_inj] at h
      subst h
      simp [LeavesOver]
    | wrote k =>
      rw [clientLoop] at h
      rw [LeavesOver]
      by_cases hpart : 0 < k ∧ k < data.length
      · rw [if_pos hpart] at h
        obtain ⟨e', he', rfl⟩ := Option.map_eq_some_iff.mp h
        rw [if_pos hpart, ← List.length_drop]
        have hrest := ih he'
        exact hrest
      · rw [if_neg hpart, Option.some_inj] at h
        subst h
        rw [if_neg hpart]
        simp

/-- A loop that runs out of answers has met no last count. -/
theorem leavesOver_of_clientLoop_none {answers : List WriteAnswer} {p : ℕ} {data : List UInt8}
    (h : clientLoop answers p data = none) : LeavesOver p data.length answers := by
  induction answers generalizing p data with
  | nil => trivial
  | cons a answers ih =>
    cases a with
    | failed errno => trivial
    | wrote k =>
      rw [clientLoop] at h
      by_cases hpart : 0 < k ∧ k < data.length
      · rw [if_pos hpart, Option.map_eq_none_iff] at h
        rw [LeavesOver, if_pos hpart, ← List.length_drop]
        exact ih h
      · rw [if_neg hpart] at h
        cases h

/-- **When the client and the server agree.**  On an open descriptor, for every buffer
and whatever the kernel answers, the calls of `::write` are the same, and the returned
values are the same exactly when the kernel leaves something over. -/
theorem client_agrees_iff (fd : Int) (data : List UInt8) (answers : List WriteAnswer)
    (hfd : fd ≠ -1) :
    (clientWrite fd data answers).map WriteResult.calls =
        (serverWrite fd data answers).map WriteResult.calls ∧
      ((clientWrite fd data answers).map WriteResult.ret =
          (serverWrite fd data answers).map WriteResult.ret ↔
        LeavesOver 0 data.length answers) := by
  rw [clientWrite, serverWrite, if_neg hfd, if_neg hfd, clientLoop_eq]
  cases he : clientLoop answers 0 data with
  | none =>
    have hover := leavesOver_of_clientLoop_none he
    simp only [Option.map_none, true_and, true_iff]
    exact hover
  | some e =>
    simp only [Option.map_some, Option.some_inj]
    refine ⟨trivial, ?_⟩
    rw [clientLoop_leavesOver_iff he]
    exact ret_eq_clientRet_iff e

/-- The kernel takes one byte of two and would block: both return `1`. -/
theorem client_agrees_after_part :
    LeavesOver 0 2 [.wrote 1, .failed EAGAIN] ∧
      (clientWrite 7 [104, 105] [.wrote 1, .failed EAGAIN]).map WriteResult.ret =
        (serverWrite 7 [104, 105] [.wrote 1, .failed EAGAIN]).map WriteResult.ret := by
  have hover : LeavesOver 0 2 [.wrote 1, .failed EAGAIN] := by simp [LeavesOver]
  exact ⟨hover,
    (client_agrees_iff 7 [104, 105] [.wrote 1, .failed EAGAIN] (by decide)).2.mpr hover⟩

/-- The kernel takes both bytes at once.  The server returns `2`, the client `0`. -/
theorem client_returns_zero :
    (serverWrite 7 [104, 105] [.wrote 2]).map WriteResult.ret = some 2 ∧
      (clientWrite 7 [104, 105] [.wrote 2]).map WriteResult.ret = some 0 :=
  ⟨by decide, by decide⟩

end Nbuss
