import Mathlib.Algebra.Ring.Nat
import Mathlib.Data.List.Basic
import Mathlib.Tactic.Common

/-!
# `IGenericServer::write`

The write loop of `IGenericServer` hands the kernel the bytes that are left,
again and again, as long as the kernel takes a proper part of them.  It ends
when the kernel takes everything that was asked, or takes nothing, or fails, and
the return value is worked out from the pointer `p` and from that last answer.

The kernel is the environment: what it answers to the successive `::write` calls
of one operation is a list of `WriteAnswer`s, and the loop consumes the list from
its head.  A list that ends before the loop does says that the operation has not
returned yet, and the model answers `none`.  Each call is recorded with the
buffer it was made with (`WriteCall`), so the bytes the kernel accepted can be
read off the calls alone (`accepted`), without trusting the pointer arithmetic
of the loop.  `writeLoop_spec` then says that the two agree.

`WriteCall.Fits` is what the kernel promises about the length it reports: never
more than was asked, and never zero when something was asked.
-/

namespace Nbuss

/-- `EAGAIN`, as Linux numbers it. -/
def EAGAIN : Int := 11

/-- `EWOULDBLOCK`; on Linux it is the same number. -/
def EWOULDBLOCK : Int := EAGAIN

/-- The test `errno == EAGAIN || errno == EWOULDBLOCK`. -/
def wouldBlock (errno : Int) : Bool := errno == EAGAIN || errno == EWOULDBLOCK

/-- The conversion of a wider integer, such as a `ptrdiff_t`, to `int`. -/
def toInt (x : Int) : Int := x.bmod (2 ^ 32)

/-- What one `::write` answers: a number of bytes, or `-1` with an `errno`. -/
inductive WriteAnswer where
  | wrote (k : ℕ)
  | failed (errno : Int)
  deriving DecidableEq, Repr

/-- One `::write` call as the kernel sees it. -/
structure WriteCall where
  buf : List UInt8
  answer : WriteAnswer
  deriving DecidableEq, Repr

/-- The bytes the kernel accepted in one call. -/
def WriteCall.accepted (w : WriteCall) : List UInt8 :=
  match w.answer with
  | .wrote k => w.buf.take k
  | .failed _ => []

/-- The bytes the kernel accepted in a sequence of calls. -/
def accepted (calls : List WriteCall) : List UInt8 := calls.flatMap WriteCall.accepted

/-- Where the write loop stands when it is left: the last value of `c` (with its
`errno`), the distance `p - data`, the calls made, and the kernel's answers that
were not used. -/
structure LoopEnd where
  c : WriteAnswer
  sent : ℕ
  calls : List WriteCall
  rest : List WriteAnswer
  deriving DecidableEq, Repr

/-- The loop `while (true) { c = ::write(fd, p, data_size); ... }`.  `p` counts
from the start of the caller's buffer and `data` is what is left from `p` on. -/
def writeLoop : List WriteAnswer → ℕ → List UInt8 → Option LoopEnd
  | [], _, _ => none
  | .wrote k :: answers, p, data =>
    if 0 < k ∧ k < data.length then
      (writeLoop answers (p + k) (data.drop k)).map fun e =>
        { e with calls := ⟨data, .wrote k⟩ :: e.calls }
    else
      some ⟨.wrote k, if 0 < k then p + k else p, [⟨data, .wrote k⟩], answers⟩
  | .failed errno :: answers, p, data =>
    some ⟨.failed errno, p, [⟨data, .failed errno⟩], answers⟩

/-- The value returned after the loop.  A would-block after some bytes is a
partial success; every other failure is `-1`, whatever was sent before it. -/
def LoopEnd.ret (e : LoopEnd) : Int :=
  match e.c with
  | .failed errno =>
    if wouldBlock errno then
      if 0 < e.sent then (e.sent : Int) else -1
    else
      -1
  | .wrote _ => (e.sent : Int)

/-- What `IGenericServer::write` gives back: its return value, and on the kernel's
side the calls it made and the answers it did not use. -/
structure WriteResult where
  ret : Int
  calls : List WriteCall
  rest : List WriteAnswer
  deriving DecidableEq, Repr

/-- `IGenericServer::write(fd, data, data_size)`.  The I/O flag that `set_IO(fd)`
sets on the way belongs to the server's state and is kept there. -/
def serverWrite (fd : Int) (data : List UInt8) (answers : List WriteAnswer) :
    Option WriteResult :=
  if fd = -1 then
    some ⟨-1, [], answers⟩
  else
    (writeLoop answers 0 data).map fun e => ⟨e.ret, e.calls, e.rest⟩

/-! ## What the kernel promises -/

/-- A count is possible for the call it answers: at most what was asked, and at
least one byte when anything was asked. -/
def WriteCall.Fits (w : WriteCall) : Prop :=
  match w.answer with
  | .wrote k => k ≤ w.buf.length ∧ (0 < w.buf.length → 0 < k)
  | .failed _ => True

/-- A failure of the call is `EAGAIN`. -/
def WriteCall.OnlyEAGAIN (w : WriteCall) : Prop :=
  match w.answer with
  | .wrote _ => True
  | .failed errno => errno = EAGAIN

instance : DecidablePred WriteCall.Fits
  | ⟨buf, .wrote k⟩ =>
      inferInstanceAs (Decidable (k ≤ buf.length ∧ (0 < buf.length → 0 < k)))
  | ⟨_, .failed _⟩ => isTrue trivial

instance : DecidablePred WriteCall.OnlyEAGAIN
  | ⟨_, .wrote _⟩ => isTrue trivial
  | ⟨_, .failed errno⟩ => inferInstanceAs (Decidable (errno = EAGAIN))

theorem WriteCall.fits_wrote {buf : List UInt8} {k : ℕ} :
    WriteCall.Fits ⟨buf, .wrote k⟩ ↔ k ≤ buf.length ∧ (0 < buf.length → 0 < k) := Iff.rfl

@[simp] theorem wouldBlock_EAGAIN : wouldBlock EAGAIN = true := by decide

@[simp] theorem accepted_nil : accepted [] = [] := rfl

@[simp] theorem accepted_cons (w : WriteCall) (l : List WriteCall) :
    accepted (w :: l) = w.accepted ++ accepted l := rfl

theorem accepted_append (l m : List WriteCall) :
    accepted (l ++ m) = accepted l ++ accepted m := List.flatMap_append

@[simp] theorem accepted_wrote (buf : List UInt8) (k : ℕ) :
    WriteCall.accepted ⟨buf, .wrote k⟩ = buf.take k := rfl

@[simp] theorem accepted_failed (buf : List UInt8) (errno : Int) :
    WriteCall.accepted ⟨buf, .failed errno⟩ = [] := rfl

/-! ## What the loop does -/

/-- **The loop sends a prefix, once and in order.**  The bytes the kernel accepted
are the first `n` bytes of the buffer, where `n` is how far the pointer moved; the
loop ends with a count exactly when that is everything, and with a failure only
while something was left (or nothing had to be sent at all). -/
theorem writeLoop_spec {answers : List WriteAnswer} {p : ℕ} {data : List UInt8} {e : LoopEnd}
    (h : writeLoop answers p data = some e) (hfit : ∀ w ∈ e.calls, w.Fits) :
    ∃ n ≤ data.length, e.sent = p + n ∧ accepted e.calls = data.take n ∧
      ((∃ k, e.c = .wrote k) ∧ n = data.length ∨
        (∃ errno, e.c = .failed errno) ∧ (n < data.length ∨ data = [])) := by
  induction answers generalizing p data e with
  | nil => simp [writeLoop] at h
  | cons a answers ih =>
    cases a with
    | failed errno =>
      rw [writeLoop, Option.some_inj] at h
      subst h
      refine ⟨0, Nat.zero_le _, rfl, by simp, Or.inr ⟨⟨errno, rfl⟩, ?_⟩⟩
      rcases data with _ | ⟨b, data⟩
      · exact Or.inr rfl
      · exact Or.inl (Nat.succ_pos _)
    | wrote k =>
      rw [writeLoop] at h
      by_cases hpart : 0 < k ∧ k < data.length
      · -- a proper part was taken: the rest of the loop works on what is left
        rw [if_pos hpart] at h
        obtain ⟨e', he', rfl⟩ := Option.map_eq_some_iff.mp h
        obtain ⟨n, hn, hsent, hacc, hend⟩ := ih he' fun w hw => hfit w (List.mem_cons_of_mem _ hw)
        rw [List.length_drop] at hn
        refine ⟨k + n, by omega, by simp only [hsent]; omega, ?_, ?_⟩
        · rw [accepted_cons, accepted_wrote, hacc, ← List.take_add]
        · rcases hend with ⟨hc, hlen⟩ | ⟨hc, hlen⟩
          · rw [List.length_drop] at hlen
            exact Or.inl ⟨hc, by omega⟩
          · refine Or.inr ⟨hc, Or.inl ?_⟩
            have hne : data.drop k ≠ [] := by
              intro hnil
              have := congrArg List.length hnil
              rw [List.length_drop, List.length_nil] at this
              omega
            have hlt := hlen.resolve_right hne
            rw [List.length_drop] at hlt
            omega
      · -- the last answer took everything that was asked, or nothing was asked
        rw [if_neg hpart, Option.some_inj] at h
        subst h
        obtain ⟨hk, hpos⟩ := WriteCall.fits_wrote.mp (hfit _ (List.mem_singleton.mpr rfl))
        have hkm : k = data.length := by
          rcases Nat.eq_zero_or_pos data.length with h0 | h0 <;> omega
        refine ⟨k, hk, ?_, by simp, Or.inl ⟨⟨k, rfl⟩, hkm⟩⟩
        dsimp only
        split_ifs <;> omega

/-- The loop uses the answers from the head of the list: what the calls were
answered, followed by what is left over, is the list. -/
theorem writeLoop_answers {answers : List WriteAnswer} {p : ℕ} {data : List UInt8} {e : LoopEnd}
    (h : writeLoop answers p data = some e) :
    (e.calls.map WriteCall.answer) ++ e.rest = answers := by
  induction answers generalizing p data e with
  | nil => simp [writeLoop] at h
  | cons a answers ih =>
    cases a with
    | failed errno =>
      rw [writeLoop, Option.some_inj] at h
      subst h
      rfl
    | wrote k =>
      rw [writeLoop] at h
      by_cases hpart : 0 < k ∧ k < data.length
      · rw [if_pos hpart] at h
        obtain ⟨e', he', rfl⟩ := Option.map_eq_some_iff.mp h
        simp [ih he']
      · rw [if_neg hpart, Option.some_inj] at h
        subst h
        rfl

/-- The loop stops at the first failure, so a failure is among the answers it
used exactly when it is the one it stopped at. -/
theorem writeLoop_failed_iff {answers : List WriteAnswer} {p : ℕ} {data : List UInt8}
    {e : LoopEnd} (h : writeLoop answers p data = some e) (errno : Int) :
    WriteAnswer.failed errno ∈ e.calls.map WriteCall.answer ↔ e.c = .failed errno := by
  induction answers generalizing p data e with
  | nil => simp [writeLoop] at h
  | cons a answers ih =>
    cases a with
    | failed errno' =>
      rw [writeLoop, Option.some_inj] at h
      subst h
      simp [eq_comm]
    | wrote k =>
      rw [writeLoop] at h
      by_cases hpart : 0 < k ∧ k < data.length
      · rw [if_pos hpart] at h
        obtain ⟨e', he', rfl⟩ := Option.map_eq_some_iff.mp h
        simpa using ih he'
      · rw [if_neg hpart, Option.some_inj] at h
        subst h
        simp

/-- The answer the loop stopped at is the last one. -/
theorem writeLoop_last {answers : List WriteAnswer} {p : ℕ} {data : List UInt8} {e : LoopEnd}
    (h : writeLoop answers p data = some e) :
    e.calls.getLast?.map WriteCall.answer = some e.c := by
  induction answers generalizing p data e with
  | nil => simp [writeLoop] at h
  | cons a answers ih =>
    cases a with
    | failed errno =>
      rw [writeLoop, Option.some_inj] at h
      subst h
      rfl
    | wrote k =>
      rw [writeLoop] at h
      by_cases hpart : 0 < k ∧ k < data.length
      · rw [if_pos hpart] at h
        obtain ⟨e', he', rfl⟩ := Option.map_eq_some_iff.mp h
        have hlast := ih he'
        obtain ⟨w, hw, hwc⟩ := Option.map_eq_some_iff.mp hlast
        simp [List.getLast?_cons, hw, hwc]
      · rw [if_neg hpart, Option.some_inj] at h
        subst h
        rfl

/-- Every call but the last takes at least one byte. -/
theorem writeLoop_calls_length {answers : List WriteAnswer} {p : ℕ} {data : List UInt8}
    {e : LoopEnd} (h : writeLoop answers p data = some e) :
    e.calls.length ≤ max 1 data.length := by
  induction answers generalizing p data e with
  | nil => simp [writeLoop] at h
  | cons a answers ih =>
    cases a with
    | failed errno =>
      rw [writeLoop, Option.some_inj] at h
      subst h
      exact Nat.le_max_left 1 data.length
    | wrote k =>
      rw [writeLoop] at h
      by_cases hpart : 0 < k ∧ k < data.length
      · rw [if_pos hpart] at h
        obtain ⟨e', he', rfl⟩ := Option.map_eq_some_iff.mp h
        have hlen := ih he'
        rw [List.length_drop] at hlen
        rw [List.length_cons]
        omega
      · rw [if_neg hpart, Option.some_inj] at h
        subst h
        exact Nat.le_max_left 1 data.length

/-- A loop that met no hard error returns the number of bytes it sent, or `-1` when
that number is zero and the kernel would block. -/
theorem LoopEnd.ret_eq {e : LoopEnd}
    (hc : ∀ errno, e.c = .failed errno → wouldBlock errno = true) :
    e.ret = (e.sent : Int) ∨ e.ret = -1 ∧ e.sent = 0 := by
  rw [LoopEnd.ret]
  cases hce : e.c with
  | wrote k => exact Or.inl rfl
  | failed errno =>
    have hblock := hc errno hce
    by_cases h0 : 0 < e.sent
    · exact Or.inl (by simp [hblock, h0])
    · exact Or.inr ⟨by simp [hblock, h0], by omega⟩

/-! ## What the return value tells -/

/-- However the kernel answers, the loop ends after at most one call for each byte, and
one call if there is none. -/
theorem exists_writeLoop {answers : List WriteAnswer} (p : ℕ) {data : List UInt8}
    (hne : answers ≠ []) (henough : data.length ≤ answers.length) :
    ∃ e, writeLoop answers p data = some e := by
  induction answers generalizing p data with
  | nil => exact absurd rfl hne
  | cons a answers ih =>
    cases a with
    | failed errno => exact ⟨_, rfl⟩
    | wrote k =>
      rw [writeLoop]
      by_cases hpart : 0 < k ∧ k < data.length
      · rw [if_pos hpart]
        rw [List.length_cons] at henough
        have hdrop : (data.drop k).length ≤ answers.length := by
          rw [List.length_drop]
          omega
        have hmore : answers ≠ [] := by
          rintro rfl
          rw [List.length_nil] at henough
          omega
        obtain ⟨e, he⟩ := ih (p + k) hmore hdrop
        exact ⟨_, Option.map_eq_some_iff.mpr ⟨e, he, rfl⟩⟩
      · rw [if_neg hpart]
        exact ⟨_, rfl⟩

/-- The first failure that is met while bytes of `m` are left is a hard error. -/
def FailsHard : ℕ → List WriteAnswer → Prop
  | _, [] => False
  | m, .wrote k :: answers => 0 < k ∧ k < m ∧ FailsHard (m - k) answers
  | _, .failed errno :: _ => wouldBlock errno = false

/-- The kernel takes a part of the `m` bytes, and a hard error comes before the rest is
taken. -/
def BreaksOff : ℕ → List WriteAnswer → Prop
  | m, .wrote k :: answers => 0 < k ∧ k < m ∧ FailsHard (m - k) answers
  | _, _ => False

instance decidableFailsHard : ∀ m answers, Decidable (FailsHard m answers)
  | _, [] => inferInstanceAs (Decidable False)
  | m, .wrote k :: answers =>
    have : Decidable (FailsHard (m - k) answers) := decidableFailsHard (m - k) answers
    inferInstanceAs (Decidable (0 < k ∧ k < m ∧ FailsHard (m - k) answers))
  | _, .failed errno :: _ => inferInstanceAs (Decidable (wouldBlock errno = false))

instance : ∀ m answers, Decidable (BreaksOff m answers)
  | m, .wrote k :: answers =>
    inferInstanceAs (Decidable (0 < k ∧ k < m ∧ FailsHard (m - k) answers))
  | _, .failed _ :: _ | _, [] => inferInstanceAs (Decidable False)

/-- The loop stops at a hard error exactly when the kernel answers so. -/
theorem writeLoop_hard_iff {answers : List WriteAnswer} {p : ℕ} {data : List UInt8}
    {e : LoopEnd} (h : writeLoop answers p data = some e) :
    (∃ errno, e.c = .failed errno ∧ wouldBlock errno = false) ↔
      FailsHard data.length answers := by
  induction answers generalizing p data e with
  | nil => simp [writeLoop] at h
  | cons a answers ih =>
    cases a with
    | failed errno =>
      rw [writeLoop, Option.some_inj] at h
      subst h
      simp [FailsHard]
    | wrote k =>
      rw [writeLoop] at h
      by_cases hpart : 0 < k ∧ k < data.length
      · rw [if_pos hpart] at h
        obtain ⟨e', he', rfl⟩ := Option.map_eq_some_iff.mp h
        have hrest := ih he'
        rw [List.length_drop] at hrest
        rw [FailsHard, ← hrest]
        simp [hpart]
      · rw [if_neg hpart, Option.some_inj] at h
        subst h
        rw [FailsHard]
        refine iff_of_false (by simp) fun hbreak => hpart ⟨hbreak.1, hbreak.2.1⟩

/-- A loop that stops at a hard error has sent something before exactly when the kernel
broke off. -/
theorem writeLoop_sent_pos_iff {answers : List WriteAnswer} {data : List UInt8} {e : LoopEnd}
    (h : writeLoop answers 0 data = some e)
    (hfit : ∀ w ∈ e.calls, w.Fits)
    (hhard : ∃ errno, e.c = .failed errno ∧ wouldBlock errno = false) :
    0 < e.sent ↔ BreaksOff data.length answers := by
  have hfails := (writeLoop_hard_iff h).mp hhard
  cases answers with
  | nil => simp [writeLoop] at h
  | cons a answers =>
    cases a with
    | failed errno =>
      rw [writeLoop, Option.some_inj] at h
      subst h
      simp [BreaksOff]
    | wrote k =>
      refine iff_of_true ?_ hfails
      obtain ⟨hk, hlt, -⟩ := hfails
      rw [writeLoop, if_pos ⟨hk, hlt⟩] at h
      obtain ⟨e', he', rfl⟩ := Option.map_eq_some_iff.mp h
      obtain ⟨n, -, hsent, -⟩ := writeLoop_spec he' fun w hw => hfit w (List.mem_cons_of_mem _ hw)
      show 0 < e'.sent
      omega

/-- The value `r.ret` tells what the kernel took of `data`: the first `ret` bytes, and
nothing when it is `-1`. -/
def Tells (data : List UInt8) (r : WriteResult) : Prop :=
  (0 ≤ r.ret → r.ret ≤ data.length ∧ accepted r.calls = data.take r.ret.toNat) ∧
    (r.ret < 0 → r.ret = -1 ∧ accepted r.calls = [])

instance (data : List UInt8) (r : WriteResult) : Decidable (Tells data r) :=
  inferInstanceAs (Decidable ((_ → _ ∧ _) ∧ (_ → _ ∧ _)))

/-- **When the return value of `write` can be trusted.**  However the kernel answers,
the call ends.  If the counts it reports are possible, the value tells what it took,
except when a hard error comes after a part has been taken: then the value is `-1`
although bytes are on their way. -/
theorem write_tells_iff (fd : Int) (data : List UInt8) (answers : List WriteAnswer)
    (hfd : fd ≠ -1) (hdata : data ≠ []) (henough : data.length ≤ answers.length) :
    ∃ r, serverWrite fd data answers = some r ∧
      ((∀ w ∈ r.calls, w.Fits) → (Tells data r ↔ ¬ BreaksOff data.length answers)) := by
  have hpos : 0 < data.length := List.length_pos_iff.mpr hdata
  have hne : answers ≠ [] := by
    rintro rfl
    rw [List.length_nil] at henough
    omega
  obtain ⟨e, he⟩ := exists_writeLoop 0 hne henough
  refine ⟨⟨e.ret, e.calls, e.rest⟩, by rw [serverWrite, if_neg hfd, he, Option.map_some], ?_⟩
  intro hfit
  obtain ⟨n, hn, hsent, hacc, hend⟩ := writeLoop_spec he hfit
  rw [Nat.zero_add] at hsent
  by_cases hhard : ∃ errno, e.c = .failed errno ∧ wouldBlock errno = false
  · rw [← writeLoop_sent_pos_iff he hfit hhard]
    obtain ⟨errno, hc, herrno⟩ := hhard
    have hret : e.ret = -1 := by simp [LoopEnd.ret, hc, herrno]
    constructor
    · intro htells
      have hnil : data.take n = [] := by
        rw [← hacc]
        exact (htells.2 (show e.ret < 0 by omega)).2
      have hn0 : n = 0 := (List.take_eq_nil_iff.mp hnil).resolve_right hdata
      omega
    · intro hn0
      have hzero : n = 0 := by omega
      refine ⟨fun hret0 => ?_, fun _ => ⟨hret, by rw [hacc, hzero, List.take_zero]⟩⟩
      dsimp only at hret0
      omega
  · -- no hard error: the value is the number of bytes sent, or `-1` for none
    have hbreak : ¬ BreaksOff data.length answers := by
      intro hbreak
      refine hhard ((writeLoop_hard_iff he).mpr ?_)
      cases answers with
      | nil => exact hbreak
      | cons a answers =>
        cases a with
        | failed errno => exact hbreak.elim
        | wrote k => exact hbreak
    refine iff_of_true ?_ hbreak
    have hblock : ∀ errno, e.c = .failed errno → wouldBlock errno = true := by
      intro errno hc
      cases hb : wouldBlock errno with
      | true => rfl
      | false => exact absurd ⟨errno, hc, hb⟩ hhard
    have hret := LoopEnd.ret_eq hblock
    rw [hsent] at hret
    rcases hret with hret | ⟨hret, rfl⟩
    · refine ⟨fun _ => ?_, fun hlt => ?_⟩
      · show e.ret ≤ data.length ∧ accepted e.calls = data.take e.ret.toNat
        rw [hret, Int.toNat_natCast]
        exact ⟨by omega, hacc⟩
      · dsimp only at hlt
        omega
    · refine ⟨fun hge => ?_, fun _ => ⟨hret, hacc⟩⟩
      dsimp only at hge
      omega

/-- One byte is taken, then the kernel would block: the value is `1`. -/
theorem write_tells_after_part :
    ∃ r, serverWrite 7 [104, 105] [.wrote 1, .failed EAGAIN] = some r ∧ r.ret = 1 ∧
      Tells [104, 105] r := by
  obtain ⟨r, hr, htells⟩ :=
    write_tells_iff 7 [104, 105] [.wrote 1, .failed EAGAIN] (by decide) (by decide) (by decide)
  have hval : r = ⟨1, [⟨[104, 105], .wrote 1⟩, ⟨[105], .failed EAGAIN⟩], []⟩ :=
    Option.some.inj (hr.symm.trans rfl)
  subst hval
  exact ⟨_, hr, rfl, (htells (by decide)).mpr (by decide)⟩

/-- The connection is reset after one byte: the value is `-1` and the byte is gone. -/
theorem write_silent_about_sent_byte :
    ∃ r, serverWrite 7 [104, 105] [.wrote 1, .failed 104] = some r ∧
      (∀ w ∈ r.calls, w.Fits) ∧ r.ret = -1 ∧ accepted r.calls = [104] ∧
      ¬ Tells [104, 105] r :=
  ⟨_, rfl, by decide, by decide, by decide, by decide⟩

end Nbuss
