import Mathlib.Algebra.Ring.Int.Defs
import Nbuss.ServerWrite

/-!
# `IGenericServer::read` and `read_one_buffer`

`read` puts a buffer of zeros into its result, lets the kernel write into it, and only then
finds out what it has got.  Data: the buffer is cut to what was read.  End of file, or
nothing there: the buffer is taken out again.  An error: the buffer stays, as it was made, and
the caller finds bytes in the result that nobody sent (`read_exact_iff`).

Both functions store `errno` after every `::read`, whether it failed or not.  A `::read`
that succeeds leaves `errno` alone, so what is stored at an end of file is what some earlier
system call of the thread has left there.  A caller that looks for `EAGAIN` to tell "nothing
there yet" from "nothing will come any more" is then told the former (`would_block_told_iff`).

The kernel is the environment again: its answers to the `::read` calls of one operation are
a list.  `fd` is left out: it goes to the kernel and to `set_IO`, and the flag that `set_IO`
sets belongs to the server's state.  A `::read` transfers less than `2 ^ 31` bytes, so `c`,
which is an `int` in `read`, is the number that the kernel reports.
-/

namespace Nbuss

/-- What one `::read` answers: the bytes it delivers, none at the end of file, or `-1` with an
`errno`. -/
inductive ReadAnswer where
  | got (bytes : List UInt8)
  | failed (errno : Int)
  deriving DecidableEq, Repr

namespace ReadAnswer

/-- The value of the call. -/
def ret : ReadAnswer → Int
  | .got bytes => bytes.length
  | .failed _ => -1

/-- `errno` after the call.  Only a call that returns `-1` changes it. -/
def errnoAfter (errno : Int) : ReadAnswer → Int
  | .got _ => errno
  | .failed errno' => errno'

/-- What the kernel wrote into the buffer. -/
def bytes : ReadAnswer → List UInt8
  | .got bytes => bytes
  | .failed _ => []

/-- The call failed. -/
def fails : ReadAnswer → Bool
  | .got _ => false
  | .failed _ => true

/-- The call failed because nothing was there. -/
def blocks : ReadAnswer → Bool
  | .got _ => false
  | .failed errno => wouldBlock errno

/-- The call brought nothing. -/
def ends : ReadAnswer → Bool
  | .got bytes => bytes.isEmpty
  | .failed _ => true

end ReadAnswer

/-- The memory of a vector after the kernel has written `bytes` to it. -/
def fill (buffer bytes : List UInt8) : List UInt8 :=
  bytes.take buffer.length ++ buffer.drop bytes.length

/-- `std::vector::resize`. -/
def resize (buffer : List UInt8) (n : ℕ) : List UInt8 :=
  buffer.take n ++ List.replicate (n - buffer.length) 0

theorem resize_fill {buffer bytes : List UInt8} (h : bytes.length ≤ buffer.length) :
    resize (fill buffer bytes) bytes.length = bytes := by
  have hlen : (fill buffer bytes).length = buffer.length := by
    rw [fill, List.length_append, List.length_take, List.length_drop]
    omega
  rw [resize, hlen, Nat.sub_eq_zero_of_le h, List.replicate_zero, List.append_nil, fill,
    List.take_of_length_le h, List.take_left]

/-- The conversion of an `int` to `size_t`. -/
def toSizeT (x : Int) : ℕ := (x % 2 ^ 64).toNat

/-- One `::read` call: the number of bytes asked for, and the answer. -/
structure ReadCall where
  count : ℕ
  answer : ReadAnswer
  deriving DecidableEq, Repr

/-- What `IGenericServer::read` gives back: the buffers, what is in `*_errno`, and on the
kernel's side the calls it made and the answers it did not use. -/
structure ReadResult where
  result : List (List UInt8)
  errno : Int
  calls : List ReadCall
  rest : List ReadAnswer
  deriving DecidableEq, Repr

/-- `IGenericServer::read(fd, buffer_size, _errno)`, with `errno` as it is at entry. -/
def read (bufferSize : ℕ) : List ReadAnswer → Int → Option ReadResult
  | [], _ => none
  | a :: answers, errno =>
    let buffer := List.replicate bufferSize 0
    -- `int buffer_size = buffer.capacity();`, which `::read` takes as a `size_t`
    let call : ReadCall := ⟨toSizeT (toInt bufferSize), a⟩
    let c := a.ret
    let errno := a.errnoAfter errno
    if c = -1 ∧ wouldBlock errno then
      some ⟨[], errno, [call], answers⟩
    else if c = -1 then
      -- no `pop_back` here
      some ⟨[fill buffer a.bytes], errno, [call], answers⟩
    else if c = 0 then
      some ⟨[], errno, [call], answers⟩
    else
      (read bufferSize answers errno).map fun r =>
        { r with
          result := resize (fill buffer a.bytes) c.toNat :: r.result
          calls := call :: r.calls }

/-- What `IGenericServer::read_one_buffer` gives back. -/
structure OneBuffer where
  buffer : List UInt8
  errno : Int
  deriving DecidableEq, Repr

/-- `IGenericServer::read_one_buffer(fd, buffer_size, _errno)`. -/
def readOneBuffer (bufferSize : ℕ) (a : ReadAnswer) (errno : Int) : OneBuffer :=
  let buffer := fill (List.replicate bufferSize 0) a.bytes
  let c := a.ret
  let errno := a.errnoAfter errno
  if 0 ≤ c then
    ⟨resize buffer c.toNat, errno⟩
  else if c = -1 ∧ wouldBlock errno then
    ⟨resize buffer 0, errno⟩
  else if c = -1 then
    ⟨resize buffer 0, errno⟩
  else
    ⟨buffer, errno⟩

/-! ## The steps of the loop -/

/-- The number that `::read` is asked for. -/
theorem count_eq {bufferSize : ℕ} (h : bufferSize ≤ 2 ^ 31 - 1) :
    toSizeT (toInt bufferSize) = bufferSize := by
  have hint : toInt bufferSize = bufferSize := by
    rw [toInt, Int.bmod_def]
    split_ifs <;> omega
  rw [hint, toSizeT]
  omega

/-- The call failed, and not because nothing was there. -/
def ReadAnswer.hard (a : ReadAnswer) : Bool := a.fails && !a.blocks

/-- What the last `::read` of a call leaves in the result. -/
def leftOver (bufferSize : ℕ) (stop : ReadAnswer) : List (List UInt8) :=
  if stop.hard then [List.replicate bufferSize 0] else []

theorem read_ends (bufferSize : ℕ) {a : ReadAnswer} (h : a.ends = true)
    (answers : List ReadAnswer) (errno : Int) :
    read bufferSize (a :: answers) errno =
      some ⟨leftOver bufferSize a, a.errnoAfter errno,
        [⟨toSizeT (toInt bufferSize), a⟩], answers⟩ := by
  cases a with
  | got bytes =>
    rw [List.isEmpty_iff.mp h]
    rfl
  | failed errno' =>
    have hret : (ReadAnswer.failed errno').ret = -1 := rfl
    have hafter : (ReadAnswer.failed errno').errnoAfter errno = errno' := rfl
    rw [read]
    simp only [hret, hafter, true_and, if_true]
    cases hb : wouldBlock errno' with
    | true => simp [leftOver, ReadAnswer.hard, ReadAnswer.blocks, hb]
    | false => simp [leftOver, ReadAnswer.hard, ReadAnswer.blocks, ReadAnswer.fails,
        ReadAnswer.bytes, fill, hb]

theorem read_got (bufferSize : ℕ) {bytes : List UInt8} (h : bytes ≠ [])
    (answers : List ReadAnswer) (errno : Int) :
    read bufferSize (.got bytes :: answers) errno =
      (read bufferSize answers errno).map fun r =>
        { r with
          result := resize (fill (List.replicate bufferSize 0) bytes) bytes.length :: r.result
          calls := ⟨toSizeT (toInt bufferSize), .got bytes⟩ :: r.calls } := by
  have hpos : 0 < bytes.length := List.length_pos_iff.mpr h
  have hret : (ReadAnswer.got bytes).ret = bytes.length := rfl
  have hneg : ¬ (bytes.length : Int) = -1 := by omega
  have hzero : ¬ (bytes.length : Int) = 0 := by omega
  rw [read]
  simp only [hret, hneg, hzero, false_and, if_false, Int.toNat_natCast]
  rfl

/-! ## What is in the result -/

/-- The buffers are those that were delivered, and whatever the last `::read` leaves. -/
theorem read_chunks {bufferSize : ℕ} (hmax : bufferSize ≤ 2 ^ 31 - 1) {chunks : List (List UInt8)}
    (hchunks : ∀ b ∈ chunks, 1 ≤ b.length ∧ b.length ≤ bufferSize) {stop : ReadAnswer}
    (hstop : stop.ends = true) (errno : Int) :
    ∃ calls, (∀ c ∈ calls, c.count = bufferSize) ∧
      read bufferSize (chunks.map ReadAnswer.got ++ [stop]) errno =
        some ⟨chunks ++ leftOver bufferSize stop, stop.errnoAfter errno, calls, []⟩ := by
  induction chunks with
  | nil =>
    refine ⟨_, ?_, read_ends bufferSize hstop [] errno⟩
    rintro c hc
    rw [List.mem_singleton.mp hc]
    dsimp only
    exact count_eq hmax
  | cons b chunks ih =>
    obtain ⟨calls, hcount, hread⟩ := ih fun b' hb' => hchunks b' (List.mem_cons_of_mem _ hb')
    obtain ⟨hpos, hlen⟩ := hchunks b (List.mem_cons_self ..)
    have hcut : resize (fill (List.replicate bufferSize 0) b) b.length = b :=
      resize_fill (by rwa [List.length_replicate])
    rw [List.map_cons, List.cons_append, read_got bufferSize (List.length_pos_iff.mp hpos), hread,
      Option.map_some, hcut]
    refine ⟨_, ?_, rfl⟩
    rintro c hc
    rcases List.mem_cons.mp hc with rfl | hc
    · dsimp only
      exact count_eq hmax
    · exact hcount c hc

/-- The result holds what was delivered, in order, and in vectors of the right size. -/
structure Exact (bufferSize : ℕ) (chunks result : List (List UInt8)) : Prop where
  bytes : result.flatten = chunks.flatten
  sizes : ∀ v ∈ result, v ≠ [] ∧ v.length ≤ bufferSize

/-- **When `read` returns exactly what was received**: for every size of the buffers and
whatever the kernel delivers, exactly when the call does not end with an error. -/
theorem read_exact_iff (bufferSize : ℕ) (hpos : 1 ≤ bufferSize) (hmax : bufferSize ≤ 2 ^ 31 - 1)
    (chunks : List (List UInt8)) (hchunks : ∀ b ∈ chunks, 1 ≤ b.length ∧ b.length ≤ bufferSize)
    (stop : ReadAnswer) (hstop : stop.ends = true) (errno : Int) :
    ∃ r, read bufferSize (chunks.map ReadAnswer.got ++ [stop]) errno = some r ∧
      (∀ c ∈ r.calls, c.count = bufferSize) ∧
      (Exact bufferSize chunks r.result ↔ stop.hard = false) := by
  obtain ⟨calls, hcount, hread⟩ := read_chunks hmax hchunks hstop errno
  refine ⟨_, hread, hcount, ?_⟩
  dsimp only
  rw [leftOver]
  cases hhard : stop.hard with
  | true =>
    refine iff_of_false (fun hexact => ?_) Bool.noConfusion
    -- the zeros are too many
    have hlen := congrArg List.length hexact.bytes
    simp at hlen
    omega
  | false =>
    refine iff_of_true ⟨by simp, fun v hv => ?_⟩ rfl
    rw [if_neg Bool.false_ne_true, List.append_nil] at hv
    obtain ⟨hv1, hv2⟩ := hchunks v hv
    exact ⟨List.length_pos_iff.mp hv1, hv2⟩

/-- Three bytes in two buffers, and then nothing is there. -/
theorem read_exact_until_eagain :
    ∃ r, read 2 [.got [1, 2], .got [3], .failed EAGAIN] 0 = some r ∧
      Exact 2 [[1, 2], [3]] r.result := by
  obtain ⟨r, hr, -, hexact⟩ := read_exact_iff 2 (by decide) (by decide) [[1, 2], [3]] (by decide)
    (.failed EAGAIN) rfl 0
  exact ⟨r, hr, hexact.mpr rfl⟩

/-- The connection is reset after one byte: two bytes that nobody sent are in the result. -/
theorem read_invents_bytes :
    ∃ r, read 2 [.got [7], .failed 104] 0 = some r ∧ r.result = [[7], [0, 0]] ∧
      ¬ Exact 2 [[7]] r.result := by
  refine ⟨_, rfl, rfl, fun hexact => ?_⟩
  cases hexact.bytes

/-! ## What is in `*_errno` -/

/-- The value of `errno` at entry goes nowhere but into `*_errno`. -/
theorem read_errno (bufferSize : ℕ) {answers : List ReadAnswer} {stop : ReadAnswer}
    (hstop : answers.find? ReadAnswer.ends = some stop) (errno errno' : Int) :
    ∃ r, read bufferSize answers errno = some r ∧
      read bufferSize answers errno' = some { r with errno := stop.errnoAfter errno' } ∧
      r.errno = stop.errnoAfter errno ∧ r.calls.getLast?.map ReadCall.answer = some stop := by
  induction answers with
  | nil => cases hstop
  | cons a answers ih =>
    by_cases hends : a.ends = true
    · rw [List.find?_cons_of_pos hends, Option.some_inj] at hstop
      subst hstop
      exact ⟨_, read_ends bufferSize hends answers errno, read_ends bufferSize hends answers errno',
        rfl, rfl⟩
    · rw [List.find?_cons_of_neg hends] at hstop
      obtain ⟨r, hr, hr', herrno, hlast⟩ := ih hstop
      cases a with
      | failed errno'' => exact absurd rfl hends
      | got bytes =>
        have hne : bytes ≠ [] := fun hnil => hends (List.isEmpty_iff.mpr hnil)
        rw [read_got bufferSize hne, read_got bufferSize hne, hr, hr']
        refine ⟨_, rfl, rfl, herrno, ?_⟩
        obtain ⟨c, hc, hanswer⟩ := Option.map_eq_some_iff.mp hlast
        simp [List.getLast?_cons, hc, hanswer]

theorem readOneBuffer_errno (bufferSize : ℕ) (a : ReadAnswer) (errno errno' : Int) :
    readOneBuffer bufferSize a errno' =
        { readOneBuffer bufferSize a errno with errno := a.errnoAfter errno' } ∧
      (readOneBuffer bufferSize a errno).errno = a.errnoAfter errno := by
  cases a with
  | got bytes =>
    have hret : (0 : Int) ≤ (ReadAnswer.got bytes).ret := Int.natCast_nonneg _
    simp [readOneBuffer, hret]
  | failed errno'' =>
    have hret : (ReadAnswer.failed errno'').ret = -1 := rfl
    have hafter : ∀ e, (ReadAnswer.failed errno'').errnoAfter e = errno'' := fun _ => rfl
    simp only [readOneBuffer, hret, hafter]
    split_ifs <;> exact ⟨rfl, rfl⟩

/-- Two runs that differ in `errno` at entry give the same buffers, and in both `*_errno` says
"would block" just when the last `::read` said so. -/
structure Told {β : Type*} (stop : ReadAnswer) (x y : β × Int) : Prop where
  same : x.1 = y.1
  agree : wouldBlock x.2 = wouldBlock y.2
  told : wouldBlock x.2 = stop.blocks

theorem told_iff {β : Type*} (b : β) (stop : ReadAnswer) (errno errno' : Int) :
    Told stop (b, stop.errnoAfter errno) (b, stop.errnoAfter errno') ↔
      stop.fails = true ∨ wouldBlock errno = false ∧ wouldBlock errno' = false := by
  cases stop with
  | failed errno'' => exact iff_of_true ⟨rfl, rfl, rfl⟩ (.inl rfl)
  | got bytes =>
    constructor
    · rintro ⟨-, hagree, htold⟩
      exact .inr ⟨htold, hagree.symm.trans htold⟩
    · rintro (hfails | ⟨hno, hno'⟩)
      · cases hfails
      · exact ⟨rfl, hno.trans hno'.symm, hno⟩

/-- **When `*_errno` tells an end of file from "would block"**: for both functions, whatever
the kernel answers, exactly when the last `::read` fails or `errno` does not say "would block"
already at entry. -/
theorem would_block_told_iff (bufferSize : ℕ) (answers : List ReadAnswer) (stop : ReadAnswer)
    (hstop : answers.find? ReadAnswer.ends = some stop) (a : ReadAnswer) (errno errno' : Int) :
    (∃ r r', read bufferSize answers errno = some r ∧ read bufferSize answers errno' = some r' ∧
      r.calls.getLast?.map ReadCall.answer = some stop ∧
      (Told stop (r.result, r.errno) (r'.result, r'.errno) ↔
        stop.fails = true ∨ wouldBlock errno = false ∧ wouldBlock errno' = false)) ∧
    (let r := readOneBuffer bufferSize a errno
      let r' := readOneBuffer bufferSize a errno'
      Told a (r.buffer, r.errno) (r'.buffer, r'.errno) ↔
        a.fails = true ∨ wouldBlock errno = false ∧ wouldBlock errno' = false) := by
  obtain ⟨r, hr, hr', herrno, hlast⟩ := read_errno bufferSize hstop errno errno'
  refine ⟨⟨r, _, hr, hr', hlast, ?_⟩, ?_⟩
  · rw [herrno]
    exact told_iff r.result stop errno errno'
  · obtain ⟨hone', hone⟩ := readOneBuffer_errno bufferSize a errno errno'
    rw [hone']
    dsimp only
    rw [hone]
    exact told_iff _ a errno errno'

/-- The peer has sent three bytes and closed, and no call before has failed. -/
theorem end_of_file_told :
    ∃ r r', read 4 [.got [1, 2, 3], .got []] 0 = some r ∧
      read 4 [.got [1, 2, 3], .got []] 2 = some r' ∧
      Told (.got []) (r.result, r.errno) (r'.result, r'.errno) := by
  obtain ⟨r, r', hr, hr', -, htold⟩ :=
    (would_block_told_iff 4 [.got [1, 2, 3], .got []] (.got []) rfl (.got []) 0 2).1
  exact ⟨r, r', hr, hr', htold.mpr (.inr ⟨rfl, rfl⟩)⟩

/-- The same, and an earlier call, on any descriptor, has found nothing: the end of file is
reported as "would block". -/
theorem end_of_file_as_would_block :
    ∃ r r', read 4 [.got [1, 2, 3], .got []] EAGAIN = some r ∧
      read 4 [.got [1, 2, 3], .got []] 0 = some r' ∧
      wouldBlock r.errno = true ∧ wouldBlock r'.errno = false ∧
      ¬ Told (.got []) (r.result, r.errno) (r'.result, r'.errno) := by
  refine ⟨_, _, rfl, rfl, rfl, rfl, fun htold => ?_⟩
  cases htold.agree

end Nbuss
