import Mathlib.Data.Nat.Bitwise
import Nbuss.ClientWrite

/-!
# The mode of a client's socket

For a long buffer `UnixSocketClient::write` makes a non-blocking socket blocking, writes, and
makes it non-blocking again.  `set_fd_non_blocking` reads the flag word of the descriptor,
changes it, and stores it.  The change is `res & O_NONBLOCK` in one direction, which clears
all the other bits instead of setting this one; and `res & !O_NONBLOCK` in the other, where
`!` is the logical negation and the whole word becomes zero.  So after the first long write
the word is zero, and a client that was made non-blocking blocks (`mode_kept_iff`).

`F_GETFL` answers a word that is not negative, so the words are natural numbers.  Whether a
`fcntl` call succeeds is up to the kernel (`Fcntl`).
-/

namespace Nbuss

/-- `O_NONBLOCK`, as Linux numbers it: bit 11. -/
def O_NONBLOCK : ℕ := 0x800

/-- Whether the two `fcntl` calls of `set_fd_non_blocking` succeed. -/
structure Fcntl where
  getfl : Bool := true
  setfl : Bool := true
  deriving DecidableEq, Repr

/-- `IGenericServer::set_fd_non_blocking`, on a descriptor with the given flag word: the value
it returns, and the flag word that it leaves. -/
def setFdNonBlocking (ok : Fcntl) (flags : ℕ) (nonBlocking : Bool) : Int × ℕ :=
  let res : Int := if ok.getfl then flags else -1
  if res = -1 then
    (res, flags)
  else
    -- `!O_NONBLOCK` is `0`
    let word := flags &&& (if nonBlocking then O_NONBLOCK else 0)
    if ok.setfl then (0, word) else (-1, flags)

/-- What `UnixSocketClient::write` leaves behind: its value, the flag word of `data_socket`, the
flag word while `BaseClient::write` was running (if it was called), and on the kernel's side
the calls it made and the answers it did not use. -/
structure ModeWrite where
  ret : Int
  flags : ℕ
  during : Option ℕ
  calls : List WriteCall
  rest : List WriteAnswer
  deriving DecidableEq, Repr

/-- `UnixSocketClient::write(data, data_size)`. -/
def unixWrite (nonBlockingSocket : Bool) (dataSocket : ℕ) (blocking nonBlocking : Fcntl)
    (flags : ℕ) (data : List UInt8) (answers : List WriteAnswer) : Option ModeWrite :=
  if data.length ≤ 4096 then
    (clientWrite dataSocket data answers).map fun r => ⟨r.ret, flags, some flags, r.calls, r.rest⟩
  else if nonBlockingSocket then
    let set := setFdNonBlocking blocking flags false
    if set.1 = -1 then
      some ⟨-1, set.2, none, [], answers⟩
    else
      (clientWrite dataSocket data answers).map fun r =>
        let reset := setFdNonBlocking nonBlocking set.2 true
        -- `int retval = BaseClient::write(...)`
        ⟨if reset.1 = -1 then -1 else toInt r.ret, reset.2, some set.2, r.calls, r.rest⟩
  else
    (clientWrite dataSocket data answers).map fun r =>
      ⟨toInt r.ret, flags, some flags, r.calls, r.rest⟩

/-- One call of `write`.  There are enough answers for the call to come back. -/
structure WriteOp where
  data : List UInt8
  answers : List WriteAnswer
  nonempty : answers ≠ []
  enough : data.length ≤ answers.length

/-- After the call the flag word is what it was, and during a long write only the bit for
`O_NONBLOCK` has been cleared. -/
structure Preserved (flags : ℕ) (data : List UInt8) (w : ModeWrite) : Prop where
  after : w.flags = flags
  during : 4096 < data.length → ∃ word, w.during = some word ∧
    ∀ i, word.testBit i = (flags.testBit i && i != 11)

/-- Every call of a sequence comes back and preserves the flag word; all `fcntl` calls succeed. -/
def ModeKept (nonBlockingSocket : Bool) (dataSocket : ℕ) : ℕ → List WriteOp → Prop
  | _, [] => True
  | flags, op :: ops =>
    ∃ w, unixWrite nonBlockingSocket dataSocket {} {} flags op.data op.answers = some w ∧
      Preserved flags op.data w ∧ ModeKept nonBlockingSocket dataSocket w.flags ops

/-! ## One call -/

/-- With enough answers the client's write comes back. -/
theorem exists_clientWrite (dataSocket : ℕ) {data : List UInt8} {answers : List WriteAnswer}
    (hne : answers ≠ []) (henough : data.length ≤ answers.length) :
    ∃ r, clientWrite dataSocket data answers = some r := by
  have hfd : (dataSocket : Int) ≠ -1 := by omega
  obtain ⟨e, he⟩ := exists_writeLoop 0 hne henough
  rw [clientLoop_eq] at he
  obtain ⟨e', he', -⟩ := Option.map_eq_some_iff.mp he
  exact ⟨_, by rw [clientWrite, if_neg hfd, he', Option.map_some]⟩

/-- Clearing a bit that is not set changes nothing. -/
theorem testBit_of_blocking {flags : ℕ} (hbit : flags.testBit 11 = false) (i : ℕ) :
    flags.testBit i = (flags.testBit i && i != 11) := by
  by_cases hi : i = 11
  · rw [hi, hbit]
    rfl
  · rw [bne_iff_ne.mpr hi, Bool.and_true]

/-- A short write, and any write of a blocking client, does not touch the flag word. -/
theorem exists_unixWrite_of_untouched {nonBlockingSocket : Bool} (dataSocket flags : ℕ)
    (op : WriteOp) (h : nonBlockingSocket = false ∨ op.data.length ≤ 4096) :
    ∃ w, unixWrite nonBlockingSocket dataSocket {} {} flags op.data op.answers = some w ∧
      w.flags = flags ∧ w.during = some flags := by
  obtain ⟨r, hr⟩ := exists_clientWrite dataSocket op.nonempty op.enough
  rw [unixWrite, hr]
  split_ifs with hshort hmode
  · exact ⟨_, rfl, rfl, rfl⟩
  · rcases h with h | h
    · rw [h] at hmode
      cases hmode
    · exact absurd h hshort
  · exact ⟨_, rfl, rfl, rfl⟩

/-- A long write of a non-blocking client works on a word that is zero, and leaves it so. -/
theorem unixWrite_long (dataSocket flags : ℕ) {data : List UInt8} (answers : List WriteAnswer)
    (hlong : 4096 < data.length) :
    unixWrite true dataSocket {} {} flags data answers =
      (clientWrite dataSocket data answers).map fun r =>
        ⟨toInt r.ret, 0, some 0, r.calls, r.rest⟩ := by
  have hset : setFdNonBlocking {} flags false = (0, 0) := by
    have hne : ¬ (flags : Int) = -1 := by omega
    simp [setFdNonBlocking, hne]
  rw [unixWrite, if_neg (by omega), if_pos rfl, hset]
  rfl

/-! ## Sequences of calls -/

/-- **When the mode is kept.**  For every flag word that fits the setting of the client, and
every sequence of writes with whatever answers: exactly when the client is blocking or no
write is longer than 4096 bytes. -/
theorem mode_kept_iff (nonBlockingSocket : Bool) (dataSocket flags : ℕ)
    (hbit : flags.testBit 11 = nonBlockingSocket) (ops : List WriteOp) :
    ModeKept nonBlockingSocket dataSocket flags ops ↔
      nonBlockingSocket = false ∨ ∀ op ∈ ops, op.data.length ≤ 4096 := by
  induction ops with
  | nil => exact iff_of_true trivial (.inr fun op hop => by cases hop)
  | cons op ops ih =>
    constructor
    · rintro ⟨w, hw, hpreserved, hrest⟩
      rw [hpreserved.after] at hrest
      rcases ih.mp hrest with hmode | hshort
      · exact .inl hmode
      · by_cases hop : op.data.length ≤ 4096
        · exact .inr (List.forall_mem_cons.mpr ⟨hop, hshort⟩)
        · -- the word is zero, so the client was a blocking one
          refine .inl ?_
          cases hmode : nonBlockingSocket with
          | false => rfl
          | true =>
            rw [hmode, unixWrite_long dataSocket flags op.answers (by omega)] at hw
            obtain ⟨r, -, rfl⟩ := Option.map_eq_some_iff.mp hw
            have hzero : 0 = flags := hpreserved.after
            rw [← hzero, Nat.zero_testBit, hmode] at hbit
            cases hbit
    · intro h
      have hop : nonBlockingSocket = false ∨ op.data.length ≤ 4096 :=
        h.imp_right fun hshort => hshort op (List.mem_cons_self ..)
      obtain ⟨w, hw, hflags, hduring⟩ := exists_unixWrite_of_untouched dataSocket flags op hop
      refine ⟨w, hw, ⟨hflags, fun hlong => ⟨flags, hduring, ?_⟩⟩, ?_⟩
      · refine testBit_of_blocking (hbit.trans (hop.resolve_right ?_))
        omega
      · rw [hflags]
        exact ih.mpr (h.imp_right fun hshort op' hop' => hshort op' (List.mem_cons_of_mem _ hop'))

/-- Two short writes of a non-blocking client, the second of which would block. -/
theorem mode_kept_by_short_writes :
    ModeKept true 7 0x802 [⟨[104, 105], [.wrote 1, .wrote 1], by decide, by decide⟩,
      ⟨[104], [.failed EAGAIN], by decide, by decide⟩] :=
  (mode_kept_iff true 7 0x802 (by decide) _).mpr (.inr (by simp))

/-- A write of 4097 bytes, which the kernel takes at once. -/
def longWrite : WriteOp where
  data := List.replicate 4097 0
  answers := List.replicate 4097 (.wrote 4097)
  nonempty := List.cons_ne_nil _ _
  enough := by rw [List.length_replicate, List.length_replicate]

/-- A non-blocking client makes a long write: the flag word was `O_RDWR | O_NONBLOCK`, and is
zero. -/
theorem mode_lost_after_long_write :
    (∃ w, unixWrite true 7 {} {} 0x802 longWrite.data longWrite.answers = some w ∧ w.flags = 0) ∧
      ¬ ModeKept true 7 0x802 [longWrite] := by
  have hlong : 4096 < longWrite.data.length := by
    rw [longWrite, List.length_replicate]
    omega
  obtain ⟨r, hr⟩ := exists_clientWrite 7 longWrite.nonempty longWrite.enough
  have hwrite := unixWrite_long 7 0x802 longWrite.answers hlong
  rw [hr, Option.map_some] at hwrite
  refine ⟨⟨_, hwrite, rfl⟩, ?_⟩
  rintro ⟨w, hw, hpreserved, -⟩
  rw [hwrite, Option.some_inj] at hw
  subst hw
  cases hpreserved.after

end Nbuss
