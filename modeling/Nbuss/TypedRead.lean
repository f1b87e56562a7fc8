import Mathlib.Data.List.Basic
import Nbuss.ServerRead

/-!
# `read_one_buffer_t`

`read_one_buffer_t<N>` reads into a vector of `N`, and then cuts the vector to the number of
complete elements: it divides the number of bytes by `sizeof(N)`.  What the division leaves
over has been taken from the socket and is not in the vector, and the next call starts with a
fresh vector.  So when the kernel hands out an element in two parts, both are lost, and the
elements after it are read at the wrong places.

A value of `N` is its byte representation here (`Elem`), and `sizeof(N)` is a parameter.  The
sizes of the answers decide whether something is lost: nothing is, whatever the bytes are,
exactly when no element is completed by another answer than the one that began it
(`typed_lossless_iff`).
-/

namespace Nbuss

/-- A value of a type with `sizeof` equal to `s`: its bytes. -/
structure Elem (s : ℕ) where
  bytes : List UInt8
  length_bytes : bytes.length = s
  deriving DecidableEq, Repr

/-- The memory of a vector of elements; `IGenericServer::write<T>` sends these bytes. -/
def bytesOf {s : ℕ} (l : List (Elem s)) : List UInt8 := l.flatMap Elem.bytes

theorem length_resize (buffer : List UInt8) (n : ℕ) : (resize buffer n).length = n := by
  rw [resize, List.length_append, List.length_take, List.length_replicate]
  omega

/-- A vector of `n` elements over a memory; what is missing is zero. -/
def elems (s : ℕ) : ℕ → List UInt8 → List (Elem s)
  | 0, _ => []
  | n + 1, memory => ⟨resize memory s, length_resize memory s⟩ :: elems s n (memory.drop s)

/-- What `read_one_buffer_t` gives back: the vector, `*_errno` and `*bytes_read_p`. -/
structure TypedBuffer (s : ℕ) where
  buffer : List (Elem s)
  errno : Int
  bytesRead : Int
  deriving DecidableEq, Repr

/-- `IGenericServer::read_one_buffer_t<N>(fd, buffer_size, _errno, bytes_read_p)`. -/
def readOneBufferT (s bufferSize : ℕ) (a : ReadAnswer) (errno : Int) : TypedBuffer s :=
  let memory := fill (List.replicate (bufferSize * s) 0) a.bytes
  let c := a.ret
  let errno := a.errnoAfter errno
  if 0 ≤ c then
    -- `buffer.resize(c / sizeof(N))`
    ⟨elems s (c.toNat / s) memory, errno, c⟩
  else if c = -1 ∧ wouldBlock errno then
    ⟨[], errno, c⟩
  else if c = -1 then
    ⟨[], errno, c⟩
  else
    ⟨elems s bufferSize memory, errno, c⟩

/-- The elements that successive calls return. -/
def typedReads (s bufferSize : ℕ) : List ReadAnswer → Int → List (Elem s)
  | [], _ => []
  | a :: answers, errno =>
    let r := readOneBufferT s bufferSize a errno
    r.buffer ++ typedReads s bufferSize answers r.errno

/-! ## What is kept -/

/-- The complete elements of an answer. -/
def kept (s : ℕ) (b : List UInt8) : List UInt8 := b.take (b.length / s * s)

theorem bytesOf_append {s : ℕ} (l m : List (Elem s)) : bytesOf (l ++ m) = bytesOf l ++ bytesOf m :=
  List.flatMap_append

theorem bytesOf_elems {s n : ℕ} {memory : List UInt8} (h : n * s ≤ memory.length) :
    bytesOf (elems s n memory) = memory.take (n * s) := by
  induction n generalizing memory with
  | zero => rw [Nat.zero_mul, List.take_zero]; rfl
  | succ n ih =>
    rw [Nat.succ_mul] at h
    have hdrop : n * s ≤ (memory.drop s).length := by
      rw [List.length_drop]
      omega
    have hhead : resize memory s = memory.take s := by
      rw [resize, Nat.sub_eq_zero_of_le (by omega), List.replicate_zero, List.append_nil]
    rw [Nat.succ_mul, Nat.add_comm (n * s), List.take_add, ← ih hdrop, ← hhead]
    rfl

/-- One call returns the complete elements of what the kernel delivers. -/
theorem bytesOf_readOneBufferT {s bufferSize : ℕ} {b : List UInt8}
    (hb : b.length ≤ bufferSize * s) (errno : Int) :
    bytesOf (readOneBufferT s bufferSize (.got b) errno).buffer = kept s b := by
  have hret : (0 : Int) ≤ (ReadAnswer.got b).ret := Int.natCast_nonneg _
  have hfill : fill (List.replicate (bufferSize * s) 0) b =
      b ++ List.replicate (bufferSize * s - b.length) 0 := by
    rw [fill, List.length_replicate, List.take_of_length_le hb, List.drop_replicate]
  have hdiv : b.length / s * s ≤ b.length := Nat.div_mul_le_self b.length s
  have hlen : b.length / s * s ≤ (fill (List.replicate (bufferSize * s) 0) b).length := by
    rw [hfill, List.length_append]
    omega
  rw [readOneBufferT, if_pos hret]
  show bytesOf (elems s (b.length / s) (fill (List.replicate (bufferSize * s) 0) b)) = kept s b
  rw [bytesOf_elems hlen, hfill, List.take_append_of_le_length hdiv, kept]

/-- **Successive calls** return the complete elements of each answer. -/
theorem bytesOf_typedReads {s bufferSize : ℕ} {chunks : List (List UInt8)}
    (hchunks : ∀ b ∈ chunks, b.length ≤ bufferSize * s) (errno : Int) :
    bytesOf (typedReads s bufferSize (chunks.map ReadAnswer.got) errno) =
      chunks.flatMap (kept s) := by
  induction chunks generalizing errno with
  | nil => rfl
  | cons b chunks ih =>
    have hrest := ih fun b' hb' => hchunks b' (List.mem_cons_of_mem _ hb')
    rw [List.map_cons, typedReads, bytesOf_append, hrest,
      bytesOf_readOneBufferT (hchunks b (List.mem_cons_self ..)), List.flatMap_cons]

theorem bytesOf_injective {s : ℕ} (hs : 1 ≤ s) {l m : List (Elem s)} (h : bytesOf l = bytesOf m) :
    l = m := by
  induction l generalizing m with
  | nil =>
    cases m with
    | nil => rfl
    | cons e m =>
      have hlen := congrArg List.length h
      simp [bytesOf, e.length_bytes] at hlen
      omega
  | cons e l ih =>
    cases m with
    | nil =>
      have hlen := congrArg List.length h
      simp [bytesOf, e.length_bytes] at hlen
      omega
    | cons e' m =>
      obtain ⟨hhead, htail⟩ := List.append_inj h (e.length_bytes.trans e'.length_bytes.symm)
      rw [ih htail]
      cases e
      cases e'
      cases hhead
      rfl

theorem dvd_length_bytesOf {s : ℕ} (l : List (Elem s)) : s ∣ (bytesOf l).length := by
  induction l with
  | nil => exact Nat.dvd_zero s
  | cons e l ih =>
    rw [bytesOf, List.flatMap_cons, List.length_append, e.length_bytes]
    exact Nat.dvd_add (Nat.dvd_refl s) ih

/-! ## Which cuts are harmless -/

/-- The calls that are answered with `chunks` lose nothing: at every moment the elements that
have been returned are what has been taken from the socket, up to an incomplete element; and
what a peer has sent as elements is read back as those. -/
structure Lossless (s bufferSize : ℕ) (chunks : List (List UInt8)) (errno : Int) : Prop where
  soFar : ∀ n, ∃ rest : List UInt8, rest.length < s ∧
    bytesOf (typedReads s bufferSize ((chunks.take n).map ReadAnswer.got) errno) ++ rest =
      (chunks.take n).flatten
  readBack : ∀ v : List (Elem s), bytesOf v = chunks.flatten →
    typedReads s bufferSize (chunks.map ReadAnswer.got) errno = v

/-- The sizes of the answers are such that no element is completed by a later answer than the
one it began in: up to some answer they are all whole elements, and what that answer leaves
over is less than an element, together with all that follows. -/
def WholeElements (s : ℕ) : List ℕ → Prop
  | [] => True
  | k :: sizes => if s ∣ k then WholeElements s sizes else k % s + sizes.sum < s

instance decidableWholeElements (s : ℕ) : ∀ sizes, Decidable (WholeElements s sizes)
  | [] => isTrue trivial
  | k :: sizes =>
    have : Decidable (WholeElements s sizes) := decidableWholeElements s sizes
    inferInstanceAs (Decidable (if s ∣ k then WholeElements s sizes else k % s + sizes.sum < s))

theorem kept_of_dvd {s : ℕ} {b : List UInt8} (h : s ∣ b.length) : kept s b = b := by
  rw [kept, Nat.div_mul_cancel h, List.take_length]

/-- Answers that are smaller than an element are thrown away. -/
theorem flatMap_kept_of_sum_lt {s : ℕ} {chunks : List (List UInt8)}
    (h : (chunks.map List.length).sum < s) : chunks.flatMap (kept s) = [] := by
  induction chunks with
  | nil => rfl
  | cons b chunks ih =>
    rw [List.map_cons, List.sum_cons] at h
    rw [List.flatMap_cons, ih (by omega), kept, Nat.div_eq_of_lt (by omega), Nat.zero_mul,
      List.take_zero, List.append_nil]

theorem length_flatten_take_le (chunks : List (List UInt8)) (n : ℕ) :
    (chunks.take n).flatten.length ≤ (chunks.map List.length).sum := by
  have hsplit : chunks.flatten = (chunks.take n).flatten ++ (chunks.drop n).flatten := by
    rw [← List.flatten_append, List.take_append_drop]
  rw [← List.length_flatten, hsplit, List.length_append]
  exact Nat.le_add_right _ _

/-- With such sizes what has been kept is what has come, up to an incomplete element. -/
theorem kept_of_wholeElements {s : ℕ} (hs : 1 ≤ s) {chunks : List (List UInt8)}
    (h : WholeElements s (chunks.map List.length)) (n : ℕ) :
    ∃ rest : List UInt8, rest.length < s ∧
      (chunks.take n).flatMap (kept s) ++ rest = (chunks.take n).flatten := by
  induction chunks generalizing n with
  | nil => exact ⟨[], hs, by simp⟩
  | cons b chunks ih =>
    cases n with
    | zero => exact ⟨[], hs, rfl⟩
    | succ n =>
      rw [List.map_cons, WholeElements] at h
      rw [List.take_succ_cons, List.flatMap_cons, List.flatten_cons]
      split_ifs at h with hdvd
      · obtain ⟨rest, hrest, heq⟩ := ih h n
        exact ⟨rest, hrest, by rw [kept_of_dvd hdvd, List.append_assoc, heq]⟩
      · have hle := length_flatten_take_le chunks n
        have hlost : (chunks.take n).flatMap (kept s) = [] := by
          refine flatMap_kept_of_sum_lt ?_
          rw [← List.length_flatten]
          omega
        refine ⟨b.drop (b.length / s * s) ++ (chunks.take n).flatten, ?_, ?_⟩
        · have hmod := Nat.div_add_mod' b.length s
          rw [List.length_append, List.length_drop]
          omega
        · rw [hlost, List.append_nil, ← List.append_assoc, kept, List.take_append_drop]

theorem kept_replicate (s k : ℕ) :
    kept s (List.replicate k 0) = List.replicate (k / s * s) 0 := by
  rw [kept, List.length_replicate, List.take_replicate, Nat.min_eq_left (Nat.div_mul_le_self k s)]

theorem map_length_zeros (sizes : List ℕ) :
    (sizes.map fun k => List.replicate k (0 : UInt8)).map List.length = sizes := by
  rw [List.map_map]
  exact List.map_id'' (fun _ => List.length_replicate) sizes

/-- What is kept of zeros is zeros. -/
theorem flatMap_kept_zeros (s : ℕ) (sizes : List ℕ) :
    ∃ m, (sizes.map fun k => List.replicate k (0 : UInt8)).flatMap (kept s) =
      List.replicate m 0 := by
  induction sizes with
  | nil => exact ⟨0, rfl⟩
  | cons k sizes ih =>
    obtain ⟨m, hm⟩ := ih
    exact ⟨k / s * s + m, by
      rw [List.map_cons, List.flatMap_cons, hm, kept_replicate, List.replicate_append_replicate]⟩

/-- An answer of `k` bytes in which only the first byte of the incomplete element is not zero. -/
def marked (s k : ℕ) : List UInt8 :=
  List.replicate (k / s * s) 0 ++ 1 :: List.replicate (k % s - 1) 0

theorem length_marked {s k : ℕ} (h : 0 < k % s) : (marked s k).length = k := by
  have hmod := Nat.div_add_mod' k s
  rw [marked, List.length_append, List.length_cons, List.length_replicate, List.length_replicate]
  omega

theorem kept_marked {s k : ℕ} (h : 0 < k % s) :
    kept s (marked s k) = List.replicate (k / s * s) 0 := by
  rw [kept, length_marked h]
  exact List.take_left' List.length_replicate

/-- If an element is cut and only zeros follow, then not enough may follow to complete it: what
is kept afterwards would begin with a zero, where a one has been lost. -/
theorem sum_lt_of_marked {s k : ℕ} {sizes : List ℕ} (hpos : 0 < k % s) {rest : List UInt8}
    (hrest : rest.length < s)
    (heq : (marked s k :: sizes.map fun i => List.replicate i 0).flatMap (kept s) ++ rest =
      (marked s k :: sizes.map fun i => List.replicate i 0).flatten) :
    k % s + sizes.sum < s := by
  obtain ⟨m, hm⟩ := flatMap_kept_zeros s sizes
  rw [List.flatMap_cons, List.flatten_cons, kept_marked hpos, hm, marked, List.append_assoc,
    List.append_assoc] at heq
  have htail := List.append_cancel_left heq
  cases m with
  | zero =>
    have hlen := congrArg List.length htail
    rw [List.replicate_zero, List.nil_append, List.cons_append, List.length_cons,
      List.length_append, List.length_replicate, List.length_flatten, map_length_zeros] at hlen
    omega
  | succ m =>
    rw [List.replicate_succ, List.cons_append, List.cons_append] at htail
    exact absurd (List.cons.inj htail).1 (by decide)

/-- With other sizes something is lost for some bytes. -/
theorem wholeElements_of_kept {s : ℕ} {sizes : List ℕ}
    (h : ∀ chunks : List (List UInt8), chunks.map List.length = sizes →
      ∃ rest : List UInt8, rest.length < s ∧ chunks.flatMap (kept s) ++ rest = chunks.flatten) :
    WholeElements s sizes := by
  induction sizes with
  | nil => trivial
  | cons k sizes ih =>
    rw [WholeElements]
    split_ifs with hdvd
    · refine ih fun chunks hchunks => ?_
      have hlen : (List.replicate k (0 : UInt8)).length = k := List.length_replicate
      obtain ⟨rest, hrest, heq⟩ := h (List.replicate k 0 :: chunks) (by
        rw [List.map_cons, hlen, hchunks])
      rw [List.flatMap_cons, List.flatten_cons, kept_of_dvd (hlen.symm ▸ hdvd),
        List.append_assoc] at heq
      exact ⟨rest, hrest, List.append_cancel_left heq⟩
    · have hpos : 0 < k % s := Nat.pos_of_ne_zero fun hzero => hdvd (Nat.dvd_of_mod_eq_zero hzero)
      obtain ⟨rest, hrest, heq⟩ := h (marked s k :: sizes.map fun i => List.replicate i 0) (by
        rw [List.map_cons, length_marked hpos, map_length_zeros])
      exact sum_lt_of_marked hpos hrest heq

/-- **When typed reads lose nothing.**  For answers of the given sizes, every one of them
between one byte and the whole buffer: nothing is lost, whatever the bytes are, exactly when no
element is completed by a later answer than the one it began in. -/
theorem typed_lossless_iff (s bufferSize : ℕ) (hs : 1 ≤ s) (sizes : List ℕ)
    (hsizes : ∀ k ∈ sizes, 1 ≤ k ∧ k ≤ bufferSize * s) (errno : Int) :
    (∀ chunks : List (List UInt8), chunks.map List.length = sizes →
      Lossless s bufferSize chunks errno) ↔ WholeElements s sizes := by
  have hfits : ∀ chunks : List (List UInt8), chunks.map List.length = sizes →
      ∀ b ∈ chunks, b.length ≤ bufferSize * s := by
    rintro chunks rfl b hb
    exact (hsizes b.length (List.mem_map_of_mem hb)).2
  constructor
  · intro h
    refine wholeElements_of_kept fun chunks hchunks => ?_
    obtain ⟨rest, hrest, heq⟩ := (h chunks hchunks).soFar chunks.length
    rw [List.take_length, bytesOf_typedReads (hfits chunks hchunks)] at heq
    exact ⟨rest, hrest, heq⟩
  · rintro hwhole chunks hchunks
    have hsoFar : ∀ n, ∃ rest : List UInt8, rest.length < s ∧
        bytesOf (typedReads s bufferSize ((chunks.take n).map ReadAnswer.got) errno) ++ rest =
          (chunks.take n).flatten := by
      intro n
      rw [bytesOf_typedReads fun b hb => hfits chunks hchunks b (List.mem_of_mem_take hb)]
      exact kept_of_wholeElements hs (hchunks ▸ hwhole) n
    refine ⟨hsoFar, fun v hv => ?_⟩
    obtain ⟨rest, hrest, heq⟩ := hsoFar chunks.length
    rw [List.take_length, ← hv] at heq
    -- both sides are whole elements, so nothing is missing
    have hlen : (bytesOf (typedReads s bufferSize (chunks.map ReadAnswer.got) errno)).length +
        rest.length = (bytesOf v).length := by
      rw [← List.length_append, heq]
    have hreturned := dvd_length_bytesOf (typedReads s bufferSize (chunks.map ReadAnswer.got) errno)
    have hdvd : s ∣ rest.length := by
      refine (Nat.dvd_add_right hreturned).mp ?_
      rw [hlen]
      exact dvd_length_bytesOf v
    rw [List.eq_nil_of_length_eq_zero (Nat.eq_zero_of_dvd_of_lt hdvd hrest), List.append_nil] at heq
    exact bytesOf_injective hs heq

/-- Three elements of two bytes, read in answers of four and two bytes. -/
theorem typed_lossless_whole :
    Lossless 2 2 [[1, 2, 3, 4], [5, 6]] 0 :=
  (typed_lossless_iff 2 2 (by decide) [4, 2] (by decide) 0).mpr (by decide) _ rfl

/-- One element of two bytes comes in two answers of one byte, and is never returned. -/
theorem typed_element_lost :
    typedReads 2 1 [.got [1], .got [2]] 0 = [] ∧ ¬ Lossless 2 1 [[1], [2]] 0 := by
  refine ⟨rfl, fun h => ?_⟩
  have hback := h.readBack [⟨[1, 2], rfl⟩] rfl
  cases hback

end Nbuss
