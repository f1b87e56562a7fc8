import Mathlib.Data.List.GetD
import Mathlib.Data.List.Range
import Mathlib.Logic.Function.Iterate
import Mathlib.Tactic.Common

/-!
# Remainders of bit strings

The reflected form of a cyclic redundancy check: a register is moved one place to the right
for every bit of the message, and when the bit that falls out differs from the bit of the
message, the polynomial is added.

A program does not feed the bits of the message into the register one by one.  It adds a
whole word to the register first, and moves on without looking at the message; or it takes
the effect of a whole word from a table.  All three do the same (`feeds_bits_xor`,
`feeds_bits_eq_table`), for a register of any width, any polynomial and words of any number
of bits.  The argument needs no linearity: at every moment the register that has been fed
bit by bit differs from the one that has swallowed the word by just the part of the word
that is still to come.
-/

namespace Remainder

variable {w : ℕ}

/-- One bit of the message goes into the register. -/
def feed (poly r : BitVec w) (b : Bool) : BitVec w :=
  if r.getLsbD 0 ^^ b then (r >>> 1) ^^^ poly else r >>> 1

/-- The register moves on with no message left. -/
def turn (poly r : BitVec w) : BitVec w := feed poly r false

/-- A string of bits goes into the register, the first one first. -/
def feeds (poly r : BitVec w) (l : List Bool) : BitVec w := l.foldl (feed poly) r

/-- The first `n` bits of a word, the lowest one first. -/
def bits (n : ℕ) (x : BitVec w) : List Bool := (List.range n).map x.getLsbD

theorem feeds_append (poly r : BitVec w) (l m : List Bool) :
    feeds poly r (l ++ m) = feeds poly (feeds poly r l) m := List.foldl_append

theorem bits_succ (n : ℕ) (x : BitVec w) : bits (n + 1) x = bits n x ++ [x.getLsbD n] := by
  rw [bits, List.range_succ, List.map_append]
  rfl

theorem bits_cons (n : ℕ) (x : BitVec w) : bits (n + 1) x = x.getLsbD 0 :: bits n (x >>> 1) := by
  rw [bits, List.range_succ_eq_map, List.map_cons, List.map_map]
  refine congrArg (x.getLsbD 0 :: ·) (List.map_congr_left fun i _ => ?_)
  rw [BitVec.getLsbD_ushiftRight, Nat.add_comm]
  rfl

theorem bits_add (n m : ℕ) (x : BitVec w) : bits (n + m) x = bits n x ++ bits m (x >>> n) := by
  rw [bits, List.range_add, List.map_append, List.map_map]
  refine congrArg (bits n x ++ ·) (List.map_congr_left fun i _ => ?_)
  exact (BitVec.getLsbD_ushiftRight x n i).symm

/-- Only the first `n` bits count. -/
theorem bits_congr {v : ℕ} {n : ℕ} {x : BitVec w} {y : BitVec v}
    (h : ∀ i < n, x.getLsbD i = y.getLsbD i) : bits n x = bits n y :=
  List.map_congr_left fun i hi => h i (List.mem_range.mp hi)

/-- The register that is fed a bit, and the register that has swallowed the word the bit
comes from. -/
theorem feed_xor (poly r x : BitVec w) :
    feed poly r (x.getLsbD 0) ^^^ (x >>> 1) = turn poly (r ^^^ x) := by
  rw [turn, feed, feed, BitVec.getLsbD_xor, Bool.xor_false, BitVec.ushiftRight_xor_distrib]
  split_ifs
  · rw [BitVec.xor_assoc, BitVec.xor_comm poly, ← BitVec.xor_assoc]
  · rfl

/-- **Bit by bit, or a word at a time**: what is left of the word is the difference. -/
theorem feeds_bits_xor (poly r x : BitVec w) (n : ℕ) :
    feeds poly r (bits n x) ^^^ (x >>> n) = (turn poly)^[n] (r ^^^ x) := by
  induction n with
  | zero =>
    rw [Function.iterate_zero, id, BitVec.ushiftRight_zero]
    rfl
  | succ n ih =>
    have hbit : x.getLsbD n = (x >>> n).getLsbD 0 := by
      rw [BitVec.getLsbD_ushiftRight, Nat.add_zero]
    rw [Function.iterate_succ_apply', ← ih, bits_succ, feeds_append, hbit,
      BitVec.shiftRight_add, ← feed_xor]
    rfl

/-- **The table.**  The effect of `n` bits is that of the same bits, changed by the register,
on an empty register; the rest of the register only moves down. -/
theorem feeds_bits_eq_table (poly r x : BitVec w) (n : ℕ) :
    feeds poly r (bits n x) = (r >>> n) ^^^ feeds poly 0#w (bits n (r ^^^ x)) := by
  have hfed := feeds_bits_xor poly r x n
  have htable := feeds_bits_xor poly 0#w (r ^^^ x) n
  rw [BitVec.zero_xor, ← hfed, BitVec.ushiftRight_xor_distrib, ← BitVec.xor_assoc] at htable
  rw [BitVec.xor_comm (r >>> n)]
  exact ((BitVec.xor_left_inj _).mp htable).symm

/-! ## What a remainder tells about the message

If the highest bit of the polynomial is set, a step can be undone: the bit that has fallen out
is the highest bit of the new register.  So an error that fits into the register changes the
remainder, whatever comes before and after it. -/

theorem feed_injective {poly : BitVec w} (hpoly : poly.getLsbD (w - 1) = true) (b : Bool) :
    Function.Injective fun r => feed poly r b := by
  intro r s h
  dsimp only at h
  have hw : w - 1 < w := BitVec.lt_of_getLsbD hpoly
  have htop : ∀ x : BitVec w, (feed poly x b).getLsbD (w - 1) = (x.getLsbD 0 ^^ b) := by
    intro x
    have hout : (x >>> 1).getLsbD (w - 1) = false := by
      rw [BitVec.getLsbD_ushiftRight]
      exact BitVec.getLsbD_of_ge x _ (by omega)
    rw [feed]
    split_ifs with hbit
    · rw [BitVec.getLsbD_xor, hout, hpoly, hbit]
      rfl
    · rw [hout, Bool.eq_false_iff.mpr hbit]
  have hlow : r.getLsbD 0 = s.getLsbD 0 := by
    have hbits := (htop r).symm.trans ((congrArg (BitVec.getLsbD · (w - 1)) h).trans (htop s))
    exact Bool.xor_right_inj.mp (by rwa [Bool.xor_comm b, Bool.xor_comm b])
  have hshift : r >>> 1 = s >>> 1 := by
    rw [feed, feed, hlow] at h
    split_ifs at h
    · exact (BitVec.xor_left_inj poly).mp h
    · exact h
  refine BitVec.eq_of_getLsbD_eq fun i _ => ?_
  cases i with
  | zero => exact hlow
  | succ i =>
    have hbit := congrArg (BitVec.getLsbD · i) hshift
    simp only [BitVec.getLsbD_ushiftRight] at hbit
    rwa [Nat.add_comm] at hbit

theorem feeds_injective {poly : BitVec w} (hpoly : poly.getLsbD (w - 1) = true) (l : List Bool) :
    Function.Injective fun r => feeds poly r l := by
  induction l with
  | nil => exact fun _ _ h => h
  | cons b l ih => exact ih.comp (feed_injective hpoly b)

/-- A string of bits as a word. -/
def wordOf (w : ℕ) (l : List Bool) : BitVec w := (BitVec.ofBoolListLE l).setWidth w

theorem getLsbD_wordOf {l : List Bool} (hl : l.length ≤ w) (i : ℕ) :
    (wordOf w l).getLsbD i = l.getD i false := by
  rw [wordOf, BitVec.getLsbD_setWidth, BitVec.getLsbD_ofBoolListLE]
  by_cases hi : i < w
  · rw [decide_eq_true hi, Bool.true_and]
  · rw [decide_eq_false hi, Bool.false_and, List.getD_eq_default _ _ (by omega)]

theorem bits_wordOf {l : List Bool} (hl : l.length ≤ w) : bits l.length (wordOf w l) = l := by
  refine List.ext_getElem (by simp [bits]) fun i _ hi => ?_
  simp only [bits, List.getElem_map, List.getElem_range, getLsbD_wordOf hl]
  exact List.getD_eq_getElem _ _ hi

theorem wordOf_ushiftRight {l : List Bool} (hl : l.length ≤ w) :
    wordOf w l >>> l.length = 0#w := by
  refine BitVec.eq_of_getLsbD_eq fun i _ => ?_
  rw [BitVec.getLsbD_ushiftRight, getLsbD_wordOf hl, List.getD_eq_default _ _ (by omega),
    BitVec.getLsbD_zero]

/-- A string that fits into the register is swallowed as one word. -/
theorem feeds_eq_turns (poly r : BitVec w) {l : List Bool} (hl : l.length ≤ w) :
    feeds poly r l = (turn poly)^[l.length] (r ^^^ wordOf w l) := by
  have hword := feeds_bits_xor poly r (wordOf w l) l.length
  rwa [bits_wordOf hl, wordOf_ushiftRight hl, BitVec.xor_zero] at hword

/-- **A string that fits into the register can be read off the remainder.** -/
theorem eq_of_feeds_eq {poly : BitVec w} (hpoly : poly.getLsbD (w - 1) = true) {r : BitVec w}
    {l m : List Bool} (hl : l.length ≤ w) (hlen : l.length = m.length)
    (h : feeds poly r l = feeds poly r m) : l = m := by
  rw [feeds_eq_turns poly r hl, feeds_eq_turns poly r (hlen ▸ hl), ← hlen] at h
  have hturn : Function.Injective (turn poly) := feed_injective hpoly false
  have hword : wordOf w l = wordOf w m := (BitVec.xor_right_inj r).mp (hturn.iterate _ h)
  rw [← bits_wordOf hl, hword, hlen, bits_wordOf (hlen ▸ hl)]

/-- **Bursts.**  Two strings that differ within a stretch no longer than the register have
different remainders. -/
theorem feeds_burst {poly : BitVec w} (hpoly : poly.getLsbD (w - 1) = true) (r : BitVec w)
    (before after : List Bool) {l m : List Bool} (hl : l.length ≤ w) (hlen : l.length = m.length)
    (hne : l ≠ m) :
    feeds poly r (before ++ l ++ after) ≠ feeds poly r (before ++ m ++ after) := by
  intro h
  rw [feeds_append, feeds_append, feeds_append, feeds_append] at h
  exact hne (eq_of_feeds_eq hpoly hl hlen (feeds_injective hpoly after h))

/-- **The trailer.**  A register becomes zero exactly when it is fed with itself. -/
theorem feeds_eq_zero_iff {poly : BitVec w} (hpoly : poly.getLsbD (w - 1) = true) (r x : BitVec w) :
    feeds poly r (bits w x) = 0#w ↔ x = r := by
  have hword := feeds_bits_xor poly r x w
  rw [BitVec.ushiftRight_eq_zero (Nat.le_refl w), BitVec.xor_zero] at hword
  have hturn : Function.Injective (turn poly) := feed_injective hpoly false
  have hzero : (turn poly)^[w] 0#w = 0#w := by
    refine Function.iterate_fixed ?_ w
    simp [turn, feed]
  rw [hword]
  constructor
  · intro h
    have hxor : r ^^^ x = r ^^^ r := by
      rw [BitVec.xor_self]
      exact hturn.iterate w (h.trans hzero.symm)
    exact (BitVec.xor_right_inj r).mp hxor
  · rintro rfl
    rw [BitVec.xor_self, hzero]

/-! ## Parity

If the polynomial has an odd number of bits set (an even number, with the one that is not
written down), every step keeps the parity of the register and of what it has been fed. -/

/-- Whether an odd number of bits is set. -/
def parity (l : List Bool) : Bool := l.foldr xor false

theorem parity_append (l m : List Bool) : parity (l ++ m) = (parity l ^^ parity m) := by
  induction l with
  | nil => exact (Bool.false_xor _).symm
  | cons b l ih =>
    show (b ^^ parity (l ++ m)) = ((b ^^ parity l) ^^ parity m)
    rw [ih, Bool.xor_assoc]

theorem parity_bits_xor (n : ℕ) (x y : BitVec w) :
    parity (bits n (x ^^^ y)) = (parity (bits n x) ^^ parity (bits n y)) := by
  induction n with
  | zero => rfl
  | succ n ih =>
    rw [bits_succ, bits_succ, bits_succ, parity_append, parity_append, parity_append, ih,
      BitVec.getLsbD_xor]
    simp only [parity, List.foldr_cons, List.foldr_nil, Bool.xor_false]
    cases x.getLsbD n <;> simp [Bool.xor_left_comm, Bool.xor_comm]

/-- The bit that falls out is missing afterwards. -/
theorem parity_bits_ushiftRight (r : BitVec w) :
    parity (bits w (r >>> 1)) = (parity (bits w r) ^^ r.getLsbD 0) := by
  have hsame : parity (bits (w + 1) r) = parity (bits w r) := by
    rw [bits_succ, parity_append, BitVec.getLsbD_of_ge r w (Nat.le_refl w)]
    exact Bool.xor_false _
  rw [← hsame, bits_cons]
  show parity (bits w (r >>> 1)) = ((r.getLsbD 0 ^^ parity (bits w (r >>> 1))) ^^ r.getLsbD 0)
  rw [Bool.xor_comm (r.getLsbD 0), Bool.xor_assoc, Bool.xor_self, Bool.xor_false]

theorem parity_feed {poly : BitVec w} (hpoly : parity (bits w poly) = true) (r : BitVec w)
    (b : Bool) : parity (bits w (feed poly r b)) = (parity (bits w r) ^^ b) := by
  rw [feed]
  split_ifs with hbit
  · rw [parity_bits_xor, hpoly, parity_bits_ushiftRight]
    cases hlow : r.getLsbD 0 <;> cases b <;> simp [hlow] at hbit ⊢
  · rw [parity_bits_ushiftRight]
    cases hlow : r.getLsbD 0 <;> cases b <;> simp [hlow] at hbit ⊢

/-- **The parity of a remainder** is the parity of the message. -/
theorem parity_feeds {poly : BitVec w} (hpoly : parity (bits w poly) = true) (r : BitVec w)
    (l : List Bool) : parity (bits w (feeds poly r l)) = (parity (bits w r) ^^ parity l) := by
  induction l generalizing r with
  | nil => exact (Bool.xor_false _).symm
  | cons b l ih =>
    show parity (bits w (feeds poly (feed poly r b) l)) = (parity (bits w r) ^^ (b ^^ parity l))
    rw [ih, parity_feed hpoly, Bool.xor_assoc]

/-- The number of places at which two strings differ. -/
def distance (l m : List Bool) : ℕ := (l.zip m).countP fun p => p.1 != p.2

/-- The parities of two strings differ when an odd number of places does. -/
theorem parity_xor_parity {l m : List Bool} (hlen : l.length = m.length) :
    (parity l ^^ parity m) = decide (distance l m % 2 = 1) := by
  induction l generalizing m with
  | nil =>
    rw [List.eq_nil_of_length_eq_zero hlen.symm]
    rfl
  | cons b l ih =>
    cases m with
    | nil => cases hlen
    | cons c m =>
      have hrest := ih (Nat.succ.inj hlen)
      have hcount : distance (b :: l) (c :: m) =
          distance l m + if (b != c) = true then 1 else 0 := by
        rw [distance, List.zip_cons_cons, List.countP_cons]
        rfl
      have hxor : (parity (b :: l) ^^ parity (c :: m)) = ((b ^^ c) ^^ (parity l ^^ parity m)) := by
        show ((b ^^ parity l) ^^ (c ^^ parity m)) = ((b ^^ c) ^^ (parity l ^^ parity m))
        cases b <;> cases c <;> cases parity l <;> cases parity m <;> rfl
      rw [hxor, hrest, hcount]
      rcases Nat.mod_two_eq_zero_or_one (distance l m) with hmod | hmod <;>
        cases b <;> cases c <;> simp [hmod, Nat.add_mod]

end Remainder
