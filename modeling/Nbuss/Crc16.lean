import Mathlib.Tactic.IntervalCases
import Nbuss.Bits.Remainder

/-!
# `Crc16`

The checksum that the tests compute on both ends of a connection: the sender in one pass
over the whole message, the receiver over whatever pieces the reads give it.  The object
holds a table of 256 words, which the constructor fills; all functions look at the table
only.

What they compute is a remainder in the sense of `Remainder`, with the polynomial `0xA001`
and the bits of every byte taken from the lowest one up.  `get_construct` says that the table
holds the remainders of single bytes, `updateCrc16_construct` that a look-up has the effect of
eight bits, and `updateCrc16Buffer_construct` that a loop over a buffer has the effect of its
bits.  After that the pieces do not matter, because feeding one string after the other is
feeding both at once.
-/

namespace Nbuss

open Remainder

def CRC_POLY_16 : BitVec 16 := 0xA001
def CRC_START_16 : BitVec 16 := 0x0000
def CRC_START_MODBUS : BitVec 16 := 0xFFFF

/-- The object: the table, and the flag that says that it has been filled. -/
structure Crc16 where
  crcTab16Init : Bool := false
  crcTab16 : Vector (BitVec 16) 256

namespace Crc16

/-- The expression `x & 0x00FF`, as an index of the table. -/
def index (x : BitVec 16) : Fin 256 :=
  ⟨(x &&& 0x00FF).toNat, by
    rw [BitVec.toNat_and]
    exact Nat.lt_of_le_of_lt Nat.and_le_right (by decide)⟩

/-- The loop over `j` in `init_crc16_tab`, with `n` rounds to go. -/
def entryLoop : ℕ → BitVec 16 → BitVec 16 → BitVec 16
  | 0, crc, _ => crc
  | n + 1, crc, c =>
    entryLoop n
      (if (crc ^^^ c) &&& 0x0001 ≠ 0 then (crc >>> 1) ^^^ CRC_POLY_16 else crc >>> 1) (c >>> 1)

/-- `Crc16::init_crc16_tab`. -/
def initCrc16Tab (o : Crc16) : Crc16 where
  crcTab16 := (List.range 256).foldl
    (fun tab i => tab.setIfInBounds i (entryLoop 8 0 (BitVec.ofNat 16 i))) o.crcTab16
  crcTab16Init := true

/-- The constructor, on whatever is in the memory of the table. -/
def construct (memory : Vector (BitVec 16) 256) : Crc16 := initCrc16Tab { crcTab16 := memory }

/-- `Crc16::update_crc_16(crc, c)`, for one byte. -/
def updateCrc16 (o : Crc16) (crc : BitVec 16) (c : UInt8) : BitVec 16 :=
  (crc >>> 8) ^^^ o.crcTab16[index (crc ^^^ c.toBitVec.setWidth 16)]

/-- The loop over `a`, which the three functions on buffers have in common. -/
def crcLoop (o : Crc16) : ℕ → List UInt8 → BitVec 16 → BitVec 16
  | n + 1, b :: ptr, crc =>
    crcLoop o n ptr ((crc >>> 8) ^^^ o.crcTab16[index (crc ^^^ b.toBitVec.setWidth 16)])
  | _, _, crc => crc

/-- `Crc16::update_crc_16(crc, input_str, num_bytes)`.  The pointer may be null. -/
def updateCrc16Buffer (o : Crc16) (crc : BitVec 16) (inputStr : Option (List UInt8))
    (numBytes : ℕ) : BitVec 16 :=
  match inputStr with
  | some ptr => o.crcLoop numBytes ptr crc
  | none => crc

/-- `Crc16::crc_16`. -/
def crc16 (o : Crc16) (inputStr : Option (List UInt8)) (numBytes : ℕ) : BitVec 16 :=
  o.updateCrc16Buffer CRC_START_16 inputStr numBytes

/-- `Crc16::crc_modbus`. -/
def crcModbus (o : Crc16) (inputStr : Option (List UInt8)) (numBytes : ℕ) : BitVec 16 :=
  o.updateCrc16Buffer CRC_START_MODBUS inputStr numBytes

/-! ## The reference -/

/-- The bits of a message, in the order in which they are checked. -/
def messageBits (bytes : List UInt8) : List Bool := bytes.flatMap fun b => bits 8 b.toBitVec

/-- The checksum bit by bit, with the reflected polynomial `0xA001`. -/
def bitSerial (start : BitVec 16) (bytes : List UInt8) : BitVec 16 :=
  feeds 0xA001 start (messageBits bytes)

/-- `CRC_POLY_16` is that polynomial. -/
theorem bitSerial_eq (start : BitVec 16) (bytes : List UInt8) :
    bitSerial start bytes = feeds CRC_POLY_16 start (messageBits bytes) := rfl

/-! ## The table -/

theorem and_one_ne_zero_iff (x : BitVec 16) : x &&& 0x0001 ≠ 0 ↔ x.getLsbD 0 = true := by
  rw [show (0x0001 : BitVec 16) = 1#16 from rfl, BitVec.and_one_eq_setWidth_ofBool_getLsbD]
  cases x.getLsbD 0 <;> decide

/-- The loop over `j` feeds the bits of `c`. -/
theorem entryLoop_eq (n : ℕ) (crc c : BitVec 16) :
    entryLoop n crc c = feeds CRC_POLY_16 crc (bits n c) := by
  induction n generalizing crc c with
  | zero => rfl
  | succ n ih =>
    have hstep : (if (crc ^^^ c) &&& 0x0001 ≠ 0 then (crc >>> 1) ^^^ CRC_POLY_16 else crc >>> 1) =
        feed CRC_POLY_16 crc (c.getLsbD 0) := by
      rw [feed, ← BitVec.getLsbD_xor]
      exact if_congr (and_one_ne_zero_iff _) rfl rfl
    rw [entryLoop, hstep, ih, bits_cons]
    rfl

/-- The loop over `i`, after `n` rounds. -/
theorem get_fillLoop (tab : Vector (BitVec 16) 256) (n : ℕ) (i : Fin 256) :
    ((List.range n).foldl
      (fun tab i => tab.setIfInBounds i (entryLoop 8 0 (BitVec.ofNat 16 i))) tab)[i] =
      if i.val < n then entryLoop 8 0 (BitVec.ofNat 16 i) else tab[i] := by
  induction n with
  | zero => rfl
  | succ n ih =>
    rw [List.range_succ, List.foldl_append, List.foldl_cons, List.foldl_nil, Fin.getElem_fin,
      Vector.getElem_setIfInBounds]
    by_cases hi : n = i.val
    · rw [if_pos hi, if_pos (by omega), hi]
    · rw [if_neg hi, ← Fin.getElem_fin, ih]
      exact if_congr (by omega) rfl rfl

/-- **The table** holds the remainders of the single bytes, whatever was in its memory. -/
theorem get_construct (memory : Vector (BitVec 16) 256) (i : Fin 256) :
    (construct memory).crcTab16[i] = feeds CRC_POLY_16 0 (bits 8 (BitVec.ofNat 16 i)) := by
  rw [construct, initCrc16Tab, get_fillLoop, if_pos i.isLt, entryLoop_eq]

/-! ## Bytes and buffers -/

/-- The index has the low eight bits. -/
theorem bits_index (x : BitVec 16) : bits 8 (BitVec.ofNat 16 (index x)) = bits 8 x := by
  refine bits_congr fun i hi => ?_
  have hmask : (0x00FF : BitVec 16).getLsbD i = true := by
    interval_cases i <;> rfl
  rw [index, BitVec.ofNat_toNat, BitVec.setWidth_eq, BitVec.getLsbD_and, hmask, Bool.and_true]

/-- A look-up has the effect of the eight bits of the byte. -/
theorem updateCrc16_construct (memory : Vector (BitVec 16) 256) (crc : BitVec 16) (c : UInt8) :
    (construct memory).updateCrc16 crc c = feeds CRC_POLY_16 crc (bits 8 c.toBitVec) := by
  have hbyte : bits 8 (c.toBitVec.setWidth 16) = bits 8 c.toBitVec := by
    refine bits_congr fun i hi => ?_
    rw [BitVec.getLsbD_setWidth, decide_eq_true (by omega), Bool.true_and]
  rw [updateCrc16, get_construct, bits_index, ← hbyte,
    feeds_bits_eq_table CRC_POLY_16 crc]
  rfl

theorem crcLoop_eq_foldl (o : Crc16) (ptr : List UInt8) (crc : BitVec 16) :
    o.crcLoop ptr.length ptr crc = ptr.foldl o.updateCrc16 crc := by
  induction ptr generalizing crc with
  | nil => rfl
  | cons b ptr ih => exact ih _

theorem foldl_updateCrc16_construct (memory : Vector (BitVec 16) 256) (start : BitVec 16)
    (bytes : List UInt8) :
    bytes.foldl (construct memory).updateCrc16 start = bitSerial start bytes := by
  induction bytes generalizing start with
  | nil => rfl
  | cons b bytes ih =>
    rw [List.foldl_cons, ih, updateCrc16_construct, bitSerial_eq, bitSerial_eq, ← feeds_append]
    rfl

/-- A loop over a buffer has the effect of its bits.  A null pointer is an empty buffer. -/
theorem updateCrc16Buffer_construct (memory : Vector (BitVec 16) 256) (start : BitVec 16)
    (chunk : Option (List UInt8)) :
    (construct memory).updateCrc16Buffer start chunk (chunk.getD []).length =
      bitSerial start (chunk.getD []) := by
  cases chunk with
  | none => rfl
  | some ptr =>
    rw [← foldl_updateCrc16_construct memory, ← crcLoop_eq_foldl]
    rfl

/-- The pieces do not matter. -/
theorem foldl_bitSerial (start : BitVec 16) (chunks : List (List UInt8)) :
    chunks.foldl bitSerial start = bitSerial start chunks.flatten := by
  induction chunks generalizing start with
  | nil => rfl
  | cons chunk chunks ih =>
    rw [List.foldl_cons, ih, List.flatten_cons, bitSerial, bitSerial, bitSerial, ← feeds_append,
      messageBits, messageBits, messageBits, List.flatMap_append]

/-! ## One pass, in pieces, byte by byte, bit by bit -/

/-- The message that comes in `chunks`.  A chunk that is `none` is a null pointer with no bytes. -/
def message (chunks : List (Option (List UInt8))) : List UInt8 :=
  chunks.flatMap fun chunk => chunk.getD []

/-- The ways to compute a checksum from `start` over a message that comes in `chunks` agree
with the value `onePass`. -/
structure Agree (o : Crc16) (start onePass : BitVec 16) (chunks : List (Option (List UInt8))) :
    Prop where
  chunked : chunks.foldl (fun crc chunk => o.updateCrc16Buffer crc chunk (chunk.getD []).length)
    start = onePass
  bytewise : (message chunks).foldl o.updateCrc16 start = onePass
  serial : bitSerial start (message chunks) = onePass

theorem agree_bitSerial (memory : Vector (BitVec 16) 256) (start : BitVec 16)
    (chunks : List (Option (List UInt8))) :
    Agree (construct memory) start (bitSerial start (message chunks)) chunks where
  chunked := by
    simp only [updateCrc16Buffer_construct]
    rw [message, List.flatMap_def, ← foldl_bitSerial, List.foldl_map]
  bytewise := foldl_updateCrc16_construct memory start _
  serial := rfl

/-- **The checksum does not depend on how it is computed.**  For every object after its
construction and every message, in whatever pieces it comes: one pass, the pieces one after
the other, byte by byte and bit by bit give the same, for both starting values. -/
theorem crc_agrees (memory : Vector (BitVec 16) 256) (chunks : List (Option (List UInt8))) :
    Agree (construct memory) 0x0000
        ((construct memory).crc16 (some (message chunks)) (message chunks).length) chunks ∧
      Agree (construct memory) 0xFFFF
        ((construct memory).crcModbus (some (message chunks)) (message chunks).length) chunks := by
  have honePass : ∀ start, (construct memory).updateCrc16Buffer start (some (message chunks))
      (message chunks).length = bitSerial start (message chunks) :=
    fun start => updateCrc16Buffer_construct memory start (some (message chunks))
  refine ⟨?_, ?_⟩
  · rw [crc16, honePass]
    exact agree_bitSerial memory CRC_START_16 chunks
  · rw [crcModbus, honePass]
    exact agree_bitSerial memory CRC_START_MODBUS chunks

/-! ## What the checksum detects

The sender computes the checksum of what it sends; the receiver goes over the pieces in which
something has arrived. -/

/-- The checksum over the pieces. -/
def overChunks (o : Crc16) (start : BitVec 16) (chunks : List (Option (List UInt8))) : BitVec 16 :=
  chunks.foldl (fun crc chunk => o.updateCrc16Buffer crc chunk (chunk.getD []).length) start

theorem overChunks_construct (memory : Vector (BitVec 16) 256) (start : BitVec 16)
    (chunks : List (Option (List UInt8))) :
    (construct memory).overChunks start chunks = bitSerial start (message chunks) :=
  (agree_bitSerial memory start chunks).chunked

theorem onePass_construct (memory : Vector (BitVec 16) 256) (start : BitVec 16)
    (sent : List UInt8) :
    (construct memory).updateCrc16Buffer start (some sent) sent.length = bitSerial start sent :=
  updateCrc16Buffer_construct memory start (some sent)

theorem highest_bit_CRC_POLY_16 : CRC_POLY_16.getLsbD (16 - 1) = true := by decide

theorem parity_CRC_POLY_16 : parity (bits 16 CRC_POLY_16) = true := by decide

/-- **Bursts are detected**: if what has arrived differs from what was sent within a stretch of
at most sixteen bits, at any place of a message of any length, the checksums differ. -/
theorem burst_detected (memory : Vector (BitVec 16) 256) (start : BitVec 16) (sent : List UInt8)
    (chunks : List (Option (List UInt8))) (before after l m : List Bool)
    (hsent : messageBits sent = before ++ l ++ after)
    (harrived : messageBits (message chunks) = before ++ m ++ after) (hl : l.length ≤ 16)
    (hlen : l.length = m.length) (hne : l ≠ m) :
    (construct memory).overChunks start chunks ≠
      (construct memory).updateCrc16Buffer start (some sent) sent.length := by
  rw [overChunks_construct, onePass_construct, bitSerial_eq, bitSerial_eq, hsent, harrived]
  exact (feeds_burst highest_bit_CRC_POLY_16 start before after hl hlen hne).symm

/-- The second of three bytes has been damaged in two places; the message has come in two
pieces. -/
theorem burst_of_two_bits_detected :
    (construct (.replicate 256 0)).overChunks CRC_START_16 [some [7, 0x42], none, some [9]] ≠
      (construct (.replicate 256 0)).crc16 (some [7, 0x03, 9]) 3 :=
  burst_detected _ CRC_START_16 [7, 0x03, 9] [some [7, 0x42], none, some [9]]
    (messageBits [7]) (messageBits [9]) (messageBits [0x03]) (messageBits [0x42])
    (by decide) (by decide) (by decide) (by decide) (by decide)

/-- **An odd number of damaged bits is detected**, wherever they are, and in whatever pieces the
two ends compute their checksums. -/
theorem odd_damage_detected (memory : Vector (BitVec 16) 256) (start : BitVec 16)
    (sent arrived : List (Option (List UInt8)))
    (hlen : (message arrived).length = (message sent).length)
    (hodd : distance (messageBits (message arrived)) (messageBits (message sent)) % 2 = 1) :
    (construct memory).overChunks start arrived ≠ (construct memory).overChunks start sent := by
  rw [overChunks_construct, overChunks_construct]
  intro heq
  have hbits : (messageBits (message arrived)).length = (messageBits (message sent)).length := by
    simp [messageBits, bits, hlen]
  have hparity := congrArg (fun crc => parity (bits 16 crc)) heq
  simp only [bitSerial_eq, parity_feeds parity_CRC_POLY_16] at hparity
  have hsame := Bool.xor_right_inj.mp hparity
  have hdiffer := parity_xor_parity hbits
  rw [hsame, Bool.xor_self, decide_eq_true hodd] at hdiffer
  cases hdiffer

/-- Three bits, one in each byte. -/
theorem three_bits_detected :
    (construct (.replicate 256 0)).overChunks CRC_START_MODBUS [some [6], some [2, 8]] ≠
      (construct (.replicate 256 0)).overChunks CRC_START_MODBUS [some [7, 0x03], some [9]] :=
  odd_damage_detected _ CRC_START_MODBUS [some [7, 0x03], some [9]] [some [6], some [2, 8]]
    (by decide) (by decide)

/-- The bits of two bytes, the lower one first. -/
theorem messageBits_pair (lo hi : UInt8) :
    messageBits [lo, hi] = bits 16 (hi.toBitVec ++ lo.toBitVec) := by
  have hlo : bits 8 (hi.toBitVec ++ lo.toBitVec) = bits 8 lo.toBitVec := by
    refine bits_congr fun i hi' => ?_
    rw [BitVec.getLsbD_append, if_pos hi']
  have hhi : bits 8 ((hi.toBitVec ++ lo.toBitVec) >>> 8) = bits 8 hi.toBitVec := by
    refine bits_congr fun i _ => ?_
    rw [BitVec.getLsbD_ushiftRight, BitVec.getLsbD_append, if_neg (by omega),
      Nat.add_sub_cancel_left]
  rw [bits_add 8 8, hlo, hhi]
  simp [messageBits]

/-- **The trailer.**  A message is followed by two bytes, and the receiver computes the checksum
over everything that arrives: it is zero exactly when the two bytes are the checksum of what
is before them, the lower byte first. -/
theorem trailer_accepted_iff (memory : Vector (BitVec 16) 256) (start : BitVec 16)
    (data : List UInt8) (lo hi : UInt8) (chunks : List (Option (List UInt8)))
    (hchunks : message chunks = data ++ [lo, hi]) :
    (construct memory).overChunks start chunks = 0 ↔
      hi.toBitVec ++ lo.toBitVec =
        (construct memory).updateCrc16Buffer start (some data) data.length := by
  rw [overChunks_construct, onePass_construct, hchunks, bitSerial_eq, messageBits,
    List.flatMap_append, feeds_append]
  show feeds CRC_POLY_16 (bitSerial start data) (messageBits [lo, hi]) = 0#16 ↔ _
  rw [messageBits_pair]
  exact feeds_eq_zero_iff highest_bit_CRC_POLY_16 _ _

/-- Nine bytes and their checksum `0x4B37`, in three pieces. -/
theorem trailer_of_nine_bytes :
    (construct (.replicate 256 0)).overChunks CRC_START_MODBUS
      [some [0x31, 0x32, 0x33, 0x34], some [0x35, 0x36, 0x37, 0x38, 0x39, 0x37], some [0x4B]] = 0 :=
  (trailer_accepted_iff _ CRC_START_MODBUS [0x31, 0x32, 0x33, 0x34, 0x35, 0x36, 0x37, 0x38, 0x39]
    0x37 0x4B _ rfl).mpr (by rw [onePass_construct]; decide +kernel)

end Crc16

end Nbuss
