import Nbuss.ClientWrite
import Nbuss.Delivery

/-!
# A message to the echo server and back

A client writes a message on a blocking socket, all of it, and only then reads the answer; this is
what the clients of `listener_echo_server` do.  In between the bytes are in one of five places:
with the client, in the buffers towards the server, with the listener, in the buffers towards the
client, or with the client again.

The listener reads until nothing is there, 4096 bytes at a time, and writes each buffer that it
has got.  If a `write` returns `-1` because there is no room, it waits and writes the same buffer
again.  But if there is room for a part of the buffer, `write` returns the length of the part, and
the listener takes this for success: the rest of the buffer is gone.

The kernel is known by two numbers.  Towards the server it holds up to `capacity` bytes.  Towards
the client it never refuses bytes as long as fewer than `room` are unread; beyond that it may
refuse.  Then the message comes back, whatever the scheduling, exactly if it is not longer than
`room` (`echo_returns_iff`).  For a longer one there is an order of events in which the client
waits for ever.

Neither side closes, and no call fails for another reason than that it would block.  What the
listening thread does for other connections is left out, and so are reports without `EPOLLIN`,
which the listener does not act on.
-/

namespace Nbuss

namespace RoundTrip

open Transition EdgeTriggered

/-! ## The listener -/

/-- The `buffer_size` of `srv->read(listen_event.fd, 4096)`. -/
def bufferSize : ℕ := 4096

/-- Where `listener_echo_server` stands. -/
inductive Server where
  /-- Not called: the listening thread is in `epoll_wait`. -/
  | idle
  /-- In `srv->read`, with the answers of `::read` so far. -/
  | reading (answers : List ReadAnswer)
  /-- In `srv->write` for an item, with the answers of `::write` so far, and the items that come
  after it. -/
  | writing (item : List UInt8) (answers : List WriteAnswer) (items : List (List UInt8))
  /-- `terminate()` has been called. -/
  | terminated
  deriving DecidableEq, Repr

/-- The loop over the items. -/
def Server.next : List (List UInt8) → Server
  | [] => .idle
  | item :: items => .writing item [] items

/-- `_errno` after a `write` that has returned `-1`. -/
def errnoAfter (r : WriteResult) : Int :=
  match r.calls.getLast? with
  | some ⟨_, .failed errno⟩ => errno
  | _ => -1

/-- A `::write` of the item has been answered. -/
def Server.wrote (fd : ℕ) (item : List UInt8) (answers : List WriteAnswer)
    (items : List (List UInt8)) : Server :=
  match serverWrite fd item answers with
  | none => .writing item answers items
  | some r =>
    let res := toInt r.ret
    if 0 ≤ res then Server.next items
    else if res = -1 ∧ wouldBlock (errnoAfter r) then .writing item [] items
    else .terminated

/-! ## The system -/

structure Setup where
  fd : ℕ
  capacity : ℕ
  room : ℕ

structure Sys where
  /-- What the client has still to write. -/
  toSend : List UInt8
  forward : List UInt8 := []
  /-- Bytes have arrived since the last report. -/
  armed : Bool := false
  server : Server := .idle
  backward : List UInt8 := []
  /-- What the client has read. -/
  got : List UInt8 := []
  deriving DecidableEq, Repr

inductive Act where
  | clientWrite (k : ℕ)
  | report
  | read (a : ReadAnswer)
  | write (a : WriteAnswer)
  | clientRead (k : ℕ)
  deriving DecidableEq, Repr

def init (message : List UInt8) : Sys where
  toSend := message

/-- What the next `::write` of the item is called with. -/
def left (item : List UInt8) (answers : List WriteAnswer) : List UInt8 :=
  item.drop (answers.map WriteAnswer.count).sum

/-- What a `::read` may answer: bytes as long as there are any. -/
def Readable (forward : List UInt8) : ReadAnswer → Prop
  | .got bytes => bytes ≠ [] ∧ bytes.length ≤ bufferSize ∧ forward.take bytes.length = bytes
  | .failed errno => errno = EAGAIN ∧ forward = []

/-- What a `::write` may answer. -/
def Writable (room : ℕ) (left backward : List UInt8) : WriteAnswer → Prop
  | .wrote k => k ≤ left.length ∧ (left ≠ [] → 1 ≤ k)
  | .failed errno => errno = EAGAIN ∧ room ≤ backward.length

instance (forward : List UInt8) : (a : ReadAnswer) → Decidable (Readable forward a)
  | .got _ => inferInstanceAs (Decidable (_ ∧ _ ∧ _))
  | .failed _ => inferInstanceAs (Decidable (_ ∧ _))

instance (room : ℕ) (left backward : List UInt8) :
    (a : WriteAnswer) → Decidable (Writable room left backward a)
  | .wrote _ => inferInstanceAs (Decidable (_ ∧ _))
  | .failed _ => inferInstanceAs (Decidable (_ ∧ _))

def step (cfg : Setup) (s : Sys) : Act → Option Sys
  | .clientWrite k =>
    if 1 ≤ k ∧ k ≤ s.toSend.length ∧ s.forward.length + k ≤ cfg.capacity then
      some { s with
        toSend := s.toSend.drop k
        forward := s.forward ++ s.toSend.take k
        armed := true }
    else none
  | .report =>
    if s.server = .idle ∧ s.armed = true then
      -- what is reported is what is there when `epoll_wait` looks
      some { s with armed := false, server := if s.forward = [] then .idle else .reading [] }
    else none
  | .read a =>
    match s.server with
    | .reading answers =>
      if Readable s.forward a then
        some { s with
          forward := s.forward.drop a.bytes.length
          server :=
            match Nbuss.read bufferSize (answers ++ [a]) 0 with
            | none => .reading (answers ++ [a])
            | some r => Server.next r.result }
      else none
    | _ => none
  | .write a =>
    match s.server with
    | .writing item answers items =>
      if Writable cfg.room (left item answers) s.backward a then
        some { s with
          backward := s.backward ++ (left item answers).take a.count
          server := Server.wrote cfg.fd item (answers ++ [a]) items }
      else none
    | _ => none
  | .clientRead k =>
    if s.toSend = [] ∧ 1 ≤ k ∧ k ≤ s.backward.length then
      some { s with backward := s.backward.drop k, got := s.got ++ s.backward.take k }
    else none

/-! ## Where the bytes are -/

/-- What the listener has read and not yet written. -/
def Server.held : Server → List UInt8
  | .idle | .terminated => []
  | .reading answers => answers.flatMap ReadAnswer.bytes
  | .writing item answers items => left item answers ++ items.flatten

/-- All that the client has got or can still get, in order. -/
def Sys.flow (s : Sys) : List UInt8 :=
  s.got ++ s.backward ++ s.server.held ++ s.forward ++ s.toSend

/-- The kernel has taken a part of `m` bytes, again and again, and never all that was left. -/
def Parts : ℕ → List WriteAnswer → Prop
  | _, [] => True
  | m, .wrote k :: answers => 0 < k ∧ k < m ∧ Parts (m - k) answers
  | _, .failed _ :: _ => False

def Server.isReading : Server → Bool
  | .reading _ => true
  | _ => false

@[simp] theorem held_reading (answers : List ReadAnswer) :
    (Server.reading answers).held = answers.flatMap ReadAnswer.bytes := rfl

@[simp] theorem held_writing (item : List UInt8) (answers : List WriteAnswer)
    (items : List (List UInt8)) :
    (Server.writing item answers items).held = left item answers ++ items.flatten := rfl

@[simp] theorem isReading_reading (answers : List ReadAnswer) :
    (Server.reading answers).isReading = true := rfl

@[simp] theorem isReading_writing (item : List UInt8) (answers : List WriteAnswer)
    (items : List (List UInt8)) : (Server.writing item answers items).isReading = false := rfl

/-- A buffer as `read` returns it. -/
def Buffer (item : List UInt8) : Prop := item ≠ [] ∧ item.length ≤ bufferSize

/-- What can be said of the listener at any time. -/
def Server.Valid : Server → Prop
  | .idle => True
  | .reading answers => Chunks bufferSize answers
  | .writing item answers items =>
    Buffer item ∧ Parts item.length answers ∧ ∀ item ∈ items, Buffer item
  | .terminated => False

/-! ## One `::write` -/

theorem Parts.sum_lt : ∀ {m : ℕ} {answers : List WriteAnswer}, 0 < m → Parts m answers →
    (answers.map WriteAnswer.count).sum < m
  | _, [], hm, _ => hm
  | _, .wrote k :: answers, _, ⟨_, hlt, hrest⟩ => by
    have h := Parts.sum_lt (Nat.sub_pos_of_lt hlt) hrest
    rw [List.map_cons, List.sum_cons, WriteAnswer.count]
    omega

theorem Parts.concat : ∀ {m k : ℕ} {answers : List WriteAnswer}, Parts m answers → 0 < k →
    (answers.map WriteAnswer.count).sum + k < m → Parts m (answers ++ [.wrote k])
  | _, _, [], _, hk, hlt => ⟨hk, by simpa using hlt, trivial⟩
  | _, _, .wrote j :: answers, ⟨hj, hlt, hrest⟩, hk, hsum => by
    rw [List.map_cons, List.sum_cons, WriteAnswer.count] at hsum
    exact ⟨hj, hlt, Parts.concat hrest hk (by omega)⟩

theorem Parts.eq_nil_of_sum {m : ℕ} {answers : List WriteAnswer} (h : Parts m answers)
    (hsum : (answers.map WriteAnswer.count).sum = 0) : answers = [] := by
  match answers, h with
  | [], _ => rfl
  | .wrote k :: answers, h =>
    rw [List.map_cons, List.sum_cons, WriteAnswer.count] at hsum
    have hpos := h.1
    omega

/-- The loop of `write` after the parts that the kernel has taken. -/
theorem writeLoop_parts : ∀ {answers : List WriteAnswer} {data : List UInt8} (p : ℕ)
    (more : List WriteAnswer), Parts data.length answers →
    ∃ calls, writeLoop (answers ++ more) p data =
      (writeLoop more (p + (answers.map WriteAnswer.count).sum) (left data answers)).map fun e =>
        { e with calls := calls ++ e.calls }
  | [], data, p, more, _ => ⟨[], by simp [left]⟩
  | .wrote k :: answers, data, p, more, ⟨hk, hlt, hrest⟩ => by
    rw [← List.length_drop] at hrest
    obtain ⟨calls, hcalls⟩ := writeLoop_parts (p + k) more hrest
    refine ⟨⟨data, .wrote k⟩ :: calls, ?_⟩
    have hleft : left (data.drop k) answers = left data (.wrote k :: answers) := by
      simp only [left, List.map_cons, List.sum_cons, WriteAnswer.count, List.drop_drop]
    rw [List.cons_append, writeLoop, if_pos ⟨hk, hlt⟩, hcalls, hleft, Option.map_map, List.map_cons,
      List.sum_cons, WriteAnswer.count, ← Nat.add_assoc]
    rfl

theorem toInt_natCast {n : ℕ} (h : n ≤ bufferSize) : toInt n = n := by
  rw [bufferSize] at h
  rw [toInt, Int.bmod_def]
  split_ifs <;> omega

/-- What the listener makes of an answer. -/
inductive Answered (room : ℕ) (item : List UInt8) (answers : List WriteAnswer)
    (items : List (List UInt8)) (backward : List UInt8) : WriteAnswer → Server → Prop
  | part {k : ℕ} (hk : 0 < k) (hlt : k < (left item answers).length) :
      Answered room item answers items backward (.wrote k)
        (.writing item (answers ++ [.wrote k]) items)
  | all : Answered room item answers items backward (.wrote (left item answers).length)
      (Server.next items)
  | again (hnone : answers = []) (hroom : room ≤ backward.length) :
      Answered room item answers items backward (.failed EAGAIN) (.writing item [] items)
  /-- The rest of the item is dropped. -/
  | cut (hsome : answers ≠ []) (hroom : room ≤ backward.length) :
      Answered room item answers items backward (.failed EAGAIN) (Server.next items)

theorem answered (fd : ℕ) (items : List (List UInt8)) {room : ℕ} {item : List UInt8}
    {answers : List WriteAnswer} {backward : List UInt8} {a : WriteAnswer} (hitem : Buffer item)
    (hparts : Parts item.length answers) (ha : Writable room (left item answers) backward a) :
    Answered room item answers items backward a (Server.wrote fd item (answers ++ [a]) items) := by
  have hpos : 0 < item.length := List.length_pos_iff.mpr hitem.1
  have hsum := hparts.sum_lt hpos
  have hlen : (left item answers).length = item.length - (answers.map WriteAnswer.count).sum :=
    List.length_drop
  have hmax : ((answers.map WriteAnswer.count).sum : ℕ) ≤ bufferSize := hsum.le.trans hitem.2
  have hfd : ¬ (fd : Int) = -1 := by omega
  obtain ⟨calls, hloop⟩ := writeLoop_parts 0 [a] hparts
  cases a with
  | wrote k =>
    have hk : 1 ≤ k := ha.2 fun hnil => by rw [hnil, List.length_nil] at hlen; omega
    by_cases hlt : k < (left item answers).length
    · have hmore : serverWrite fd item (answers ++ [.wrote k]) = none := by
        rw [serverWrite, if_neg hfd, hloop, writeLoop, if_pos ⟨hk, hlt⟩]
        rfl
      rw [Server.wrote, hmore]
      exact .part hk hlt
    · have hall : k = (left item answers).length := le_antisymm ha.1 (not_lt.mp hlt)
      have hdone : ∃ r, serverWrite fd item (answers ++ [.wrote k]) = some r ∧
          r.ret = (item.length : Int) := by
        rw [serverWrite, if_neg hfd, hloop, writeLoop, if_neg fun h => hlt h.2]
        refine ⟨_, rfl, ?_⟩
        simp only [LoopEnd.ret, if_pos (show 0 < k from hk)]
        omega
      obtain ⟨r, hr, hret⟩ := hdone
      rw [Server.wrote, hr]
      simp only [hret, toInt_natCast hitem.2, if_pos (Int.natCast_nonneg item.length)]
      rw [hall]
      exact .all
  | failed errno =>
    obtain ⟨rfl, hroom⟩ := ha
    by_cases hnone : answers = []
    · subst hnone
      have hr : serverWrite fd item ([] ++ [.failed EAGAIN]) =
          some ⟨-1, [⟨item, .failed EAGAIN⟩], []⟩ := by
        rw [serverWrite, if_neg hfd]
        rfl
      rw [Server.wrote, hr]
      exact .again rfl hroom
    · have hret : ∃ r, serverWrite fd item (answers ++ [.failed EAGAIN]) = some r ∧
          r.ret = ((answers.map WriteAnswer.count).sum : Int) := by
        have hsent : 0 < (answers.map WriteAnswer.count).sum :=
          Nat.pos_of_ne_zero fun h => hnone (hparts.eq_nil_of_sum h)
        rw [serverWrite, if_neg hfd, hloop, writeLoop]
        refine ⟨_, rfl, ?_⟩
        simp [LoopEnd.ret, hsent]
      obtain ⟨r, hr, hret⟩ := hret
      rw [Server.wrote, hr]
      simp only [hret, toInt_natCast hmax, if_pos (Int.natCast_nonneg _)]
      exact .cut hnone hroom

/-! ## One `::read` -/

theorem held_next (items : List (List UInt8)) : (Server.next items).held = items.flatten := by
  cases items <;> rfl

theorem isReading_next (items : List (List UInt8)) : (Server.next items).isReading = false := by
  cases items <;> rfl

theorem valid_next {items : List (List UInt8)} (h : ∀ item ∈ items, Buffer item) :
    (Server.next items).Valid := by
  cases items with
  | nil => trivial
  | cons item items => exact ⟨h item List.mem_cons_self, trivial, fun i hi => h i (.tail _ hi)⟩

theorem Readable.answers {forward : List UInt8} {a : ReadAnswer} (h : Readable forward a) :
    Answers bufferSize forward a := by
  cases a with
  | got bytes => exact ⟨by decide, h.2.1, h.2.2, fun hnil => absurd hnil h.1⟩
  | failed errno => exact .inl h.2

/-- `read` goes on as long as it gets bytes, and then returns what it has got. -/
theorem read_answered {answers : List ReadAnswer} (h : Chunks bufferSize answers)
    {forward : List UInt8} {a : ReadAnswer} (ha : Readable forward a) :
    a.bytes ≠ [] ∧ Chunks bufferSize (answers ++ [a]) ∧
        Nbuss.read bufferSize (answers ++ [a]) 0 = none ∨
      a.bytes = [] ∧ forward = [] ∧ ∃ r, Nbuss.read bufferSize (answers ++ [a]) 0 = some r ∧
        (∀ item ∈ r.result, Buffer item) ∧
        r.result.flatten = answers.flatMap ReadAnswer.bytes := by
  cases a with
  | got bytes =>
    have hends : (ReadAnswer.got bytes).ends = false := by simpa [ReadAnswer.ends] using ha.1
    have hchunks := h.concat ha.answers hends
    exact .inl ⟨ha.1, hchunks, read_eq_none_of_chunks hchunks⟩
  | failed errno =>
    obtain ⟨rfl, hempty⟩ := ha
    obtain ⟨chunks, rfl, hsizes⟩ := h
    obtain ⟨calls, -, hread⟩ := read_chunks (by decide) hsizes
      (show (ReadAnswer.failed EAGAIN).ends = true from rfl) 0
    have hleft : leftOver bufferSize (.failed EAGAIN) = [] := rfl
    rw [hleft, List.append_nil] at hread
    refine .inr ⟨rfl, hempty, _, hread, fun item hitem => ?_, ?_⟩
    · obtain ⟨hpos, hmax⟩ := hsizes item hitem
      exact ⟨List.length_pos_iff.mp hpos, hmax⟩
    · rw [List.flatMap_map]
      exact List.flatMap_id.symm

/-! ## Every step brings the bytes nearer to the client -/

def Sys.stepsLeft (s : Sys) : ℕ :=
  6 * s.toSend.length + 3 * s.forward.length + 2 * s.server.held.length + s.backward.length +
    2 * s.armed.toNat + s.server.isReading.toNat

/-- What is there to read will be read. -/
structure Sound (s : Sys) : Prop where
  valid : s.server.Valid
  watched : s.server.isReading = false → s.forward ≠ [] → s.armed = true

/-- Nothing is lost and a step is done, or the kernel has refused what the listener has. -/
def Flows (cfg : Setup) (s t : Sys) : Prop :=
  t.flow = s.flow ∧ t.stepsLeft < s.stepsLeft ∨
    cfg.room ≤ s.backward.length ∧ s.server.held ≠ [] ∧ t.flow.length ≤ s.flow.length

variable {cfg : Setup} {s t : Sys}

theorem flows_clientWrite {k : ℕ} (hs : step cfg s (.clientWrite k) = some t) : Flows cfg s t := by
  simp only [step] at hs
  split_ifs at hs with hk
  cases hs
  refine .inl ⟨?_, ?_⟩
  · simp only [Sys.flow, List.append_assoc, List.take_append_drop]
  · simp only [Sys.stepsLeft, List.length_append, List.length_take, List.length_drop,
      Bool.toNat_true]
    have hone := Bool.toNat_le s.armed
    omega

theorem flows_report (hs : step cfg s .report = some t) : Flows cfg s t := by
  simp only [step] at hs
  split_ifs at hs with hidle hempty <;> cases hs
  all_goals
    refine .inl ⟨?_, ?_⟩
    · simp [Sys.flow, hidle.1, Server.held]
    · simp [Sys.stepsLeft, hidle.1, hidle.2, Server.held, Server.isReading]

theorem flows_clientRead {k : ℕ} (hs : step cfg s (.clientRead k) = some t) : Flows cfg s t := by
  simp only [step] at hs
  split_ifs at hs with hk
  cases hs
  refine .inl ⟨?_, ?_⟩
  · simp only [Sys.flow, List.append_assoc]
    rw [← List.append_assoc (s.backward.take k), List.take_append_drop]
  · simp only [Sys.stepsLeft, List.length_drop]
    omega

theorem sound_read {a : ReadAnswer} (h : Sound s) (hs : step cfg s (.read a) = some t) :
    Sound t ∧ Flows cfg s t := by
  simp only [step] at hs
  split at hs
  case h_2 => cases hs
  case h_1 answers hserver =>
    have hvalid := h.valid
    rw [hserver] at hvalid
    have hheld : s.server.held = answers.flatMap ReadAnswer.bytes := by rw [hserver]; rfl
    have hreading : s.server.isReading = true := by rw [hserver]; rfl
    split_ifs at hs with ha
    cases hs
    have hforward := ha.answers.bytes_append_drop
    have hlen : a.bytes.length + (s.forward.drop a.bytes.length).length = s.forward.length := by
      rw [← List.length_append, hforward]
    rcases read_answered hvalid ha with
      ⟨hne, hchunks, hread⟩ | ⟨hnil, hempty, r, hread, hbuffers, hresult⟩
    · have hpos : 0 < a.bytes.length := List.length_pos_iff.mpr hne
      simp only [hread]
      refine ⟨⟨hchunks, nofun⟩, .inl ⟨?_, ?_⟩⟩
      · simp only [Sys.flow, hheld, held_reading, List.flatMap_append, List.flatMap_singleton,
          List.append_assoc]
        rw [← List.append_assoc a.bytes, hforward]
      · simp only [Sys.stepsLeft, hheld, hreading, held_reading, isReading_reading,
          List.flatMap_append, List.flatMap_singleton, List.length_append]
        omega
    · simp only [hread, hnil, hempty]
      refine ⟨⟨valid_next hbuffers, fun _ hne => absurd rfl hne⟩, .inl ⟨?_, ?_⟩⟩
      · simp only [Sys.flow, hheld, held_next, hresult, hempty, List.drop_nil]
      · simp only [Sys.stepsLeft, hheld, held_next, hresult, hempty, hreading, isReading_next,
          List.drop_nil, Bool.toNat_true, Bool.toNat_false]
        omega

/-- What has been taken off the item is on its way back. -/
theorem take_append_left (item : List UInt8) (answers : List WriteAnswer) (k : ℕ) :
    (left item answers).take k ++ left item (answers ++ [.wrote k]) = left item answers := by
  simp only [left, List.map_append, List.sum_append, List.map_cons, List.map_nil, List.sum_cons,
    List.sum_nil, WriteAnswer.count, Nat.add_zero]
  rw [← List.drop_drop, List.take_append_drop]

theorem sound_write {a : WriteAnswer} (h : Sound s) (hs : step cfg s (.write a) = some t) :
    Sound t ∧ Flows cfg s t := by
  simp only [step] at hs
  split at hs
  case h_2 => cases hs
  case h_1 item answers items hserver =>
    have hvalid := h.valid
    rw [hserver] at hvalid
    obtain ⟨hitem, hparts, hitems⟩ := hvalid
    have hreading : s.server.isReading = false := by rw [hserver]; rfl
    have hwatched := h.watched hreading
    split_ifs at hs with ha
    cases hs
    have hleft : left item answers ≠ [] := by
      intro hnil
      have hlen := congrArg List.length hnil
      have hsum := hparts.sum_lt (List.length_pos_iff.mpr hitem.1)
      rw [left, List.length_drop, List.length_nil] at hlen
      omega
    have hheld : s.server.held = left item answers ++ items.flatten := by rw [hserver]; rfl
    have hanswered := answered cfg.fd items hitem hparts ha
    generalize Server.wrote cfg.fd item (answers ++ [a]) items = server at hanswered ⊢
    cases hanswered with
    | @part k hk hlt =>
      have hsplit := take_append_left item answers k
      have hlen := congrArg List.length hsplit
      rw [List.length_append, List.length_take] at hlen
      have hsum := congrArg List.length hheld
      refine ⟨⟨⟨hitem, hparts.concat hk ?_, hitems⟩, fun _ => hwatched⟩, .inl ⟨?_, ?_⟩⟩
      · rw [left, List.length_drop] at hlt
        omega
      · simp only [Sys.flow, hheld, held_writing, WriteAnswer.count, List.append_assoc]
        rw [← List.append_assoc ((left item answers).take k), hsplit]
      · simp only [Sys.stepsLeft, hheld, hreading, held_writing, isReading_writing,
          WriteAnswer.count, List.length_append, List.length_take]
        omega
    | all =>
      have hpos : 0 < (left item answers).length := List.length_pos_iff.mpr hleft
      refine ⟨⟨valid_next hitems, fun _ => hwatched⟩, .inl ⟨?_, ?_⟩⟩
      · simp only [Sys.flow, hheld, held_next, WriteAnswer.count, List.take_length,
          List.append_assoc]
      · simp only [Sys.stepsLeft, hheld, hreading, held_next, isReading_next, WriteAnswer.count,
          List.take_length, List.length_append]
        omega
    | again hnone hroom =>
      subst hnone
      refine ⟨⟨⟨hitem, trivial, hitems⟩, fun _ => hwatched⟩, .inr ⟨hroom, ?_, ?_⟩⟩
      · rw [hheld]
        exact List.append_ne_nil_of_left_ne_nil hleft _
      · simp [Sys.flow, hheld, held_writing, WriteAnswer.count]
    | cut hsome hroom =>
      refine ⟨⟨valid_next hitems, fun _ => hwatched⟩, .inr ⟨hroom, ?_, ?_⟩⟩
      · rw [hheld]
        exact List.append_ne_nil_of_left_ne_nil hleft _
      · simp only [Sys.flow, hheld, held_next, WriteAnswer.count, List.take_zero, List.append_nil,
          List.length_append]
        omega

theorem Sound.step {a : Act} (h : Sound s) (hs : step cfg s a = some t) :
    Sound t ∧ Flows cfg s t := by
  cases a with
  | clientWrite k =>
    refine ⟨?_, flows_clientWrite hs⟩
    simp only [RoundTrip.step] at hs
    split_ifs at hs
    cases hs
    exact ⟨h.valid, fun _ _ => rfl⟩
  | report =>
    refine ⟨?_, flows_report hs⟩
    simp only [RoundTrip.step] at hs
    split_ifs at hs with hidle hempty <;> cases hs
    · exact ⟨trivial, fun _ hne => absurd hempty hne⟩
    · exact ⟨⟨[], rfl, by simp⟩, nofun⟩
  | read a => exact sound_read h hs
  | write a => exact sound_write h hs
  | clientRead k =>
    refine ⟨?_, flows_clientRead hs⟩
    simp only [RoundTrip.step] at hs
    split_ifs at hs
    cases hs
    exact ⟨h.valid, h.watched⟩

/-! ## A message that fits -/

theorem length_flow (s : Sys) : s.flow.length = s.got.length + s.backward.length +
    s.server.held.length + s.forward.length + s.toSend.length := by
  simp only [Sys.flow, List.length_append]

/-- The kernel does not refuse what cannot be more than `room` bytes. -/
theorem Flows.of_room (h : Flows cfg s t) (hroom : s.flow.length ≤ cfg.room) :
    t.flow = s.flow ∧ t.stepsLeft < s.stepsLeft := by
  refine h.resolve_right ?_
  rintro ⟨hfull, hheld, -⟩
  have hpos : 0 < s.server.held.length := List.length_pos_iff.mpr hheld
  rw [length_flow] at hroom
  omega

theorem Flows.length_le (h : Flows cfg s t) : t.flow.length ≤ s.flow.length := by
  rcases h with ⟨hflow, -⟩ | ⟨-, -, hle⟩
  · rw [hflow]
  · exact hle

theorem sound_init (message : List UInt8) : Sound (init message) where
  valid := trivial
  watched _ hne := absurd rfl hne

theorem flow_init (message : List UInt8) : (init message).flow = message := rfl

/-- Somebody can go on until the client has got everything. -/
theorem can_go_on (cfg : Setup) (h : Sound s) (hcap : 1 ≤ cfg.capacity) (hgot : s.got ≠ s.flow) :
    ∃ a, (step cfg s a).isSome = true := by
  have hvalid := h.valid
  cases hserver : s.server with
  | terminated =>
    rw [hserver] at hvalid
    exact hvalid.elim
  | reading answers =>
    cases hforward : s.forward with
    | nil =>
      refine ⟨.read (.failed EAGAIN), ?_⟩
      have hread : Readable s.forward (.failed EAGAIN) := ⟨rfl, hforward⟩
      simp only [step, hserver, if_pos hread, Option.isSome_some]
    | cons b bytes =>
      refine ⟨.read (.got [b]), ?_⟩
      have hread : Readable s.forward (.got [b]) :=
        ⟨by simp, by simp [bufferSize], by rw [hforward]; rfl⟩
      simp only [step, hserver, if_pos hread, Option.isSome_some]
  | writing item answers items =>
    rw [hserver] at hvalid
    have hlt := hvalid.2.1.sum_lt (List.length_pos_iff.mpr hvalid.1.1)
    have hwrite : Writable cfg.room (left item answers) s.backward (.wrote 1) := by
      refine ⟨?_, fun _ => le_rfl⟩
      rw [left, List.length_drop]
      omega
    refine ⟨.write (.wrote 1), ?_⟩
    simp only [step, hserver, if_pos hwrite, Option.isSome_some]
  | idle =>
    by_cases hforward : s.forward = []
    · cases htoSend : s.toSend with
      | cons b bytes =>
        refine ⟨.clientWrite 1, ?_⟩
        simp only [step]
        rw [if_pos]
        · rfl
        · rw [htoSend, hforward]
          exact ⟨le_rfl, Nat.succ_le_succ (Nat.zero_le _), hcap⟩
      | nil =>
        cases hbackward : s.backward with
        | cons b bytes =>
          refine ⟨.clientRead 1, ?_⟩
          simp only [step]
          rw [if_pos]
          · rfl
          · rw [hbackward]
            exact ⟨htoSend, le_rfl, Nat.succ_le_succ (Nat.zero_le _)⟩
        | nil =>
          refine absurd ?_ hgot
          simp [Sys.flow, hbackward, hserver, hforward, htoSend, Server.held]
    · refine ⟨.report, ?_⟩
      simp only [step]
      rw [if_pos ⟨hserver, h.watched (by rw [hserver]; rfl) hforward⟩]
      rfl

/-- However far the exchange has come, it can be brought to its end. -/
theorem can_complete {message : List UInt8} (hcap : 1 ≤ cfg.capacity)
    (hroom : message.length ≤ cfg.room) (h : Sound s) (hflow : s.flow = message) :
    ∃ acts t, run (step cfg) s acts = some t ∧ t.got = message := by
  -- by induction on the steps that are left
  induction hsteps : s.stepsLeft using Nat.strong_induction_on generalizing s with
  | _ n ih =>
    by_cases hgot : s.got = s.flow
    · exact ⟨[], s, rfl, hgot.trans hflow⟩
    · obtain ⟨a, ha⟩ := can_go_on cfg h hcap hgot
      obtain ⟨t, ht⟩ := Option.isSome_iff_exists.mp ha
      obtain ⟨hsound, hflows⟩ := h.step ht
      obtain ⟨hkeep, hless⟩ := hflows.of_room (hflow ▸ hroom)
      obtain ⟨acts, u, hrun, hu⟩ :=
        ih t.stepsLeft (hsteps ▸ hless) hsound (hkeep.trans hflow) rfl
      exact ⟨a :: acts, u, by rw [run_cons, ht]; exact hrun, hu⟩

/-- The run of a message that fits: nothing is lost, and each step is one of few. -/
theorem fits {message : List UInt8} (hroom : message.length ≤ cfg.room) {acts : List Act}
    (hrun : run (step cfg) (init message) acts = some s) :
    (Sound s ∧ s.flow = message) ∧ acts.length ≤ 6 * message.length := by
  have hkeep : ∀ s a t, (Sound s ∧ s.flow = message) → step cfg s a = some t →
      (Sound t ∧ t.flow = message) := by
    rintro s a t ⟨h, hflow⟩ ht
    obtain ⟨hsound, hflows⟩ := h.step ht
    exact ⟨hsound, (hflows.of_room (hflow ▸ hroom)).1.trans hflow⟩
  have hstart : Sound (init message) ∧ (init message).flow = message :=
    ⟨sound_init message, flow_init message⟩
  refine ⟨invariant_of_run hkeep hstart hrun, ?_⟩
  have hcount : s.stepsLeft + acts.countP (fun _ => true) ≤ (init message).stepsLeft :=
    rank_add_countP_le (p := fun _ => true) hkeep
      (fun _ _ _ h ht _ => ((h.1.step ht).2.of_room (h.2 ▸ hroom)).2)
      (fun _ _ _ _ _ h => (by cases h)) hstart hrun
  have hinit : (init message).stepsLeft = 6 * message.length := rfl
  rw [List.countP_true] at hcount
  omega

/-! ## A message that is too long -/

theorem step_read_got (cfg : Setup) {answers : List ReadAnswer}
    (hserver : s.server = .reading answers) (hchunks : Chunks bufferSize answers)
    {bytes : List UInt8} (hread : Readable s.forward (.got bytes)) :
    Chunks bufferSize (answers ++ [.got bytes]) ∧
      step cfg s (.read (.got bytes)) = some { s with
        forward := s.forward.drop bytes.length
        server := .reading (answers ++ [.got bytes]) } := by
  rcases read_answered hchunks hread with ⟨-, hmore, hnone⟩ | ⟨hnil, -⟩
  · refine ⟨hmore, ?_⟩
    simp only [step, hserver, if_pos hread, hnone]
    rfl
  · exact absurd hnil hread.1

theorem step_read_none (cfg : Setup) {chunks : List (List UInt8)}
    (hserver : s.server = .reading (chunks.map .got))
    (hsizes : ∀ b ∈ chunks, 1 ≤ b.length ∧ b.length ≤ bufferSize) (hempty : s.forward = []) :
    step cfg s (.read (.failed EAGAIN)) = some { s with server := Server.next chunks } := by
  have hread : Readable s.forward (.failed EAGAIN) := ⟨rfl, hempty⟩
  obtain ⟨calls, -, hresult⟩ := read_chunks (by decide) hsizes
    (show (ReadAnswer.failed EAGAIN).ends = true from rfl) 0
  simp only [step, hserver, if_pos hread, hresult, leftOver]
  simp [ReadAnswer.bytes, ReadAnswer.hard, ReadAnswer.blocks]

theorem step_write_all (cfg : Setup) {item : List UInt8} {items : List (List UInt8)}
    (hserver : s.server = .writing item [] items) (hitem : Buffer item) :
    step cfg s (.write (.wrote item.length)) =
      some { s with backward := s.backward ++ item, server := Server.next items } := by
  have hparts : Parts item.length [] := trivial
  have hwrite : Writable cfg.room (left item []) s.backward (.wrote item.length) :=
    ⟨le_rfl, fun hne => List.length_pos_iff.mpr hne⟩
  have hnext : Server.wrote cfg.fd item ([] ++ [.wrote item.length]) items = Server.next items := by
    have hanswered := answered cfg.fd items hitem hparts hwrite
    generalize Server.wrote cfg.fd item ([] ++ [.wrote item.length]) items = server at hanswered ⊢
    cases hanswered with
    | part hk hlt => exact absurd hlt (lt_irrefl _)
    | all => rfl
  have htake : (left item []).take (WriteAnswer.wrote item.length).count = item := List.take_length
  simp only [step, hserver, if_pos hwrite, hnext, htake]

/-- The listener reads, the next byte has arrived, and the rest is still with the client. -/
def feed (armed : Bool) (message : List UInt8) (answers : List ReadAnswer) : Sys where
  toSend := message.drop 1
  forward := message.take 1
  armed := armed
  server := .reading answers

/-- The bytes come one by one, each in time for `read` to go on. -/
theorem run_feed (hcap : 1 ≤ cfg.capacity) (x : UInt8) (rest pre : List UInt8) (armed : Bool)
    {answers : List ReadAnswer} (hchunks : Chunks bufferSize answers) :
    ∃ acts armed', Chunks bufferSize (answers ++ pre.map fun b => .got [b]) ∧
      run (step cfg) (feed armed (pre ++ x :: rest) answers) acts =
        some (feed armed' (x :: rest) (answers ++ pre.map fun b => .got [b])) := by
  induction pre generalizing armed answers with
  | nil => exact ⟨[], armed, by simpa using hchunks, by simp⟩
  | cons b pre ih =>
    have hb : Readable (feed armed (b :: pre ++ x :: rest) answers).forward (.got [b]) :=
      ⟨by simp, by simp [bufferSize], rfl⟩
    obtain ⟨hmore, hread⟩ := step_read_got cfg rfl hchunks hb
    obtain ⟨acts, armed', hchunks', hrun⟩ := ih true hmore
    refine ⟨.read (.got [b]) :: .clientWrite 1 :: acts, armed', by simpa using hchunks', ?_⟩
    have hwrite : 1 ≤ 1 ∧ 1 ≤ (pre ++ x :: rest).length ∧ 0 + 1 ≤ cfg.capacity := by
      refine ⟨le_rfl, ?_, hcap⟩
      rw [List.length_append, List.length_cons]
      omega
    have hnext : step cfg { feed armed (b :: pre ++ x :: rest) answers with
        forward := []
        server := .reading (answers ++ [.got [b]]) } (.clientWrite 1) =
          some (feed true (pre ++ x :: rest) (answers ++ [.got [b]])) := if_pos hwrite
    rw [List.append_assoc] at hrun
    exact run_cons_eq_some.mpr ⟨_, hread, run_cons_eq_some.mpr ⟨_, hnext, hrun⟩⟩

/-- Single bytes are written one by one. -/
theorem run_writes (cfg : Setup) (pre : List UInt8) (items : List (List UInt8)) {s : Sys}
    (hserver : s.server = Server.next ((pre.map fun b => [b]) ++ items)) :
    run (step cfg) s (pre.map fun _ => .write (.wrote 1)) =
      some { s with backward := s.backward ++ pre, server := Server.next items } := by
  induction pre generalizing s with
  | nil =>
    rw [List.map_nil, List.nil_append] at hserver
    rw [List.map_nil, run_nil, List.append_nil, ← hserver]
  | cons b pre ih =>
    have hfirst := step_write_all cfg hserver ⟨by simp, by simp [bufferSize]⟩
    refine run_cons_eq_some.mpr ⟨_, hfirst, ?_⟩
    rw [ih rfl, List.append_assoc]
    rfl

/-- The last buffer is cut in two by the end of the room. -/
theorem run_cut (x y : UInt8) {s : Sys} (hserver : s.server = .writing [x, y] [] [])
    (hroom : cfg.room ≤ s.backward.length + 1) :
    run (step cfg) s [.write (.wrote 1), .write (.failed EAGAIN)] =
      some { s with backward := s.backward ++ [x], server := .idle } := by
  have hitem : Buffer [x, y] := ⟨by simp, by simp [bufferSize]⟩
  have hnone : Parts [x, y].length [] := trivial
  have hone : Parts [x, y].length [.wrote 1] := ⟨by decide, by simp, trivial⟩
  have hwrite : Writable cfg.room (left [x, y] []) s.backward (.wrote 1) :=
    ⟨by simp [left], fun _ => le_rfl⟩
  have hfull : Writable cfg.room (left [x, y] [.wrote 1]) (s.backward ++ [x]) (.failed EAGAIN) :=
    ⟨rfl, by rw [List.length_append]; exact hroom⟩
  have hpart : Server.wrote cfg.fd [x, y] ([] ++ [.wrote 1]) [] =
      .writing [x, y] [.wrote 1] [] := by
    have hanswered := answered cfg.fd [] hitem hnone hwrite
    generalize Server.wrote cfg.fd [x, y] ([] ++ [.wrote 1]) [] = server at hanswered ⊢
    cases hanswered with
    | part => rfl
  have hcut : Server.wrote cfg.fd [x, y] ([.wrote 1] ++ [.failed EAGAIN]) [] = .idle := by
    have hanswered := answered cfg.fd [] hitem hone hfull
    generalize Server.wrote cfg.fd [x, y] ([.wrote 1] ++ [.failed EAGAIN]) [] = server
      at hanswered ⊢
    cases hanswered with
    | again hnil => cases hnil
    | cut => rfl
  refine run_cons_eq_some.mpr ⟨{ s with
    backward := s.backward ++ [x]
    server := .writing [x, y] [.wrote 1] [] }, ?_, ?_⟩
  · simp only [step, hserver, if_pos hwrite, hpart]
    rfl
  · rw [run_singleton]
    simp only [step, if_pos hfull, hcut, WriteAnswer.count, List.take_zero, List.append_nil]

/-- The first byte arrives and the listener is called. -/
theorem run_begin (hcap : 1 ≤ cfg.capacity) {message : List UInt8} (hne : message ≠ []) :
    run (step cfg) (init message) [.clientWrite 1, .report] = some (feed false message []) := by
  have hwrite : 1 ≤ 1 ∧ 1 ≤ message.length ∧ 0 + 1 ≤ cfg.capacity :=
    ⟨le_rfl, List.length_pos_iff.mpr hne, hcap⟩
  cases message with
  | nil => exact absurd rfl hne
  | cons b bytes =>
    refine run_cons_eq_some.mpr
      ⟨{ feed true (b :: bytes) [] with server := .idle }, if_pos hwrite, ?_⟩
    rfl

/-- The last buffer has two bytes, and nothing comes after it. -/
theorem run_last (hcap : 2 ≤ cfg.capacity) (x y : UInt8) (rest : List UInt8) (armed : Bool)
    {chunks : List (List UInt8)} (hsizes : ∀ b ∈ chunks, 1 ≤ b.length ∧ b.length ≤ bufferSize) :
    run (step cfg) (feed armed (x :: y :: rest) (chunks.map .got))
        [.clientWrite 1, .read (.got [x, y]), .read (.failed EAGAIN)] =
      some { init rest with armed := true, server := Server.next (chunks ++ [[x, y]]) } := by
  have hwrite : 1 ≤ 1 ∧ 1 ≤ (y :: rest).length ∧ 1 + 1 ≤ cfg.capacity :=
    ⟨le_rfl, Nat.succ_le_succ (Nat.zero_le _), hcap⟩
  have hread : Readable [x, y] (.got [x, y]) := ⟨by simp, by simp [bufferSize], rfl⟩
  have hsizes' : ∀ b ∈ chunks ++ [[x, y]], 1 ≤ b.length ∧ b.length ≤ bufferSize := by
    intro b hb
    rcases List.mem_append.mp hb with hb | hb
    · exact hsizes b hb
    · rw [List.mem_singleton.mp hb]
      exact ⟨by simp, by simp [bufferSize]⟩
  refine run_cons_eq_some.mpr ⟨{ init rest with
    forward := [x, y]
    armed := true
    server := .reading (chunks.map .got) }, if_pos hwrite, ?_⟩
  refine run_cons_eq_some.mpr ⟨_, (step_read_got cfg rfl ⟨chunks, rfl, hsizes⟩ hread).2, ?_⟩
  rw [run_singleton]
  have hserver : chunks.map ReadAnswer.got ++ [.got [x, y]] = (chunks ++ [[x, y]]).map .got := by
    rw [List.map_append]
    rfl
  exact step_read_none cfg (congrArg Server.reading hserver) hsizes' rfl

/-- There is an order of events in which a message that is longer than `room` does not come
back. -/
theorem loses (hcap : 2 ≤ cfg.capacity) (hroom : 1 ≤ cfg.room) {message : List UInt8}
    (hlong : cfg.room < message.length) :
    ∃ acts s, run (step cfg) (init message) acts = some s ∧ s.flow.length < message.length := by
  obtain ⟨pre, x, y, rest, hpre, rfl⟩ : ∃ pre x y rest, pre.length + 1 = cfg.room ∧
      message = pre ++ x :: y :: rest := by
    match hdrop : message.drop (cfg.room - 1) with
    | [] | [_] =>
      have hlen := congrArg List.length hdrop
      simp at hlen
      omega
    | x :: y :: rest =>
      refine ⟨message.take (cfg.room - 1), x, y, rest, ?_, ?_⟩
      · rw [List.length_take]
        omega
      · rw [← hdrop, List.take_append_drop]
  have hcap' : 1 ≤ cfg.capacity := by omega
  have hne : pre ++ x :: y :: rest ≠ [] := by simp
  obtain ⟨acts, armed, -, hfeed⟩ := run_feed hcap' x (y :: rest) pre false
    (show Chunks bufferSize [] from ⟨[], rfl, by simp⟩)
  have hsingle : [] ++ (pre.map fun b => ReadAnswer.got [b]) =
      (pre.map fun b => [b]).map ReadAnswer.got := by
    rw [List.nil_append, List.map_map]
    rfl
  rw [hsingle] at hfeed
  have hsizes : ∀ b ∈ pre.map fun b => [b], 1 ≤ b.length ∧ b.length ≤ bufferSize := by
    intro b hb
    obtain ⟨c, -, rfl⟩ := List.mem_map.mp hb
    exact ⟨le_rfl, by simp [bufferSize]⟩
  have hwrites := run_append_of_eq_some (m := [.write (.wrote 1), .write (.failed EAGAIN)])
    (run_writes cfg pre [[x, y]]
      (s := { init rest with armed := true, server := Server.next (_ ++ [[x, y]]) }) rfl)
  have hcut := hwrites.trans (run_cut x y rfl (by simp [init, hpre]))
  have hrun := (run_append_of_eq_some (run_begin hcap' hne)).trans
    ((run_append_of_eq_some hfeed).trans
      ((run_append_of_eq_some (run_last hcap x y rest armed hsizes)).trans hcut))
  exact ⟨_, _, hrun, by simp [Sys.flow, init, Server.held]⟩

/-- **Round trip.**  From every state that an exchange can come to it can be brought to its end,
exactly if the message is not longer than `room`.  If it is not, the exchange also comes to its
end by itself: after at most six steps for each byte nothing can be done any more, and then the
client has got the message. -/
theorem echo_returns_iff (cfg : Setup) (hcap : 2 ≤ cfg.capacity) (hroom : 1 ≤ cfg.room)
    (message : List UInt8) :
    ((∀ acts s, run (step cfg) (init message) acts = some s →
        ∃ more t, run (step cfg) s more = some t ∧ t.got = message) ↔
      message.length ≤ cfg.room) ∧
    (message.length ≤ cfg.room → ∀ acts s, run (step cfg) (init message) acts = some s →
      acts.length ≤ 6 * message.length ∧ ((∀ a, step cfg s a = none) → s.got = message)) := by
  have hcap' : 1 ≤ cfg.capacity := by omega
  refine ⟨⟨fun hall => ?_, fun hfits acts s hrun => ?_⟩, fun hfits acts s hrun => ?_⟩
  · by_contra hlong
    obtain ⟨acts, s, hrun, hless⟩ := loses hcap hroom (not_le.mp hlong)
    obtain ⟨more, t, hmore, hgot⟩ := hall acts s hrun
    have hsound : Sound s := invariant_of_run (fun _ _ _ h hs => (h.step hs).1)
      (sound_init message) hrun
    -- what is lost does not come back
    have hle : Sound t ∧ t.flow.length ≤ s.flow.length :=
      invariant_of_run (I := fun u => Sound u ∧ u.flow.length ≤ s.flow.length)
        (fun _ _ _ h hs => ⟨(h.1.step hs).1, (h.1.step hs).2.length_le.trans h.2⟩)
        ⟨hsound, le_rfl⟩ hmore
    have hlen := length_flow t
    rw [hgot] at hlen
    omega
  · obtain ⟨⟨hsound, hflow⟩, -⟩ := fits hfits hrun
    exact can_complete hcap' hfits hsound hflow
  · obtain ⟨⟨hsound, hflow⟩, hsteps⟩ := fits hfits hrun
    refine ⟨hsteps, fun hstuck => ?_⟩
    by_contra hgot
    obtain ⟨a, ha⟩ := can_go_on cfg hsound hcap' (hflow.symm ▸ hgot)
    rw [hstuck a] at ha
    cases ha

/-- With room for three bytes, three bytes come back and four may not. -/
theorem three_bytes_return :
    (∀ acts s, run (step ⟨7, 2, 3⟩) (init [1, 2, 3]) acts = some s →
      ∃ more t, run (step ⟨7, 2, 3⟩) s more = some t ∧ t.got = [1, 2, 3]) ∧
    ¬ ∀ acts s, run (step ⟨7, 2, 3⟩) (init [1, 2, 3, 4]) acts = some s →
      ∃ more t, run (step ⟨7, 2, 3⟩) s more = some t ∧ t.got = [1, 2, 3, 4] :=
  ⟨(echo_returns_iff ⟨7, 2, 3⟩ (by decide) (by decide) [1, 2, 3]).1.mpr (by decide),
    fun hall => absurd
      ((echo_returns_iff ⟨7, 2, 3⟩ (by decide) (by decide) [1, 2, 3, 4]).1.mp hall) (by decide)⟩

end RoundTrip

end Nbuss
