import Mathlib.Data.List.Nodup
import Mathlib.Data.List.Range
import Mathlib.Logic.Function.Basic
import Nbuss.WorkQueue

/-!
# The hand-over through the work queue

Between `producer_callback` and the user callback an event passes through the deque and
through the hand of a consumer.  `WorkQueue::close` does not take the events of its
descriptor out of the deque: it marks them, and the consumer that pops a marked item
throws it away.

Every critical section of `deque_mutex` is one step here: the push, the pop (the consumer
has found the deque not empty), and the marking loop.  The test of `process` and the call
of the user callback come after the unlock and are a step of their own.  The marking loop
may run at any moment, on behalf of a consumer that is inside the user callback or of
somebody else.

Items can be equal, so each carries the number of the call of `producer_callback` that
made it.  The numbers, the list of pops, the list of calls of the user callback and the
list of marking loops are the history; no step looks at them.

This is the queue alone.  The system of `WorkQueue`, in which the listening thread feeds the
queue and the user callback closes connections, simulates it (`Mirrors`), so what is
proved here is true of the events of a server too (`queue_of_server`).
-/

namespace Nbuss

namespace HandOver

open Transition

/-- `WorkQueue::Item`, with the number of the call that pushed it. -/
structure Item where
  serial : ℕ
  fd : ℤ
  job : Job
  process : Bool := true
  deriving DecidableEq, Repr

/-- Where a consumer stands. -/
inductive Pc where
  | idle
  /-- The item has been popped; `process` has not been tested. -/
  | popped (i : Item)
  /-- In the user callback. -/
  | calling (i : Item)
  deriving DecidableEq, Repr

/-- The item in the consumer's hand. -/
def Pc.item : Pc → Option Item
  | .idle => none
  | .popped i | .calling i => some i

/-- The item in the consumer's hand has not been tested. -/
def Pc.untested : Pc → Option Item
  | .popped i => some i
  | _ => none

/-- The item in the consumer's hand for which the user callback is still to be called. -/
def Pc.due (p : Pc) : List ℕ :=
  match p.untested with
  | some i => if i.process then [i.serial] else []
  | none => []

/-- A call of the user callback. -/
structure Start (ι : Type*) where
  consumer : ι
  serial : ℕ
  fd : ℤ
  job : Job
  deriving DecidableEq, Repr

/-- A marking loop, with the items it found in the deque. -/
structure Marking where
  fd : ℤ
  queued : List ℕ
  deriving DecidableEq, Repr

/-- The deque read from its back to its front, the consumers, and the history. -/
structure Sys (ι : Type*) where
  deque : List Item := []
  consumers : ι → Pc := fun _ => .idle
  /-- The events given to `producer_callback`. -/
  produced : List (ℤ × Job) := []
  popped : List (ι × ℕ) := []
  started : List (Start ι) := []
  markings : List Marking := []

variable {ι : Type*}

/-- The marking loop of `WorkQueue::close`. -/
def mark (fd : ℤ) (deque : List Item) : List Item :=
  deque.map fun i => if i.fd = fd then { i with process := false } else i

/-- The descriptor of event `n`. -/
def Sys.fdOf (s : Sys ι) (n : ℕ) : Option ℤ := s.produced[n]?.map Prod.fst

/-- A marking loop for the descriptor of event `n` has found it in the deque. -/
def Sys.suppressed (s : Sys ι) (n : ℕ) : Bool :=
  s.markings.any fun m => decide (n ∈ m.queued) && decide (s.fdOf n = some m.fd)

inductive Act (ι : Type*) where
  | produce (fd : ℤ) (job : Job)
  | pop (t : ι)
  /-- The test of `process`, and the call of the user callback. -/
  | test (t : ι)
  /-- The user callback returns. -/
  | ret (t : ι)
  /-- `WorkQueue::close`, which may be called by anybody. -/
  | close (fd : ℤ)
  deriving DecidableEq, Repr

def init (ι : Type*) : Sys ι := {}

section Step

variable [DecidableEq ι]

def Sys.moveTo (s : Sys ι) (t : ι) (p : Pc) : Sys ι :=
  { s with consumers := Function.update s.consumers t p }

def step (s : Sys ι) : Act ι → Option (Sys ι)
  | .produce fd job =>
    some { s with
      deque := s.deque ++ [⟨s.produced.length, fd, job, true⟩]
      produced := s.produced ++ [(fd, job)] }
  | .pop t =>
    match s.consumers t, s.deque with
    | .idle, i :: rest =>
      some { s.moveTo t (.popped i) with
        deque := rest
        popped := s.popped ++ [(t, i.serial)] }
    | _, _ => none
  | .test t =>
    match s.consumers t with
    | .popped i =>
      if i.process then
        some { s.moveTo t (.calling i) with
          started := s.started ++ [⟨t, i.serial, i.fd, i.job⟩] }
      else some (s.moveTo t .idle)
    | _ => none
  | .ret t =>
    match s.consumers t with
    | .calling _ => some (s.moveTo t .idle)
    | _ => none
  | .close fd =>
    some { s with
      deque := mark fd s.deque
      markings := s.markings ++ [⟨fd, s.deque.map Item.serial⟩] }

/-- What a step does. -/
inductive Step (s : Sys ι) : Act ι → Sys ι → Prop
  | produce (fd : ℤ) (job : Job) : Step s (.produce fd job)
      { s with
        deque := s.deque ++ [⟨s.produced.length, fd, job, true⟩]
        produced := s.produced ++ [(fd, job)] }
  | pop {t : ι} {i : Item} {rest : List Item} (hidle : s.consumers t = .idle)
      (hdeque : s.deque = i :: rest) : Step s (.pop t)
      { s.moveTo t (.popped i) with
        deque := rest
        popped := s.popped ++ [(t, i.serial)] }
  | start {t : ι} {i : Item} (hheld : s.consumers t = .popped i) (hprocess : i.process = true) :
      Step s (.test t)
      { s.moveTo t (.calling i) with started := s.started ++ [⟨t, i.serial, i.fd, i.job⟩] }
  | drop {t : ι} {i : Item} (hheld : s.consumers t = .popped i) (hprocess : i.process = false) :
      Step s (.test t) (s.moveTo t .idle)
  | ret {t : ι} {i : Item} (hheld : s.consumers t = .calling i) : Step s (.ret t) (s.moveTo t .idle)
  | close (fd : ℤ) : Step s (.close fd)
      { s with
        deque := mark fd s.deque
        markings := s.markings ++ [⟨fd, s.deque.map Item.serial⟩] }

theorem Step.of_step {s s' : Sys ι} {a : Act ι} (h : step s a = some s') : Step s a s' := by
  unfold step at h
  split at h
  · cases h
    exact .produce ..
  · split at h
    · next hidle hdeque =>
      cases h
      exact .pop hidle hdeque
    · cases h
  · split at h
    · next hheld =>
      split_ifs at h with hprocess <;> cases h
      · exact .start hheld hprocess
      · exact .drop hheld (by simpa using hprocess)
    · cases h
  · split at h
    · next hheld =>
      cases h
      exact .ret hheld
    · cases h
  · cases h
    exact .close ..

end Step

/-! ## What has been handed over -/

/-- The calls of the user callback for event `n`. -/
def Sys.startsOf (s : Sys ι) (n : ℕ) : List (Start ι) := s.started.filter fun x => x.serial = n

/-- The event waits, marked or not, in the deque or in the hand of a consumer that has
not tested it. -/
def Sys.Waiting (s : Sys ι) (i : Item) : Prop :=
  i ∈ s.deque ∨ ∃ t, (s.consumers t).untested = some i

/-- Event `n`, popped by `t`, is not to be started, or not yet. -/
def Sys.Withheld (s : Sys ι) (t : ι) (n : ℕ) : Prop :=
  s.suppressed n = true ∨ ∃ i, (s.consumers t).untested = some i ∧ i.serial = n

structure HandedOver (s : Sys ι) : Prop where
  /-- The popped events and then the queued ones are all the events, in the order in
  which they were produced and each of them once. -/
  order : s.popped.map Prod.snd ++ s.deque.map Item.serial = List.range s.produced.length
  queued : ∀ i ∈ s.deque, s.produced[i.serial]? = some (i.fd, i.job)
  /-- A popped event that its consumer has tested. -/
  tested : ∀ t n, (t, n) ∈ s.popped → (∀ i ∈ (s.consumers t).untested, i.serial ≠ n) →
    ∃ fd job, s.produced[n]? = some (fd, job) ∧
      s.startsOf n = if s.suppressed n then [] else [⟨t, n, fd, job⟩]
  suppressed : ∀ n, s.suppressed n = true → s.startsOf n = []
  /-- With one consumer the user callbacks come in the order of production. -/
  sequence : ∀ t, (∀ u, u = t) → s.started.map Start.serial ++ (s.consumers t).due =
    (s.popped.map Prod.snd).filter fun n => !s.suppressed n

structure Inv (s : Sys ι) : Prop where
  order : s.popped.map Prod.snd ++ s.deque.map Item.serial = List.range s.produced.length
  marked : ∀ m ∈ s.markings, ∀ n ∈ m.queued, n < s.produced.length
  names : ∀ i, s.Waiting i → s.produced[i.serial]? = some (i.fd, i.job)
  process : ∀ i, s.Waiting i → i.process = !s.suppressed i.serial
  held : ∀ t i, (s.consumers t).untested = some i → (t, i.serial) ∈ s.popped
  started : ∀ x ∈ s.started,
    (x.consumer, x.serial) ∈ s.popped ∧ s.produced[x.serial]? = some (x.fd, x.job)
  withheld : ∀ t n, (t, n) ∈ s.popped → s.Withheld t n → s.startsOf n = []
  given : ∀ t n, (t, n) ∈ s.popped → ¬ s.Withheld t n → (s.startsOf n).length = 1
  sequence : ∀ t, (∀ u, u = t) → s.started.map Start.serial ++ (s.consumers t).due =
    (s.popped.map Prod.snd).filter fun n => !s.suppressed n

theorem inv_init : Inv (init ι) where
  order := rfl
  marked m hm := by cases hm
  names i hi := by
    rcases hi with hi | ⟨t, ht⟩
    · cases hi
    · cases ht
  process i hi := by
    rcases hi with hi | ⟨t, ht⟩
    · cases hi
    · cases ht
  held t i h := by cases h
  started x hx := by cases hx
  withheld t n h := by cases h
  given t n h := by cases h
  sequence t _ := rfl

section Facts

variable {s : Sys ι}

theorem Inv.nodup (h : Inv s) : (s.popped.map Prod.snd ++ s.deque.map Item.serial).Nodup := by
  rw [h.order]
  exact List.nodup_range

theorem Inv.popped_lt (h : Inv s) {t : ι} {n : ℕ} (hn : (t, n) ∈ s.popped) :
    n < s.produced.length := by
  have hmem : n ∈ s.popped.map Prod.snd ++ s.deque.map Item.serial :=
    List.mem_append_left _ (List.mem_map.mpr ⟨(t, n), hn, rfl⟩)
  rw [h.order] at hmem
  exact List.mem_range.mp hmem

theorem Inv.waiting_lt (h : Inv s) {i : Item} (hi : s.Waiting i) : i.serial < s.produced.length :=
  (List.getElem?_eq_some_iff.mp (h.names i hi)).1

/-- A popped event is not in the deque. -/
theorem Inv.popped_notMem (h : Inv s) {t : ι} {n : ℕ} (hn : (t, n) ∈ s.popped) :
    n ∉ s.deque.map Item.serial := by
  intro hq
  exact (List.nodup_append.mp h.nodup).2.2 n (List.mem_map.mpr ⟨(t, n), hn, rfl⟩) n hq rfl

/-- No event is popped by two consumers. -/
theorem Inv.popped_unique (h : Inv s) {t u : ι} {n : ℕ} (ht : (t, n) ∈ s.popped)
    (hu : (u, n) ∈ s.popped) : t = u := by
  have hnodup : (s.popped.map Prod.snd).Nodup := (List.nodup_append.mp h.nodup).1
  exact congrArg Prod.fst (List.inj_on_of_nodup_map hnodup ht hu rfl)

/-- An event that nobody has popped has not been started. -/
theorem Inv.startsOf_queued (h : Inv s) {n : ℕ} (hn : n ∈ s.deque.map Item.serial) :
    s.startsOf n = [] := by
  refine List.filter_eq_nil_iff.mpr fun x hx hxn => ?_
  have hpopped : (x.consumer, n) ∈ s.popped := by
    rw [← of_decide_eq_true hxn]
    exact (h.started x hx).1
  exact h.popped_notMem hpopped hn

theorem Inv.handedOver (h : Inv s) : HandedOver s where
  order := h.order
  queued i hi := h.names i (.inl hi)
  tested t n hn huntested := by
    have hlt := h.popped_lt hn
    refine ⟨s.produced[n].1, s.produced[n].2, List.getElem?_eq_getElem hlt, ?_⟩
    cases hsup : s.suppressed n with
    | true => exact h.withheld t n hn (.inl hsup)
    | false =>
      have hgiven : ¬ s.Withheld t n := by
        rintro (hsup' | ⟨i, hi, hin⟩)
        · rw [hsup] at hsup'
          cases hsup'
        · exact huntested i hi hin
      obtain ⟨x, hx⟩ := List.length_eq_one_iff.mp (h.given t n hn hgiven)
      have hmem : x ∈ s.startsOf n := by
        rw [hx]
        exact List.mem_singleton_self x
      obtain ⟨hstarted, hserial⟩ := List.mem_filter.mp hmem
      have hserial : x.serial = n := of_decide_eq_true hserial
      obtain ⟨hpopped, hevent⟩ := h.started x hstarted
      rw [hserial] at hpopped hevent
      have hfields := Option.some_inj.mp ((List.getElem?_eq_getElem hlt).symm.trans hevent)
      have hconsumer : x.consumer = t := h.popped_unique hpopped hn
      rw [hx, hfields, if_neg (by simp), ← hserial, ← hconsumer]
  suppressed n hsup := by
    by_contra hne
    obtain ⟨x, hx⟩ := List.exists_mem_of_ne_nil _ hne
    obtain ⟨hstarted, hserial⟩ := List.mem_filter.mp hx
    have hpopped := (h.started x hstarted).1
    rw [of_decide_eq_true hserial] at hpopped
    exact hne (h.withheld _ n hpopped (.inl hsup))
  sequence := h.sequence

end Facts

/-! ## Suppression along a step -/

section Suppression

variable {s : Sys ι}

theorem suppressed_eq_true {n : ℕ} :
    s.suppressed n = true ↔ ∃ m ∈ s.markings, n ∈ m.queued ∧ s.fdOf n = some m.fd := by
  simp [Sys.suppressed, List.any_eq_true]

theorem Inv.suppressed_lt (h : Inv s) {n : ℕ} (hn : s.suppressed n = true) :
    n < s.produced.length := by
  obtain ⟨m, hm, hq, -⟩ := suppressed_eq_true.mp hn
  exact h.marked m hm n hq

/-- A new event changes nothing for the events before it. -/
theorem Inv.suppressed_produce (h : Inv s) (deque : List Item) (e : ℤ × Job) (n : ℕ) :
    Sys.suppressed { s with deque := deque, produced := s.produced ++ [e] } n = s.suppressed n := by
  rw [Bool.eq_iff_iff, suppressed_eq_true, suppressed_eq_true]
  refine exists_congr fun m => and_congr_right fun hm => and_congr_right fun hq => ?_
  rw [Sys.fdOf, List.getElem?_append_left (h.marked m hm n hq), ← Sys.fdOf]

/-- A marking loop suppresses the queued events of its descriptor and no others. -/
theorem suppressed_close (fd : ℤ) (deque : List Item) (n : ℕ) :
    Sys.suppressed { s with
      deque := deque
      markings := s.markings ++ [⟨fd, s.deque.map Item.serial⟩] } n = true ↔
      s.suppressed n = true ∨ n ∈ s.deque.map Item.serial ∧ s.fdOf n = some fd := by
  rw [suppressed_eq_true, suppressed_eq_true]
  simp only [List.mem_append, List.mem_singleton, Sys.fdOf]
  constructor
  · rintro ⟨m, hm | rfl, hq, hfd⟩
    · exact .inl ⟨m, hm, hq, hfd⟩
    · exact .inr ⟨hq, hfd⟩
  · rintro (⟨m, hm, hq, hfd⟩ | ⟨hq, hfd⟩)
    · exact ⟨m, .inl hm, hq, hfd⟩
    · exact ⟨_, .inr rfl, hq, hfd⟩

/-- What has been popped is out of reach of the marking loop. -/
theorem Inv.suppressed_close_popped (h : Inv s) {t : ι} {n : ℕ} (hn : (t, n) ∈ s.popped) (fd : ℤ)
    (deque : List Item) :
    Sys.suppressed { s with
      deque := deque
      markings := s.markings ++ [⟨fd, s.deque.map Item.serial⟩] } n = s.suppressed n := by
  rw [Bool.eq_iff_iff, suppressed_close, or_iff_left]
  exact fun hq => h.popped_notMem hn hq.1

end Suppression

/-! ## One step -/

section Steps

variable {s : Sys ι}

theorem Inv.produce (h : Inv s) (fd : ℤ) (job : Job) :
    Inv { s with
      deque := s.deque ++ [⟨s.produced.length, fd, job, true⟩]
      produced := s.produced ++ [(fd, job)] } := by
  have hsup := h.suppressed_produce (s.deque ++ [⟨s.produced.length, fd, job, true⟩]) (fd, job)
  -- whoever waits afterwards has waited before or is the new item
  have hwaiting : ∀ i, Sys.Waiting { s with
      deque := s.deque ++ [⟨s.produced.length, fd, job, true⟩]
      produced := s.produced ++ [(fd, job)] } i →
      s.Waiting i ∨ i = ⟨s.produced.length, fd, job, true⟩ := by
    rintro i (hi | hi)
    · rcases List.mem_append.mp hi with hi | hi
      · exact .inl (.inl hi)
      · exact .inr (List.mem_singleton.mp hi)
    · exact .inl (.inr hi)
  have hold : ∀ n < s.produced.length, (s.produced ++ [(fd, job)])[n]? = s.produced[n]? :=
    fun n hn => List.getElem?_append_left hn
  refine ⟨?_, fun m hm n hn => ?_, fun i hi => ?_, fun i hi => ?_, h.held, fun x hx => ?_,
    fun t n hn => ?_, fun t n hn => ?_, fun t ht => ?_⟩
  · show s.popped.map Prod.snd ++ (s.deque ++ [_]).map Item.serial = _
    rw [List.map_append, ← List.append_assoc, h.order, List.length_append, List.length_singleton,
      List.range_succ]
    rfl
  · show n < (s.produced ++ [(fd, job)]).length
    rw [List.length_append]
    exact Nat.lt_add_right _ (h.marked m hm n hn)
  · rcases hwaiting i hi with hi | rfl
    · exact (hold _ (h.waiting_lt hi)).trans (h.names i hi)
    · exact List.getElem?_concat_length
  · rw [hsup]
    rcases hwaiting i hi with hi | rfl
    · exact h.process i hi
    · cases hnew : s.suppressed s.produced.length with
      | false => rfl
      | true => exact absurd (h.suppressed_lt hnew) (Nat.lt_irrefl _)
  · obtain ⟨hpopped, hevent⟩ := h.started x hx
    exact ⟨hpopped, (hold _ (h.popped_lt hpopped)).trans hevent⟩
  · rw [Sys.Withheld, hsup]
    exact h.withheld t n hn
  · rw [Sys.Withheld, hsup]
    exact h.given t n hn
  · simp only [hsup]
    exact h.sequence t ht

theorem Inv.close (h : Inv s) (fd : ℤ) :
    Inv { s with
      deque := mark fd s.deque
      markings := s.markings ++ [⟨fd, s.deque.map Item.serial⟩] } := by
  have hserials : (mark fd s.deque).map Item.serial = s.deque.map Item.serial := by
    rw [mark, List.map_map]
    refine List.map_congr_left fun i _ => ?_
    show (if i.fd = fd then { i with process := false } else i).serial = i.serial
    split_ifs <;> rfl
  have hpopped : ∀ t n, (t, n) ∈ s.popped → _ :=
    fun t n hn => h.suppressed_close_popped hn fd (mark fd s.deque)
  refine ⟨?_, fun m hm n hn => ?_, fun i hi => ?_, fun i hi => ?_, h.held, h.started,
    fun t n hn => ?_, fun t n hn => ?_, fun t ht => ?_⟩
  · show s.popped.map Prod.snd ++ (mark fd s.deque).map Item.serial = _
    rw [hserials]
    exact h.order
  · rcases List.mem_append.mp hm with hm | hm
    · exact h.marked m hm n hn
    · rw [List.mem_singleton.mp hm] at hn
      obtain ⟨i, hi, rfl⟩ := List.mem_map.mp hn
      exact h.waiting_lt (.inl hi)
  · rcases hi with hi | hi
    · obtain ⟨j, hj, rfl⟩ := List.mem_map.mp hi
      have hnames := h.names j (.inl hj)
      split_ifs <;> exact hnames
    · exact h.names i (.inr hi)
  · rcases hi with hi | ⟨t, ht⟩
    · obtain ⟨j, hj, rfl⟩ := List.mem_map.mp hi
      have hfdOf : s.fdOf j.serial = some j.fd := by
        rw [Sys.fdOf, h.names j (.inl hj)]
        rfl
      have hqueued : j.serial ∈ s.deque.map Item.serial := List.mem_map.mpr ⟨j, hj, rfl⟩
      split_ifs with hfd
      · have hsup := (suppressed_close (s := s) fd (mark fd s.deque) j.serial).mpr
          (.inr ⟨hqueued, by rw [hfdOf, hfd]⟩)
        show false = _
        rw [hsup]
        rfl
      · have hsup := suppressed_close (s := s) fd (mark fd s.deque) j.serial
        rw [or_iff_left (by simp [hfdOf, hfd]), ← Bool.eq_iff_iff] at hsup
        rw [hsup]
        exact h.process j (.inl hj)
    · rw [hpopped t i.serial (h.held t i ht)]
      exact h.process i (.inr ⟨t, ht⟩)
  · rw [Sys.Withheld, hpopped t n hn]
    exact h.withheld t n hn
  · rw [Sys.Withheld, hpopped t n hn]
    exact h.given t n hn
  · refine (h.sequence t ht).trans (List.filter_congr fun n hn => ?_)
    obtain ⟨⟨u, m⟩, hmem, rfl⟩ := List.mem_map.mp hn
    rw [hpopped u m hmem]

variable [DecidableEq ι]

theorem untested_update (f : ι → Pc) (t u : ι) (p : Pc) :
    (Function.update f t p u).untested = if u = t then p.untested else (f u).untested := by
  by_cases hut : u = t
  · rw [hut, Function.update_self, if_pos rfl]
  · rw [Function.update_of_ne hut, if_neg hut]

theorem Inv.pop (h : Inv s) {t : ι} {i : Item} {rest : List Item} (hidle : s.consumers t = .idle)
    (hdeque : s.deque = i :: rest) :
    Inv { s.moveTo t (.popped i) with
      deque := rest
      popped := s.popped ++ [(t, i.serial)] } := by
  have hi : i ∈ s.deque := by
    rw [hdeque]
    exact List.mem_cons_self ..
  have hfresh : ∀ u n, (u, n) ∈ s.popped → i.serial ≠ n := by
    rintro u n hn rfl
    exact h.popped_notMem hn (List.mem_map.mpr ⟨i, hi, rfl⟩)
  have hwaiting : ∀ j, Sys.Waiting { s.moveTo t (.popped i) with
      deque := rest
      popped := s.popped ++ [(t, i.serial)] } j → s.Waiting j := by
    rintro j (hj | ⟨u, hu⟩)
    · exact .inl (hdeque ▸ List.mem_cons_of_mem i hj)
    · rw [Sys.moveTo, untested_update] at hu
      split_ifs at hu
      · cases hu
        exact .inl hi
      · exact .inr ⟨u, hu⟩
  -- the consumer of an event popped before is another one, or had nothing in hand
  have hsame : ∀ u n, (u, n) ∈ s.popped → (Sys.Withheld { s.moveTo t (.popped i) with
      deque := rest
      popped := s.popped ++ [(t, i.serial)] } u n ↔ s.Withheld u n) := by
    intro u n hn
    rw [Sys.Withheld, Sys.moveTo, untested_update]
    refine or_congr_right ?_
    split_ifs with hut
    · rw [hut, hidle]
      simp [Pc.untested, hfresh u n hn]
    · rfl
  refine ⟨?_, h.marked, fun j hj => h.names j (hwaiting j hj), fun j hj => h.process j (hwaiting j hj),
    fun u j hu => ?_, fun x hx => ?_, fun u n hn hw => ?_, fun u n hn hg => ?_, fun u hu => ?_⟩
  · show (s.popped ++ [(t, i.serial)]).map Prod.snd ++ rest.map Item.serial = _
    have horder := h.order
    rw [hdeque] at horder
    rw [List.map_append, List.append_assoc]
    exact horder
  · rw [Sys.moveTo, untested_update] at hu
    split_ifs at hu with hut
    · cases hu
      rw [hut]
      exact List.mem_append_right _ (List.mem_singleton_self _)
    · exact List.mem_append_left _ (h.held u j hu)
  · exact ⟨List.mem_append_left _ (h.started x hx).1, (h.started x hx).2⟩
  · rcases List.mem_append.mp hn with hn | hn
    · exact h.withheld u n hn ((hsame u n hn).mp hw)
    · cases List.mem_singleton.mp hn
      exact h.startsOf_queued (List.mem_map.mpr ⟨i, hi, rfl⟩)
  · rcases List.mem_append.mp hn with hn | hn
    · exact h.given u n hn fun hw => hg ((hsame u n hn).mpr hw)
    · cases List.mem_singleton.mp hn
      refine absurd (Or.inr ⟨i, ?_, rfl⟩) hg
      rw [Sys.moveTo, untested_update, if_pos rfl]
      rfl
  · have hseq := h.sequence u hu
    have hdue : (Function.update s.consumers t (Pc.popped i) u).due =
        if i.process then [i.serial] else [] := by
      rw [hu t, Function.update_self]
      rfl
    rw [← hu t, hidle] at hseq
    rw [← hu t] at hdue ⊢
    show s.started.map Start.serial ++ (Function.update s.consumers t (Pc.popped i) t).due =
      ((s.popped ++ [(t, i.serial)]).map Prod.snd).filter fun n => !s.suppressed n
    rw [hdue, List.map_append, List.filter_append, ← hseq, h.process i (.inl hi)]
    simp [Pc.due, Pc.untested, List.filter_cons]

/-- The consumer is through with the test of its item. -/
theorem Sys.Waiting.of_tested {j : Item} {t : ι} {p : Pc} (hp : p.untested = none)
    (hj : (s.moveTo t p).Waiting j) : s.Waiting j := by
  rcases hj with hj | ⟨u, hu⟩
  · exact .inl hj
  · rw [Sys.moveTo, untested_update] at hu
    split_ifs at hu
    · rw [hp] at hu
      cases hu
    · exact .inr ⟨u, hu⟩

/-- What the test of one item changes about the others. -/
theorem withheld_other {i : Item} {t u : ι} {p : Pc} {n : ℕ}
    (huntested : (s.consumers t).untested = some i) (hp : p.untested = none)
    (hin : i.serial ≠ n) : (s.moveTo t p).Withheld u n ↔ s.Withheld u n := by
  rw [Sys.Withheld, Sys.moveTo, untested_update]
  refine or_congr_right ?_
  split_ifs with hut
  · rw [hut, huntested, hp]
    simp [hin]
  · rfl

theorem withheld_tested {t : ι} {p : Pc} {n : ℕ} (hp : p.untested = none) :
    (s.moveTo t p).Withheld t n ↔ s.suppressed n = true := by
  rw [Sys.Withheld, Sys.moveTo, untested_update, if_pos rfl, hp]
  exact or_iff_left (by simp)

theorem Inv.start (h : Inv s) {t : ι} {i : Item} (hheld : s.consumers t = .popped i)
    (hprocess : i.process = true) :
    Inv { s.moveTo t (.calling i) with started := s.started ++ [⟨t, i.serial, i.fd, i.job⟩] } := by
  have huntested : (s.consumers t).untested = some i := by
    rw [hheld]
    rfl
  have hpopped : (t, i.serial) ∈ s.popped := h.held t i huntested
  have hwaiting : s.Waiting i := .inr ⟨t, huntested⟩
  have hsup : s.suppressed i.serial = false := by
    simpa [hprocess] using h.process i hwaiting
  have hsplit : ∀ n, Sys.startsOf { s.moveTo t (.calling i) with
      started := s.started ++ [⟨t, i.serial, i.fd, i.job⟩] } n =
      s.startsOf n ++ if i.serial = n then [⟨t, i.serial, i.fd, i.job⟩] else [] := by
    intro n
    rw [Sys.startsOf, List.filter_append, List.filter_singleton]
    simp [Sys.startsOf]
  have hother : ∀ n, i.serial ≠ n → Sys.startsOf { s.moveTo t (.calling i) with
      started := s.started ++ [⟨t, i.serial, i.fd, i.job⟩] } n = s.startsOf n := by
    intro n hin
    rw [hsplit, if_neg hin, List.append_nil]
  refine ⟨h.order, h.marked, fun j hj => h.names j (Sys.Waiting.of_tested rfl hj),
    fun j hj => h.process j (Sys.Waiting.of_tested rfl hj), fun u j hu => ?_, fun x hx => ?_,
    fun u n hn hw => ?_, fun u n hn hg => ?_, fun u hu => ?_⟩
  · rw [Sys.moveTo, untested_update] at hu
    split_ifs at hu
    · cases hu
    · exact h.held u j hu
  · rcases List.mem_append.mp hx with hx | hx
    · exact h.started x hx
    · rw [List.mem_singleton.mp hx]
      exact ⟨hpopped, h.names i hwaiting⟩
  · by_cases hin : i.serial = n
    · have hut : u = t := h.popped_unique hn (hin ▸ hpopped)
      have hsup' : s.suppressed n = true := (withheld_tested rfl).mp (hut ▸ hw)
      rw [← hin, hsup] at hsup'
      cases hsup'
    · rw [hother n hin]
      exact h.withheld u n hn ((withheld_other huntested rfl hin).mp hw)
  · by_cases hin : i.serial = n
    · have hnone : s.startsOf n = [] := h.withheld t n (hin ▸ hpopped) (.inr ⟨i, huntested, hin⟩)
      rw [hsplit, hnone]
      simp [hin]
    · rw [hother n hin]
      exact h.given u n hn fun hw => hg ((withheld_other huntested rfl hin).mpr hw)
  · have hseq := h.sequence u hu
    rw [← hu t, hheld] at hseq
    rw [← hu t]
    show (s.started ++ [_]).map Start.serial ++
      (Function.update s.consumers t (Pc.calling i) t).due =
        (s.popped.map Prod.snd).filter fun n => !s.suppressed n
    rw [Function.update_self, List.map_append]
    simpa [Pc.due, Pc.untested, hprocess] using hseq

theorem Inv.drop (h : Inv s) {t : ι} {i : Item} (hheld : s.consumers t = .popped i)
    (hprocess : i.process = false) : Inv (s.moveTo t .idle) := by
  have huntested : (s.consumers t).untested = some i := by
    rw [hheld]
    rfl
  have hpopped : (t, i.serial) ∈ s.popped := h.held t i huntested
  have hsup : s.suppressed i.serial = true := by
    simpa [hprocess] using h.process i (.inr ⟨t, huntested⟩)
  refine ⟨h.order, h.marked, fun j hj => h.names j (Sys.Waiting.of_tested rfl hj),
    fun j hj => h.process j (Sys.Waiting.of_tested rfl hj), fun u j hu => ?_, h.started,
    fun u n hn hw => ?_, fun u n hn hg => ?_, fun u hu => ?_⟩
  · rw [Sys.moveTo, untested_update] at hu
    split_ifs at hu
    · cases hu
    · exact h.held u j hu
  · by_cases hin : i.serial = n
    · have hut : u = t := h.popped_unique hn (hin ▸ hpopped)
      exact h.withheld u n hn (.inr ⟨i, hut ▸ huntested, hin⟩)
    · exact h.withheld u n hn ((withheld_other huntested rfl hin).mp hw)
  · by_cases hin : i.serial = n
    · exact absurd (Or.inl (hin ▸ hsup)) hg
    · exact h.given u n hn fun hw => hg ((withheld_other huntested rfl hin).mpr hw)
  · have hseq := h.sequence u hu
    rw [← hu t, hheld] at hseq
    rw [← hu t]
    show s.started.map Start.serial ++ (Function.update s.consumers t Pc.idle t).due =
      (s.popped.map Prod.snd).filter fun n => !s.suppressed n
    rw [Function.update_self]
    simpa [Pc.due, Pc.untested, hprocess] using hseq

theorem Inv.ret (h : Inv s) {t : ι} {i : Item} (hheld : s.consumers t = .calling i) :
    Inv (s.moveTo t .idle) := by
  have hsame : ∀ u, (Function.update s.consumers t Pc.idle u).untested = (s.consumers u).untested := by
    intro u
    rw [untested_update]
    split_ifs with hut
    · rw [hut, hheld]
      rfl
    · rfl
  refine ⟨h.order, h.marked, fun j hj => h.names j (Sys.Waiting.of_tested rfl hj),
    fun j hj => h.process j (Sys.Waiting.of_tested rfl hj), fun u j hu => ?_, h.started,
    fun u n hn => ?_, fun u n hn => ?_, fun u hu => ?_⟩
  · exact h.held u j ((hsame u).symm.trans hu)
  · rw [Sys.Withheld, Sys.moveTo, hsame]
    exact h.withheld u n hn
  · rw [Sys.Withheld, Sys.moveTo, hsame]
    exact h.given u n hn
  · rw [Sys.moveTo, Pc.due, hsame]
    exact h.sequence u hu

theorem Inv.step {s' : Sys ι} {a : Act ι} (h : Inv s) (hs : step s a = some s') : Inv s' := by
  cases Step.of_step hs with
  | produce fd job => exact h.produce fd job
  | pop hidle hdeque => exact h.pop hidle hdeque
  | start hheld hprocess => exact h.start hheld hprocess
  | drop hheld hprocess => exact h.drop hheld hprocess
  | ret hheld => exact h.ret hheld
  | close fd => exact h.close fd

end Steps

/-- An item of the server's queue, and the same item with its number. -/
structure SameItem (i : WorkQueue.Item) (j : Item) : Prop where
  fd : j.fd = i.fd
  job : j.job = i.job
  process : j.process = i.process

/-- A consumer of the server's queue is in the user callback, which may be closing a
connection. -/
def inCallback : WorkQueue.Pc → Bool
  | .calling _ | .marked _ | .removed _ | .closed _ => true
  | _ => false

/-- A consumer of the server's queue, and the same consumer here. -/
def SamePc : WorkQueue.Pc → Pc → Prop
  | .idle, .idle => True
  | .popped i, .popped j => SameItem i j
  | p, .calling _ => inCallback p = true
  | _, _ => False

/-- The server's queue, and the queue alone in the same state. -/
structure Mirrors (s : WorkQueue.Sys ι) (h : Sys ι) : Prop where
  deque : List.Forall₂ SameItem s.deque h.deque
  consumers : ∀ t, SamePc (s.consumers t) (h.consumers t)
  started : h.started.map (fun x => (x.fd, x.job)) =
    s.started.map fun p => ((p.1.fd : ℤ), p.1.job)

theorem mirrors_init (cfg : Listen.Setup) : Mirrors (WorkQueue.init ι cfg) (init ι) :=
  ⟨.nil, fun _ => trivial, rfl⟩

theorem forall₂_mark {deque : List WorkQueue.Item} {deque' : List Item} (fd : ℕ)
    (h : List.Forall₂ SameItem deque deque') :
    List.Forall₂ SameItem (WorkQueue.mark fd deque) (mark fd deque') := by
  refine List.forall₂_map_left_iff.mpr (List.forall₂_map_right_iff.mpr (h.imp fun i j hij => ?_))
  have hfd : j.fd = fd ↔ i.fd = fd := by
    rw [hij.fd, Int.natCast_inj]
  by_cases heq : i.fd = fd
  · rw [if_pos heq, if_pos (hfd.mpr heq)]
    exact ⟨hij.fd, hij.job, rfl⟩
  · rw [if_neg heq, if_neg (mt hfd.mp heq)]
    exact hij

section Simulation

variable [DecidableEq ι] {cfg : Listen.Setup} {s s' : WorkQueue.Sys ι} {h : Sys ι}

theorem samePc_update (hR : Mirrors s h) {t : ι} {p : WorkQueue.Pc} {q : Pc} (hpq : SamePc p q)
    (u : ι) : SamePc (Function.update s.consumers t p u) (Function.update h.consumers t q u) := by
  by_cases hut : u = t
  · rw [hut, Function.update_self, Function.update_self]
    exact hpq
  · rw [Function.update_of_ne hut, Function.update_of_ne hut]
    exact hR.consumers u

theorem samePc_idle {q : Pc} (hq : SamePc .idle q) : q = .idle := by
  cases q with
  | idle => rfl
  | popped _ | calling _ => cases hq

theorem samePc_popped {i : WorkQueue.Item} {q : Pc} (hq : SamePc (.popped i) q) :
    ∃ j, q = .popped j ∧ SameItem i j := by
  cases q with
  | popped j => exact ⟨j, rfl, hq⟩
  | idle | calling _ => cases hq

theorem samePc_calling {p : WorkQueue.Pc} {q : Pc} (hq : SamePc p q) (hp : inCallback p = true) :
    ∃ j, q = .calling j := by
  cases q with
  | calling j => exact ⟨j, rfl⟩
  | idle | popped j =>
    cases p with
    | idle | popped _ => cases hp
    | calling _ | marked _ | removed _ | closed _ => cases hq

/-- A consumer that goes on with its callback is where it was. -/
theorem samePc_stay (hR : Mirrors s h) {t : ι} {p : WorkQueue.Pc}
    (hbefore : inCallback (s.consumers t) = true) (hafter : inCallback p = true) (u : ι) :
    SamePc (Function.update s.consumers t p u) (h.consumers u) := by
  by_cases hut : u = t
  · obtain ⟨j, hj⟩ := samePc_calling (hR.consumers t) hbefore
    rw [hut, Function.update_self, hj]
    cases p <;> exact hafter
  · rw [Function.update_of_ne hut]
    exact hR.consumers u

/-- The listening thread pushes what it has for the queue, which is one item or none. -/
theorem Mirrors.produce (hR : Mirrors s h) {v : Listen.State} :
    ∃ m h', run step h m = some h' ∧
      Mirrors { s with server := v, deque := s.deque ++ s.coming } h' := by
  have hcoming : s.coming = [] ∨ ∃ fd job file, s.coming = [⟨fd, job, true, file⟩] := by
    unfold WorkQueue.Sys.coming
    split
    · unfold WorkQueue.produced
      split
      · exact .inr ⟨_, _, _, rfl⟩
      · exact .inl rfl
    · exact .inl rfl
  rcases hcoming with hnone | ⟨fd, job, file, hone⟩
  · refine ⟨[], h, rfl, ?_, hR.consumers, hR.started⟩
    rw [hnone, List.append_nil]
    exact hR.deque
  · refine ⟨[.produce fd job], _, rfl, ?_, hR.consumers, hR.started⟩
    rw [hone]
    exact List.rel_append hR.deque (.cons ⟨rfl, rfl, rfl⟩ .nil)

theorem Mirrors.pop (hR : Mirrors s h) {t : ι} {i : WorkQueue.Item} {rest : List WorkQueue.Item}
    (hidle : s.consumers t = .idle) (hdeque : s.deque = i :: rest) :
    ∃ m h', run step h m = some h' ∧ Mirrors { s.moveTo t (.popped i) with deque := rest } h' := by
  have hidle' : h.consumers t = .idle := samePc_idle (hidle ▸ hR.consumers t)
  have hsame := hR.deque
  rw [hdeque] at hsame
  obtain ⟨j, rest', hij, hrest, hdeque'⟩ := List.forall₂_cons_left_iff.mp hsame
  refine ⟨[.pop t], { h.moveTo t (.popped j) with
    deque := rest', popped := h.popped ++ [(t, j.serial)] }, ?_, hrest, samePc_update hR hij,
    hR.started⟩
  rw [run_singleton, step, hidle', hdeque']

/-- The item is tested: the callback is called, or the item is thrown away. -/
theorem Mirrors.test (hR : Mirrors s h) {t : ι} (hs : WorkQueue.step cfg s (.test t) = some s') :
    ∃ m h', run step h m = some h' ∧ Mirrors s' h' := by
  simp only [WorkQueue.step] at hs
  split at hs
  · next i hheld =>
    obtain ⟨j, hheld', hij⟩ := samePc_popped (hheld ▸ hR.consumers t)
    split_ifs at hs with hprocess <;> cases hs
    · refine ⟨[.test t], { h.moveTo t (.calling j) with
        started := h.started ++ [⟨t, j.serial, j.fd, j.job⟩] }, ?_, hR.deque,
        samePc_update hR rfl, ?_⟩
      · rw [run_singleton, step, hheld']
        simp only [hij.process, hprocess, if_true]
      · rw [List.map_append, List.map_append, hR.started]
        simp [hij.fd, hij.job]
    · refine ⟨[.test t], h.moveTo t .idle, ?_, hR.deque, samePc_update hR trivial, hR.started⟩
      rw [run_singleton, step, hheld']
      simp [hij.process, hprocess]
  · cases hs

/-- **The server's queue is such a queue.** -/
theorem Mirrors.step {a : WorkQueue.Act ι} (hR : Mirrors s h)
    (hs : WorkQueue.step cfg s a = some s') : ∃ m h', run step h m = some h' ∧ Mirrors s' h' := by
  cases a with
  | listen b =>
    simp only [WorkQueue.step] at hs
    split_ifs at hs
    obtain ⟨v, -, rfl⟩ := Option.map_eq_some_iff.mp hs
    exact ⟨[], h, rfl, hR.deque, hR.consumers, hR.started⟩
  | produce =>
    obtain ⟨v, -, rfl⟩ := Option.map_eq_some_iff.mp hs
    exact hR.produce
  | pop t =>
    simp only [WorkQueue.step] at hs
    split at hs
    · next hidle hdeque =>
      cases hs
      exact hR.pop hidle hdeque
    · cases hs
  | test t => exact hR.test hs
  | mark t =>
    simp only [WorkQueue.step] at hs
    split at hs
    · next i hheld =>
      split_ifs at hs
      cases hs
      exact ⟨[.close i.fd], _, rfl, forall₂_mark i.fd hR.deque,
        samePc_stay hR (by rw [hheld]; rfl) rfl, hR.started⟩
    · cases hs
  | remove t =>
    simp only [WorkQueue.step] at hs
    split at hs
    · next i hheld =>
      obtain ⟨v, -, rfl⟩ := Option.map_eq_some_iff.mp hs
      exact ⟨[], h, rfl, hR.deque, samePc_stay hR (by rw [hheld]; rfl) rfl, hR.started⟩
    · cases hs
  | close t =>
    simp only [WorkQueue.step] at hs
    split at hs
    · next i hheld =>
      obtain ⟨v, -, rfl⟩ := Option.map_eq_some_iff.mp hs
      exact ⟨[], h, rfl, hR.deque, samePc_stay hR (by rw [hheld]; rfl) rfl, hR.started⟩
    · cases hs
  | ret t =>
    simp only [WorkQueue.step] at hs
    have hback : inCallback (s.consumers t) = true → ∃ m h', run HandOver.step h m = some h' ∧
        Mirrors (s.moveTo t .idle) h' := by
      intro hcallback
      obtain ⟨j, hj⟩ := samePc_calling (hR.consumers t) hcallback
      refine ⟨[.ret t], h.moveTo t .idle, ?_, hR.deque, samePc_update hR trivial, hR.started⟩
      rw [run_singleton, HandOver.step, hj]
    split at hs
    · next i hheld =>
      split_ifs at hs
      cases hs
      exact hback (by rw [hheld]; rfl)
    · next i hheld =>
      cases hs
      exact hback (by rw [hheld]; rfl)
    · cases hs

/-- The events of a server pass through its queue as they pass through a queue. -/
theorem queue_of_server (cfg : Listen.Setup) (acts : List (WorkQueue.Act ι))
    (s : WorkQueue.Sys ι) (hrun : run (WorkQueue.step cfg) (WorkQueue.init ι cfg) acts = some s) :
    ∃ h, Mirrors s h ∧ HandedOver h := by
  obtain ⟨m, h, hm, hR⟩ :=
    run_of_simulation (fun _ _ _ _ hR hs => hR.step hs) (mirrors_init cfg) hrun
  have hinv : Inv h := invariant_of_run (fun _ _ _ h => h.step) inv_init hm
  exact ⟨h, hR, hinv.handedOver⟩

end Simulation

end HandOver

end Nbuss
