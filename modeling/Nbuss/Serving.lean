import Nbuss.StopConsumers

/-!
# No event waits while a consumer sleeps

`producer_callback` pushes an event, releases `deque_mutex` and calls `notify_one`.  By then the
event may be gone, taken by a consumer that was not asleep, and the one that is woken finds the
deque empty and sleeps again.  Or nobody is asleep and the notification is lost.  So the
notifications and the events do not correspond, and it is not clear that the notifications given
are enough.

They are.  If a consumer is asleep, the events in the deque are no more than the consumers that
will look into it before they call the user function or sleep, and one more if the producer has
still to notify (`Served`).  So an event waits only for consumers that are all busy, or for a
test that is on its way.

Nor do the consumers wake and sleep in a circle.  What a consumer can do without being woken is
counted by `Pc.stepsLeft`, and an event pays for the steps that it causes, those of the consumer
that is woken in vain included.
-/

namespace Nbuss

namespace StopConsumers

open Transition Threads

/-- The consumer will look into the deque before it calls the user function or sleeps. -/
def Pc.onWay : Pc → Bool
  | .head | .locking | .testing | .woken | .checking => true
  | .asleep | .calling | .ended => false

/-- The steps up to the next sleep, if the deque is empty. -/
def Pc.stepsLeft : Pc → ℕ
  | .asleep | .ended => 0
  | .testing => 1
  | .locking | .checking => 2
  | .head | .woken => 3
  | .calling => 4

variable {ι : Type*}

/-- A step of a consumer. -/
def ofConsumer : Act ι → Bool
  | .consumer _ => true
  | _ => false

/-- The steps of consumers that an act can cause. -/
def Act.cost : Act ι → ℕ
  | .push => 7
  | .spurious _ | .notify _ => 3
  | .consumer _ | .produced _ | .setFlag | .serverStopped => 0

/-- The consumer has `deque_mutex`. -/
def Pc.hasMutex : Pc → Bool
  | .testing | .checking => true
  | _ => false

theorem Pc.isAsleep_of_onWay {p : Pc} (h : p.onWay = true) : p.isAsleep = false := by
  cases p <;> first | rfl | cases h

theorem Pc.isAsleep_of_stepsLeft {p : Pc} (h : 0 < p.stepsLeft) : p.isAsleep = false := by
  cases p <;> first | rfl | cases h

/-! ## What a consumer does -/

/-- Where a consumer goes in one step, and how many events are left then. -/
inductive Went (s : Sys ι) (t : ι) : Pc → ℕ → Prop
  | on {p : Pc} (hway : p.onWay = true) (hpay : p.stepsLeft < (s.consumers t).stepsLeft) :
      Went s t p s.size
  | take {n : ℕ} (hpc : s.consumers t = .testing) (hsize : s.size = n + 1) : Went s t .calling n
  | sleep (hpc : s.consumers t = .testing) (hsize : s.size = 0) : Went s t .asleep s.size
  | ending (hmust : s.mustTerminate = true) (hpay : 0 < (s.consumers t).stepsLeft) :
      Went s t .ended s.size

section Count

variable [DecidableEq ι] {s s' : Sys ι}

/-- A consumer that has the mutex after its step has taken it or has kept it. -/
theorem consumer_eq_some {t : ι} (hs : s.consumer t = some s') :
    ∃ p n owner, s' = { s.moveTo t p with owner := owner, size := n } ∧ Went s t p n ∧
      ∀ u, owner = some u → u = t ∧ p.hasMutex = true ∨
        s.owner = some u ∧ ((s.consumers t).hasMutex = true → p.hasMutex = true) := by
  unfold Sys.consumer at hs
  split at hs
  case h_1 hpc =>
    cases hs
    refine ⟨_, _, _, rfl, ?_, fun u hu => .inr ⟨hu, by rw [hpc]; exact nofun⟩⟩
    split_ifs with hmust
    · exact .ending hmust (by rw [hpc]; decide)
    · exact .on rfl (by rw [hpc]; decide)
  case h_2 hpc | h_5 hpc =>
    split_ifs at hs
    cases hs
    refine ⟨_, _, _, rfl, .on rfl (by rw [hpc]; decide), fun u hu => .inl ⟨?_, rfl⟩⟩
    exact (Option.some_inj.mp hu).symm
  case h_3 hpc =>
    split_ifs at hs with hempty <;> cases hs
    · exact ⟨_, _, _, rfl, .sleep hpc hempty, nofun⟩
    · exact ⟨_, _, _, rfl, .take hpc (Nat.succ_pred_eq_of_ne_zero hempty).symm, nofun⟩
  case h_4 | h_8 => cases hs
  case h_6 hpc =>
    split_ifs at hs with hmust <;> cases hs
    · exact ⟨_, _, _, rfl, .ending hmust (by rw [hpc]; decide), nofun⟩
    · exact ⟨_, _, _, rfl, .on rfl (by rw [hpc]; decide), fun u hu => .inr ⟨hu, fun _ => rfl⟩⟩
  case h_7 hpc =>
    cases hs
    exact ⟨_, _, _, rfl, .on rfl (by rw [hpc]; decide),
      fun u hu => .inr ⟨hu, by rw [hpc]; exact nofun⟩⟩

variable [Fintype ι]

/-- The number of consumers that are about to look into the deque. -/
def Sys.onWay (s : Sys ι) : ℕ := tally Pc.onWay s.consumers

/-- The steps that the consumers can still make, if nothing more comes. -/
def Sys.stepsLeft (s : Sys ι) : ℕ :=
  ∑ t, (s.consumers t).stepsLeft + 4 * s.size + 3 * s.pushed.toNat

theorem onWay_moveTo (s : Sys ι) (t : ι) (p : Pc) :
    (s.moveTo t p).onWay + (s.consumers t).onWay.toNat = s.onWay + p.onWay.toNat :=
  tally_update Pc.onWay s.consumers t p

theorem stepsLeft_moveTo (s : Sys ι) (t : ι) (p : Pc) :
    (s.moveTo t p).stepsLeft + (s.consumers t).stepsLeft = s.stepsLeft + p.stepsLeft := by
  have h := sum_update_add Pc.stepsLeft s.consumers t p
  simp only [Sys.stepsLeft, Sys.moveTo]
  omega

theorem exists_moveTo_of_notifyOne {w : Option ι} (hs : s.notifyOne w = some s') :
    (∃ t, s.consumers t = .asleep ∧ s' = s.moveTo t .woken) ∨ s.asleep = 0 ∧ s' = s := by
  obtain ⟨f, hf, rfl⟩ := Option.map_eq_some_iff.mp hs
  rcases notifyOne_eq_some hf with ⟨t, -, ht, rfl⟩ | ⟨-, hnone, rfl⟩
  · refine .inl ⟨t, ?_, rfl⟩
    cases hpc : s.consumers t <;> rw [hpc] at ht <;> first | rfl | cases ht
  · exact .inr ⟨tally_eq_zero hnone, rfl⟩

/-! ## Steps that are paid for -/

theorem stepsLeft_consumer {t : ι} (hs : s.consumer t = some s') :
    s'.stepsLeft + 1 ≤ s.stepsLeft := by
  obtain ⟨p, n, owner, rfl, hwent, -⟩ := consumer_eq_some hs
  have h := stepsLeft_moveTo s t p
  cases hwent with
  | on hway hpay =>
    simp only [Sys.stepsLeft, Sys.moveTo] at h ⊢
    omega
  | take hpc hsize =>
    rw [hpc] at h
    simp only [Sys.stepsLeft, Sys.moveTo, Pc.stepsLeft] at h ⊢
    omega
  | sleep hpc hsize =>
    rw [hpc] at h
    simp only [Sys.stepsLeft, Sys.moveTo, Pc.stepsLeft] at h ⊢
    omega
  | ending hmust hpay =>
    have hend : Pc.ended.stepsLeft = 0 := rfl
    simp only [Sys.stepsLeft, Sys.moveTo] at h ⊢
    omega

theorem stepsLeft_woken {t : ι} (ht : s.consumers t = .asleep) :
    (s.moveTo t .woken).stepsLeft = s.stepsLeft + 3 := by
  have h := stepsLeft_moveTo s t .woken
  rwa [ht] at h

theorem stepsLeft_notifyOne {w : Option ι} (hs : s.notifyOne w = some s') :
    s'.stepsLeft ≤ s.stepsLeft + 3 := by
  rcases exists_moveTo_of_notifyOne hs with ⟨t, ht, rfl⟩ | ⟨-, rfl⟩
  · exact (stepsLeft_woken ht).le
  · exact Nat.le_add_right ..

theorem stepsLeft_step {a : Act ι} (hs : step s a = some s') :
    s'.stepsLeft + (ofConsumer a).toNat ≤ s.stepsLeft + a.cost := by
  cases a with
  | consumer t => exact stepsLeft_consumer hs
  | spurious t =>
    simp only [step] at hs
    split_ifs at hs with ht
    cases hs
    exact (stepsLeft_woken ht).le
  | push =>
    simp only [step] at hs
    split at hs
    · cases hs
    · split_ifs at hs with hfree
      cases hs
      simp only [Sys.stepsLeft, Act.cost, ofConsumer, hfree.2, Bool.toNat_true, Bool.toNat_false]
      omega
  | produced w =>
    simp only [step] at hs
    split_ifs at hs with hpushed
    have h := stepsLeft_notifyOne hs
    simp only [Sys.stepsLeft, Act.cost, ofConsumer, hpushed, Bool.toNat_true,
      Bool.toNat_false] at h ⊢
    omega
  | setFlag | serverStopped =>
    simp only [step] at hs
    split at hs <;> try split_ifs at hs
    all_goals cases hs
    all_goals exact le_rfl
  | notify w =>
    simp only [step] at hs
    split at hs
    · have h := stepsLeft_notifyOne hs
      exact h
    · cases hs

end Count

/-! ## Notifications are enough -/

section Runs

variable [Fintype ι] {s s' : Sys ι}

structure Served (s : Sys ι) : Prop where
  mutex : ∀ t, s.owner = some t → (s.consumers t).hasMutex = true
  alive : s.mustTerminate = false → ∀ t, s.consumers t ≠ .ended
  /-- An event waits for a consumer on its way, for the notification to come, or for consumers
  that are all busy. -/
  enough : s.mustTerminate = false → 0 < s.asleep → s.size ≤ s.onWay + s.pushed.toNat

theorem served_init (size : ℕ) : Served (init ι size) where
  mutex t h := by cases h
  alive _ t := by exact nofun
  enough _ hpos := by
    obtain ⟨t, ht⟩ := exists_asleep hpos
    cases ht

variable [DecidableEq ι]

theorem Served.consumer {t : ι} (h : Served s) (hs : s.consumer t = some s') : Served s' := by
  obtain ⟨p, n, owner, rfl, hwent, howner⟩ := consumer_eq_some hs
  have hway := onWay_moveTo s t p
  have hasleep := asleep_moveTo s t p
  refine ⟨fun u hu => ?_, fun hmust u hended => ?_, fun hmust hpos => ?_⟩
  · rcases howner u hu with ⟨rfl, hp⟩ | ⟨hold, hkeep⟩
    · simpa only [Sys.moveTo, Function.update_self] using hp
    · by_cases hut : u = t
      · subst hut
        simpa only [Sys.moveTo, Function.update_self] using hkeep (h.mutex u hold)
      · simpa only [Sys.moveTo, Function.update_of_ne hut] using h.mutex u hold
  · rcases update_cases hended with ⟨-, hp⟩ | ⟨-, hu⟩
    · cases hwent with
      | on hp' hpay => rw [hp] at hp'; cases hp'
      | take | sleep => cases hp
      | ending hmust' hpay => exact absurd (hmust.symm.trans hmust') Bool.false_ne_true
    · exact h.alive hmust u hu
  · have henough := h.enough hmust
    change 0 < (s.moveTo t p).asleep at hpos
    change n ≤ (s.moveTo t p).onWay + s.pushed.toNat
    cases hwent with
    | on hp hpay =>
      rw [hp, Bool.toNat_true] at hway
      rw [Pc.isAsleep_of_onWay hp, Pc.isAsleep_of_stepsLeft (Nat.zero_lt_of_lt hpay)] at hasleep
      have hsame : (s.moveTo t p).asleep = s.asleep := hasleep
      have hone := Bool.toNat_le (s.consumers t).onWay
      have hsize := henough (hsame ▸ hpos)
      omega
    | take hpc hsize =>
      rw [hpc] at hway hasleep
      have hsame : (s.moveTo t .calling).asleep = s.asleep := hasleep
      have hold := henough (hsame ▸ hpos)
      simp only [Pc.onWay, Bool.toNat_true, Bool.toNat_false] at hway
      omega
    | sleep hpc hsize => omega
    | ending hmust' hpay => exact absurd (hmust.symm.trans hmust') Bool.false_ne_true

/-- Waking a consumer, whoever does it, takes the place of a notification to come. -/
theorem Served.woken {t : ι} (h : Served s) (ht : s.consumers t = .asleep) {pushed : Bool}
    (hpushed : s.pushed.toNat ≤ pushed.toNat + 1) :
    Served { s.moveTo t .woken with pushed := pushed } := by
  have hway := onWay_moveTo s t .woken
  have hasleep := asleep_moveTo s t .woken
  rw [ht] at hway hasleep
  refine ⟨fun u hu => ?_, fun hmust u hended => ?_, fun hmust hpos => ?_⟩
  · have hmutex := h.mutex u hu
    have hut : u ≠ t := by
      rintro rfl
      rw [ht] at hmutex
      cases hmutex
    simpa only [Sys.moveTo, Function.update_of_ne hut] using hmutex
  · rcases update_cases hended with ⟨-, hp⟩ | ⟨-, hu⟩
    · cases hp
    · exact h.alive hmust u hu
  · have henough := h.enough hmust (asleep_pos ht)
    change s.size ≤ (s.moveTo t .woken).onWay + pushed.toNat
    simp only [Pc.onWay, Bool.toNat_true, Bool.toNat_false] at hway
    omega

theorem Served.step {a : Act ι} (h : Served s) (hs : step s a = some s') : Served s' := by
  cases a with
  | consumer t => exact h.consumer hs
  | spurious t =>
    simp only [StopConsumers.step] at hs
    split_ifs at hs with ht
    cases hs
    exact h.woken ht (Nat.le_succ _)
  | push =>
    simp only [StopConsumers.step] at hs
    split at hs
    · cases hs
    · split_ifs at hs with hfree
      cases hs
      refine ⟨h.mutex, h.alive, fun hmust hpos => ?_⟩
      have henough := h.enough hmust hpos
      rw [hfree.2] at henough
      exact Nat.succ_le_succ henough
  | produced w =>
    simp only [StopConsumers.step] at hs
    split_ifs at hs with hpushed
    rcases exists_moveTo_of_notifyOne hs with ⟨t, ht, rfl⟩ | ⟨hnone, rfl⟩
    · exact h.woken ht (by rw [hpushed]; rfl)
    · -- the notification is lost, but then nobody is asleep
      exact ⟨h.mutex, h.alive, fun _ hpos => absurd hnone hpos.ne'⟩
  | setFlag =>
    simp only [StopConsumers.step] at hs
    split at hs
    · cases hs
      exact ⟨h.mutex, fun hmust => (by cases hmust), fun hmust => (by cases hmust)⟩
    · cases hs
  | serverStopped =>
    simp only [StopConsumers.step] at hs
    split at hs
    · split_ifs at hs
      cases hs
      exact ⟨h.mutex, h.alive, h.enough⟩
    · cases hs
  | notify w =>
    simp only [StopConsumers.step] at hs
    split at hs
    · next n _ =>
      have hbefore : Served { s with stop := .notifying n } := ⟨h.mutex, h.alive, h.enough⟩
      rcases exists_moveTo_of_notifyOne hs with ⟨t, ht, rfl⟩ | ⟨-, rfl⟩
      · exact hbefore.woken ht (Nat.le_succ _)
      · exact hbefore
    · cases hs

/-- A consumer is stuck only in its sleep, or at the mutex while another one is at work. -/
theorem consumer_isSome {t : ι} (h : Served s) (hmust : s.mustTerminate = false)
    (ht : s.consumers t ≠ .asleep) : ∃ u, (s.consumer u).isSome = true := by
  -- whoever has the mutex can go on
  have howner : s.owner ≠ none → ∃ u, (s.consumer u).isSome = true := by
    intro hne
    obtain ⟨u, hu⟩ := Option.ne_none_iff_exists'.mp hne
    have hmutex := h.mutex u hu
    refine ⟨u, ?_⟩
    unfold Sys.consumer
    cases hpc : s.consumers u with
    | testing => simp only; split_ifs <;> rfl
    | checking => simp only [hmust]; rfl
    | head | locking | asleep | woken | calling | ended => rw [hpc] at hmutex; cases hmutex
  by_cases hfree : s.owner = none
  · refine ⟨t, ?_⟩
    unfold Sys.consumer
    cases hpc : s.consumers t with
    | asleep => exact absurd hpc ht
    | ended => exact absurd hpc (h.alive hmust t)
    | head | calling => rfl
    | locking | woken => simp only [if_pos hfree]; rfl
    | testing => simp only; split_ifs <;> rfl
    | checking => simp only [hmust]; rfl
  · exact howner hfree

/-- **Events are served.**  For any number of consumers and every interleaving: the consumers make
only so many steps as the events, and the wake-ups that are nobody's or of `stop`, account for.
And before `stop`, if a consumer is asleep, the events in the deque are no more than the consumers
on their way to it, and one if the producer has still to notify; when no consumer can go on and no
notification is to come, all are asleep and the deque is empty. -/
theorem events_served [Nonempty ι] (size : ℕ) (acts : List (Act ι)) (s : Sys ι)
    (hrun : run step (init ι size) acts = some s) :
    acts.countP ofConsumer ≤ 3 * Fintype.card ι + 4 * size + (acts.map Act.cost).sum ∧
    (s.mustTerminate = false →
      (0 < s.asleep → s.size ≤ s.onWay + s.pushed.toNat) ∧
      (s.pushed = false → (∀ t, s.consumer t = none) →
        (∀ t, s.consumers t = .asleep) ∧ s.size = 0)) := by
  have h : Served s := invariant_of_run (fun _ _ _ h hs => h.step hs) (served_init size) hrun
  refine ⟨?_, fun hmust => ⟨h.enough hmust, fun hpushed hstuck => ?_⟩⟩
  · have hpaid : s.stepsLeft + acts.countP ofConsumer ≤
        (init ι size).stepsLeft + (acts.map Act.cost).sum :=
      rank_add_countP_le_add_cost (I := fun _ => True) (fun _ _ _ _ _ => trivial)
        (fun _ _ _ _ hs => stepsLeft_step hs) trivial hrun
    have hinit : (init ι size).stepsLeft = Fintype.card ι * 3 + 4 * size + 3 * 0 :=
      congrArg (· + 4 * size + 3 * 0) (Finset.sum_const_nat fun _ _ => rfl)
    omega
  · have hasleep : ∀ t, s.consumers t = .asleep := by
      intro t
      by_contra ht
      obtain ⟨u, hu⟩ := consumer_isSome h hmust ht
      rw [hstuck u] at hu
      cases hu
    refine ⟨hasleep, ?_⟩
    have henough := h.enough hmust (asleep_pos (hasleep (Classical.arbitrary ι)))
    have hnobody : s.onWay = 0 := tally_eq_zero fun t => by rw [hasleep t]; rfl
    rw [hnobody, hpushed] at henough
    exact Nat.le_zero.mp henough

end Runs

/-- Two consumers are asleep, an event comes, and the one that is notified serves it. -/
theorem event_served_by_one_of_two :
    let acts : List (Act (Fin 2)) :=
      [.consumer 0, .consumer 0, .consumer 0, .consumer 1, .consumer 1, .consumer 1, .push,
        .produced (some 1), .consumer 1, .consumer 1, .consumer 1, .consumer 1, .consumer 1,
        .consumer 1, .consumer 1]
    acts.countP ofConsumer ≤ 3 * 2 + 4 * 0 + 7 ∧
      ∃ s, run step (init (Fin 2) 0) acts = some s ∧ (∀ t, s.consumers t = .asleep) ∧
        s.size = 0 := by
  intro acts
  obtain ⟨s, hrun, hmust, hpushed, hstuck⟩ : ∃ s, run step (init (Fin 2) 0) acts = some s ∧
      s.mustTerminate = false ∧ s.pushed = false ∧ s.consumer 0 = none ∧ s.consumer 1 = none :=
    ⟨_, rfl, rfl, rfl, rfl, rfl⟩
  have h := events_served 0 acts s hrun
  exact ⟨h.1, s, hrun, (h.2 hmust).2 hpushed (Fin.forall_fin_two.mpr hstuck)⟩

end StopConsumers

end Nbuss
