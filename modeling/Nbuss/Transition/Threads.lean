import Mathlib.Algebra.BigOperators.Group.Finset.Basic
import Mathlib.Data.Fintype.Basic
import Mathlib.Data.Fintype.Card
import Mathlib.Logic.Function.Basic
import Nbuss.Transition.Runs

/-!
# Threads over a shared state

A system of threads is a shared state together with one local state for each
thread.  What a thread can do is a partial function of the shared state, its own
name, its local state and a label; the label says what the environment answers and
resolves the choices the thread leaves open.  A run is then a list of pairs
`(thread, label)`, in any order: no scheduler is built in, so a statement about all
runs is a statement about all interleavings.

Mutual exclusion statements count threads: `tally p s` is the number of threads
whose local state satisfies `p`.  One step changes one local state, so it changes
the tally by what that thread contributes before and after (`tally_update`).

A condition variable has no state of its own: a thread that waits on it is a thread
whose local state is `asleep`, and `notify_one` moves one such thread, which the label
names (`notifyOne`).
-/

namespace Transition

variable {ι S L α : Type*}

/-- A shared state and the local states of the threads. -/
structure Threads (ι S L : Type*) where
  shared : S
  loc : ι → L

namespace Threads

variable [DecidableEq ι]

/-- Thread `t` moves, if it can, and nobody else does. -/
def step (move : S → ι → L → α → Option (S × L)) (s : Threads ι S L) (a : ι × α) :
    Option (Threads ι S L) :=
  (move s.shared a.1 (s.loc a.1) a.2).map fun r => ⟨r.1, Function.update s.loc a.1 r.2⟩

variable {move : S → ι → L → α → Option (S × L)} {s s' : Threads ι S L}

theorem step_eq_some {t : ι} {a : α} :
    step move s (t, a) = some s' ↔
      ∃ sh l, move s.shared t (s.loc t) a = some (sh, l) ∧
        s' = ⟨sh, Function.update s.loc t l⟩ := by
  simp [step, Prod.exists, eq_comm]

/-- **A thread running alone.**  What it does to the shared state and to its own local
state is a run of its moves; the other local states stay as they are. -/
theorem run_solo (s : Threads ι S L) (t : ι) (acts : List α) :
    run (step move) s (acts.map (Prod.mk t)) =
      (run (fun p a => move p.1 t p.2 a) (s.shared, s.loc t) acts).map
        fun p => ⟨p.1, Function.update s.loc t p.2⟩ := by
  induction acts generalizing s with
  | nil => simp
  | cons a acts ih =>
    rw [List.map_cons, run_cons, run_cons]
    cases hm : move s.shared t (s.loc t) a with
    | none => simp [step, hm]
    | some r => simp [step, hm, ih]

/-- Where a thread stands after `t` has moved: it is `t`, or it stood there before. -/
theorem update_cases {f : ι → L} {t u : ι} {p q : L} (h : Function.update f t p u = q) :
    u = t ∧ p = q ∨ u ≠ t ∧ f u = q := by
  by_cases hut : u = t
  · rw [hut, Function.update_self] at h
    exact .inl ⟨hut, h⟩
  · rw [Function.update_of_ne hut] at h
    exact .inr ⟨hut, h⟩

/-! ## Counting threads -/

section Tally

variable [Fintype ι]

/-- The number of threads whose local state satisfies `p`. -/
def tally (p : L → Bool) (f : ι → L) : ℕ := (Finset.univ.filter fun t => p (f t) = true).card

theorem tally_update (p : L → Bool) (f : ι → L) (t : ι) (l : L) :
    tally p (Function.update f t l) + (p (f t)).toNat = tally p f + (p l).toNat := by
  have hsplit : ∀ g : ι → L, tally p g =
      ((Finset.univ.erase t).filter fun u => p (g u) = true).card + (p (g t)).toNat := by
    intro g
    have huniv : (Finset.univ : Finset ι) = insert t (Finset.univ.erase t) :=
      (Finset.insert_erase (Finset.mem_univ t)).symm
    rw [tally, huniv, Finset.filter_insert]
    cases hp : p (g t) with
    | false => simp
    | true =>
      rw [if_pos rfl, Finset.card_insert_of_notMem (by simp), Finset.erase_insert (by simp)]
      rfl
  have hrest : ((Finset.univ.erase t).filter fun u => p (Function.update f t l u) = true) =
      (Finset.univ.erase t).filter fun u => p (f u) = true := by
    refine Finset.filter_congr fun u hu => ?_
    rw [Function.update_of_ne (Finset.ne_of_mem_erase hu)]
  rw [hsplit (Function.update f t l), hsplit f, hrest, Function.update_self]
  omega

/-- The same for a sum over the threads. -/
theorem sum_update_add (w : L → ℕ) (f : ι → L) (t : ι) (l : L) :
    ∑ u, w (Function.update f t l u) + w (f t) = ∑ u, w (f u) + w l := by
  have hrest : ∑ u ∈ Finset.univ.erase t, w (Function.update f t l u) =
      ∑ u ∈ Finset.univ.erase t, w (f u) :=
    Finset.sum_congr rfl fun u hu => by rw [Function.update_of_ne (Finset.ne_of_mem_erase hu)]
  rw [← Finset.sum_erase_add _ _ (Finset.mem_univ t), ← Finset.sum_erase_add _ (fun u => w (f u))
    (Finset.mem_univ t), hrest, Function.update_self]
  omega

omit [DecidableEq ι] in
theorem tally_pos {p : L → Bool} {f : ι → L} {t : ι} (h : p (f t) = true) : 0 < tally p f :=
  Finset.card_pos.mpr ⟨t, Finset.mem_filter.mpr ⟨Finset.mem_univ t, h⟩⟩

omit [DecidableEq ι] in
theorem exists_of_tally_pos {p : L → Bool} {f : ι → L} (h : 0 < tally p f) :
    ∃ t, p (f t) = true := by
  obtain ⟨t, ht⟩ := Finset.card_pos.mp h
  exact ⟨t, (Finset.mem_filter.mp ht).2⟩

omit [DecidableEq ι] in
theorem tally_eq_zero {p : L → Bool} {f : ι → L} (h : ∀ t, p (f t) = false) : tally p f = 0 := by
  rw [tally, Finset.card_eq_zero, Finset.filter_eq_empty_iff]
  intro t _
  rw [h t]
  exact Bool.false_ne_true

omit [DecidableEq ι] in
theorem tally_le_card (p : L → Bool) (f : ι → L) : tally p f ≤ Fintype.card ι :=
  Finset.card_filter_le ..

end Tally

/-! ## Condition variables -/

section NotifyOne

variable [Fintype ι]

/-- `notify_one`.  The label names the thread that is woken; without one, nobody is
asleep. -/
def notifyOne (asleep : L → Bool) (wake : L → L) (f : ι → L) : Option ι → Option (ι → L)
  | some t => if asleep (f t) then some (Function.update f t (wake (f t))) else none
  | none => if ∀ t, asleep (f t) = false then some f else none

variable {asleep : L → Bool} {wake : L → L} {f g : ι → L} {w : Option ι}

theorem notifyOne_eq_some (h : notifyOne asleep wake f w = some g) :
    (∃ t, w = some t ∧ asleep (f t) = true ∧ g = Function.update f t (wake (f t))) ∨
      w = none ∧ (∀ t, asleep (f t) = false) ∧ g = f := by
  cases w with
  | some t =>
    simp only [notifyOne] at h
    split_ifs at h with ht
    exact .inl ⟨t, rfl, ht, (Option.some_inj.mp h).symm⟩
  | none =>
    simp only [notifyOne] at h
    split_ifs at h with hnone
    exact .inr ⟨rfl, hnone, (Option.some_inj.mp h).symm⟩

/-- `notify_one` does not block. -/
theorem exists_notifyOne (asleep : L → Bool) (wake : L → L) (f : ι → L) :
    ∃ w, (notifyOne asleep wake f w).isSome = true := by
  by_cases h : ∃ t, asleep (f t) = true
  · obtain ⟨t, ht⟩ := h
    exact ⟨some t, by simp [notifyOne, ht]⟩
  · have hnone : ∀ t, asleep (f t) = false := fun t => Bool.eq_false_iff.mpr fun ht => h ⟨t, ht⟩
    exact ⟨none, by simp [notifyOne, hnone]⟩

/-- One thread less is asleep, if there was one. -/
theorem tally_notifyOne (hwake : ∀ l, asleep (wake l) = false)
    (h : notifyOne asleep wake f w = some g) : tally asleep g = tally asleep f - 1 := by
  rcases notifyOne_eq_some h with ⟨t, -, ht, rfl⟩ | ⟨-, hnone, rfl⟩
  · have hcount := tally_update asleep f t (wake (f t))
    rw [ht, hwake, Bool.toNat_true, Bool.toNat_false] at hcount
    omega
  · rw [tally_eq_zero hnone]

end NotifyOne

end Threads

end Transition
