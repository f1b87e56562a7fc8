import Mathlib.Algebra.Ring.Nat
import Mathlib.Data.List.Induction

/-!
# Runs of a labelled step function

A system is given by a partial step function `step : σ → α → Option σ`: the label
says who moves and what the environment answers, and `none` says that this step
is not possible in this state.  A run is a list of labels, so every question
about "all interleavings" is a question about all lists, and a particular
interleaving is a list that can be evaluated.

Two properties of a run are used throughout.  `Always P` says that every state
the run passes through satisfies `P`; `Guarded G` says that every step of the
run is taken in a state, and with a label, that satisfy `G`.  The invariant rule
connects them: an invariant that every guarded step preserves holds always along
a guarded run (`always_of_guarded`).  When, moreover, an unguarded step visibly
destroys the property, the two are equivalent (`always_iff_guarded`), which is
how an exact condition for a safety property is proved.

One system simulates another when each of its steps is answered by a run of the other
(`run_of_simulation`); what holds of all runs of the other then holds of its own.
-/

namespace Transition

variable {σ α : Type*} (step : σ → α → Option σ)

/-- The state after the labels of a list, if all of them are possible. -/
def run : σ → List α → Option σ
  | s, [] => some s
  | s, a :: l => (step s a).bind fun t => run t l

/-- `P` holds in every state the run passes through, its first state included. -/
def Always (P : σ → Prop) : σ → List α → Prop
  | s, [] => P s
  | s, a :: l => P s ∧
      match step s a with
      | none => True
      | some t => Always P t l

/-- Every step of the run is taken where `G` allows it. -/
def Guarded (G : σ → α → Prop) : σ → List α → Prop
  | _, [] => True
  | s, a :: l =>
      match step s a with
      | none => True
      | some t => G s a ∧ Guarded G t l

instance decidableAlways (P : σ → Prop) [DecidablePred P] :
    ∀ (s : σ) (l : List α), Decidable (Always step P s l)
  | s, [] => inferInstanceAs (Decidable (P s))
  | s, a :: l =>
      match h : step s a with
      | none => decidable_of_iff (P s) (by simp [Always, h])
      | some t =>
          have := decidableAlways P t l
          decidable_of_iff (P s ∧ Always step P t l) (by simp [Always, h])

instance decidableGuarded (G : σ → α → Prop) [∀ s a, Decidable (G s a)] :
    ∀ (s : σ) (l : List α), Decidable (Guarded step G s l)
  | _, [] => isTrue trivial
  | s, a :: l =>
      match h : step s a with
      | none => isTrue (by simp [Guarded, h])
      | some t =>
          have := decidableGuarded G t l
          decidable_of_iff (G s a ∧ Guarded step G t l) (by simp [Guarded, h])

variable {step}

/-! ## Runs, one label at a time -/

@[simp] theorem run_nil (s : σ) : run step s [] = some s := rfl

theorem run_cons (s : σ) (a : α) (l : List α) :
    run step s (a :: l) = (step s a).bind fun t => run step t l := rfl

@[simp] theorem run_singleton (s : σ) (a : α) : run step s [a] = step s a := by
  rw [run_cons]
  cases step s a <;> rfl

theorem run_append (s : σ) (l m : List α) :
    run step s (l ++ m) = (run step s l).bind fun t => run step t m := by
  induction l generalizing s with
  | nil => rfl
  | cons a l ih =>
    rw [List.cons_append, run_cons, run_cons]
    cases step s a with
    | none => rfl
    | some t => exact ih t

theorem run_cons_eq_some {s u : σ} {a : α} {l : List α} :
    run step s (a :: l) = some u ↔ ∃ t, step s a = some t ∧ run step t l = some u := by
  rw [run_cons, Option.bind_eq_some_iff]

theorem run_append_of_eq_some {s t : σ} {l m : List α} (h : run step s l = some t) :
    run step s (l ++ m) = run step t m := by
  rw [run_append, h, Option.bind_some]

theorem run_concat_eq_some {s u : σ} {a : α} {l : List α} :
    run step s (l ++ [a]) = some u ↔ ∃ t, run step s l = some t ∧ step t a = some u := by
  rw [run_append, Option.bind_eq_some_iff]
  simp [run_cons]

/-- **Induction along a run.**  A relation between the labels so far and the
state reached holds of every run once it holds at the start and every further
step keeps it. -/
theorem run_induction {s : σ} {P : List α → σ → Prop} (start : P [] s)
    (next : ∀ l a t u, run step s l = some t → P l t → step t a = some u → P (l ++ [a]) u) :
    ∀ l t, run step s l = some t → P l t := by
  intro l
  induction l using List.reverseRecOn with
  | nil =>
    intro t h
    rw [run_nil, Option.some_inj] at h
    exact h ▸ start
  | append_singleton l a ih =>
    intro u h
    obtain ⟨t, ht, hu⟩ := run_concat_eq_some.mp h
    exact next l a t u ht (ih t ht) hu

/-! ## Invariants -/

theorem always_cons {P : σ → Prop} {s t : σ} {a : α} {l : List α} (h : step s a = some t) :
    Always step P s (a :: l) ↔ P s ∧ Always step P t l := by
  simp [Always, h]

theorem guarded_cons {G : σ → α → Prop} {s t : σ} {a : α} {l : List α}
    (h : step s a = some t) :
    Guarded step G s (a :: l) ↔ G s a ∧ Guarded step G t l := by
  simp [Guarded, h]

theorem Always.head {P : σ → Prop} {s : σ} {l : List α} (h : Always step P s l) : P s := by
  cases l with
  | nil => exact h
  | cons a l => exact h.1

theorem Always.mono {P Q : σ → Prop} (hPQ : ∀ s, P s → Q s) {s : σ} {l : List α}
    (h : Always step P s l) : Always step Q s l := by
  induction l generalizing s with
  | nil => exact hPQ s h
  | cons a l ih =>
    refine ⟨hPQ s h.1, ?_⟩
    cases hs : step s a with
    | none => trivial
    | some t => exact ih ((always_cons hs).mp h).2

/-- A guard that the labels satisfy in every state. -/
theorem guarded_of_labels {G : σ → α → Prop} {l : List α} (h : ∀ a ∈ l, ∀ s, G s a) (s : σ) :
    Guarded step G s l := by
  induction l generalizing s with
  | nil => trivial
  | cons a l ih =>
    cases hs : step s a with
    | none => simp [Guarded, hs]
    | some t =>
      have hl : Guarded step G t l := ih (fun b hb => h b (List.mem_cons_of_mem a hb)) t
      exact (guarded_cons hs).mpr ⟨h a (List.mem_cons_self ..) s, hl⟩

theorem Guarded.and {G H : σ → α → Prop} {s : σ} {l : List α} (hG : Guarded step G s l)
    (hH : Guarded step H s l) : Guarded step (fun s a => G s a ∧ H s a) s l := by
  induction l generalizing s with
  | nil => trivial
  | cons a l ih =>
    cases hs : step s a with
    | none => simp [Guarded, hs]
    | some t =>
      obtain ⟨hg, hl⟩ := (guarded_cons hs).mp hG
      obtain ⟨hh, hm⟩ := (guarded_cons hs).mp hH
      exact (guarded_cons hs).mpr ⟨⟨hg, hh⟩, ih hl hm⟩

theorem guarded_append {G : σ → α → Prop} {s t : σ} {l m : List α} (h : run step s l = some t) :
    Guarded step G s (l ++ m) ↔ Guarded step G s l ∧ Guarded step G t m := by
  induction l generalizing s with
  | nil =>
    rw [run_nil, Option.some_inj] at h
    simp [h, Guarded]
  | cons a l ih =>
    obtain ⟨u, hu, h⟩ := run_cons_eq_some.mp h
    rw [List.cons_append, guarded_cons hu, guarded_cons hu, ih h, and_assoc]

section Invariant

variable {I : σ → Prop} {G : σ → α → Prop}

/-- **The invariant rule.**  What holds at the start and is kept by every
guarded step holds in every state of a guarded run. -/
theorem always_of_guarded
    (keep : ∀ s a t, I s → G s a → step s a = some t → I t) {s : σ} {l : List α}
    (start : I s) (hG : Guarded step G s l) : Always step I s l := by
  induction l generalizing s with
  | nil => exact start
  | cons a l ih =>
    refine ⟨start, ?_⟩
    cases hs : step s a with
    | none => trivial
    | some t =>
      obtain ⟨hg, hl⟩ := (guarded_cons hs).mp hG
      exact ih (keep s a t start hg hs) hl

/-- A guard that follows from another one where the invariant holds. -/
theorem guarded_of_guarded {H : σ → α → Prop}
    (keep : ∀ s a t, I s → G s a → step s a = some t → I t)
    (hGH : ∀ s a, I s → G s a → H s a) {s : σ} {l : List α}
    (start : I s) (hG : Guarded step G s l) : Guarded step H s l := by
  induction l generalizing s with
  | nil => trivial
  | cons a l ih =>
    cases hs : step s a with
    | none => simp [Guarded, hs]
    | some t =>
      obtain ⟨hg, hl⟩ := (guarded_cons hs).mp hG
      exact (guarded_cons hs).mpr ⟨hGH s a start hg, ih (keep s a t start hg hs) hl⟩

/-- The last state of a run is one of the states it passes through. -/
theorem Always.of_run {P : σ → Prop} {s t : σ} {l : List α} (h : Always step P s l)
    (hr : run step s l = some t) : P t := by
  induction l generalizing s with
  | nil =>
    rw [run_nil, Option.some_inj] at hr
    exact hr ▸ h
  | cons a l ih =>
    obtain ⟨u, hu, hr⟩ := run_cons_eq_some.mp hr
    exact ih ((always_cons hu).mp h).2 hr

/-- The invariant rule, read at the end of the run. -/
theorem invariant_of_guarded
    (keep : ∀ s a t, I s → G s a → step s a = some t → I t) {s t : σ} {l : List α}
    (start : I s) (hG : Guarded step G s l) (hr : run step s l = some t) : I t :=
  (always_of_guarded keep start hG).of_run hr

/-- The invariant rule without a guard. -/
theorem invariant_of_run
    (keep : ∀ s a t, I s → step s a = some t → I t) {s t : σ} {l : List α}
    (start : I s) (hr : run step s l = some t) : I t :=
  run_induction (P := fun _ => I) start (fun _ a t u _ ht hu => keep t a u ht hu) l t hr

/-- **Steps that are paid for.**  Each step of one kind takes away from the rank, and any step may
add to it what it costs.  Then there are no more steps of that kind in a run than the rank at its
start and all that its steps have cost. -/
theorem rank_add_countP_le_add_cost {rank : σ → ℕ} {p : α → Bool} {cost : α → ℕ}
    (keep : ∀ s a t, I s → step s a = some t → I t)
    (pay : ∀ s a t, I s → step s a = some t → rank t + (p a).toNat ≤ rank s + cost a) {s t : σ}
    {l : List α} (start : I s) (hr : run step s l = some t) :
    rank t + l.countP p ≤ rank s + (l.map cost).sum := by
  induction l generalizing s with
  | nil =>
    rw [run_nil, Option.some_inj] at hr
    simp [hr]
  | cons a l ih =>
    obtain ⟨u, hu, hr⟩ := run_cons_eq_some.mp hr
    have htail : rank t + l.countP p ≤ rank u + (l.map cost).sum := ih (keep s a u start hu) hr
    have hhead := pay s a u start hu
    have hcount : (a :: l).countP p = l.countP p + (p a).toNat := by
      rw [List.countP_cons]
      cases p a <;> rfl
    rw [hcount, List.map_cons, List.sum_cons]
    omega

/-- **A bound on the steps of one kind.**  Where the invariant holds, each step of that kind takes
away from the rank, and no other step adds to it.  Then there are no more of them in a run than
the rank at its start, however many others come between them. -/
theorem rank_add_countP_le {rank : σ → ℕ} {p : α → Bool}
    (keep : ∀ s a t, I s → step s a = some t → I t)
    (pay : ∀ s a t, I s → step s a = some t → p a = true → rank t < rank s)
    (free : ∀ s a t, I s → step s a = some t → p a = false → rank t ≤ rank s) {s t : σ}
    {l : List α} (start : I s) (hr : run step s l = some t) : rank t + l.countP p ≤ rank s := by
  have hpay : ∀ s a t, I s → step s a = some t → rank t + (p a).toNat ≤ rank s + 0 := by
    intro s a t hI hs
    cases ha : p a with
    | true => exact pay s a t hI hs ha
    | false => exact free s a t hI hs ha
  have h := rank_add_countP_le_add_cost keep hpay start hr
  rwa [List.map_const', List.sum_replicate_nat, Nat.mul_zero] at h

/-- **An exact condition for a safety property.**  Guarded steps keep an
invariant that implies `P`, and an unguarded step out of the invariant leads to
a state without `P`.  Then a run keeps `P` exactly when all its steps are
guarded. -/
theorem always_iff_guarded {P : σ → Prop} (hIP : ∀ s, I s → P s)
    (keep : ∀ s a t, I s → G s a → step s a = some t → I t)
    (break_ : ∀ s a t, I s → ¬ G s a → step s a = some t → ¬ P t) {s : σ} {l : List α}
    (start : I s) : Always step P s l ↔ Guarded step G s l := by
  constructor
  · intro hP
    induction l generalizing s with
    | nil => trivial
    | cons a l ih =>
      cases hs : step s a with
      | none => simp [Guarded, hs]
      | some t =>
        obtain ⟨-, ht⟩ := (always_cons hs).mp hP
        have hg : G s a := by
          by_contra hg
          exact break_ s a t start hg hs ht.head
        exact (guarded_cons hs).mpr ⟨hg, ih (keep s a t start hg hs) ht⟩
  · intro hG
    exact (always_of_guarded keep start hG).mono hIP

/-- **A break that is still visible at the end.**  An unguarded step out of the
invariant leads to a bad state, bad states stay bad, and the run does not end in one.
Then all its steps were guarded.  `K` holds of the whole run and may be used
throughout. -/
theorem guarded_of_not_bad {K : σ → α → Prop} {B : σ → Prop}
    (keep : ∀ s a t, I s → K s a → G s a → step s a = some t → I t)
    (break_ : ∀ s a t, I s → K s a → ¬ G s a → step s a = some t → B t)
    (stay : ∀ s a t, B s → K s a → step s a = some t → B t) {s t : σ} {l : List α}
    (start : I s) (hK : Guarded step K s l) (hr : run step s l = some t) (hend : ¬ B t) :
    Guarded step G s l := by
  induction l generalizing s with
  | nil => trivial
  | cons a l ih =>
    obtain ⟨u, hu, hr⟩ := run_cons_eq_some.mp hr
    obtain ⟨hk, hKl⟩ := (guarded_cons hu).mp hK
    have hg : G s a := by
      by_contra hg
      exact hend (invariant_of_guarded stay (break_ s a u start hk hg hu) hKl hr)
    exact (guarded_cons hu).mpr ⟨hg, ih (keep s a u start hk hg hu) hKl hr⟩

end Invariant

/-! ## Simulation -/

/-- **The simulation rule.**  If every step of a system is answered by a run of another
one, empty or not, that keeps the two states related, then so is every run. -/
theorem run_of_simulation {τ β : Type*} {step' : τ → β → Option τ} {R : σ → τ → Prop}
    (answer : ∀ s a t u, R s u → step s a = some t → ∃ m v, run step' u m = some v ∧ R t v)
    {s t : σ} {u : τ} {l : List α} (start : R s u) (hr : run step s l = some t) :
    ∃ m v, run step' u m = some v ∧ R t v := by
  induction l generalizing s u with
  | nil =>
    rw [run_nil, Option.some_inj] at hr
    exact ⟨[], u, rfl, hr ▸ start⟩
  | cons a l ih =>
    obtain ⟨s₁, hs₁, hr⟩ := run_cons_eq_some.mp hr
    obtain ⟨m₁, u₁, hm₁, hR₁⟩ := answer s a s₁ u start hs₁
    obtain ⟨m₂, v, hm₂, hR⟩ := ih hR₁ hr
    exact ⟨m₁ ++ m₂, v, by rw [run_append_of_eq_some hm₁, hm₂], hR⟩

/-! ## Histories -/

/-- An entry of a history to which one more is added: it is that one, or it was there before. -/
theorem split_concat {β : Type*} {h l m : List β} {e x : β} (heq : h ++ [e] = l ++ x :: m) :
    h = l ∧ e = x ∧ m = [] ∨ ∃ m', h = l ++ x :: m' ∧ m = m' ++ [e] := by
  rcases List.eq_nil_or_concat m with rfl | ⟨m', y, rfl⟩
  · obtain ⟨hl, he⟩ := List.append_inj' heq rfl
    cases he
    exact .inl ⟨hl, rfl, rfl⟩
  · rw [List.concat_eq_append, ← List.cons_append, ← List.append_assoc] at heq
    obtain ⟨hh, he⟩ := List.append_inj' heq rfl
    cases he
    exact .inr ⟨m', hh, List.concat_eq_append⟩

end Transition
