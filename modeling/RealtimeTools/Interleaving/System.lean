import Mathlib.Logic.Relation
import Mathlib.Order.Basic

/-!
# Interleaved threads

Threads take atomic steps on one state, in any order.  A step may depend on choices of the
environment (the call a client makes, the thread a scheduler wakes, the value a callback returns);
these are the *oracle* of the step.  Everything here is generic in the threads, the oracles and the
state: `Reachable` collects the states of all runs, and `Reachable.rely_guarantee` is the rule every
concurrent invariant below is proved with.
-/

namespace Interleaving

/-- Threads `ι` over a state `σ`.  `step t a s` is the next atomic step of thread `t` under the
oracle `a`; it is `none` where that thread cannot move. -/
structure System (ι α σ : Type*) where
  start : σ → Prop
  step : ι → α → σ → Option σ

variable {ι α σ : Type*} {M : System ι α σ} {permit : σ → ι → α → Prop}

/-- The states of all runs in which every step is permitted. -/
inductive Reachable (M : System ι α σ) (permit : σ → ι → α → Prop) : σ → Prop
  | start {s : σ} (h : M.start s) : Reachable M permit s
  | step {s s' : σ} {t : ι} {a : α} (h : Reachable M permit s) (hp : permit s t a)
      (hs : M.step t a s = some s') : Reachable M permit s'

/-- No restriction on the steps of a run. -/
def anyStep : σ → ι → α → Prop := fun _ _ _ => True

instance (s : σ) (t : ι) (a : α) : Decidable (anyStep s t a) :=
  inferInstanceAs (Decidable True)

/-- A property of the start states that every permitted step keeps holds in every reachable state.
The step may use that its source is reachable, and so every invariant proved before. -/
theorem Reachable.invariant {I : σ → Prop} (hstart : ∀ s, M.start s → I s)
    (hstep : ∀ s t a s', Reachable M permit s → I s → permit s t a → M.step t a s = some s' → I s')
    {s : σ} (h : Reachable M permit s) : I s := by
  induction h with
  | start h => exact hstart _ h
  | step hr hp hs ih => exact hstep _ _ _ _ hr ih hp hs

/-- A run with fewer steps permitted is one with more. -/
theorem Reachable.mono {permit' : σ → ι → α → Prop} {s : σ} (h : Reachable M permit s)
    (hpermit : ∀ s t a, permit s t a → permit' s t a) : Reachable M permit' s := by
  induction h with
  | start h => exact .start h
  | step _ hp hs ih => exact .step ih (hpermit _ _ _ hp) hs

/-- A run from some of the start states is a run. -/
theorem Reachable.of_start {N : System ι α σ} {s : σ} (h : Reachable M permit s)
    (hstart : ∀ s, M.start s → N.start s) (hstep : M.step = N.step) : Reachable N permit s := by
  induction h with
  | start h => exact .start (hstart _ h)
  | step _ hp hs ih => exact .step ih hp (hstep ▸ hs)

/-- What one thread proves about its own step: its next assertion, what it guarantees to the other
threads, and the invariant shared by all. -/
structure OwnStep (I : ι → σ → Prop) (J : σ → Prop) (G : ι → σ → σ → Prop) (t : ι) (s s' : σ) :
    Prop where
  own : I t s'
  shared : J s'
  guarantee : G t s s'

/-- **Rely–guarantee.**  Every thread `t` has an assertion `I t` and a guarantee `G t`; `J` is
shared.  If a step of `t` establishes its next assertion and keeps its guarantee, and no assertion
is disturbed by the guarantee of another thread, then all assertions hold in every reachable
state. -/
theorem Reachable.rely_guarantee {I : ι → σ → Prop} {J : σ → Prop} {G : ι → σ → σ → Prop}
    (hstart : ∀ s, M.start s → (∀ t, I t s) ∧ J s)
    (hown : ∀ s t a s', Reachable M permit s → (∀ u, I u s) → J s → permit s t a →
      M.step t a s = some s' → OwnStep I J G t s s')
    (hframe : ∀ s s' t u, t ≠ u → (∀ v, I v s) → J s → J s' → G u s s' → I t s')
    {s : σ} (h : Reachable M permit s) : (∀ t, I t s) ∧ J s := by
  refine h.invariant hstart ?_
  rintro s u a s' hr ⟨hI, hJ⟩ hp hs
  have hu := hown s u a s' hr hI hJ hp hs
  refine ⟨fun t => ?_, hu.shared⟩
  by_cases htu : t = u
  · exact htu ▸ hu.own
  · exact hframe s s' t u htu hI hJ hu.shared hu.guarantee

/-! ## One thread alone -/

/-- The steps of `t` with nobody moving in between. -/
def System.Alone (M : System ι α σ) (t : ι) : σ → σ → Prop :=
  Relation.ReflTransGen fun s s' => ∃ a, M.step t a s = some s'

/-- What a thread does alone is part of a run. -/
theorem Reachable.alone {s s' : σ} {t : ι} (h : Reachable M anyStep s) (ha : M.Alone t s s') :
    Reachable M anyStep s' := by
  induction ha with
  | refl => exact h
  | tail _ hs ih =>
    obtain ⟨a, hs⟩ := hs
    exact .step ih trivial hs

/-! ## Going on from a state -/

/-- A run may go on from `s` to `s'`. -/
def Continues (M : System ι α σ) (permit : σ → ι → α → Prop) : σ → σ → Prop :=
  Relation.ReflTransGen fun s s' => ∃ t a, permit s t a ∧ M.step t a s = some s'

/-- A property of a reachable state that every permitted step keeps holds wherever the run goes. -/
theorem Continues.invariant {I : σ → Prop} {s s' : σ} (hc : Continues M permit s s')
    (h : Reachable M permit s) (hI : I s)
    (hstep : ∀ s t a s', Reachable M permit s → I s → permit s t a → M.step t a s = some s' → I s') :
    Reachable M permit s' ∧ I s' := by
  induction hc with
  | refl => exact ⟨h, hI⟩
  | tail _ hs ih =>
    obtain ⟨t, a, hp, hs⟩ := hs
    exact ⟨ih.1.step hp hs, hstep _ t a _ ih.1 ih.2 hp hs⟩

theorem Reachable.continues {s s' : σ} (h : Reachable M permit s)
    (hc : Continues M permit s s') : Reachable M permit s' :=
  (hc.invariant (I := fun _ => True) h trivial fun _ _ _ _ _ _ _ _ => trivial).1

/-! ## Simulation -/

/-- **Forward simulation.**  If every start state of `M` is related to one of `N`, and every step of
`M` is matched by some steps of `N`, then every run of `M` is matched by a run of `N`. -/
theorem Reachable.simulation {ι' α' τ : Type*} {N : System ι' α' τ} {permit' : τ → ι' → α' → Prop}
    {R : σ → τ → Prop} (hstart : ∀ s, M.start s → ∃ t, N.start t ∧ R s t)
    (hstep : ∀ s i a s' t, Reachable M permit s → R s t → permit s i a → M.step i a s = some s' →
      ∃ t', Continues N permit' t t' ∧ R s' t')
    {s : σ} (h : Reachable M permit s) : ∃ t, Reachable N permit' t ∧ R s t := by
  induction h with
  | start h =>
    obtain ⟨t, ht, hR⟩ := hstart _ h
    exact ⟨t, .start ht, hR⟩
  | step hr hp hs ih =>
    obtain ⟨t, ht, hR⟩ := ih
    obtain ⟨t', hc, hR'⟩ := hstep _ _ _ _ _ hr hR hp hs
    exact ⟨t', ht.continues hc, hR'⟩

/-! ## Executing a schedule -/

/-- Run a schedule: which thread steps, with which oracle.  It fails at the first step that is not
permitted or not enabled. -/
def System.exec (M : System ι α σ) (permit : σ → ι → α → Prop)
    [∀ s t a, Decidable (permit s t a)] : List (ι × α) → σ → Option σ
  | [], s => some s
  | (t, a) :: run, s => if permit s t a then (M.step t a s).bind (M.exec permit run) else none

theorem Reachable.exec [∀ s t a, Decidable (permit s t a)] {run : List (ι × α)} {s s' : σ}
    (h : Reachable M permit s) (he : M.exec permit run s = some s') : Reachable M permit s' := by
  induction run generalizing s with
  | nil => exact Option.some.inj he ▸ h
  | cons x run ih =>
    obtain ⟨t, a⟩ := x
    simp only [System.exec, Option.ite_none_right_eq_some, Option.bind_eq_some_iff] at he
    obtain ⟨hp, s₁, hs, he⟩ := he
    exact ih (.step h hp hs) he

/-- A schedule whose last state passes a test reaches such a state. -/
theorem exists_reachable_of_exec (M : System ι α σ) (permit : σ → ι → α → Prop)
    [∀ s t a, Decidable (permit s t a)] (run : List (ι × α)) (s : σ) (p : σ → Bool)
    (h : M.start s) (he : (M.exec permit run s).any p = true) :
    ∃ s', Reachable M permit s' ∧ p s' = true := by
  cases hs : M.exec permit run s with
  | none => simp [hs] at he
  | some s' =>
    rw [hs] at he
    exact ⟨s', (Reachable.start h).exec hs, he⟩

theorem Continues.of_exec [∀ s t a, Decidable (permit s t a)] {run : List (ι × α)} {s s' : σ}
    (he : M.exec permit run s = some s') : Continues M permit s s' := by
  induction run generalizing s with
  | nil => exact Option.some.inj he ▸ .refl
  | cons x run ih =>
    obtain ⟨t, a⟩ := x
    simp only [System.exec, Option.ite_none_right_eq_some, Option.bind_eq_some_iff] at he
    obtain ⟨hp, s₁, hs, he⟩ := he
    exact .head ⟨t, a, hp, hs⟩ (ih he)

/-- Two schedules, the second of which goes on where the first ends, and a test of both ends. -/
theorem exists_continues_of_exec (M : System ι α σ) (permit : σ → ι → α → Prop)
    [∀ s t a, Decidable (permit s t a)] (run rest : List (ι × α)) (s : σ) (p : σ → σ → Bool)
    (h : M.start s)
    (he : (M.exec permit run s).any (fun s₁ => (M.exec permit rest s₁).any (p s₁)) = true) :
    ∃ s₁ s₂, Reachable M permit s₁ ∧ Continues M permit s₁ s₂ ∧ p s₁ s₂ = true := by
  cases hs₁ : M.exec permit run s with
  | none => simp [hs₁] at he
  | some s₁ =>
    rw [hs₁, Option.any_some] at he
    cases hs₂ : M.exec permit rest s₁ with
    | none => simp [hs₂] at he
    | some s₂ =>
      rw [hs₂] at he
      exact ⟨s₁, s₂, (Reachable.start h).exec hs₁, .of_exec hs₂, he⟩

end Interleaving
