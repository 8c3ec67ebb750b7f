import Mathlib.Logic.Function.Basic
import RealtimeTools.Interleaving.Observation
import RealtimeTools.Sequential.Object

/-!
# Atomic objects

An object shared by many threads whose every operation takes effect in one step, at some moment
between its call and its return.  An implementation that matches the calls and returns of such an
object, run by run, is linearizable: the moments order the operations, and the results are those of
that order.  Where the moment is known, it can be watched as well: the operations are logged with their
results at the steps where they take effect.
-/

namespace Interleaving

open Sequential

/-- A call is made, or returns. -/
inductive CallEvent (κ ω ρ : Type*)
  | called (k : κ) (op : ω)
  | returned (k : κ) (result : ρ)
  deriving DecidableEq

/-- Where a thread is: outside, inside before the operation has taken effect, or after. -/
inductive CallPc (ω ρ : Type*)
  | idle
  | pending (op : ω)
  | done (result : ρ)

structure AtomicState (κ ω σ ρ : Type*) where
  value : σ
  pc : κ → CallPc ω ρ
  history : List (CallEvent κ ω ρ)

variable {κ ω σ ρ : Type*} [DecidableEq κ]

namespace AtomicState

def call (t : AtomicState κ ω σ ρ) (k : κ) (op : ω) : AtomicState κ ω σ ρ where
  value := t.value
  pc := Function.update t.pc k (.pending op)
  history := t.history ++ [.called k op]

/-- The operation of `k` takes effect. -/
def commit (t : AtomicState κ ω σ ρ) (k : κ) (r : σ × ρ) : AtomicState κ ω σ ρ where
  value := r.1
  pc := Function.update t.pc k (.done r.2)
  history := t.history

def finish (t : AtomicState κ ω σ ρ) (k : κ) (result : ρ) : AtomicState κ ω σ ρ where
  value := t.value
  pc := Function.update t.pc k .idle
  history := t.history ++ [.returned k result]

end AtomicState

def atomicStep (M : Object ω σ ρ) (k : κ) (op : ω) (t : AtomicState κ ω σ ρ) :
    Option (AtomicState κ ω σ ρ) :=
  match t.pc k with
  | .idle => some (t.call k op)
  | .pending op => (M op t.value).map (t.commit k)
  | .done result => some (t.finish k result)

/-- All runs of any threads over the object `M`; the oracle of a step is the next call. -/
def atomicObject (κ : Type*) [DecidableEq κ] (M : Object ω σ ρ) (start : σ → Prop) :
    System κ ω (AtomicState κ ω σ ρ) where
  start t := start t.value ∧ (∀ k, t.pc k = .idle) ∧ t.history = []
  step := atomicStep M

variable {M : Object ω σ ρ} {start : σ → Prop} {t : AtomicState κ ω σ ρ} {k : κ} {op : ω}

theorem continues_call (op : ω) (h : t.pc k = .idle) :
    Continues (atomicObject κ M start) anyStep t (t.call k op) := by
  refine .single ⟨k, op, trivial, ?_⟩
  simp only [atomicObject, atomicStep, h]

theorem continues_commit {r : σ × ρ} (h : t.pc k = .pending op) (hr : M op t.value = some r) :
    Continues (atomicObject κ M start) anyStep t (t.commit k r) := by
  refine .single ⟨k, op, trivial, ?_⟩
  simp only [atomicObject, atomicStep, h, hr, Option.map_some]

theorem continues_finish (op : ω) {result : ρ} (h : t.pc k = .done result) :
    Continues (atomicObject κ M start) anyStep t (t.finish k result) := by
  refine .single ⟨k, op, trivial, ?_⟩
  simp only [atomicObject, atomicStep, h]

/-- An operation that takes effect and returns at once. -/
theorem continues_commit_finish {r : σ × ρ} (h : t.pc k = .pending op)
    (hr : M op t.value = some r) :
    Continues (atomicObject κ M start) anyStep t ((t.commit k r).finish k r.2) :=
  (continues_commit h hr).trans (continues_finish op (Function.update_self k _ t.pc))

/-! ## Watching the moments -/

/-- What is seen of a step is an operation that takes effect with its result, or nothing. -/
def Performs (M : Object ω σ ρ) (seen : Option (ω × ρ)) (v v' : σ) : Prop :=
  match seen with
  | some (op, result) => M op v = some (v', result)
  | none => v' = v

/-- The operations seen in a run of `N` have the results they have on `M` one after the other. -/
def Linearizable {ι α τ : Type*} (N : System ι α τ) (permit : τ → ι → α → Prop) (M : Object ω σ ρ)
    (v₀ : σ) (view : ι → α → τ → Option (ω × ρ)) : Prop :=
  ∀ s log, Reachable (N.observed view) (unlogged permit) (s, log) →
    ∃ v, M.run (log.map Prod.fst) v₀ = some (v, log.map Prod.snd)

omit [DecidableEq κ] in
/-- **Linearization.**  It is enough that every step performs what is seen of it on a value that stands
for the state. -/
theorem Linearizable.of_step {ι α τ : Type*} {N : System ι α τ} {permit : τ → ι → α → Prop}
    {view : ι → α → τ → Option (ω × ρ)} {v₀ : σ} (R : σ → τ → Prop) (hstart : ∀ s, N.start s → R v₀ s)
    (hstep : ∀ s i a s' v, Reachable N permit s → R v s → permit s i a → N.step i a s = some s' →
      ∃ v', Performs M (view i a s) v v' ∧ R v' s') : Linearizable N permit M v₀ view := by
  intro s log h
  suffices hrun : ∀ s : τ × List (ω × ρ), Reachable (N.observed view) (unlogged permit) s →
      ∃ v, M.run (s.2.map Prod.fst) v₀ = some (v, s.2.map Prod.snd) ∧ R v s.1 by
    obtain ⟨v, hv, _⟩ := hrun (s, log) h
    exact ⟨v, hv⟩
  intro s h
  induction h with
  | start h => exact ⟨v₀, by simp [h.2, Object.run], hstart _ h.1⟩
  | @step s s' i a hr hp hs ih =>
    obtain ⟨v, hrun, hR⟩ := ih
    obtain ⟨hs, hlog⟩ := observed_step_iff.mp hs
    obtain ⟨v', hperforms, hR'⟩ := hstep s.1 i a s'.1 v hr.of_observed hR hp hs
    refine ⟨v', ?_, hR'⟩
    unfold Performs at hperforms
    rw [hlog]
    split at hperforms
    · rename_i op result hseen
      simp only [hseen, Option.toList_some, List.map_append, List.map_cons, List.map_nil]
      exact Object.run_concat hrun hperforms
    · rename_i hseen
      subst hperforms
      simpa [hseen] using hrun

end Interleaving
