import Mathlib.Data.Option.Basic

/-!
# Objects used by one caller

An object answers operations `ω` with results `ρ`.  `Object.run` is a sequence of operations, each
run to completion, and `Object.run_map` says when a function of the state is a refinement: it carries
every run of one object to a run of another with the same results.
-/

namespace Sequential

variable {ω σ τ ρ : Type*}

/-- What an operation does to the state and what it returns; `none` where it is not allowed. -/
abbrev Object (ω σ ρ : Type*) := ω → σ → Option (σ × ρ)

namespace Object

/-- A sequence of operations, with the results in order. -/
def run (M : Object ω σ ρ) : List ω → σ → Option (σ × List ρ)
  | [], s => some (s, [])
  | op :: ops, s => (M op s).bind fun r => (M.run ops r.1).map fun rs => (rs.1, r.2 :: rs.2)

/-- `f` maps the states of `M` that satisfy `I` to those of `A`, and operations commute with it. -/
structure Refines (M : Object ω σ ρ) (A : Object ω τ ρ) (I : σ → Prop) (f : σ → τ) : Prop where
  invariant : ∀ op s s' r, I s → M op s = some (s', r) → I s'
  commutes : ∀ op s, I s → (M op s).map (Prod.map f id) = A op (f s)

variable {M : Object ω σ ρ} {A : Object ω τ ρ} {I : σ → Prop} {f : σ → τ}

/-- **Refinement.**  A run of `M` is defined where the run of `A` is, and has the same results. -/
theorem run_map (h : M.Refines A I f) {s : σ} (hs : I s) (ops : List ω) :
    (M.run ops s).map (Prod.map f id) = A.run ops (f s) := by
  induction ops generalizing s with
  | nil => rfl
  | cons op ops ih =>
    have hop := h.commutes op s hs
    cases hM : M op s with
    | none =>
      rw [hM] at hop
      simp [run, hM, ← hop]
    | some r =>
      rw [hM] at hop
      have hrest := ih (h.invariant op s r.1 r.2 hs hM)
      simp only [run, hM, ← hop, Option.map_some, Option.bind_some, Prod.map_fst, Prod.map_snd,
        ← hrest, Option.map_map]
      rfl

/-- What every operation preserves holds after a run. -/
theorem run_invariant (h : ∀ op s s' r, I s → M op s = some (s', r) → I s') {ops : List ω}
    {s s' : σ} {rs : List ρ} (hs : I s) (hrun : M.run ops s = some (s', rs)) : I s' := by
  induction ops generalizing s rs with
  | nil =>
    obtain ⟨rfl, _⟩ : s = s' ∧ [] = rs := by simpa [run] using hrun
    exact hs
  | cons op ops ih =>
    simp only [run, Option.bind_eq_some_iff, Option.map_eq_some_iff] at hrun
    obtain ⟨r, hop, rest, hrest, he⟩ := hrun
    obtain ⟨rfl, _⟩ : rest.1 = s' ∧ r.2 :: rest.2 = rs := by simpa using he
    exact ih (h op s r.1 r.2 hs hop) hrest

/-- One more operation. -/
theorem run_concat {ops : List ω} {op : ω} {s s' s'' : σ} {rs : List ρ} {r : ρ}
    (h : M.run ops s = some (s', rs)) (hop : M op s' = some (s'', r)) :
    M.run (ops ++ [op]) s = some (s'', rs ++ [r]) := by
  induction ops generalizing s rs with
  | nil =>
    obtain ⟨rfl, rfl⟩ : s = s' ∧ [] = rs := by simpa [run] using h
    simp [run, hop]
  | cons first ops ih =>
    simp only [run, Option.bind_eq_some_iff, Option.map_eq_some_iff] at h
    obtain ⟨r₁, hfirst, rs₁, hrest, he⟩ := h
    obtain ⟨rfl, rfl⟩ : rs₁.1 = s' ∧ r₁.2 :: rs₁.2 = rs := by simpa using he
    simp [run, hfirst, ih hrest]

end Object

end Sequential
