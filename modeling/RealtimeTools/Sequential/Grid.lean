import Mathlib.Algebra.Order.ToIntervalMod
import Mathlib.Data.Int.Order.Basic
import Mathlib.Tactic.Ring

/-!
# Grids

The points `origin + n • step` of an ordered group, and the first of them that is not before a given
point.  Over the integers: how far steps of the whole part of a fraction get when they are counted in
steps of the fraction.
-/

/-- Equally spaced points. -/
structure Grid (α : Type*) [AddCommGroup α] [LinearOrder α] where
  origin : α
  step : α
  step_pos : 0 < step

namespace Grid

section Group

variable {α : Type*} [AddCommGroup α] [LinearOrder α] [IsOrderedAddMonoid α] [Archimedean α]
  {g : Grid α} {t : α} {n : ℤ}

def point (g : Grid α) (n : ℤ) : α := g.origin + n • g.step

/-- The first point that is not before `t`. -/
noncomputable def next (g : Grid α) (t : α) : α := toIcoMod g.step_pos t g.origin

theorem le_next : t ≤ g.next t := left_le_toIcoMod g.step_pos t g.origin

theorem next_lt : g.next t < t + g.step := toIcoMod_lt_right g.step_pos t g.origin

theorem point_eq_next_iff : g.point n = g.next t ↔ t ≤ g.point n ∧ g.point n < t + g.step := by
  refine ⟨fun h => h ▸ ⟨le_next, next_lt⟩, fun h => ?_⟩
  refine ((toIcoMod_eq_iff g.step_pos).mpr ⟨h, -n, ?_⟩).symm
  rw [point, neg_smul, add_neg_cancel_right]

theorem next_origin : g.next g.origin = g.origin := toIcoMod_apply_left g.step_pos g.origin

end Group

/-! ## Steps of a whole part -/

section Counted

variable {N r d k : ℤ}

/-- `k` is the least number of steps of `N / r`, exactly, that cover the distance `d`. -/
def Counted (N r d k : ℤ) : Prop := ∀ m, m < k ↔ m * N < d * r

/-- Steps of the whole part never get a step too far. -/
theorem Counted.lt_add (h : Counted N r d k) (hr : 0 < r) (hd : 0 < d) :
    k * (N / r) < d + N / r := by
  have hk : 0 ≤ k - 1 := by
    have hpos : (0 : ℤ) < k := (h 0).mpr (by rw [zero_mul]; exact mul_pos hd hr)
    omega
  have hlast : (k - 1) * N < d * r := (h (k - 1)).mp (by omega)
  have hfloor : (k - 1) * (N / r * r) ≤ (k - 1) * N :=
    mul_le_mul_of_nonneg_left (Int.ediv_mul_le N hr.ne') hk
  have hless : (k - 1) * (N / r) < d := by
    refine lt_of_mul_lt_mul_right ?_ hr.le
    calc (k - 1) * (N / r) * r = (k - 1) * (N / r * r) := mul_assoc _ _ _
      _ ≤ (k - 1) * N := hfloor
      _ < d * r := hlast
  calc k * (N / r) = (k - 1) * (N / r) + N / r := by ring
    _ < d + N / r := by omega

/-- They get far enough if the fractions left out of the steps before the last add up to less than what
these steps leave of the distance. -/
theorem Counted.le_iff (h : Counted N r d k) (hp : 0 < N / r) :
    d ≤ k * (N / r) ↔ (d - 1) / (N / r) * (N % r) < ((d - 1) % (N / r) + 1) * r := by
  have hsplit : d = N / r * ((d - 1) / (N / r)) + (d - 1) % (N / r) + 1 := by
    have := Int.mul_ediv_add_emod (d - 1) (N / r)
    omega
  have hN : N = r * (N / r) + N % r := (Int.mul_ediv_add_emod N r).symm
  generalize hq : (d - 1) / (N / r) = q at hsplit ⊢
  generalize hs : (d - 1) % (N / r) = s at hsplit ⊢
  have hstep : q * N < d * r ↔ q * (N % r) < (s + 1) * r := by
    have hleft : q * N = q * (r * (N / r)) + q * (N % r) := by rw [← mul_add, ← hN]
    have hright : d * r = q * (r * (N / r)) + (s + 1) * r := by rw [hsplit]; ring
    rw [hleft, hright]
    exact add_lt_add_iff_left _
  calc d ≤ k * (N / r) ↔ d - 1 < k * (N / r) := Int.sub_one_lt_iff.symm
    _ ↔ q < k := by rw [← hq]; exact (Int.ediv_lt_iff_lt_mul hp).symm
    _ ↔ q * N < d * r := h q
    _ ↔ q * (N % r) < (s + 1) * r := hstep

end Counted

end Grid
