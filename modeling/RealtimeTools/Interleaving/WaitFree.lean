import Mathlib.Data.List.Count
import RealtimeTools.Interleaving.System

/-!
# Bounded numbers of steps

A call is wait-free if its thread can always move and comes to the end of the call after a bounded
number of its own steps, whatever the other threads do in between.  `Proceeds` keeps the threads that have moved, so that steps
can be counted; a rank that the counted steps lower and the others do not raise bounds them.
-/

namespace Interleaving

variable {ι α σ : Type*} {M : System ι α σ} {permit : σ → ι → α → Prop}

/-- A run may go on from `s` to a state by steps of these threads, in this order. -/
inductive Proceeds (M : System ι α σ) (permit : σ → ι → α → Prop) (s : σ) : List ι → σ → Prop
  | refl : Proceeds M permit s [] s
  | step {movers : List ι} {s' s'' : σ} {t : ι} {a : α} (h : Proceeds M permit s movers s')
      (hp : permit s' t a) (hs : M.step t a s' = some s'') :
      Proceeds M permit s (movers ++ [t]) s''

/-- Steps that begin while `busy` holds. -/
def During (busy : σ → Prop) (permit : σ → ι → α → Prop) : σ → ι → α → Prop :=
  fun s t a => busy s ∧ permit s t a

/-- What a step does to a rank: it lowers it if it is counted, and does not raise it in any case. -/
def Lowers (rank : σ → ℕ) (counted : Prop) (s s' : σ) : Prop :=
  (counted → rank s' < rank s) ∧ (¬ counted → rank s' ≤ rank s)

/-- Along a run a rank falls by at least the number of the steps that lower it. -/
theorem Proceeds.countP_add_rank_le {I : σ → Prop} (rank : σ → ℕ) (counted : ι → Bool)
    {movers : List ι} {s s' : σ} (h : Proceeds M permit s movers s') (hs : I s)
    (hstep : ∀ s u a s', I s → permit s u a → M.step u a s = some s' →
      I s' ∧ Lowers rank (counted u = true) s s') : movers.countP counted + rank s' ≤ rank s := by
  have hinv : I s' ∧ movers.countP counted + rank s' ≤ rank s := by
    induction h with
    | refl => exact ⟨hs, by simp⟩
    | @step movers s' s'' u a h hp hstep' ih =>
      obtain ⟨hI, hle⟩ := ih
      obtain ⟨hI', hown, hothers⟩ := hstep s' u a s'' hI hp hstep'
      refine ⟨hI', ?_⟩
      rw [List.countP_append, List.countP_singleton]
      split
      · rename_i hcounted
        have hlt := hown hcounted
        omega
      · rename_i hcounted
        have hle' := hothers hcounted
        omega
  exact hinv.2

/-- **The rule for drains.**  If wherever a rank is positive some permitted step lowers it, then a run
may go on until it is zero. -/
theorem Proceeds.exists_rank_zero {I : σ → Prop} (rank : σ → ℕ) {s : σ} (hs : I s)
    (hstep : ∀ s, I s → 0 < rank s → ∃ t a s', permit s t a ∧ M.step t a s = some s' ∧ I s' ∧
      rank s' < rank s) : ∃ movers s', Proceeds M permit s movers s' ∧ I s' ∧ rank s' = 0 := by
  have hdrain : ∀ n movers s', Proceeds M permit s movers s' → I s' → rank s' = n →
      ∃ movers s', Proceeds M permit s movers s' ∧ I s' ∧ rank s' = 0 := by
    intro n
    induction n using Nat.strongRecOn with
    | ind n ih =>
      intro movers s' h hI hn
      rcases Nat.eq_zero_or_pos (rank s') with hzero | hpos
      · exact ⟨movers, s', h, hI, hzero⟩
      · obtain ⟨t, a, s'', hp, hs, hI', hlt⟩ := hstep s' hI hpos
        exact ih (rank s'') (hn ▸ hlt) _ s'' (h.step hp hs) hI' rfl
  exact hdrain (rank s) [] s .refl hs rfl

/-! ## One thread -/

/-- While `busy` holds, `t` can always move, and moves at most `bound` times. -/
structure WaitFree [DecidableEq ι] (M : System ι α σ) (permit : σ → ι → α → Prop) (t : ι)
    (busy : σ → Prop) (bound : ℕ) : Prop where
  enabled : ∀ s, Reachable M permit s → busy s → ∃ a s', M.step t a s = some s'
  bounded : ∀ s movers s', Reachable M permit s →
    Proceeds M (During busy permit) s movers s' → movers.count t ≤ bound

/-- **The rule for wait-freedom.**  A rank that is at most `bound`, that every step of `t` lowers and
that no step of another thread raises while `busy` holds. -/
theorem WaitFree.of_rank [DecidableEq ι] {t : ι} {busy : σ → Prop} {bound : ℕ} (rank : σ → ℕ)
    (henabled : ∀ s, Reachable M permit s → busy s → ∃ a s', M.step t a s = some s')
    (hbound : ∀ s, Reachable M permit s → rank s ≤ bound)
    (hlowers : ∀ s u a s', Reachable M permit s → busy s → permit s u a →
      M.step u a s = some s' → Lowers rank (u = t) s s') : WaitFree M permit t busy bound where
  enabled := henabled
  bounded := by
    intro s movers s' hr hf
    have hle := hf.countP_add_rank_le (I := Reachable M permit) rank (· == t) hr
      fun s u a s' hI hp hs => by
        refine ⟨hI.step hp.2 hs, ?_⟩
        rw [beq_iff_eq]
        exact hlowers s u a s' hI hp.1 hp.2 hs
    have hbound := hbound s hr
    rw [List.count_eq_countP]
    omega

/-! ## All threads -/

/-- If every step lowers a rank while `busy` holds, then no more steps than the rank can be made. -/
theorem Proceeds.length_le_rank {busy : σ → Prop} (rank : σ → ℕ) {movers : List ι} {s s' : σ}
    (h : Proceeds M (During busy permit) s movers s') (hr : Reachable M permit s)
    (hlowers : ∀ s u a s', Reachable M permit s → busy s → permit s u a →
      M.step u a s = some s' → rank s' < rank s) : movers.length ≤ rank s := by
  have hle := h.countP_add_rank_le (I := Reachable M permit) rank (fun _ => true) hr
    fun s u a s' hI hp hs =>
      ⟨hI.step hp.2 hs, fun _ => hlowers s u a s' hI hp.1 hp.2 hs, fun hnot => absurd rfl hnot⟩
  rw [List.countP_true] at hle
  omega

end Interleaving
