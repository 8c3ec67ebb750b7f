import RealtimeTools.Interleaving.History
import RealtimeTools.Interleaving.System

/-!
# Observed runs

A system can be run with a log beside its state, to which every step adds what an observer sees of
it.  The log does not take part: the observed runs are the runs, each with its log.
-/

namespace Interleaving

variable {ι α σ ε : Type*} {M : System ι α σ} {view : ι → α → σ → Option ε}
  {permit : σ → ι → α → Prop} {P : List ε → ε → Prop}

/-- `view t a s` is what is seen of a step of `t` from the state `s`. -/
def System.observed (M : System ι α σ) (view : ι → α → σ → Option ε) : System ι α (σ × List ε) where
  start s := M.start s.1 ∧ s.2 = []
  step t a s := (M.step t a s.1).map fun s' => (s', s.2 ++ (view t a s.1).toList)

/-- A restriction of the steps that does not look at the log. -/
def unlogged (permit : σ → ι → α → Prop) (s : σ × List ε) : ι → α → Prop := permit s.1

instance [∀ s t a, Decidable (permit s t a)] (s : σ × List ε) (t : ι) (a : α) :
    Decidable (unlogged permit s t a) :=
  inferInstanceAs (Decidable (permit s.1 t a))

theorem observed_step_iff {t : ι} {a : α} {s s' : σ × List ε} :
    (M.observed view).step t a s = some s' ↔
      M.step t a s.1 = some s'.1 ∧ s'.2 = s.2 ++ (view t a s.1).toList := by
  show (M.step t a s.1).map _ = some s' ↔ _
  rw [Option.map_eq_some_iff]
  constructor
  · rintro ⟨s₁, hs, rfl⟩
    exact ⟨hs, rfl⟩
  · rintro ⟨hs, hlog⟩
    exact ⟨s'.1, hs, Prod.ext rfl hlog.symm⟩

/-- An observed run is a run. -/
theorem Reachable.of_observed {s : σ × List ε}
    (h : Reachable (M.observed view) (unlogged permit) s) : Reachable M permit s.1 := by
  induction h with
  | start h => exact .start h.1
  | step _ hp hs ih => exact .step ih hp (observed_step_iff.mp hs).1

/-- Every run can be observed. -/
theorem Reachable.observed (view : ι → α → σ → Option ε) {s : σ} (h : Reachable M permit s) :
    ∃ log, Reachable (M.observed view) (unlogged permit) (s, log) := by
  induction h with
  | start h => exact ⟨[], .start ⟨h, rfl⟩⟩
  | step _ hp hs ih =>
    obtain ⟨log, hlog⟩ := ih
    exact ⟨_, .step hlog hp (observed_step_iff.mpr ⟨hs, rfl⟩)⟩

/-- Every logged event is justified by the log before it, if that is so for each event a step adds. -/
theorem Justified.observe {log : List ε} {seen : Option ε} (h : Justified P log)
    (he : ∀ e, seen = some e → P log e) : Justified P (log ++ seen.toList) := by
  cases seen with
  | none => rwa [Option.toList_none, List.append_nil]
  | some e => exact justified_concat.mpr ⟨h, he e rfl⟩

end Interleaving
