import RealtimeTools.Interleaving.Monitor
import RealtimeTools.Interleaving.WaitFree

/-!
# Critical sections

If the program points of every thread tell whether it is inside its critical section, and each of its
steps agrees with that, then the owner of the mutex is the thread inside (`Sections.owner_iff`).  If they
also tell how many steps the thread has left inside, then nobody keeps the mutex for more than so many
(`BoundedSections.waitFree`).
-/

namespace Interleaving

variable {ι α σ : Type*} {M : System ι α σ} {permit : σ → ι → α → Prop} {mutex : σ → Mutex ι}

/-! ## Inside and outside -/

/-- What a step of `t` does to the mutex, by whether `t` is in its critical section before it and after
it. -/
inductive SectionStep (t : ι) (before after : Prop) : Mutex ι → Mutex ι → Prop
  | outside (m : Mutex ι) (h : ¬ before) (h' : ¬ after) : SectionStep t before after m m
  | enter (h : ¬ before) (h' : after) : SectionStep t before after none (some t)
  | inside (m : Mutex ι) (h : before) (h' : after) : SectionStep t before after m m
  | leave (h : before) (h' : ¬ after) : SectionStep t before after (some t) none

namespace SectionStep

variable {t : ι} {before after : Prop} {m m' : Mutex ι}

theorem mutexStep (h : SectionStep t before after m m') : MutexStep t m m' := by
  cases h with
  | outside | inside => exact .keep _
  | enter => exact .acquire
  | leave => exact .release

theorem owner_iff (h : SectionStep t before after m m') (howner : m = some t ↔ before) :
    m' = some t ↔ after := by
  cases h with
  | outside _ hb ha => exact howner.trans (iff_of_false hb ha)
  | enter hb ha => exact iff_of_true rfl ha
  | inside _ hb ha => exact howner.trans (iff_of_true hb ha)
  | leave hb ha => exact iff_of_false (fun hm => nomatch hm) ha

end SectionStep

/-- Each thread knows whether it is `inside` its critical section. -/
structure Sections (M : System ι α σ) (permit : σ → ι → α → Prop) (mutex : σ → Mutex ι)
    (inside : ι → σ → Prop) : Prop where
  start : ∀ s, M.start s → mutex s = none ∧ ∀ t, ¬ inside t s
  own : ∀ s t a s', Reachable M permit s → permit s t a → M.step t a s = some s' →
    SectionStep t (inside t s) (inside t s') (mutex s) (mutex s')
  others : ∀ s t a s' u, Reachable M permit s → permit s t a → M.step t a s = some s' → u ≠ t →
    (inside u s' ↔ inside u s)

/-- **Mutual exclusion.**  The owner of the mutex is the thread in its critical section. -/
theorem Sections.owner_iff {inside : ι → σ → Prop} (h : Sections M permit mutex inside) {s : σ}
    (hr : Reachable M permit s) (t : ι) : mutex s = some t ↔ inside t s := by
  refine hr.invariant (I := fun s => ∀ t, mutex s = some t ↔ inside t s) ?_ ?_ t
  · intro s hs t
    obtain ⟨hmutex, hinside⟩ := h.start s hs
    exact iff_of_false (by simp [hmutex]) (hinside t)
  · intro s u a s' hr hI hp hs t
    have hstep := h.own s u a s' hr hp hs
    by_cases htu : t = u
    · subst htu
      exact hstep.owner_iff (hI t)
    · rw [hstep.mutexStep.owner_iff htu, h.others s u a s' t hr hp hs htu]
      exact hI t

/-! ## Bounded sections -/

/-- The same, by the steps that `t` has left inside; outside there are none. -/
inductive BoundedStep (t : ι) (n n' : ℕ) : Mutex ι → Mutex ι → Prop
  | outside (m : Mutex ι) (h : n = 0) (h' : n' = 0) : BoundedStep t n n' m m
  | enter (h : n = 0) (h' : 0 < n') : BoundedStep t n n' none (some t)
  | inside (m : Mutex ι) (h : 0 < n') (hlt : n' < n) : BoundedStep t n n' m m
  | leave (h : 0 < n) (h' : n' = 0) : BoundedStep t n n' (some t) none

namespace BoundedStep

variable {t : ι} {n n' : ℕ} {m m' : Mutex ι}

theorem sectionStep (h : BoundedStep t n n' m m') : SectionStep t (0 < n) (0 < n') m m' := by
  cases h with
  | outside _ hn hn' => exact .outside _ (Nat.not_lt.mpr hn.le) (Nat.not_lt.mpr hn'.le)
  | enter hn hn' => exact .enter (Nat.not_lt.mpr hn.le) hn'
  | inside _ hn' hlt => exact .inside _ (Nat.zero_lt_of_lt hlt) hn'
  | leave hn hn' => exact .leave hn (Nat.not_lt.mpr hn'.le)

theorem lt (h : BoundedStep t n n' m m') (hn : 0 < n) : n' < n := by
  cases h with
  | outside _ hzero _ | enter hzero _ => exact absurd hzero (Nat.ne_of_gt hn)
  | inside _ _ hlt => exact hlt
  | leave _ hn' => exact hn' ▸ hn

end BoundedStep

/-- Each thread knows how many steps it has `left` before it gives the mutex back. -/
structure BoundedSections (M : System ι α σ) (permit : σ → ι → α → Prop) (mutex : σ → Mutex ι)
    (left : ι → σ → ℕ) : Prop where
  start : ∀ s, M.start s → mutex s = none ∧ ∀ t, left t s = 0
  own : ∀ s t a s', Reachable M permit s → permit s t a → M.step t a s = some s' →
    BoundedStep t (left t s) (left t s') (mutex s) (mutex s')
  others : ∀ s t a s' u, Reachable M permit s → permit s t a → M.step t a s = some s' → u ≠ t →
    left u s' = left u s

namespace BoundedSections

variable {left : ι → σ → ℕ}

theorem sections (h : BoundedSections M permit mutex left) :
    Sections M permit mutex (fun t s => 0 < left t s) where
  start s hs := ⟨(h.start s hs).1, fun t => Nat.not_lt.mpr ((h.start s hs).2 t).le⟩
  own s t a s' hr hp hs := (h.own s t a s' hr hp hs).sectionStep
  others s t a s' u hr hp hs hut := by rw [h.others s t a s' u hr hp hs hut]

theorem owner_iff (h : BoundedSections M permit mutex left) {s : σ} (hr : Reachable M permit s)
    (t : ι) : mutex s = some t ↔ 0 < left t s :=
  h.sections.owner_iff hr t

/-- **Bounded critical sections.**  If a thread can move everywhere in its critical section, then it is
never blocked while it owns the mutex, and gives it back after so many steps. -/
theorem waitFree [DecidableEq ι] (h : BoundedSections M permit mutex left) (t : ι) {bound : ℕ}
    (hbound : ∀ s, left t s ≤ bound)
    (henabled : ∀ s, Reachable M permit s → 0 < left t s → ∃ a s', M.step t a s = some s') :
    WaitFree M permit t (fun s => mutex s = some t) bound := by
  refine .of_rank (left t) (fun s hr hown => henabled s hr ((h.owner_iff hr t).mp hown))
    (fun s _ => hbound s) fun s u a s' hr hown hp hs => ⟨?_, fun hut => ?_⟩
  · rintro rfl
    exact (h.own s u a s' hr hp hs).lt ((h.owner_iff hr u).mp hown)
  · exact (h.others s u a s' t hr hp hs (Ne.symm hut)).le

end BoundedSections

end Interleaving
