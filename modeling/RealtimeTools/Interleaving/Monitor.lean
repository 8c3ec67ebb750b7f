import Mathlib.Data.Finset.Basic

/-!
# Mutexes and condition variables

The parts of a monitor as values of the shared state: a mutex is the thread that owns it, a
condition variable is the set of threads blocked in `wait` that no notification has reached since
they blocked.  Notifications are not remembered: one that finds nobody blocked is lost.
-/

namespace Interleaving

/-- One background thread of an object, and the threads `κ` that call its methods. -/
inductive Thread (κ : Type*)
  | worker
  | client (k : κ)
  deriving DecidableEq

/-- The thread that owns the mutex. -/
abbrev Mutex (ι : Type*) := Option ι

/-- The threads blocked in `wait` that have not been notified since they blocked. -/
abbrev CondVar (ι : Type*) := Finset ι

/-- What a step of `t` may do to a mutex: leave it, take it when it is free, or release its own. -/
inductive MutexStep {ι : Type*} (t : ι) : Mutex ι → Mutex ι → Prop
  | keep (m : Mutex ι) : MutexStep t m m
  | acquire : MutexStep t none (some t)
  | release : MutexStep t (some t) none

namespace MutexStep

variable {ι : Type*} {t u : ι} {m m' : Mutex ι}

/-- No other thread can take the mutex from its owner. -/
theorem owner_kept (h : MutexStep u m m') (htu : t ≠ u) (hm : m = some t) : m' = some t := by
  cases h with
  | keep => exact hm
  | acquire => cases hm
  | release => exact absurd (Option.some.inj hm).symm htu

/-- Whether a thread owns the mutex is up to that thread. -/
theorem owner_iff (h : MutexStep u m m') (htu : t ≠ u) : m' = some t ↔ m = some t := by
  refine ⟨fun hm => ?_, h.owner_kept htu⟩
  cases h with
  | keep => exact hm
  | acquire => exact absurd (Option.some.inj hm).symm htu
  | release => cases hm

end MutexStep

namespace Mutex

variable {ι : Type*}

/-- `std::try_to_lock`: whether `t` owns the mutex now, and the mutex.  The attempt may fail although
the mutex is free. -/
def tryLock (m : Mutex ι) (t : ι) (spuriousFail : Bool) : Bool × Mutex ι :=
  if m = none ∧ spuriousFail = false then (true, some t) else (false, m)

theorem tryLock_cases (m : Mutex ι) (t : ι) (spuriousFail : Bool) :
    (m = none ∧ m.tryLock t spuriousFail = (true, some t)) ∨
      m.tryLock t spuriousFail = (false, m) := by
  unfold tryLock
  split
  · rename_i h
    exact .inl ⟨h.1, rfl⟩
  · exact .inr rfl

end Mutex

namespace CondVar

variable {ι : Type*} [DecidableEq ι] {c c' : CondVar ι} {t w : ι}

/-- `t` releases the mutex and blocks. -/
def wait (c : CondVar ι) (t : ι) : CondVar ι := insert t c

/-- `t` stops waiting: because it was notified, or spuriously. -/
def wake (c : CondVar ι) (t : ι) : CondVar ι := c.erase t

/-- `notify_one` releases one blocked thread `t`, chosen by the scheduler; with nobody blocked it
has no effect. -/
def notifyOne (c : CondVar ι) (t : ι) : Option (CondVar ι) :=
  if t ∈ c ∨ c = ∅ then some (c.erase t) else none

/-- `notify_all` releases every blocked thread. -/
def notifyAll (_ : CondVar ι) : CondVar ι := ∅

@[simp] theorem mem_wait {u : ι} : u ∈ c.wait t ↔ u = t ∨ u ∈ c := Finset.mem_insert

@[simp] theorem mem_wake {u : ι} : u ∈ c.wake t ↔ u ≠ t ∧ u ∈ c := Finset.mem_erase

omit [DecidableEq ι] in
@[simp] theorem not_mem_notifyAll : t ∉ c.notifyAll := Finset.notMem_empty t

theorem wake_subset : c.wake t ⊆ c := Finset.erase_subset t c

theorem notifyOne_subset (h : c.notifyOne t = some c') : c' ⊆ c := by
  simp only [notifyOne, Option.ite_none_right_eq_some, Option.some.injEq] at h
  exact h.2 ▸ Finset.erase_subset t c

/-- A notification never blocks. -/
theorem exists_notifyOne (c : CondVar ι) (t : ι) : ∃ w c', c.notifyOne w = some c' := by
  rcases c.eq_empty_or_nonempty with rfl | ⟨w, hw⟩
  · exact ⟨t, _, if_pos (.inr rfl)⟩
  · exact ⟨w, _, if_pos (.inl hw)⟩

/-- A notification reaches the only thread that can be waiting. -/
theorem not_mem_of_notifyOne (hc : c ⊆ {w}) (h : c.notifyOne t = some c') : w ∉ c' := by
  simp only [notifyOne, Option.ite_none_right_eq_some, Option.some.injEq] at h
  obtain ⟨ht | rfl, rfl⟩ := h
  · rw [Finset.mem_singleton.mp (hc ht)]
    exact Finset.notMem_erase w c
  · exact fun hw => Finset.notMem_empty w (Finset.erase_subset _ _ hw)

theorem wait_subset_singleton (hc : c ⊆ {w}) : c.wait w ⊆ {w} :=
  Finset.insert_subset (Finset.mem_singleton_self w) hc

end CondVar

/-! ## One thread moves -/

section Moves

variable {κ π : Type*} [DecidableEq κ] {p : π → Prop} {f : κ → π} {k : κ} {v : π}

/-- Some thread stays at `p` if the thread that moves keeps it. -/
theorem exists_update (h : ∃ j, p (f j)) (hk : p (f k) → p v) :
    ∃ j, p (Function.update f k v j) := by
  obtain ⟨j, hj⟩ := h
  by_cases hjk : j = k
  · exact ⟨k, by rw [Function.update_self]; exact hk (hjk ▸ hj)⟩
  · exact ⟨j, by rw [Function.update_of_ne hjk]; exact hj⟩

end Moves

end Interleaving
