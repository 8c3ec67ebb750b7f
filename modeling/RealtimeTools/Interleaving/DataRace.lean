import RealtimeTools.Interleaving.System

/-!
# Data races

The memory that is not atomic is a family of places, and the next step of a thread reads or writes some
of them.  Two threads race for a place where both of them are about to access it and one is about to
write.  A place is safe if only the owner of a lock touches it, or if its only writer owns the lock when
it writes and the others own it when they read.
-/

namespace Interleaving

inductive Access
  | read
  | write
  deriving DecidableEq

variable {ι α σ μ : Type*} {M : System ι α σ} {permit : σ → ι → α → Prop}
  {access : ι → σ → μ → Option Access} {m : μ} {s : σ}

/-- Two threads are about to access `m`, one of them to write. -/
def Race (access : ι → σ → μ → Option Access) (m : μ) (s : σ) : Prop :=
  ∃ t u, t ≠ u ∧ access t s m = some .write ∧ (access u s m).isSome

/-- No run comes to a race for `m`. -/
def RaceFree (M : System ι α σ) (permit : σ → ι → α → Prop) (access : ι → σ → μ → Option Access)
    (m : μ) : Prop :=
  ∀ s, Reachable M permit s → ¬ Race access m s

/-- **Guarded places.**  Whoever accesses `m` owns its lock. -/
theorem not_race_of_owner (owner : Option ι)
    (h : ∀ t, (access t s m).isSome → owner = some t) : ¬ Race access m s := by
  rintro ⟨t, u, htu, hwrite, haccess⟩
  have ht := h t (by rw [hwrite]; rfl)
  exact htu (Option.some.inj (ht.symm.trans (h u haccess)))

/-- A race involves a thread that accesses `m` without the lock. -/
theorem Race.unguarded (h : Race access m s) (owner : Option ι) :
    ∃ t u, t ≠ u ∧ owner ≠ some t ∧ (access t s m).isSome ∧ (access u s m).isSome ∧
      (access t s m = some .write ∨ access u s m = some .write) := by
  obtain ⟨t, u, htu, hwrite, haccess⟩ := h
  have hsome : (access t s m).isSome := by rw [hwrite]; rfl
  by_cases ht : owner = some t
  · have hu : owner ≠ some u := fun hu => htu (Option.some.inj (ht.symm.trans hu))
    exact ⟨u, t, Ne.symm htu, hu, haccess, hsome, .inr hwrite⟩
  · exact ⟨t, u, htu, ht, hsome, haccess, .inl hwrite⟩

/-- **One writer.**  Only `w` writes, and owns the lock when it does; the others own it when they
read. -/
theorem not_race_of_writer (owner : Option ι) (w : ι)
    (hwrite : ∀ t, access t s m = some .write → t = w ∧ owner = some w)
    (hread : ∀ t, t ≠ w → (access t s m).isSome → owner = some t) : ¬ Race access m s := by
  rintro ⟨t, u, htu, ht, hu⟩
  obtain ⟨rfl, hown⟩ := hwrite t ht
  exact htu (Option.some.inj (hown.symm.trans (hread u (Ne.symm htu) hu)))

/-- A place that nobody writes is safe. -/
theorem not_race_of_readonly (h : ∀ t, access t s m ≠ some .write) : ¬ Race access m s := by
  rintro ⟨t, _, _, hwrite, _⟩
  exact h t hwrite

end Interleaving
