import Mathlib.Data.Nat.Basic

/-!
# Robust mutexes

A POSIX mutex that survives the death of its owner.  The next thread to lock it gets `EOWNERDEAD`
and owns a mutex that is inconsistent, until it calls `pthread_mutex_consistent`; where it unlocks
the mutex without that, nobody can lock it again.  Each function returns its code and the mutex it
leaves; a failing call leaves the mutex as it was.
-/

namespace Interleaving

/-- The codes a call on a robust mutex may return. -/
inductive Errno
  | success
  | EOWNERDEAD
  | EDEADLK
  | EBUSY
  | EAGAIN
  | EPERM
  | EINVAL
  | ENOTRECOVERABLE
  deriving DecidableEq, Repr

inductive MutexType
  | errorcheck
  | recursive
  deriving DecidableEq

/-- The attributes of a robust mutex; a recursive mutex can be locked `maxCount` times. -/
structure MutexAttr where
  type : MutexType
  maxCount : ℕ

/-- A robust mutex; its owner has locked it `relocks` times besides the first. -/
inductive RobustMutex (κ : Type*)
  | free
  | owned (k : κ) (relocks : ℕ) (consistent : Bool)
  /-- The owner has died, and nobody has locked the mutex since. -/
  | ownerDied
  | notRecoverable
  deriving DecidableEq

namespace RobustMutex

variable {κ : Type*} [DecidableEq κ]

/-- `pthread_mutex_trylock`. -/
def tryLock (attr : MutexAttr) (m : RobustMutex κ) (k : κ) : Errno × RobustMutex κ :=
  match m with
  | .free => (.success, .owned k 0 true)
  | .ownerDied => (.EOWNERDEAD, .owned k 0 false)
  | .notRecoverable => (.ENOTRECOVERABLE, m)
  | .owned j relocks consistent =>
      if j = k then
        -- An owner that locks again never waits for itself.
        match attr.type with
        | .errorcheck => (.EDEADLK, m)
        | .recursive =>
            if relocks + 1 < attr.maxCount then (.success, .owned k (relocks + 1) consistent)
            else (.EAGAIN, m)
      else (.EBUSY, m)

/-- `pthread_mutex_lock`: where `pthread_mutex_trylock` returns `EBUSY` it blocks. -/
def lock (attr : MutexAttr) (m : RobustMutex κ) (k : κ) : Option (Errno × RobustMutex κ) :=
  if (m.tryLock attr k).1 = .EBUSY then none else some (m.tryLock attr k)

/-- `pthread_mutex_unlock`. -/
def unlock (m : RobustMutex κ) (k : κ) : Errno × RobustMutex κ :=
  match m with
  | .owned j relocks consistent =>
      if j = k then
        match relocks with
        | relocks + 1 => (.success, .owned k relocks consistent)
        | 0 => (.success, if consistent then .free else .notRecoverable)
      else (.EPERM, m)
  | _ => (.EPERM, m)

/-- `pthread_mutex_consistent`. -/
def makeConsistent (m : RobustMutex κ) (k : κ) : Errno × RobustMutex κ :=
  match m with
  | .owned j relocks false => if j = k then (.success, .owned k relocks true) else (.EINVAL, m)
  | _ => (.EINVAL, m)

/-- `k` terminates without unlocking. -/
def die (m : RobustMutex κ) (k : κ) : RobustMutex κ :=
  match m with
  | .owned j _ _ => if j = k then .ownerDied else m
  | _ => m

/-! ## Who owns the mutex -/

def OwnedBy (m : RobustMutex κ) (k : κ) : Prop := ∃ relocks consistent, m = .owned k relocks consistent

/-- `k` has locked the mutex `n` times more than it has unlocked it, and can rely on the data. -/
inductive Holds (k : κ) : RobustMutex κ → ℕ → Prop
  | owner (relocks : ℕ) : Holds k (.owned k relocks true) (relocks + 1)
  | other (m : RobustMutex κ) (h : ¬ m.OwnedBy k) : Holds k m 0

/-- What a thread `u` does to the mutex is nothing to the other threads: who of them owns it, and
how often, stays the same. -/
def KeptFor (k : κ) (m m' : RobustMutex κ) : Prop :=
  ∀ relocks consistent, m' = .owned k relocks consistent ↔ m = .owned k relocks consistent

variable {attr : MutexAttr} {m m' : RobustMutex κ} {j k : κ} {n : ℕ}

omit [DecidableEq κ] in
theorem OwnedBy.unique (hj : m.OwnedBy j) (hk : m.OwnedBy k) : j = k := by
  obtain ⟨r, b, rfl⟩ := hj
  obtain ⟨r', b', h⟩ := hk
  injection h

omit [DecidableEq κ] in
theorem KeptFor.refl (m : RobustMutex κ) : KeptFor k m m := fun _ _ => Iff.rfl

omit [DecidableEq κ] in
theorem KeptFor.ownedBy (h : KeptFor k m m') : m'.OwnedBy k ↔ m.OwnedBy k :=
  exists_congr fun r => exists_congr fun b => h r b

omit [DecidableEq κ] in
theorem KeptFor.of_not_ownedBy (h : ¬ m.OwnedBy k) (h' : ¬ m'.OwnedBy k) : KeptFor k m m' :=
  fun r b => iff_of_false (fun hm => h' ⟨r, b, hm⟩) fun hm => h ⟨r, b, hm⟩

omit [DecidableEq κ] in
theorem KeptFor.holds (h : KeptFor k m m') (hn : Holds k m n) : Holds k m' n := by
  cases hn with
  | owner relocks =>
    rw [(h relocks true).mpr rfl]
    exact .owner relocks
  | other _ hm => exact .other m' fun hm' => hm (h.ownedBy.mp hm')

omit [DecidableEq κ] in
theorem Holds.eq_zero (h : Holds k m n) (hm : ¬ m.OwnedBy k) : n = 0 := by
  cases h with
  | owner relocks => exact absurd ⟨relocks, true, rfl⟩ hm
  | other => rfl

omit [DecidableEq κ] in
theorem Holds.exists_owned (h : Holds k m (n + 1)) : ∃ relocks, m = .owned k relocks true := by
  cases h with
  | owner relocks => exact ⟨_, rfl⟩

omit [DecidableEq κ] in
theorem not_ownedBy_of_ne {relocks : ℕ} {consistent : Bool} (h : j ≠ k) :
    ¬ (owned j relocks consistent).OwnedBy k :=
  fun hk => h (OwnedBy.unique ⟨relocks, consistent, rfl⟩ hk)

/-! ## What the calls do -/

/-- What `pthread_mutex_lock` and `pthread_mutex_trylock` return and leave where `k` holds the mutex
`n` times. -/
inductive Locked (m : RobustMutex κ) (k : κ) (n : ℕ) : Errno × RobustMutex κ → Prop
  | acquired (m' : RobustMutex κ) (h : Holds k m' (n + 1)) : Locked m k n (.success, m')
  | inherited (h : n = 0) : Locked m k n (.EOWNERDEAD, .owned k 0 false)
  | refused (res : Errno) (hsuccess : res ≠ .success) (hdead : res ≠ .EOWNERDEAD) :
      Locked m k n (res, m)

theorem tryLock_locked (attr : MutexAttr) (h : Holds k m n) : Locked m k n (m.tryLock attr k) := by
  cases h with
  | owner relocks =>
    unfold tryLock
    simp only [if_true]
    cases attr.type with
    | errorcheck => exact .refused _ (by decide) (by decide)
    | recursive =>
      simp only
      split
      · exact .acquired _ (.owner (relocks + 1))
      · exact .refused _ (by decide) (by decide)
  | other m hm =>
    cases m with
    | free => exact .acquired _ (.owner 0)
    | ownerDied => exact .inherited rfl
    | notRecoverable => exact .refused _ (by decide) (by decide)
    | owned j relocks consistent =>
      have hne : j ≠ k := by
        rintro rfl
        exact hm ⟨relocks, consistent, rfl⟩
      simp only [tryLock, if_neg hne]
      exact .refused _ (by decide) (by decide)

theorem lock_eq_some {r : Errno × RobustMutex κ} (h : m.lock attr k = some r) :
    m.tryLock attr k = r := by
  unfold lock at h
  split at h
  · cases h
  · exact Option.some.inj h

theorem tryLock_keptFor (attr : MutexAttr) (m : RobustMutex κ) (h : j ≠ k) :
    KeptFor j m (m.tryLock attr k).2 := by
  cases m with
  | free | ownerDied =>
    exact .of_not_ownedBy (by rintro ⟨_, _, hm⟩; cases hm) (not_ownedBy_of_ne (Ne.symm h))
  | notRecoverable => exact .refl _
  | owned i relocks consistent =>
    unfold tryLock
    simp only
    split
    · rename_i hi
      cases attr.type with
      | errorcheck => exact .refl _
      | recursive =>
        simp only
        split
        · exact .of_not_ownedBy (not_ownedBy_of_ne fun hij => h (hij.symm.trans hi))
            (not_ownedBy_of_ne (Ne.symm h))
        · exact .refl _
    · exact .refl _

theorem tryLock_recoverable (attr : MutexAttr) (k : κ) (h : m ≠ .notRecoverable) :
    (m.tryLock attr k).2 ≠ .notRecoverable := by
  cases m with
  | free | ownerDied => nofun
  | notRecoverable => exact absurd rfl h
  | owned i relocks consistent =>
    unfold tryLock
    simp only
    split
    · cases attr.type with
      | errorcheck => exact h
      | recursive =>
        simp only
        split
        · nofun
        · exact h
    · exact h

theorem unlock_of_not_ownedBy (h : ¬ m.OwnedBy k) : m.unlock k = (.EPERM, m) := by
  cases m with
  | owned j relocks consistent =>
    have hne : j ≠ k := by
      rintro rfl
      exact h ⟨relocks, consistent, rfl⟩
    exact if_neg hne
  | _ => rfl

theorem unlock_keptFor (m : RobustMutex κ) (h : j ≠ k) : KeptFor j m (m.unlock k).2 := by
  by_cases hm : m.OwnedBy k
  · obtain ⟨relocks, consistent, rfl⟩ := hm
    refine .of_not_ownedBy (not_ownedBy_of_ne (Ne.symm h)) ?_
    unfold unlock
    simp only [if_true]
    cases relocks with
    | zero =>
      rintro ⟨_, _, hm⟩
      cases consistent <;> cases hm
    | succ relocks => exact not_ownedBy_of_ne (Ne.symm h)
  · rw [unlock_of_not_ownedBy hm]
    exact .refl m

/-- A mutex that is consistent stays usable, and its owner has given one lock back. -/
theorem unlock_holds (h : Holds k m n) : Holds k (m.unlock k).2 (n - 1) := by
  cases h with
  | owner relocks =>
    unfold unlock
    simp only [if_true]
    cases relocks with
    | zero => exact .other _ (by rintro ⟨_, _, hm⟩; cases hm)
    | succ relocks => exact .owner relocks
  | other m hm =>
    rw [unlock_of_not_ownedBy hm]
    exact .other m hm

theorem unlock_recoverable (h : Holds k m n) (hm : m ≠ .notRecoverable) :
    (m.unlock k).2 ≠ .notRecoverable := by
  cases h with
  | owner relocks =>
    unfold unlock
    simp only [if_true]
    cases relocks <;> nofun
  | other m hnot =>
    rw [unlock_of_not_ownedBy hnot]
    exact hm

theorem makeConsistent_inherited (k : κ) (relocks : ℕ) :
    (owned k relocks false).makeConsistent k = (.success, .owned k relocks true) :=
  if_pos rfl

theorem die_of_not_ownedBy (h : ¬ m.OwnedBy k) : m.die k = m := by
  cases m with
  | owned j relocks consistent =>
    have hne : j ≠ k := by
      rintro rfl
      exact h ⟨relocks, consistent, rfl⟩
    exact if_neg hne
  | _ => rfl

theorem die_not_ownedBy (m : RobustMutex κ) (k : κ) : ¬ (m.die k).OwnedBy k := by
  by_cases hm : m.OwnedBy k
  · obtain ⟨relocks, consistent, rfl⟩ := hm
    unfold die
    simp only [if_true]
    rintro ⟨_, _, hd⟩
    cases hd
  · rwa [die_of_not_ownedBy hm]

theorem die_keptFor (m : RobustMutex κ) (h : j ≠ k) : KeptFor j m (m.die k) := by
  by_cases hm : m.OwnedBy k
  · obtain ⟨relocks, consistent, rfl⟩ := hm
    refine .of_not_ownedBy (not_ownedBy_of_ne (Ne.symm h)) ?_
    unfold die
    simp only [if_true]
    rintro ⟨_, _, hd⟩
    cases hd
  · rw [die_of_not_ownedBy hm]
    exact .refl m

theorem die_recoverable (k : κ) (h : m ≠ .notRecoverable) : m.die k ≠ .notRecoverable := by
  by_cases hm : m.OwnedBy k
  · obtain ⟨relocks, consistent, rfl⟩ := hm
    unfold die
    simp only [if_true]
    nofun
  · rwa [die_of_not_ownedBy hm]

end RobustMutex

end Interleaving
