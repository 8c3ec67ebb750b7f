import RealtimeTools.Interleaving.History
import RealtimeTools.Mutex.Model

/-!
# Locks across the death of threads

A thread that inherits the mutex of a dead one repairs it before it returns, and if it dies before
that, the next one inherits it again.  So whoever gets a lock owns the mutex alone and consistent,
and no thread ever unlocks a mutex that is inconsistent.
-/

open Interleaving RobustMutex

namespace RealtimeMutex

variable {κ : Type}

/-! ## What a history says -/

/-- The caller has the lock now. -/
def acquires : Call → Result → Bool
  | .lock, .normal | .tryLock, .value true => true
  | _, _ => false

/-- A false result, or an exception. -/
def Result.fails : Result → Bool
  | .value false | .thrown _ => true
  | _ => false

/-- What the calls of a thread tell: how many locks it has got and not given back, its last call, and
whether that call has changed the mutex. -/
structure View where
  held : ℕ := 0
  call : Option Call := none
  changed : Bool := false

/-! ## Assertions at the program points -/

def CallAt (k : κ) (m : RobustMutex κ) (v : View) : Call → CallPc → Prop
  | .unlock, .pthread => v.changed = false ∧ ∃ n, v.held = n - 1 ∧ Holds k m n
  | .unlock, .test _ => Holds k m v.held
  | .unlock, _ => False
  | _, .pthread => v.changed = false ∧ Holds k m v.held
  | _, .test .success => Holds k m (v.held + 1)
  -- The mutex of a dead thread is inconsistent until the repair.
  | _, .test .EOWNERDEAD | _, .consistent => m = .owned k 0 false ∧ v.held = 0
  | _, .test _ => v.changed = false ∧ Holds k m v.held
  | _, .testConsistent res => res = .success ∧ m = .owned k 0 true ∧ v.held = 0

def PcAt (k : κ) (m : RobustMutex κ) (v : View) : Pc → Prop
  | .idle => Holds k m v.held
  | .inside call pc => v.call = some call ∧ CallAt k m v call pc
  | .dead => v.held = 0 ∧ ¬ m.OwnedBy k

variable {s s' : State κ} {j k : κ} {m m' : RobustMutex κ} {v : View} {attr : MutexAttr}

/-- The two calls that lock have the same assertions. -/
theorem callAt_of_ne {call : Call} {pc : CallPc} (hcall : call ≠ .unlock) :
    CallAt k m v call pc ↔ CallAt k m v .lock pc := by
  cases call with
  | unlock => exact absurd rfl hcall
  | lock => exact Iff.rfl
  | tryLock =>
    cases pc with
    | test res => cases res <;> exact Iff.rfl
    | _ => exact Iff.rfl

theorem CallAt.frame {call : Call} {pc : CallPc} (h : CallAt k m v call pc)
    (hm : KeptFor k m m') : CallAt k m' v call pc := by
  have howned : ∀ b, m = .owned k 0 b → m' = .owned k 0 b := fun b => (hm 0 b).mpr
  cases call with
  | unlock =>
    cases pc with
    | pthread =>
      obtain ⟨hc, n, hv, hn⟩ := h
      exact ⟨hc, n, hv, hm.holds hn⟩
    | test res => exact hm.holds h
    | _ => exact h
  | lock | tryLock =>
    cases pc with
    | pthread => exact ⟨h.1, hm.holds h.2⟩
    | test res =>
      cases res with
      | success => exact hm.holds h
      | EOWNERDEAD => exact ⟨howned false h.1, h.2⟩
      | _ => exact ⟨h.1, hm.holds h.2⟩
    | consistent => exact ⟨howned false h.1, h.2⟩
    | testConsistent res => exact ⟨h.1, howned true h.2.1, h.2.2⟩

theorem PcAt.frame {pc : Pc} (h : PcAt k m v pc) (hm : KeptFor k m m') : PcAt k m' v pc := by
  cases pc with
  | idle => exact hm.holds h
  | inside call pc => exact ⟨h.1, h.2.frame hm⟩
  | dead => exact ⟨h.1, fun hm' => h.2 (hm.ownedBy.mp hm')⟩

/-- A thread that does not own the mutex has no lock left. -/
theorem PcAt.held_eq_zero {pc : Pc} (h : PcAt k m v pc) (hm : ¬ m.OwnedBy k) : v.held = 0 := by
  have hnot : ∀ b, m ≠ .owned k 0 b := fun b hb => hm ⟨0, b, hb⟩
  cases pc with
  | idle => exact Holds.eq_zero h hm
  | dead => exact h.1
  | inside call pc =>
    obtain ⟨_, h⟩ := h
    cases call with
    | unlock =>
      cases pc with
      | pthread =>
        obtain ⟨_, n, hv, hn⟩ := h
        rw [hv, hn.eq_zero hm]
      | test res => exact Holds.eq_zero h hm
      | _ => cases h
    | lock | tryLock =>
      cases pc with
      | pthread => exact h.2.eq_zero hm
      | test res =>
        cases res with
        | success => cases Holds.eq_zero h hm
        | EOWNERDEAD => exact h.2
        | _ => exact h.2.eq_zero hm
      | consistent => exact h.2
      | testConsistent res => exact h.2.2

section Views

variable [DecidableEq κ]

/-! ## Histories -/

def Event.view (k : κ) (v : View) : Event κ → View
  | .called j call =>
      if j = k then
        { held := if call = .unlock then v.held - 1 else v.held, call := some call,
          changed := false }
      else v
  | .returned j call result =>
      if j = k ∧ acquires call result = true then { v with held := v.held + 1 } else v
  | .changed j _ => if j = k then { v with changed := true } else v
  | .reported _ _ => v
  | .died j => if j = k then { v with held := 0 } else v

def view (k : κ) (history : List (Event κ)) : View :=
  history.foldl (Event.view k) { call := none }

/-- The mutex after the events of a history. -/
def Event.mutex (m : RobustMutex κ) : Event κ → RobustMutex κ
  | .changed _ m' => m'
  | .died k => m.die k
  | _ => m

def mutexAfter (history : List (Event κ)) : RobustMutex κ := history.foldl Event.mutex .free

theorem view_concat (k : κ) (history : List (Event κ)) (e : Event κ) :
    view k (history ++ [e]) = e.view k (view k history) := by
  simp [view, List.foldl_append]

theorem mutexAfter_concat (history : List (Event κ)) (e : Event κ) :
    mutexAfter (history ++ [e]) = e.mutex (mutexAfter history) := by
  simp [mutexAfter, List.foldl_append]

/-- A caller that gets the lock owns the mutex, consistent, and no other thread has a lock left; a
call that fails has changed nothing, and an unlock changes nothing unless it comes from the owner. -/
def Proper (before : List (Event κ)) : Event κ → Prop
  | .returned k call result =>
      (acquires call result = true →
        (∃ relocks, mutexAfter before = .owned k relocks true) ∧
          ∀ j, j ≠ k → (view j before).held = 0) ∧
      (result.fails = true → (view k before).changed = false)
  | .changed k _ => (view k before).call = some .unlock → (mutexAfter before).OwnedBy k
  | _ => True

def At (k : κ) (s : State κ) : Prop := PcAt k s.mutex (view k s.history) (s.pc k)

structure Shared (s : State κ) : Prop where
  mutex : mutexAfter s.history = s.mutex
  recoverable : s.mutex ≠ .notRecoverable
  proper : Justified Proper s.history

/-- What a step of `u` leaves to another thread. -/
structure Untouched (k : κ) (s s' : State κ) : Prop where
  pc : s'.pc k = s.pc k
  mutex : KeptFor k s.mutex s'.mutex
  view : view k s'.history = view k s.history

abbrev Sound (k : κ) (s s' : State κ) : Prop :=
  OwnStep At Shared (fun u s s' => ∀ j, j ≠ u → Untouched j s s') k s s'

/-! ## Every step is sound -/

/-- Where `k` goes to. -/
theorem at_of_goto (pc : Pc) (hpc : s'.pc = Function.update s.pc k pc)
    (h : PcAt k s'.mutex (view k s'.history) pc) : At k s' := by
  unfold At
  rwa [hpc, Function.update_self]

/-- An event of another thread leaves a view as it was. -/
theorem view_concat_returned (history : List (Event κ)) (h : j ≠ k) (call : Call)
    (result : Result) : view j (history ++ [.returned k call result]) = view j history := by
  rw [view_concat, Event.view, if_neg fun hk => h hk.1.symm]

theorem view_concat_called (history : List (Event κ)) (h : j ≠ k) (call : Call) :
    view j (history ++ [.called k call]) = view j history := by
  rw [view_concat, Event.view, if_neg (Ne.symm h)]

theorem view_concat_changed (history : List (Event κ)) (h : j ≠ k) (m : RobustMutex κ) :
    view j (history ++ [.changed k m]) = view j history := by
  rw [view_concat, Event.view, if_neg (Ne.symm h)]

theorem view_concat_died (history : List (Event κ)) (h : j ≠ k) :
    view j (history ++ [.died k]) = view j history := by
  rw [view_concat, Event.view, if_neg (Ne.symm h)]

/-- A move that touches neither the mutex nor the history. -/
theorem sound_goto {pc : Pc} (hJ : Shared s) (hat : PcAt k s.mutex (view k s.history) pc) :
    Sound k s (s.goto k pc) where
  own := at_of_goto pc rfl hat
  shared := ⟨hJ.mutex, hJ.recoverable, hJ.proper⟩
  guarantee := fun _ hj => ⟨Function.update_of_ne hj _ _, .refl _, rfl⟩

/-- A `pthread` function returns. -/
theorem sound_pthread {pc : Pc} (hJ : Shared s) (hm : m ≠ .notRecoverable)
    (hkept : ∀ j, j ≠ k → KeptFor j s.mutex m)
    (hproper : m ≠ s.mutex → (view k s.history).call = some .unlock → s.mutex.OwnedBy k)
    (hat : ∀ v, v.held = (view k s.history).held → v.call = (view k s.history).call →
      (m = s.mutex → v = view k s.history) → PcAt k m v pc) :
    Sound k s (s.pthread k pc m) := by
  unfold State.pthread
  split
  · rename_i hsame
    have hat' := hat (view k s.history) rfl rfl fun _ => rfl
    rw [hsame] at hat'
    exact sound_goto hJ hat'
  · rename_i hne
    have hview : view k (s.history ++ [.changed k m]) =
        { view k s.history with changed := true } := by
      rw [view_concat, Event.view, if_pos rfl]
    refine ⟨?_, ⟨?_, hm, ?_⟩, fun j hj => ⟨Function.update_of_ne hj _ _, hkept j hj, ?_⟩⟩
    · refine at_of_goto pc rfl ?_
      show PcAt k m (view k (s.history ++ [.changed k m])) pc
      rw [hview]
      exact hat _ rfl rfl fun hsame => absurd hsame hne
    · exact mutexAfter_concat _ _
    · refine justified_concat.mpr ⟨hJ.proper, fun hcall => ?_⟩
      show (mutexAfter s.history).OwnedBy k
      rw [hJ.mutex]
      exact hproper hne hcall
    · exact view_concat_changed _ hj m

/-- A call returns, after a line on `std::cerr` or without. -/
theorem sound_leave {call : Call} {result : Result} (hJ : Shared s)
    (hproper : Proper s.history (.returned k call result))
    (hat : Holds k s.mutex
      (if acquires call result = true then (view k s.history).held + 1
        else (view k s.history).held)) : Sound k s (s.leave k call result) where
  own := by
    refine at_of_goto .idle rfl ?_
    show Holds k s.mutex (view k (s.history ++ [.returned k call result])).held
    rw [view_concat, Event.view]
    simp only [true_and]
    split
    · rename_i ha
      rwa [if_pos ha] at hat
    · rename_i ha
      rwa [if_neg ha] at hat
  shared :=
    { mutex := (mutexAfter_concat _ _).trans hJ.mutex
      recoverable := hJ.recoverable
      proper := justified_concat.mpr ⟨hJ.proper, hproper⟩ }
  guarantee := fun _ hj =>
    ⟨Function.update_of_ne hj _ _, .refl _, view_concat_returned _ hj call result⟩

theorem view_record_reported (line : Message) (j : κ) :
    view j (s.record (.reported k line)).history = view j s.history :=
  view_concat j _ _

/-- A line on `std::cerr` matters to nobody. -/
theorem Sound.of_reported (line : Message) (hJ : Shared s)
    (h : Shared (s.record (.reported k line)) → Sound k (s.record (.reported k line)) s') :
    Sound k s s' := by
  have hs := h
    { mutex := (mutexAfter_concat _ _).trans hJ.mutex
      recoverable := hJ.recoverable
      proper := justified_concat.mpr ⟨hJ.proper, trivial⟩ }
  refine ⟨hs.own, hs.shared, fun j hj => ?_⟩
  have hu := hs.guarantee j hj
  exact ⟨hu.pc, hu.mutex, hu.view.trans (view_record_reported line j)⟩

theorem sound_die (hJ : Shared s) : Sound k s (s.die k) where
  own := by
    refine at_of_goto .dead rfl ⟨?_, die_not_ownedBy s.mutex k⟩
    show (view k (s.history ++ [.died k])).held = 0
    rw [view_concat, Event.view, if_pos rfl]
  shared :=
    { mutex := (mutexAfter_concat _ _).trans (congrArg (RobustMutex.die · k) hJ.mutex)
      recoverable := die_recoverable k hJ.recoverable
      proper := justified_concat.mpr ⟨hJ.proper, trivial⟩ }
  guarantee := fun _ hj =>
    ⟨Function.update_of_ne hj _ _, die_keptFor s.mutex hj, view_concat_died _ hj⟩

theorem sound_called (call : Call) (hJ : Shared s) (hat : At k s) (hpc : s.pc k = .idle) :
    Sound k s ((s.goto k (.inside call .pthread)).record (.called k call)) where
  own := by
    have hholds : Holds k s.mutex (view k s.history).held := by
      unfold At at hat
      rwa [hpc] at hat
    refine at_of_goto (.inside call .pthread) rfl ?_
    show PcAt k s.mutex (view k (s.history ++ [.called k call])) (.inside call .pthread)
    rw [view_concat, Event.view, if_pos rfl]
    cases call with
    | unlock => exact ⟨rfl, rfl, _, rfl, hholds⟩
    | lock | tryLock => exact ⟨rfl, rfl, hholds⟩
  shared :=
    { mutex := (mutexAfter_concat _ _).trans hJ.mutex
      recoverable := hJ.recoverable
      proper := justified_concat.mpr ⟨hJ.proper, trivial⟩ }
  guarantee := fun _ hj =>
    ⟨Function.update_of_ne hj _ _, .refl _, view_concat_called _ hj call⟩

/-- `pthread_mutex_lock` and `pthread_mutex_trylock`. -/
theorem sound_locked {call : Call} (hcall : call ≠ .unlock) (hJ : Shared s)
    (hat : PcAt k s.mutex (view k s.history) (.inside call .pthread)) :
    Sound k s (s.pthread k (.inside call (.test (s.mutex.tryLock attr k).1))
      (s.mutex.tryLock attr k).2) := by
  obtain ⟨hview, hat⟩ := hat
  have hheld : (view k s.history).changed = false ∧ Holds k s.mutex (view k s.history).held :=
    (callAt_of_ne hcall).mp hat
  have hlocked := tryLock_locked attr hheld.2
  have hrec := tryLock_recoverable attr k hJ.recoverable
  have hkept := fun j (hj : j ≠ k) => tryLock_keptFor attr s.mutex hj
  -- From here on only these three facts about the returned pair are used.
  generalize s.mutex.tryLock attr k = r at hlocked hrec hkept ⊢
  refine sound_pthread hJ hrec hkept ?_ ?_
  · intro _ hunlock
    rw [hview] at hunlock
    exact absurd (Option.some.inj hunlock) hcall
  · intro v hv hc hsame
    refine ⟨hc.trans hview, (callAt_of_ne hcall).mpr ?_⟩
    cases hlocked with
    | acquired m' h =>
      show Holds k m' (v.held + 1)
      rwa [hv]
    | inherited h => exact ⟨rfl, hv.trans h⟩
    | refused res hsuccess hdead =>
      obtain rfl := hsame rfl
      cases res with
      | success => exact absurd rfl hsuccess
      | EOWNERDEAD => exact absurd rfl hdead
      | _ => exact hheld

/-- The caller gets the lock. -/
theorem sound_granted {call : Call} {result : Result} (hI : ∀ j, At j s) (hJ : Shared s)
    (hacquires : acquires call result = true) (hfails : result.fails = false)
    (hholds : Holds k s.mutex ((view k s.history).held + 1)) :
    Sound k s (s.leave k call result) := by
  obtain ⟨relocks, howned⟩ := hholds.exists_owned
  refine sound_leave hJ ⟨fun _ => ⟨⟨relocks, hJ.mutex.trans howned⟩, fun j hj => ?_⟩, ?_⟩ ?_
  · refine (hI j).held_eq_zero ?_
    rw [howned]
    exact not_ownedBy_of_ne (Ne.symm hj)
  · rw [hfails]
    exact fun h => absurd h Bool.false_ne_true
  · rwa [if_pos hacquires]

/-- The caller leaves without a new lock. -/
theorem sound_refused {call : Call} {result : Result} (hJ : Shared s)
    (hacquires : acquires call result = false)
    (hchanged : result.fails = true → (view k s.history).changed = false)
    (hholds : Holds k s.mutex (view k s.history).held) : Sound k s (s.leave k call result) := by
  have hnot : ¬ acquires call result = true := by
    rw [hacquires]
    exact Bool.false_ne_true
  refine sound_leave hJ ⟨fun h => absurd h hnot, hchanged⟩ ?_
  rwa [if_neg hnot]

/-- `pthread_mutex_consistent` repairs the mutex that `k` has inherited. -/
theorem sound_repaired {call : Call} (hcall : call ≠ .unlock) (hJ : Shared s)
    (hat : PcAt k s.mutex (view k s.history) (.inside call .consistent)) :
    Sound k s (s.pthread k (.inside call (.testConsistent (s.mutex.makeConsistent k).1))
      (s.mutex.makeConsistent k).2) := by
  obtain ⟨hview, hat⟩ := hat
  have hinherited : s.mutex = .owned k 0 false ∧ (view k s.history).held = 0 :=
    (callAt_of_ne hcall).mp hat
  have hrepair : s.mutex.makeConsistent k = (.success, .owned k 0 true) := by
    rw [hinherited.1, makeConsistent_inherited]
  rw [hrepair]
  refine sound_pthread hJ nofun ?_ ?_ ?_
  · intro j hj
    rw [hinherited.1]
    exact .of_not_ownedBy (not_ownedBy_of_ne (Ne.symm hj)) (not_ownedBy_of_ne (Ne.symm hj))
  · intro _ hunlock
    rw [hview] at hunlock
    exact absurd (Option.some.inj hunlock) hcall
  · intro v hv hc _
    exact ⟨hc.trans hview, (callAt_of_ne hcall).mpr ⟨rfl, rfl, hv.trans hinherited.2⟩⟩

theorem sound_testConsistent {call : Call} {result : Result} {res : Errno} (hI : ∀ j, At j s)
    (hJ : Shared s) (hacquires : acquires call result = true) (hfails : result.fails = false)
    (hat : PcAt k s.mutex (view k s.history) (.inside call (.testConsistent res))) :
    Sound k s (s.testConsistent k call result res) := by
  obtain ⟨hres, howned, hheld⟩ : res = .success ∧ s.mutex = .owned k 0 true ∧
      (view k s.history).held = 0 := by
    cases call with
    | unlock => cases hacquires
    | lock | tryLock => exact hat.2
  unfold State.testConsistent
  rw [if_neg (not_not.mpr hres)]
  refine .of_reported _ hJ fun hJ' => sound_granted (fun j => ?_) hJ' hacquires hfails ?_
  · have hj := hI j
    unfold At at hj ⊢
    rwa [view_record_reported]
  · rw [view_record_reported, hheld]
    show Holds k s.mutex (0 + 1)
    rw [howned]
    exact .owner 0

theorem lock_sound {pc : CallPc} (hI : ∀ j, At j s) (hJ : Shared s)
    (hat : PcAt k s.mutex (view k s.history) (.inside .lock pc))
    (h : lock attr s k pc = some s') : Sound k s s' := by
  cases pc with
  | pthread =>
    obtain ⟨r, hr, rfl⟩ := Option.map_eq_some_iff.mp h
    rw [← lock_eq_some hr]
    exact sound_locked (by decide) hJ hat
  | test res =>
    obtain rfl := Option.some.inj h
    obtain ⟨hcall, hat⟩ := hat
    cases res with
    | success => exact sound_granted hI hJ rfl rfl hat
    -- Dying here leaves the mutex to the next thread, as inconsistent as before.
    | EOWNERDEAD => exact sound_goto hJ ⟨hcall, hat⟩
    | _ => exact sound_refused hJ rfl (fun _ => hat.1) hat.2
  | consistent =>
    obtain rfl := Option.some.inj h
    exact sound_repaired (by decide) hJ hat
  | testConsistent res =>
    obtain rfl := Option.some.inj h
    exact sound_testConsistent hI hJ rfl rfl hat

theorem tryLock_sound {pc : CallPc} (hI : ∀ j, At j s) (hJ : Shared s)
    (hat : PcAt k s.mutex (view k s.history) (.inside .tryLock pc))
    (h : tryLock attr s k pc = some s') : Sound k s s' := by
  cases pc with
  | pthread =>
    obtain rfl := Option.some.inj h
    exact sound_locked (by decide) hJ hat
  | test res =>
    obtain rfl := Option.some.inj h
    obtain ⟨hcall, hat⟩ := hat
    cases res with
    | success => exact sound_granted hI hJ rfl rfl hat
    | EOWNERDEAD => exact sound_goto hJ ⟨hcall, hat⟩
    | _ => exact sound_refused hJ rfl (fun _ => hat.1) hat.2
  | consistent =>
    obtain rfl := Option.some.inj h
    exact sound_repaired (by decide) hJ hat
  | testConsistent res =>
    obtain rfl := Option.some.inj h
    exact sound_testConsistent hI hJ rfl rfl hat

theorem unlock_sound {pc : CallPc} (hJ : Shared s)
    (hat : PcAt k s.mutex (view k s.history) (.inside .unlock pc))
    (h : unlock s k pc = some s') : Sound k s s' := by
  cases pc with
  | pthread =>
    obtain rfl := Option.some.inj h
    obtain ⟨hcall, _, n, hheld, hholds⟩ := hat
    refine sound_pthread hJ (unlock_recoverable hholds hJ.recoverable)
      (fun j hj => unlock_keptFor s.mutex hj) ?_ ?_
    · -- An unlock by anybody but the owner leaves the mutex alone.
      intro hne _
      by_contra hnot
      exact hne (congrArg Prod.snd (unlock_of_not_ownedBy hnot))
    · intro v hv hc _
      refine ⟨hc.trans hcall, ?_⟩
      show Holds k _ v.held
      rw [hv, hheld]
      exact unlock_holds hholds
  | test res =>
    obtain rfl := Option.some.inj h
    have hholds : Holds k s.mutex (view k s.history).held := hat.2
    split
    · refine .of_reported _ hJ fun hJ' => sound_refused hJ' rfl nofun ?_
      rw [view_record_reported]
      exact hholds
    · exact sound_refused hJ rfl nofun hholds
  | consistent | testConsistent res => cases h

theorem step_sound {oracle : Oracle} (hI : ∀ j, At j s) (hJ : Shared s)
    (h : step attr k oracle s = some s') : Sound k s s' := by
  have hat := hI k
  unfold At at hat
  unfold step at h
  cases hpc : s.pc k with
  | dead =>
    simp only [hpc] at h
    cases h
  | idle =>
    -- A thread may die before any of its steps.
    simp only [hpc] at h
    split at h
    · obtain rfl := Option.some.inj h
      exact sound_die hJ
    · obtain rfl := Option.some.inj h
      exact sound_called oracle.call hJ (hI k) hpc
  | inside call pc =>
    simp only [hpc] at h
    rw [hpc] at hat
    split at h
    · obtain rfl := Option.some.inj h
      exact sound_die hJ
    · cases call with
      | lock => exact lock_sound hI hJ hat h
      | tryLock => exact tryLock_sound hI hJ hat h
      | unlock => exact unlock_sound hJ hat h

theorem reachable_at (h : Reachable (mutex κ attr) anyStep s) : (∀ k, At k s) ∧ Shared s := by
  refine h.rely_guarantee (I := At) (J := Shared)
    (G := fun u s s' => ∀ j, j ≠ u → Untouched j s s') ?_ ?_ ?_
  · rintro s rfl
    exact ⟨fun k => .other _ (by rintro ⟨_, _, hm⟩; cases hm), rfl, nofun, justified_nil⟩
  · intro s k oracle s' _ hI hJ _ hs
    exact step_sound hI hJ hs
  · intro s s' j u hju hI _ _ hG
    have hj := hG j hju
    have hat := hI j
    unfold At at hat ⊢
    rw [hj.pc, hj.view]
    exact hat.frame hj.mutex

/-- **Exclusive and usable across deaths.**  In every run the mutex stays recoverable and at most one
thread has a lock.  Whoever gets a lock owns the mutex, consistent, while no other thread has a lock
left; a call that fails has changed nothing, and an unlock changes nothing unless its caller is the
owner. -/
theorem locks_across_deaths (h : Reachable (mutex κ attr) anyStep s) :
    s.mutex ≠ .notRecoverable ∧ mutexAfter s.history = s.mutex ∧
      (∀ j k, 0 < (view j s.history).held → 0 < (view k s.history).held → j = k) ∧
      (∀ before k call result after, s.history = before ++ .returned k call result :: after →
        (acquires call result = true →
          (∃ relocks, mutexAfter before = .owned k relocks true) ∧
            ∀ j, j ≠ k → (view j before).held = 0) ∧
        (result.fails = true → (view k before).changed = false)) ∧
      ∀ before k m after, s.history = before ++ .changed k m :: after →
        (view k before).call = some .unlock → (mutexAfter before).OwnedBy k := by
  obtain ⟨hI, hJ⟩ := reachable_at h
  have howned : ∀ k, 0 < (view k s.history).held → s.mutex.OwnedBy k := by
    intro k hk
    by_contra hnot
    exact Nat.ne_of_gt hk ((hI k).held_eq_zero hnot)
  refine ⟨hJ.recoverable, hJ.mutex, fun j k hj hk => (howned j hj).unique (howned k hk), ?_, ?_⟩
  · intro before k call result after hcut
    exact hJ.proper before _ after hcut
  · intro before k m after hcut
    exact hJ.proper before _ after hcut

end Views

/-- Thread 0 dies with a recursive mutex locked twice, and thread 1 dies between its lock and the
repair; thread 2 repairs the mutex and locks it twice, while thread 3 can neither unlock nor lock
it. -/
theorem locks_across_deaths_twice :
    ∃ s : State ℕ, Reachable (prioInheritRecursiveMutex ℕ 4294967295) anyStep s ∧
      s.mutex = .owned 2 1 true ∧ .returned 3 .tryLock (.value false) ∈ s.history ∧
      (s.mutex ≠ .notRecoverable ∧ mutexAfter s.history = s.mutex ∧
        (∀ j k, 0 < (view j s.history).held → 0 < (view k s.history).held → j = k) ∧
        (∀ before k call result after, s.history = before ++ .returned k call result :: after →
          (acquires call result = true →
            (∃ relocks, mutexAfter before = .owned k relocks true) ∧
              ∀ j, j ≠ k → (view j before).held = 0) ∧
          (result.fails = true → (view k before).changed = false)) ∧
        ∀ before k m after, s.history = before ++ .changed k m :: after →
          (view k before).call = some .unlock → (mutexAfter before).OwnedBy k) := by
  let calls (k n : ℕ) (call : Call) : List (ℕ × Oracle) := List.replicate n (k, { call })
  let dies (k : ℕ) : List (ℕ × Oracle) := [(k, { dies := true })]
  obtain ⟨s, hs, hp⟩ := exists_reachable_of_exec (prioInheritRecursiveMutex ℕ 4294967295) anyStep
    (calls 0 6 .lock ++ dies 0 ++ calls 1 2 .lock ++ dies 1 ++ calls 2 8 .tryLock ++
      calls 3 3 .unlock ++ calls 3 3 .tryLock)
    initial
    (fun s => s.mutex = .owned 2 1 true ∧ .returned 3 .tryLock (.value false) ∈ s.history)
    rfl (by decide)
  obtain ⟨hmutex, hfalse⟩ := of_decide_eq_true hp
  exact ⟨s, hs, hmutex, hfalse, locks_across_deaths hs⟩

/-- The owner of an error-checking mutex cannot lock it again. -/
example : ((prioInheritMutex ℕ 1).exec anyStep (List.replicate 6 (0, { call := .lock }))
    initial).any (fun s => s.mutex = .owned 0 0 true ∧
      .returned 0 .lock (.thrown (.systemError .EDEADLK "Deadlock detected")) ∈ s.history) = true := by
  decide

end RealtimeMutex
