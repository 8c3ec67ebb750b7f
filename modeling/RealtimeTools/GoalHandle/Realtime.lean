import RealtimeTools.GoalHandle.Feedback
import RealtimeTools.Interleaving.CriticalSection
import RealtimeTools.Interleaving.DataRace

/-!
# The realtime side of a goal handle

`setFeedback` and `trySetFeedback` try the mutex once.  The requests and `runNonRealtime` wait for it, and
everybody gives it back after a bounded number of steps, the callback of `trySetFeedback` apart.  The
members that are not atomic are touched by its owner only.
-/

open Interleaving

namespace GoalHandle

variable {κ R F : Type} {s s' : State κ R F} {t : Actor κ} {k : κ} {o : Oracle R F}

/-! ## Steps that are left -/

/-- The steps of `runNonRealtime` until it gives the mutex back. -/
@[simp] def RunPc.left : RunPc → ℕ
  | .loadExecute => 21
  | .testExecuting => 20
  | .testActive => 19
  | .testCanceling => 18
  | .execute => 17
  | .loadRequest .abort => 16
  | .testGuard .abort => 15
  | .finish .abort => 14
  | .storeRequest .abort => 13
  | .loadRequest .cancel => 12
  | .testGuard .cancel => 11
  | .finish .cancel => 10
  | .storeRequest .cancel => 9
  | .loadRequest .succeed => 8
  | .testGuard .succeed => 7
  | .finish .succeed => 6
  | .storeRequest .succeed => 5
  | .testFeedback => 4
  | .testFeedbackExecuting => 3
  | .publishFeedback => 2
  | .unlock => 1
  | .idle | .testValid | .lock => 0

/-- The steps of a user until it gives the mutex back, from the end of the callback on. -/
@[simp] def UserPc.left : UserPc R F → ℕ
  | .set _ _ .storeResult | .trySetFeedback .update => 3
  | .set _ _ .storeRequest | .execute .storeExecute | .setFeedback _ .storeFeedback
  | .trySetFeedback .storeFeedback => 2
  | .set _ _ .unlock | .execute .unlock | .setFeedback _ .unlock | .trySetFeedback .unlock => 1
  | _ => 0

def State.left (t : Actor κ) (s : State κ R F) : ℕ :=
  match t with
  | .nonRealtime => s.run.left
  | .actionClient => 0
  | .user k => (s.user k).left

/-- The user is in the callback of its `trySetFeedback`. -/
def InCallback (t : Actor κ) (s : State κ R F) : Prop :=
  ∃ k, t = .user k ∧ s.user k = .trySetFeedback .update

theorem State.left_le (t : Actor κ) (s : State κ R F) : s.left t ≤ 21 := by
  cases t with
  | nonRealtime =>
    show s.run.left ≤ 21
    unfold RunPc.left
    split <;> decide
  | actionClient => exact Nat.zero_le _
  | user k =>
    show (s.user k).left ≤ 21
    unfold UserPc.left
    split <;> decide

theorem RunPc.left_pos_iff (pc : RunPc) : 0 < pc.left ↔ pc.inside = true := by
  cases pc with
  | loadRequest o | testGuard o | finish o | storeRequest o => cases o <;> simp [inside]
  | _ => simp [inside]

theorem UserPc.left_pos_iff (pc : UserPc R F) : 0 < pc.left ↔ pc.inside = true := by
  cases pc with
  | idle => simp [inside]
  | execute pc | set _ _ pc | trySetFeedback pc => cases pc <;> simp [inside]
  | setFeedback _ pc => cases pc <;> simp [inside]

theorem left_pos_iff (t : Actor κ) (s : State κ R F) : 0 < s.left t ↔ s.inside t = true := by
  cases t with
  | nonRealtime => exact s.run.left_pos_iff
  | actionClient => simp [State.left, State.inside]
  | user k => exact (s.user k).left_pos_iff

/-! ## Steps of `runNonRealtime` -/

theorem callGoal_left (s : State κ R F) (f : Goal R F → Option (Goal R F)) (next : RunPc) {n : ℕ}
    (hnext : 0 < next.left) (hlt : next.left < n) (hone : 1 < n) :
    0 < (callGoal s f next).run.left ∧ (callGoal s f next).run.left < n ∧
      (callGoal s f next).mutex = s.mutex := by
  unfold callGoal
  split
  · exact ⟨hnext, hlt, rfl⟩
  · exact ⟨Nat.one_pos, hone, rfl⟩

theorem runNonRealtime_section (hown : s.run.inside = true → s.mutex = some .nonRealtime)
    (h : runNonRealtime s = some s') :
    BoundedStep .nonRealtime s.run.left s'.run.left s.mutex s'.mutex := by
  unfold runNonRealtime at h
  cases hpc : s.run <;> simp only [hpc] at h hown
  case idle =>
    obtain rfl := Option.some.inj h
    exact .outside _ rfl rfl
  case testValid =>
    obtain rfl := Option.some.inj h
    refine .outside _ rfl ?_
    dsimp only
    split <;> rfl
  case lock =>
    obtain ⟨hfree, h⟩ := Option.ite_none_right_eq_some.mp h
    obtain rfl := Option.some.inj h
    rw [hfree]
    exact .enter rfl (by simp)
  case loadExecute | testExecuting | testActive | testCanceling | testFeedback |
      testFeedbackExecuting =>
    obtain rfl := Option.some.inj h
    dsimp only
    split <;> exact .inside _ (by simp) (by simp)
  case loadRequest o | testGuard o =>
    obtain rfl := Option.some.inj h
    dsimp only
    split <;> cases o <;> exact .inside _ (by simp [afterOutcome]) (by simp [afterOutcome])
  case storeRequest o =>
    obtain rfl := Option.some.inj h
    cases o <;> exact .inside _ (by simp [afterOutcome, State.record])
      (by simp [afterOutcome, State.record])
  case execute =>
    obtain rfl := Option.some.inj h
    obtain ⟨hpos, hlt, hmutex⟩ := callGoal_left s Goal.execute (.loadRequest .abort)
      (n := 17) (by simp) (by simp) (by simp)
    rw [hmutex]
    exact .inside _ hpos hlt
  case finish o =>
    obtain rfl := Option.some.inj h
    obtain ⟨hpos, hlt, hmutex⟩ := callGoal_left s (Goal.finish o s.handle.reqResult)
      (.storeRequest o) (n := (RunPc.finish o).left) (by cases o <;> simp)
      (by cases o <;> simp) (by cases o <;> simp)
    rw [hmutex]
    exact .inside _ hpos hlt
  case publishFeedback =>
    split at h
    · obtain rfl := Option.some.inj h
      exact .inside _ Nat.one_pos Nat.one_lt_two
    · cases h
  case unlock =>
    obtain rfl := Option.some.inj h
    rw [hown rfl]
    exact .leave Nat.one_pos rfl

/-- `runNonRealtime` waits for the mutex only. -/
theorem runNonRealtime_enabled (hlock : s.run = .lock → s.mutex = none)
    (hpublish : s.run = .publishFeedback → s.handle.reqFeedback.isSome) :
    ∃ s', runNonRealtime s = some s' := by
  unfold runNonRealtime
  cases hpc : s.run
  case lock => exact ⟨_, if_pos (hlock hpc)⟩
  case publishFeedback =>
    obtain ⟨feedback, hfeedback⟩ := Option.isSome_iff_exists.mp (hpublish hpc)
    simp only [hfeedback]
    exact ⟨_, rfl⟩
  all_goals exact ⟨_, rfl⟩

section Steps

variable [DecidableEq κ]

/-! ## Steps of a user -/

@[simp] theorem State.user_goto (s : State κ R F) (k : κ) (pc : UserPc R F) :
    (s.goto k pc).user k = pc := by
  simp [goto]

@[simp] theorem State.user_goto_record (s : State κ R F) (k : κ) (pc : UserPc R F)
    (e : Event κ R F) : ((s.goto k pc).record e).user k = pc := s.user_goto k pc

theorem lock_section (pc : UserPc R F) {before : UserPc R F} (hbefore : before.left = 0) (hpos : 0 < pc.left)
    (h : (if s.mutex = none then some ({ s with mutex := some (.user k) }.goto k pc) else none) =
      some s') :
    BoundedStep (.user k) before.left (s'.user k).left s.mutex s'.mutex := by
  obtain ⟨hfree, h⟩ := Option.ite_none_right_eq_some.mp h
  obtain rfl := Option.some.inj h
  rw [State.user_goto, hfree, hbefore]
  exact .enter rfl hpos

omit [DecidableEq κ] in
/-- A step from outside to outside that does not touch the mutex. -/
theorem outside_section {pc pc' : UserPc R F} (hpc : pc.left = 0) (hpc' : pc'.left = 0)
    (huser : s'.user k = pc') (hmutex : s'.mutex = s.mutex) :
    BoundedStep (.user k) pc.left (s'.user k).left s.mutex s'.mutex := by
  rw [huser, hmutex]
  exact .outside _ hpc hpc'

theorem execute_section {pc : ExecutePc}
    (hown : (UserPc.execute pc : UserPc R F).inside = true → s.mutex = some (.user k))
    (h : execute s k pc = some s') :
    BoundedStep (.user k) (UserPc.execute pc : UserPc R F).left (s'.user k).left s.mutex
      s'.mutex := by
  cases pc with
  | loadSucceed | loadAbort | loadCancel =>
    simp only [execute] at h
    split at h <;> obtain rfl := Option.some.inj h
    · exact outside_section rfl rfl (State.user_goto ..) rfl
    · exact outside_section rfl rfl (State.user_goto_record ..) rfl
  | lock => exact lock_section (.execute .storeExecute) rfl (by simp) h
  | storeExecute =>
    obtain rfl := Option.some.inj h
    rw [State.user_goto]
    exact .inside _ (by simp) (by simp)
  | unlock =>
    obtain rfl := Option.some.inj h
    rw [State.user_goto_record, hown rfl]
    exact .leave (by simp) rfl

theorem set_section {outcome : Outcome} {result : Option R} {pc : RequestPc}
    (hown : (UserPc.set outcome result pc : UserPc R F).inside = true → s.mutex = some (.user k))
    (h : set s k outcome result pc = some s') :
    BoundedStep (.user k) (UserPc.set outcome result pc : UserPc R F).left (s'.user k).left s.mutex
      s'.mutex := by
  cases pc with
  | loadExecute | loadSucceed | loadAbort | loadCancel =>
    simp only [set] at h
    split at h <;> obtain rfl := Option.some.inj h
    · exact outside_section rfl rfl (State.user_goto ..) rfl
    · exact outside_section rfl rfl (State.user_goto_record ..) rfl
  | lock => exact lock_section (.set outcome result .storeResult) rfl (by simp) h
  | storeResult | storeRequest =>
    obtain rfl := Option.some.inj h
    simp only [State.user_goto, State.user_goto_record]
    exact .inside _ (by simp) (by simp)
  | unlock =>
    obtain rfl := Option.some.inj h
    rw [State.user_goto_record, hown rfl]
    exact .leave (by simp) rfl

/-- `try_to_lock`: the mutex is taken or the call is over. -/
theorem tryLock_section (pc : UserPc R F) {before : UserPc R F} {b : Bool} (hbefore : before.left = 0)
    (hpos : 0 < pc.left)
    (h : (let (ownsLock, mutex) := s.mutex.tryLock (.user k) b
      let s := { s with mutex }
      if ownsLock then some (s.goto k pc)
      else some ((s.goto k .idle).record (.returned k (some false)))) = some s') :
    BoundedStep (.user k) before.left (s'.user k).left s.mutex s'.mutex := by
  rcases Mutex.tryLock_cases s.mutex (.user k) b with ⟨hfree, he⟩ | he
  · simp only [he, if_true, Option.some.injEq] at h
    subst h
    rw [State.user_goto, hfree, hbefore]
    exact .enter rfl hpos
  · simp only [he, Bool.false_eq_true, if_false, Option.some.injEq] at h
    subst h
    exact outside_section hbefore rfl (State.user_goto_record ..) rfl

theorem setFeedback_section {feedback : Option (FeedbackPtr F)} {pc : FeedbackPc}
    (hown : (UserPc.setFeedback feedback pc : UserPc R F).inside = true → s.mutex = some (.user k))
    (h : setFeedback s k o feedback pc = some s') :
    BoundedStep (.user k) (UserPc.setFeedback feedback pc : UserPc R F).left (s'.user k).left s.mutex
      s'.mutex := by
  cases pc with
  | tryLock => exact tryLock_section (.setFeedback feedback .storeFeedback) rfl (by simp) h
  | update => cases h
  | storeFeedback =>
    obtain rfl := Option.some.inj h
    rw [State.user_goto]
    exact .inside _ (by simp) (by simp)
  | unlock =>
    obtain rfl := Option.some.inj h
    rw [State.user_goto_record, hown rfl]
    exact .leave (by simp) rfl

/-- Outside its callback. -/
theorem trySetFeedback_section {pc : FeedbackPc} (hpc : pc ≠ .update)
    (hown : (UserPc.trySetFeedback pc : UserPc R F).inside = true → s.mutex = some (.user k))
    (h : trySetFeedback s k o pc = some s') :
    BoundedStep (.user k) (UserPc.trySetFeedback pc : UserPc R F).left (s'.user k).left s.mutex
      s'.mutex := by
  cases pc with
  | tryLock => exact tryLock_section (.trySetFeedback .update) rfl (by simp) h
  | update => exact absurd rfl hpc
  | storeFeedback =>
    obtain rfl := Option.some.inj h
    rw [State.user_goto]
    exact .inside _ (by simp) (by simp)
  | unlock =>
    obtain rfl := Option.some.inj h
    rw [State.user_goto_record, hown rfl]
    exact .leave (by simp) rfl

theorem userStep_section (hout : s.user k ≠ .trySetFeedback .update)
    (hown : (s.user k).inside = true → s.mutex = some (.user k)) (h : userStep s k o = some s') :
    BoundedStep (.user k) (s.user k).left (s'.user k).left s.mutex s'.mutex := by
  unfold userStep at h
  cases hpc : s.user k with
  | idle =>
    simp only [hpc, Option.some.injEq] at h
    subst h
    exact outside_section rfl (by cases o.call <;> rfl) (State.user_goto_record ..) rfl
  | execute pc =>
    simp only [hpc] at h hown
    exact execute_section hown h
  | set outcome result pc =>
    simp only [hpc] at h hown
    exact set_section hown h
  | setFeedback feedback pc =>
    simp only [hpc] at h hown
    exact setFeedback_section hown h
  | trySetFeedback pc =>
    simp only [hpc] at h hown
    refine trySetFeedback_section ?_ hown h
    rintro rfl
    exact hout hpc

/-- In its callback `trySetFeedback` keeps the mutex. -/
theorem userStep_callback (hin : s.user k = .trySetFeedback .update)
    (h : userStep s k o = some s') : s'.mutex = s.mutex ∧ (s'.user k).inside = true := by
  simp only [userStep, hin, trySetFeedback] at h
  split at h <;> obtain rfl := Option.some.inj h
  · exact ⟨rfl, congrArg UserPc.inside hin⟩
  · exact ⟨rfl, congrArg UserPc.inside (State.user_goto ..)⟩

/-! ## Runs -/

/-- `runNonRealtime` has seen feedback and is going to publish it. -/
def RunPc.publishing : RunPc → Bool
  | .testFeedbackExecuting | .publishFeedback => true
  | _ => false

/-- What a state of a run says about who may move. -/
structure Ready (s : State κ R F) : Prop where
  owned : MutexOwned s
  publishes : s.run.publishing = true → s.handle.reqFeedback.isSome
  noCallback : ∀ k feedback, s.user k ≠ .setFeedback feedback .update

omit [DecidableEq κ] in
theorem runNonRealtime_publishes (hI : s.run.publishing = true → s.handle.reqFeedback.isSome)
    (h : runNonRealtime s = some s') (hpublish : s'.run.publishing = true) :
    s.handle.reqFeedback.isSome := by
  unfold runNonRealtime at h
  cases hpc : s.run <;> simp only [hpc] at h hI
  case testFeedback =>
    obtain rfl := Option.some.inj h
    by_contra hnone
    simp [hnone, RunPc.publishing] at hpublish
  case testFeedbackExecuting | publishFeedback => exact hI rfl
  case lock =>
    obtain ⟨_, h⟩ := Option.ite_none_right_eq_some.mp h
    obtain rfl := Option.some.inj h
    cases hpublish
  case execute | finish =>
    obtain rfl := Option.some.inj h
    unfold callGoal at hpublish
    split at hpublish <;> cases hpublish
  case idle | unlock =>
    obtain rfl := Option.some.inj h
    cases hpublish
  case testValid | loadExecute | testExecuting | testActive | testCanceling =>
    obtain rfl := Option.some.inj h
    dsimp only at hpublish
    split at hpublish <;> cases hpublish
  case loadRequest o | testGuard o =>
    obtain rfl := Option.some.inj h
    dsimp only at hpublish
    split at hpublish
    · cases hpublish
    · cases o <;> cases hpublish
  case storeRequest o =>
    obtain rfl := Option.some.inj h
    cases o <;> cases hpublish

omit [DecidableEq κ] in
/-- `setFeedback` has no callback to run. -/
theorem FeedbackMove.noCallback {seen : Option (FeedbackEvent κ F)} (h : FeedbackMove k o s s' seen)
    (feedback : Option (FeedbackPtr F)) : s'.user k ≠ .setFeedback feedback .update := by
  intro hpc
  cases h with
  | other _ hpc' _ =>
    rw [hpc] at hpc'
    cases hpc'
  | wrote _ hin hpc' _ =>
    rw [hpc', hin] at hpc
    cases hpc
  | beginSet _ _ _ hpc' | beginTry _ hpc' | refused _ hpc' | grantedSet _ _ hpc'
  | grantedTry _ hpc' | callbackReturned _ hpc' | storedSet _ _ hpc' | storedTry _ hpc'
  | returned _ hpc' =>
    rw [hpc'] at hpc
    cases hpc

theorem Ready.step (h : Ready s) (hs : step t o s = some s') : Ready s' := by
  cases t with
  | nonRealtime =>
    have hs : runNonRealtime s = some s' := hs
    obtain ⟨huser, hsame⟩ := runNonRealtime_feedback hs
    refine ⟨h.owned.step (runNonRealtime_mutexMove (h.owned .nonRealtime) hs), fun hp => ?_, ?_⟩
    · rw [hsame.request]
      exact runNonRealtime_publishes h.publishes hs hp
    · rw [huser]
      exact h.noCallback
  | actionClient =>
    obtain rfl := Option.some.inj hs
    exact ⟨h.owned, h.publishes, h.noCallback⟩
  | user k =>
    have hs : userStep s k o = some s' := hs
    have hmutex := userStep_mutexMove (h.owned (.user k)) hs
    have hmove := userStep_feedback hs
    have hrun := hmutex.run (by simp)
    refine ⟨h.owned.step hmutex, fun hp => ?_, fun j feedback => ?_⟩
    · rw [hrun] at hp
      -- The mutex is owned here, so the user does not touch the feedback.
      have hinside : s.inside .nonRealtime = true := by
        show s.run.inside = true
        cases hpc : s.run <;> rw [hpc] at hp <;> first | rfl | cases hp
      rw [(hmove.same (h.owned.alone (u := .user k) hinside (by simp))).request]
      exact h.publishes hp
    · by_cases hj : j = k
      · subst hj
        exact hmove.noCallback feedback
      · rw [hmutex.user j (by simpa using hj)]
        exact h.noCallback j feedback

theorem reachable_ready (h : Reachable (goalHandle κ R F) anyStep s) : Ready s := by
  refine h.invariant (I := Ready) ?_ fun s t o s' _ hI _ hs => hI.step hs
  rintro s ⟨gh, content, rfl⟩
  refine ⟨fun t ht => ?_, fun hp => ?_, fun k feedback hpc => ?_⟩
  · cases t <;> cases ht
  · cases hp
  · cases hpc

theorem step_mutexMove (hr : Ready s) (hs : step t o s = some s') : MutexMove t s s' := by
  cases t with
  | nonRealtime => exact runNonRealtime_mutexMove (hr.owned .nonRealtime) hs
  | actionClient =>
    obtain rfl := Option.some.inj hs
    exact ⟨.keep _, fun _ => rfl, fun _ _ => rfl, fun hin => by cases hin⟩
  | user k => exact userStep_mutexMove (hr.owned (.user k)) hs

omit [DecidableEq κ] in
/-- A step of one thread leaves the others where they are. -/
theorem MutexMove.left_eq (h : MutexMove t s s') {u : Actor κ} (hut : u ≠ t) :
    s'.left u = s.left u := by
  cases u with
  | nonRealtime => exact congrArg RunPc.left (h.run hut)
  | actionClient => rfl
  | user k => exact congrArg UserPc.left (h.user k hut)

/-- A step outside the callback of `trySetFeedback`. -/
theorem step_section (hr : Ready s) (hout : ¬ InCallback t s) (hs : step t o s = some s') :
    BoundedStep t (s.left t) (s'.left t) s.mutex s'.mutex := by
  cases t with
  | nonRealtime => exact runNonRealtime_section (hr.owned .nonRealtime) hs
  | actionClient =>
    obtain rfl := Option.some.inj hs
    exact .outside _ rfl rfl
  | user k => exact userStep_section (fun hpc => hout ⟨k, rfl, hpc⟩) (hr.owned (.user k)) hs

theorem goalHandle_sections : Sections (goalHandle κ R F) anyStep State.mutex
    (fun t s => 0 < s.left t) where
  start := by
    rintro s ⟨gh, content, rfl⟩
    refine ⟨rfl, fun t => ?_⟩
    cases t <;> exact Nat.not_lt_zero 0
  own := by
    intro s t o s' hr _ hs
    have hready := reachable_ready hr
    by_cases hin : InCallback t s
    · obtain ⟨k, rfl, hpc⟩ := hin
      obtain ⟨hmutex, hinside⟩ := userStep_callback hpc hs
      rw [hmutex]
      refine .inside _ ?_ ((left_pos_iff _ s').mpr hinside)
      exact (left_pos_iff _ s).mpr (congrArg UserPc.inside hpc)
    · exact (step_section hready hin hs).sectionStep
  others := by
    intro s t o s' u hr _ hs hut
    rw [(step_mutexMove (reachable_ready hr) hs).left_eq hut]

/-- Where a thread may have to wait for `mutex_`. -/
def AtLock (t : Actor κ) (s : State κ R F) : Prop :=
  match t with
  | .nonRealtime => s.run = .lock
  | .actionClient => False
  | .user k => s.user k = .execute .lock ∨ ∃ outcome result, s.user k = .set outcome result .lock

omit [DecidableEq κ] in
theorem left_of_atLock (h : AtLock t s) : s.left t = 0 := by
  cases t with
  | nonRealtime =>
    have h : s.run = .lock := h
    simp [State.left, h]
  | actionClient => rfl
  | user k =>
    rcases h with h | ⟨outcome, result, h⟩ <;> simp [State.left, h]

/-- A user waits for the mutex only, in `execute` and the setters. -/
theorem userStep_enabled (hlock : AtLock (.user k) s → s.mutex = none)
    (hno : ∀ feedback, s.user k ≠ .setFeedback feedback .update) (o : Oracle R F) :
    ∃ s', userStep s k o = some s' := by
  unfold userStep
  cases hpc : s.user k with
  | idle => exact ⟨_, rfl⟩
  | execute pc =>
    cases pc with
    | lock => exact ⟨_, if_pos (hlock (.inl hpc))⟩
    | loadSucceed | loadAbort | loadCancel => dsimp only [execute]; split <;> exact ⟨_, rfl⟩
    | _ => exact ⟨_, rfl⟩
  | set outcome result pc =>
    cases pc with
    | lock => exact ⟨_, if_pos (hlock (.inr ⟨outcome, result, hpc⟩))⟩
    | loadExecute | loadSucceed | loadAbort | loadCancel =>
      dsimp only [set]
      split <;> exact ⟨_, rfl⟩
    | _ => exact ⟨_, rfl⟩
  | setFeedback feedback pc =>
    cases pc with
    | tryLock => dsimp only [setFeedback]; split <;> exact ⟨_, rfl⟩
    | update => exact absurd hpc (hno feedback)
    | _ => exact ⟨_, rfl⟩
  | trySetFeedback pc =>
    cases pc with
    | tryLock | update => dsimp only [trySetFeedback]; split <;> exact ⟨_, rfl⟩
    | _ => exact ⟨_, rfl⟩

theorem step_enabled (hr : Ready s) (hlock : AtLock t s → s.mutex = none) (o : Oracle R F) :
    ∃ s', step t o s = some s' := by
  cases t with
  | nonRealtime =>
    refine runNonRealtime_enabled hlock fun hpc => hr.publishes ?_
    rw [hpc]
    rfl
  | actionClient => exact ⟨_, rfl⟩
  | user k => exact userStep_enabled hlock (hr.noCallback k) o

/-- **The callback alone may keep the mutex.**  Outside the callback of its `trySetFeedback` the owner
of `mutex_` can always move, and gives it back or comes to the callback after 21 of its own steps at the
latest.  A thread that cannot move waits for the mutex of such an owner, in `runNonRealtime`, `execute`
or a setter. -/
theorem goal_mutex_given_back :
    (∀ t, WaitFree (goalHandle κ R F) anyStep t (fun s => s.mutex = some t ∧ ¬ InCallback t s) 21) ∧
      ∀ s t o, Reachable (goalHandle κ R F) anyStep s → step t o s = none →
        AtLock t s ∧ ∃ u, s.mutex = some u ∧ u ≠ t := by
  refine ⟨fun t => .of_rank (State.left t) ?_ (fun s _ => State.left_le t s) ?_, ?_⟩
  · rintro s hr ⟨hown, _⟩
    have hleft : 0 < s.left t := (goalHandle_sections.owner_iff hr t).mp hown
    obtain ⟨s', hs⟩ := step_enabled (reachable_ready hr) (t := t)
      (fun hat => absurd (left_of_atLock hat) (Nat.ne_of_gt hleft)) {}
    exact ⟨{}, s', hs⟩
  · rintro s u o s' hr ⟨hown, hout⟩ _ hs
    refine ⟨?_, fun hut => ((step_mutexMove (reachable_ready hr) hs).left_eq (Ne.symm hut)).le⟩
    rintro rfl
    exact (step_section (reachable_ready hr) hout hs).lt
      ((goalHandle_sections.owner_iff hr u).mp hown)
  · intro s t o hr hblocked
    have hheld : ¬ (AtLock t s → s.mutex = none) := by
      intro hfree
      obtain ⟨s', hs⟩ := step_enabled (reachable_ready hr) hfree o
      rw [hblocked] at hs
      cases hs
    push Not at hheld
    obtain ⟨hat, hmutex⟩ := hheld
    obtain ⟨u, hu⟩ := Option.ne_none_iff_exists'.mp hmutex
    refine ⟨hat, u, hu, ?_⟩
    rintro rfl
    exact absurd (left_of_atLock hat) (Nat.ne_of_gt ((goalHandle_sections.owner_iff hr u).mp hu))

/-! ## The feedback calls -/

/-- The steps of a user until its `setFeedback` returns. -/
@[simp] def UserPc.leftOfSetFeedback : UserPc R F → ℕ
  | .setFeedback _ .tryLock => 3
  | .setFeedback _ .storeFeedback => 2
  | .setFeedback _ .unlock => 1
  | _ => 0

/-- The steps of a user until its `trySetFeedback` comes to the callback or returns. -/
@[simp] def UserPc.leftOfTrySetFeedback : UserPc R F → ℕ
  | .trySetFeedback .storeFeedback => 2
  | .trySetFeedback .tryLock | .trySetFeedback .unlock => 1
  | _ => 0

omit [DecidableEq κ] in
theorem UserPc.leftOfSetFeedback_le (pc : UserPc R F) : pc.leftOfSetFeedback ≤ 3 := by
  unfold leftOfSetFeedback
  split <;> decide

omit [DecidableEq κ] in
theorem UserPc.leftOfTrySetFeedback_le (pc : UserPc R F) : pc.leftOfTrySetFeedback ≤ 2 := by
  unfold leftOfTrySetFeedback
  split <;> decide

omit [DecidableEq κ] in
theorem FeedbackMove.lowers_setFeedback {seen : Option (FeedbackEvent κ F)}
    (h : FeedbackMove k o s s' seen) {feedback : Option (FeedbackPtr F)} {pc : FeedbackPc}
    (hpc : s.user k = .setFeedback feedback pc) :
    (s'.user k).leftOfSetFeedback < (s.user k).leftOfSetFeedback := by
  cases h with
  | other hout _ _ =>
    rw [hpc] at hout
    cases hout
  | refused hat hpc' _ | returned hat hpc' _ =>
    rcases hat with hat | ⟨_, hat⟩
    · rw [hpc] at hat
      cases hat
    · rw [hpc', hat]
      simp
  | grantedSet _ hat hpc' _ | storedSet _ hat hpc' _ _ =>
    rw [hpc', hat]
    simp
  | beginSet _ hat _ _ _ | beginTry hat _ _ | grantedTry hat _ _ | wrote _ hat _ _
  | callbackReturned hat _ _ | storedTry hat _ _ _ =>
    rw [hpc] at hat
    cases hat

omit [DecidableEq κ] in
theorem FeedbackMove.lowers_trySetFeedback {seen : Option (FeedbackEvent κ F)}
    (h : FeedbackMove k o s s' seen) {pc : FeedbackPc} (hpc : s.user k = .trySetFeedback pc)
    (hout : pc ≠ .update) :
    (s'.user k).leftOfTrySetFeedback < (s.user k).leftOfTrySetFeedback := by
  cases h with
  | other hnot _ _ =>
    rw [hpc] at hnot
    cases hnot
  | refused hat hpc' _ | returned hat hpc' _ =>
    rcases hat with hat | ⟨_, hat⟩
    · rw [hpc', hat]
      simp
    · rw [hpc] at hat
      cases hat
  | grantedTry hat hpc' _ | storedTry hat hpc' _ _ =>
    rw [hpc', hat]
    simp
  | wrote _ hat _ _ | callbackReturned hat _ _ =>
    rw [hpc] at hat
    cases hat
    exact absurd rfl hout
  | beginSet _ hat _ _ _ | beginTry hat _ _ | grantedSet _ hat _ _ | storedSet _ hat _ _ _ =>
    rw [hpc] at hat
    cases hat

/-- **Feedback never waits.**  A thread in `setFeedback` can always move and returns after three of its
own steps at the latest.  One in `trySetFeedback` can always move too, and outside its callback it comes
to the callback or returns after two. -/
theorem feedback_waitFree (k : κ) :
    WaitFree (goalHandle κ R F) anyStep (.user k)
        (fun s => ∃ feedback pc, s.user k = .setFeedback feedback pc) 3 ∧
      WaitFree (goalHandle κ R F) anyStep (.user k)
        (fun s => ∃ pc, pc ≠ .update ∧ s.user k = .trySetFeedback pc) 2 := by
  have henabled : ∀ s, Reachable (goalHandle κ R F) anyStep s → ¬ AtLock (.user k) s →
      ∃ o s', (goalHandle κ R F).step (.user k) o s = some s' := by
    intro s hr hnot
    obtain ⟨s', hs⟩ := step_enabled (reachable_ready hr) (fun hat => absurd hat hnot) {}
    exact ⟨{}, s', hs⟩
  have hothers : ∀ s u o s', Reachable (goalHandle κ R F) anyStep s →
      (goalHandle κ R F).step u o s = some s' → u ≠ .user k → s'.user k = s.user k :=
    fun s u o s' hr hs hut => (step_mutexMove (reachable_ready hr) hs).user k (Ne.symm hut)
  constructor
  · refine .of_rank (fun s => (s.user k).leftOfSetFeedback) ?_
      (fun s _ => (s.user k).leftOfSetFeedback_le) ?_
    · rintro s hr ⟨feedback, pc, hpc⟩
      exact henabled s hr (by simp [AtLock, hpc])
    · rintro s u o s' hr ⟨feedback, pc, hpc⟩ _ hs
      refine ⟨?_, fun hut => (congrArg UserPc.leftOfSetFeedback (hothers s u o s' hr hs hut)).le⟩
      rintro rfl
      exact (userStep_feedback hs).lowers_setFeedback hpc
  · refine .of_rank (fun s => (s.user k).leftOfTrySetFeedback) ?_
      (fun s _ => (s.user k).leftOfTrySetFeedback_le) ?_
    · rintro s hr ⟨pc, _, hpc⟩
      exact henabled s hr (by simp [AtLock, hpc])
    · rintro s u o s' hr ⟨pc, hout, hpc⟩ _ hs
      refine ⟨?_, fun hut => (congrArg UserPc.leftOfTrySetFeedback (hothers s u o s' hr hs hut)).le⟩
      rintro rfl
      exact (userStep_feedback hs).lowers_trySetFeedback hpc hout

/-! ## The members that are not atomic -/

/-- The members that a call may change after the constructor, and the preallocated message. -/
inductive Member
  | reqResult
  | reqFeedback
  | preallocatedFeedback
  deriving DecidableEq

/-- What the next step of a thread does to a member. -/
def accessMember (t : Actor κ) (s : State κ R F) (m : Member) : Option Access :=
  match t with
  | .nonRealtime => match s.run, m with
    | .finish _, .reqResult => some .read
    | .testFeedback, .reqFeedback | .publishFeedback, .reqFeedback => some .read
    | .publishFeedback, .preallocatedFeedback => match s.handle.reqFeedback with
      | some .preallocated => some .read
      | _ => none
    | _, _ => none
  | .actionClient => none
  | .user k => match s.user k, m with
    | .set _ _ .storeResult, .reqResult => some .write
    | .setFeedback _ .storeFeedback, .reqFeedback => some .write
    | .trySetFeedback .storeFeedback, .reqFeedback => some .write
    | .trySetFeedback .update, .preallocatedFeedback => some .write
    | _, _ => none

omit [DecidableEq κ] in
theorem inside_of_accessMember {m : Member} (h : (accessMember t s m).isSome) :
    s.inside t = true := by
  cases t with
  | nonRealtime =>
    show s.run.inside = true
    simp only [accessMember] at h
    split at h <;> rename_i hpc <;> first | (rw [hpc]; rfl) | cases h
  | actionClient => cases h
  | user k =>
    show (s.user k).inside = true
    simp only [accessMember] at h
    split at h <;> rename_i hpc <;> first | (rw [hpc]; rfl) | cases h

/-- **No data race.**  The result, the feedback and the preallocated message are touched by the owner of
`mutex_` only. -/
theorem handle_raceFree (m : Member) : RaceFree (goalHandle κ R F) anyStep accessMember m := by
  intro s hr
  exact not_race_of_owner s.mutex fun t ht =>
    (reachable_ready hr).owned t (inside_of_accessMember ht)

end Steps

end GoalHandle
