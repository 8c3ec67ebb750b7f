import RealtimeTools.AsyncHandler.Calls

/-!
# The paths through trigger_async_callback

Every step of `trigger_async_callback` with the program points it leads between, under either policy.
-/

open Interleaving

namespace AsyncFunctionHandler

variable {κ T E : Type} {s s' : State κ T E} {k : κ} {o : Oracle κ T E} {time : Time}
  {period : Duration} {pc pc' : TriggerPc T}

/-- The steps that only read. -/
inductive TriggerReads (s : State κ T E) : TriggerPc T → TriggerPc T → Prop
  | initialized (h : s.isInitialized = true) : TriggerReads s .testInitialized .loadException
  | failed (h : s.asyncExceptionPtr.isSome = true) : TriggerReads s .loadException .rethrow
  | notFailed (h : s.asyncExceptionPtr.isSome = false) : TriggerReads s .loadException .testPolicy
  | detached (h : s.params.schedulingPolicy = .detached) : TriggerReads s .testPolicy .loadPause
  | notDetached (h : s.params.schedulingPolicy ≠ .detached) :
      TriggerReads s .testPolicy .testRunning
  | paused (h : s.pauseThread = true) : TriggerReads s .loadPause .lockResume
  | notPaused (h : s.pauseThread = false) : TriggerReads s .loadPause (.loadReturn true false)
  | running (h : s.joinable = true) : TriggerReads s .testRunning .tryLock
  | lockRefused : TriggerReads s .tryLock (.loadReturn false false)
  | busy (h : s.triggerInProgress = true) : TriggerReads s .loadTrigger (.loadReturn false true)
  | free (h : s.triggerInProgress = false) : TriggerReads s .loadTrigger .predicate
  | predicateThrew : TriggerReads s .predicate .unwind
  | loadReturn (status : Bool) :
      TriggerReads s (.loadReturn status true) (.release status s.asyncCallbackReturn)

section Steps

variable [DecidableEq κ] [Inhabited T]

/-- The steps of a call of `k` with the arguments `time` and `period`. -/
inductive TriggerStep (k : κ) (time : Time) (period : Duration) (s : State κ T E) :
    TriggerPc T → State κ T E → Prop
  | read {pc pc' : TriggerPc T} (h : TriggerReads s pc pc') :
      TriggerStep k time period s pc (s.goto k (.trigger time period pc'))
  | lockResume (hfree : s.asyncMtx = none) : TriggerStep k time period s .lockResume
      ({ s with asyncMtx := some (.client k) }.goto k (.trigger time period .storeResume))
  | tryLock (hfree : s.asyncMtx = none) : TriggerStep k time period s .tryLock
      ({ s with asyncMtx := some (.client k) }.goto k (.trigger time period .loadTrigger))
  | storeResume : TriggerStep k time period s .storeResume
      (({ s with pauseThread := false }.goto k (.trigger time period .storeReturn)).record
        (.resumed k))
  | storeReturn : TriggerStep k time period s .storeReturn
      ({ s with asyncCallbackReturn := default }.goto k (.trigger time period .storePrevious))
  | storePrevious (now : Time) (syncPeriod : Duration) (hperiod : s.params.period = some syncPeriod) :
      TriggerStep k time period s .storePrevious
        (({ s with previousTime := now - syncPeriod }.goto k
          (.trigger time period .unlockResume)).record (.resumeTime k now))
  | unlockResume : TriggerStep k time period s .unlockResume
      ({ s with asyncMtx := none }.goto k (.trigger time period .notifyResume))
  | notifyResume (condition : CondVar (Thread κ)) : TriggerStep k time period s .notifyResume
      ({ s with asyncCallbackCondition := condition }.goto k
        (.trigger time period (.loadReturn true false)))
  | predicate (result : Bool) : TriggerStep k time period s .predicate
      ((s.goto k (.trigger time period
        (if result then .storeTrigger else .loadReturn false true))).record (.predicate k result))
  | storeTrigger : TriggerStep k time period s .storeTrigger
      (({ s with triggerInProgress := true }.goto k (.trigger time period .storeTimes)).record
        (.accepted k time period))
  | storeTimes : TriggerStep k time period s .storeTimes
      ({ s with currentCallbackTime := time, currentCallbackPeriod := period }.goto k
        (.trigger time period .unlock))
  | unlock : TriggerStep k time period s .unlock
      ({ s with asyncMtx := none }.goto k (.trigger time period .notify))
  | notify (condition : CondVar (Thread κ)) : TriggerStep k time period s .notify
      ({ s with asyncCallbackCondition := condition }.goto k
        (.trigger time period (.loadReturn true false)))
  | finish {pc : TriggerPc T} (result : Result T E) (mutex : Mutex (Thread κ))
      (hret : Returns s (.trigger time period pc) result) :
      TriggerStep k time period s pc ({ s with asyncMtx := mutex }.returnWith k result)
  /-- The program ends there. -/
  | fault {pc : TriggerPc T} (f : Fault) : TriggerStep k time period s pc { s with fault := some f }

theorem triggerAsyncCallback_step (h : triggerAsyncCallback s k o time period pc = some s') :
    TriggerStep k time period s pc s' := by
  cases pc with
  | testInitialized =>
    simp only [triggerAsyncCallback] at h
    split at h <;> obtain rfl := Option.some.inj h
    · rename_i hi
      exact .read (.initialized hi)
    · exact .finish _ s.asyncMtx (.notInitialized time period)
  | loadException =>
    obtain rfl := Option.some.inj h
    split
    · rename_i he
      exact .read (.failed he)
    · rename_i he
      exact .read (.notFailed (by simpa using he))
  | rethrow =>
    simp only [triggerAsyncCallback] at h
    split at h <;> obtain rfl := Option.some.inj h
    · rename_i e he
      exact .finish _ s.asyncMtx (.rethrown time period e he)
    · exact .fault _
  | testPolicy =>
    obtain rfl := Option.some.inj h
    split
    · rename_i hp
      exact .read (.detached hp)
    · rename_i hp
      exact .read (.notDetached hp)
  | loadPause =>
    obtain rfl := Option.some.inj h
    split
    · rename_i hp
      exact .read (.paused hp)
    · rename_i hp
      exact .read (.notPaused (by simpa using hp))
  | lockResume =>
    obtain ⟨hfree, h⟩ := Option.ite_none_right_eq_some.mp h
    obtain rfl := Option.some.inj h
    exact .lockResume hfree
  | storeResume =>
    obtain rfl := Option.some.inj h
    exact .storeResume
  | storeReturn =>
    obtain rfl := Option.some.inj h
    exact .storeReturn
  | storePrevious =>
    simp only [triggerAsyncCallback] at h
    split at h
    · rename_i syncPeriod hperiod
      split at h <;> obtain rfl := Option.some.inj h
      · exact .storePrevious o.now syncPeriod hperiod
      · exact .fault _
    · obtain rfl := Option.some.inj h
      exact .fault _
  | unlockResume =>
    obtain rfl := Option.some.inj h
    exact .unlockResume
  | notifyResume =>
    obtain ⟨condition, _, rfl⟩ := Option.map_eq_some_iff.mp h
    exact .notifyResume condition
  | testRunning =>
    simp only [triggerAsyncCallback] at h
    split at h <;> obtain rfl := Option.some.inj h
    · rename_i hj
      exact .read (.running hj)
    · exact .finish _ s.asyncMtx (.notStarted time period)
  | tryLock =>
    rcases Mutex.tryLock_cases s.asyncMtx (.client k) o.spuriousFail with ⟨hfree, he⟩ | he
    · simp only [triggerAsyncCallback, he, if_true, Option.some.injEq] at h
      subst h
      exact .tryLock hfree
    · simp only [triggerAsyncCallback, he, Bool.false_eq_true, if_false, Option.some.injEq] at h
      subst h
      exact .read .lockRefused
  | loadTrigger =>
    obtain rfl := Option.some.inj h
    split
    · rename_i htrigger
      exact .read (.busy htrigger)
    · rename_i htrigger
      exact .read (.free (by simpa using htrigger))
  | predicate =>
    simp only [triggerAsyncCallback] at h
    split at h <;> obtain rfl := Option.some.inj h
    · exact .predicate _
    · exact .read .predicateThrew
  | storeTrigger =>
    obtain rfl := Option.some.inj h
    exact .storeTrigger
  | storeTimes =>
    obtain rfl := Option.some.inj h
    exact .storeTimes
  | unlock =>
    obtain rfl := Option.some.inj h
    exact .unlock
  | notify =>
    obtain ⟨condition, _, rfl⟩ := Option.map_eq_some_iff.mp h
    exact .notify condition
  | loadReturn status ownsLock =>
    cases ownsLock with
    | true =>
      obtain rfl := Option.some.inj h
      exact .read (.loadReturn status)
    | false =>
      obtain rfl := Option.some.inj h
      exact .finish _ s.asyncMtx (.triggered time period status)
  | release status value =>
    obtain rfl := Option.some.inj h
    exact .finish _ none (.released time period status value)
  | unwind =>
    obtain rfl := Option.some.inj h
    exact .finish _ none (.unwound time period)

/-- A client that is in a trigger has just begun it, or has taken a step of it. -/
theorem clientStep_to_trigger (h : clientStep s k o = some s')
    (hpc' : s'.client k = .trigger time period pc') :
    (s.client k = .idle ∧ pc' = .testInitialized ∧
        s' = (s.goto k (.trigger time period .testInitialized)).record
          (.called k (.trigger time period))) ∨
      ∃ pc, s.client k = .trigger time period pc ∧ TriggerStep k time period s pc s' := by
  cases clientStep_call h with
  | begin hidle hentry _ =>
    simp only [clientStep, hidle, Option.some.injEq] at h
    rw [hpc'] at hentry
    cases hcall : o.call <;> rw [hcall] at hentry <;> cases hentry
    refine .inl ⟨hidle, rfl, ?_⟩
    rw [← h, hcall]
    rfl
  | goOn hcall _ =>
    rw [hpc'] at hcall
    obtain ⟨pc, hpc⟩ := call?_eq_trigger hcall.symm
    simp only [clientStep, hpc] at h
    exact .inr ⟨pc, hpc, triggerAsyncCallback_step h⟩
  | finish _ _ hidle _ => cases hidle.symm.trans hpc'

/-! ## Where the events come from -/

omit [DecidableEq κ] [Inhabited T] in
/-- The program points at which a client records an event, besides the start and the end of a call. -/
def Event.RecordedAt (k : κ) : Event κ T E → ClientPc T → Prop
  | .called _ _, _ | .returned _ _, _ => True
  | .predicate j _, pc => j = k ∧ ∃ time period, pc = .trigger time period .predicate
  | .accepted j time period, pc => j = k ∧ pc = .trigger time period .storeTrigger
  | .resumed j, pc => j = k ∧ ∃ time period, pc = .trigger time period .storeResume
  | .resumeTime j _, pc => j = k ∧ ∃ time period, pc = .trigger time period .storePrevious
  | .paused j, pc => j = k ∧ (pc = .pause .storePauseSynchronized ∨ pc = .pause .storePause)
  | .reset j, pc => j = k ∧ ∃ starting, pc = .reset starting .storeException
  | .invoked _ _, _ | .callbackReturned _, _ | .callbackThrew _, _ | .cycleEnded, _ => False

theorem TriggerStep.records {e : Event κ T E} (h : TriggerStep k time period s pc s')
    (hh : s'.history = s.history ++ [e]) : e.RecordedAt k (.trigger time period pc) := by
  have hnew : ∀ {e' : Event κ T E}, s'.history = s.history ++ [e'] → e = e' := by
    intro e' hh'
    simpa using hh.symm.trans hh'
  have hsame : s'.history ≠ s.history := by simp [hh]
  cases h with
  | storeResume =>
    obtain rfl := hnew rfl
    exact ⟨rfl, time, period, rfl⟩
  | storePrevious now _ _ =>
    obtain rfl := hnew rfl
    exact ⟨rfl, time, period, rfl⟩
  | predicate result =>
    obtain rfl := hnew rfl
    exact ⟨rfl, time, period, rfl⟩
  | storeTrigger =>
    obtain rfl := hnew rfl
    exact ⟨rfl, rfl⟩
  | finish result mutex _ =>
    obtain rfl := hnew rfl
    trivial
  | _ => exact absurd rfl hsame

/-- A client records an event only where the source does what the event stands for. -/
theorem clientStep_records {e : Event κ T E} (h : clientStep s k o = some s')
    (hh : s'.history = s.history ++ [e]) : e.RecordedAt k (s.client k) := by
  by_cases hboundary : e.IsBoundary
  · cases e with
    | called j call | returned j result => trivial
    | _ => exact hboundary.elim
  have hsame : s'.history ≠ s.history := by simp [hh]
  have hnew : ∀ {e' : Event κ T E}, s'.history = s.history ++ [e'] → e = e' := by
    intro e' hh'
    simpa using hh.symm.trans hh'
  have hreturned : ∀ {result : Result T E}, s'.history ≠ s.history ++ [.returned k result] := by
    intro result hh'
    rw [hnew hh'] at hboundary
    exact hboundary trivial
  have hlock : ∀ {next : ClientPc T}, lockThen s k next ≠ some s' := by
    intro next h
    obtain ⟨_, h⟩ := Option.ite_none_right_eq_some.mp h
    obtain rfl := Option.some.inj h
    exact hsame rfl
  cases hpc : s.client k <;> simp only [clientStep, hpc] at h
  case idle =>
    obtain rfl := Option.some.inj h
    rw [hnew rfl] at hboundary
    exact absurd trivial hboundary
  case trigger time period pc => exact (triggerAsyncCallback_step h).records hh
  case wait pausing pc =>
    cases pc with
    | lock => exact absurd h hlock
    | testRunning =>
      simp only [waitForTriggerCycleToFinish] at h
      split at h <;> obtain rfl := Option.some.inj h
      · exact absurd rfl hsame
      · exact absurd rfl hreturned
    | unlock =>
      obtain rfl := Option.some.inj h
      exact absurd rfl hreturned
    | loadTrigger | block | blocked =>
      obtain rfl := Option.some.inj h
      exact absurd rfl hsame
  case pause pc =>
    cases pc with
    | lock => exact absurd h hlock
    | storePauseSynchronized =>
      obtain rfl := Option.some.inj h
      obtain rfl := hnew rfl
      exact ⟨rfl, .inl rfl⟩
    | storePause =>
      obtain rfl := Option.some.inj h
      obtain rfl := hnew rfl
      exact ⟨rfl, .inr rfl⟩
    | unlock | loadPause =>
      obtain rfl := Option.some.inj h
      exact absurd rfl hreturned
    | testPolicy | testRunning =>
      obtain rfl := Option.some.inj h
      exact absurd rfl hsame
  case reset starting pc =>
    cases pc with
    | lock => exact absurd h hlock
    | storeException =>
      obtain rfl := Option.some.inj h
      obtain rfl := hnew rfl
      exact ⟨rfl, starting, rfl⟩
    | unlock =>
      simp only [resetVariables] at h
      split at h <;> obtain rfl := Option.some.inj h
      · exact absurd rfl hsame
      · exact absurd rfl hreturned
    | storeStop | storeTrigger | storeTimes | storeReturn =>
      obtain rfl := Option.some.inj h
      exact absurd rfl hsame
  case stop pc =>
    cases pc with
    | lock => exact absurd h hlock
    | notify =>
      obtain ⟨condition, _, rfl⟩ := Option.map_eq_some_iff.mp h
      exact absurd rfl hsame
    | testRunning =>
      simp only [stopThread] at h
      split at h <;> obtain rfl := Option.some.inj h
      · exact absurd rfl hsame
      · exact absurd rfl hreturned
    | join =>
      simp only [stopThread] at h
      split at h
      · obtain rfl := Option.some.inj h
        exact absurd rfl hreturned
      · cases h
    | storeStop | unlock =>
      obtain rfl := Option.some.inj h
      exact absurd rfl hsame
  case start pc =>
    cases pc with
    | spawn =>
      obtain rfl := Option.some.inj h
      exact absurd rfl hreturned
    | testInitialized =>
      simp only [startThread] at h
      split at h <;> obtain rfl := Option.some.inj h
      · exact absurd rfl hsame
      · exact absurd rfl hreturned
    | testJoinable =>
      simp only [startThread] at h
      split at h <;> obtain rfl := Option.some.inj h
      · exact absurd rfl hreturned
      · exact absurd rfl hsame
  case init call =>
    unfold initStep at h
    split at h <;> obtain rfl := Option.some.inj h
    · exact absurd rfl hreturned
    · exact absurd rfl hreturned

end Steps

end AsyncFunctionHandler
