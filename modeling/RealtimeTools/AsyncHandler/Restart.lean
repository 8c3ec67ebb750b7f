import RealtimeTools.AsyncHandler.TriggerPaths
import RealtimeTools.AsyncHandler.Wakeup

/-!
# Starting again

`start_thread` resets the handler before it starts the thread.  With one client that sets the handler up
only while no thread is running, a run of the handler is, from its last start on, a run of a handler that
has just been started, and so everything proved of these holds after every restart.  What a restart
keeps is `pause_thread_` and `previous_time_`.
-/

open Interleaving

namespace AsyncFunctionHandler

variable {κ T E : Type}

/-! ## What a step does not look at -/

/-- The same handler with a past before its start. -/
def State.after (priority : Int32) (iteration : Time → Time) (past : List (Event κ T E))
    (t : State κ T E) : State κ T E :=
  { t with
    threadPriority := priority
    nextIterationTime := iteration t.nextIterationTime
    history := past ++ t.history }

variable {priority : Int32} {iteration : Time → Time} {past : List (Event κ T E)} {t : State κ T E} {k : κ}
  {o : Oracle κ T E}

section Steps

variable [DecidableEq κ]

theorem lockThen_after {next : ClientPc T} :
    lockThen (t.after priority iteration past) k next =
      (lockThen t k next).map (State.after priority iteration past) := by
  have hmutex : (t.after priority iteration past).asyncMtx = t.asyncMtx := rfl
  unfold lockThen
  rw [hmutex]
  split <;> rfl

theorem notifyThen_after {next : ClientPc T} :
    notifyThen (t.after priority iteration past) k o next =
      (notifyThen t k o next).map (State.after priority iteration past) := by
  have hcondition :
      (t.after priority iteration past).asyncCallbackCondition = t.asyncCallbackCondition := rfl
  unfold notifyThen
  rw [hcondition, Option.map_map]
  rfl

variable [Inhabited T]

theorem triggerAsyncCallback_after {time : Time} {period : Duration} {pc : TriggerPc T} :
    triggerAsyncCallback (t.after priority iteration past) k o time period pc =
      (triggerAsyncCallback t k o time period pc).map (State.after priority iteration past) := by
  cases pc with
  | testInitialized =>
    have hinitialized : (t.after priority iteration past).isInitialized = t.isInitialized := rfl
    simp only [triggerAsyncCallback, hinitialized]
    split <;> simp [State.after, State.goto, State.record, State.returnWith]
  | testRunning =>
    have hj : (t.after priority iteration past).joinable = t.joinable := rfl
    simp only [triggerAsyncCallback, hj]
    split <;> simp [State.after, State.goto, State.record, State.returnWith]
  | rethrow =>
    have hptr : (t.after priority iteration past).asyncExceptionPtr = t.asyncExceptionPtr := rfl
    simp only [triggerAsyncCallback, hptr]
    split <;> simp [State.after, State.goto, State.record, State.returnWith]
  | storePrevious =>
    have hparams : (t.after priority iteration past).params = t.params := rfl
    simp only [triggerAsyncCallback, hparams]
    split
    · split <;> simp [State.after, State.goto, State.record]
    · rfl
  | lockResume => exact lockThen_after
  | notifyResume | notify => exact notifyThen_after
  | predicate =>
    simp only [triggerAsyncCallback]
    split <;> simp [State.after, State.goto, State.record]
  | loadReturn status ownsLock =>
    cases ownsLock <;>
      simp [triggerAsyncCallback, State.after, State.goto, State.record, State.returnWith]
  | storeResume | storeTrigger | release | unwind =>
    simp [triggerAsyncCallback, State.after, State.goto, State.record, State.returnWith]
  | loadException | testPolicy | loadPause | storeReturn | unlockResume | tryLock | loadTrigger
  | storeTimes | unlock => rfl

omit [Inhabited T] in
theorem waitForTriggerCycleToFinish_after {pausing : Bool} {pc : WaitCyclePc} :
    waitForTriggerCycleToFinish (t.after priority iteration past) k pausing pc =
      (waitForTriggerCycleToFinish t k pausing pc).map (State.after priority iteration past) := by
  cases pc with
  | testRunning =>
    have hj : (t.after priority iteration past).joinable = t.joinable := rfl
    simp only [waitForTriggerCycleToFinish, hj]
    split <;> simp [State.after, State.goto, State.record, State.returnWith]
  | lock => exact lockThen_after
  | unlock =>
    simp [waitForTriggerCycleToFinish, State.after, State.goto, State.record, State.returnWith]
  | loadTrigger | block | blocked => rfl

omit [Inhabited T] in
theorem pauseExecution_after {pc : PausePc} :
    pauseExecution (t.after priority iteration past) k pc =
      (pauseExecution t k pc).map (State.after priority iteration past) := by
  cases pc with
  | lock => exact lockThen_after
  | storePauseSynchronized | storePause | unlock | loadPause =>
    simp [pauseExecution, State.after, State.goto, State.record, State.returnWith]
  | testPolicy | testRunning => rfl

theorem resetVariables_after {starting : Bool} {pc : ResetPc} :
    resetVariables (t.after priority iteration past) k starting pc =
      (resetVariables t k starting pc).map (State.after priority iteration past) := by
  cases pc with
  | lock => exact lockThen_after
  | storeException => simp [resetVariables, State.after, State.goto, State.record]
  | unlock =>
    cases starting <;>
      simp [resetVariables, State.after, State.goto, State.record, State.returnWith]
  | storeStop | storeTrigger | storeTimes | storeReturn => rfl

omit [Inhabited T] in
theorem stopThread_after {pc : StopPc} :
    stopThread (t.after priority iteration past) k o pc =
      (stopThread t k o pc).map (State.after priority iteration past) := by
  cases pc with
  | testRunning =>
    have hj : (t.after priority iteration past).joinable = t.joinable := rfl
    simp only [stopThread, hj]
    split <;> simp [State.after, State.goto, State.record, State.returnWith]
  | lock => exact lockThen_after
  | notify => exact notifyThen_after
  | join =>
    have hw : (t.after priority iteration past).worker = t.worker := rfl
    simp only [stopThread, hw]
    split <;> simp [State.after, State.goto, State.record, State.returnWith]
  | storeStop | unlock => rfl

/-- A client does not look at what has happened before the start. -/
theorem clientStep_after (hno : NotSettingUp k t) :
    clientStep (t.after priority iteration past) k o =
      (clientStep t k o).map (State.after priority iteration past) := by
  have hclient : (t.after priority iteration past).client = t.client := rfl
  unfold clientStep
  rw [hclient]
  cases hpc : t.client k with
  | idle => simp [State.after, State.goto, State.record]
  | trigger => exact triggerAsyncCallback_after
  | wait => exact waitForTriggerCycleToFinish_after
  | pause => exact pauseExecution_after
  | reset => exact resetVariables_after
  | stop => exact stopThread_after
  | start pc => cases hno .start (by rw [hpc]; rfl)
  | init call => exact absurd hpc (hno.not_init call)

/-! ## The worker -/

omit [Inhabited T] in
theorem waitAsync_after {first : Bool} {at_ : WaitPc → WorkerPc T E} {exit : WorkerPc T E}
    {pc : WaitPc} :
    waitAsync (t.after priority iteration past) first at_ exit pc =
      (waitAsync t first at_ exit pc).map (State.after priority iteration past) := by
  cases pc with
  | lock =>
    have hmutex : (t.after priority iteration past).asyncMtx = t.asyncMtx := rfl
    simp only [waitAsync, hmutex]
    split <;> rfl
  | _ => rfl

omit [Inhabited T] in
theorem loopBody_after {site : Loop} {first : Bool} {run next pc : LoopPc T E} :
    loopBody site first run next (t.after priority iteration past) o pc =
      (loopBody site first run next t o pc).map (State.after priority iteration past) := by
  cases pc with
  | head =>
    have hstop : (t.after priority iteration past).stopAsyncCallback = t.stopAsyncCallback := rfl
    simp only [loopBody, hstop]
    split <;> rfl
  | wait pc =>
    simp only [loopBody]
    exact waitAsync_after
  | inCallback =>
    simp only [loopBody]
    split <;> simp [State.after, State.record]
  | clear ran => cases ran <;> simp [loopBody, State.after, State.record]
  | invoke => simp [loopBody, State.after, State.record]
  | _ => rfl

omit [Inhabited T] in
theorem executeSynchronizedCallback_after {pc : LoopPc T E} :
    executeSynchronizedCallback (t.after priority iteration past) o pc =
      (executeSynchronizedCallback t o pc).map (State.after priority iteration past) :=
  loopBody_after

omit [Inhabited T] in
/-- The detached loop looks at the time of its last iteration. -/
theorem executeDetachedCallback_after {pc : LoopPc T E} :
    executeDetachedCallback (t.after priority id past) o pc =
      (executeDetachedCallback t o pc).map (State.after priority id past) := by
  have hbody : ∀ {pc : LoopPc T E},
      loopBody .detached (!t.pauseThread) .measure .schedule (t.after priority id past) o pc =
        (loopBody .detached (!t.pauseThread) .measure .schedule t o pc).map
          (State.after priority id past) := loopBody_after
  cases pc with
  | measure | sleepUntil => rfl
  | schedule =>
    have hparams : (t.after priority id past).params = t.params := rfl
    simp only [executeDetachedCallback, hparams]
    split <;> rfl
  | _ =>
    simp only [executeDetachedCallback]
    exact hbody

omit [Inhabited T] in
theorem detachedPrologue_after {pc : ProloguePc} (hpc : pc ≠ .readSteady) :
    detachedPrologue (t.after priority iteration past) o pc =
      (detachedPrologue t o pc).map (State.after priority iteration past) := by
  have hparams : (t.after priority iteration past).params = t.params := rfl
  cases pc with
  | testClock | testRate =>
    simp only [detachedPrologue, hparams]
    split <;> rfl
  | wait pc =>
    simp only [detachedPrologue]
    exact waitAsync_after
  | readSteady => exact absurd rfl hpc
  | _ => rfl

/-- The worker is in the detached loop. -/
def WorkerPc.inDetached : WorkerPc T E → Bool
  | .loop site _ => site = .detached
  | _ => false

omit [Inhabited T] in
/-- Nor does the worker, but for the local variable of its loop. -/
theorem workerStep_after (hsteady : t.worker ≠ .prologue .readSteady)
    (hiter : t.worker.inDetached = true → iteration = id) :
    workerStep (t.after priority iteration past) o =
      (workerStep t o).map (State.after priority iteration past) := by
  have hworker : (t.after priority iteration past).worker = t.worker := rfl
  have hparams : (t.after priority iteration past).params = t.params := rfl
  unfold workerStep
  rw [hworker, hparams]
  cases hw : t.worker with
  | start =>
    dsimp only
    split <;> rfl
  | prologue pc => exact detachedPrologue_after fun hpc => hsteady (by rw [hw, hpc])
  | loop site pc =>
    cases site with
    | synchronized => exact executeSynchronizedCallback_after
    | detached =>
      obtain rfl := hiter (by rw [hw]; rfl)
      exact executeDetachedCallback_after
  | finished => rfl

omit [DecidableEq κ] [Inhabited T] in
theorem QuietMove.inDetached {pc pc' : WorkerPc T E} (h : QuietMove t pc pc')
    (hpc' : pc'.inDetached = true) : pc.inDetached = true ∨ pc = .prologue .readSteady := by
  cases h with
  | readSteady => exact .inr rfl
  | firstTrue site _ | firstFalse site _ | stopTrue site _ | stopFalse site _ =>
    cases site with
    | prologue => cases hpc'
    | loop site => exact .inl hpc'
  | startSynchronized | startDetached | testClock | testRate | loadPaused | loadUnpaused
  | sleepPeriod | leave => cases hpc'
  | _ => exact .inl hpc'

omit [Inhabited T] in
/-- The worker comes to the detached loop where it has set that variable. -/
theorem WorkerEffect.inDetached {t' : State κ T E} (h : WorkerEffect t t')
    (hpc' : t'.worker.inDetached = true) :
    t.worker.inDetached = true ∨ t.worker = .prologue .readSteady := by
  cases h with
  | quiet hpc _ _ => exact hpc.inDetached hpc'
  | fault hpc _ _ => exact .inl (hpc ▸ hpc')
  | lock site hpc hto | block site hpc hto | wake site hpc hto =>
    rw [hto] at hpc'
    rw [hpc]
    cases site with
    | prologue => cases hpc'
    | loop site => exact .inl hpc'
  | prologueUnlock hpc hto | readPrevious _ hpc hto =>
    rw [hto] at hpc'
    cases hpc'
  | measure _ hpc hto => exact .inl (by rw [hpc]; rfl)
  | invoke site hpc hto | callbackReturned site _ hpc hto | callbackThrew site _ hpc hto
  | storeReturn site _ hpc hto | storeException site _ hpc hto | clear site hpc hto
  | clearStopped site hpc hto | unlock site hpc hto | notifyAll site hpc hto =>
    rw [hto] at hpc'
    rw [hpc]
    exact .inl hpc'

/-! ## Handlers that differ in their past -/

/-- `s` is `t` with another thread priority and a past, and with another time in the local variable of the
detached worker as long as it has not been set. -/
def Resembles (s t : State κ T E) : Prop :=
  ∃ priority iteration past, s = t.after priority iteration past ∧
    (t.worker.inDetached = true → iteration = id)

variable {s s' : State κ T E}

theorem Resembles.clientStep (h : Resembles s t) (hno : NotSettingUp k t)
    (hworker : ∀ t', clientStep t k o = some t' → t'.worker = t.worker)
    (hs : clientStep s k o = some s') :
    ∃ t', AsyncFunctionHandler.clientStep t k o = some t' ∧ Resembles s' t' := by
  obtain ⟨priority, iteration, past, rfl, hiter⟩ := h
  rw [clientStep_after hno] at hs
  obtain ⟨t', ht, rfl⟩ := Option.map_eq_some_iff.mp hs
  exact ⟨t', ht, priority, iteration, past, rfl, fun hpc => hiter (hworker t' ht ▸ hpc)⟩

theorem Resembles.workerStep (h : Resembles s t) (hat : At .worker t)
    (hs : workerStep s o = some s') :
    ∃ t', AsyncFunctionHandler.workerStep t o = some t' ∧ Resembles s' t' := by
  obtain ⟨priority, iteration, past, rfl, hiter⟩ := h
  by_cases hsteady : t.worker = .prologue .readSteady
  · have hworker : (t.after priority iteration past).worker = .prologue .readSteady := hsteady
    simp only [AsyncFunctionHandler.workerStep, hworker, detachedPrologue] at hs
    obtain rfl := Option.some.inj hs
    refine ⟨_, by simp only [AsyncFunctionHandler.workerStep, hsteady, detachedPrologue]; rfl,
      priority, id, past, rfl, fun _ => rfl⟩
  · rw [workerStep_after hsteady hiter] at hs
    obtain ⟨t', ht, rfl⟩ := Option.map_eq_some_iff.mp hs
    refine ⟨t', ht, priority, iteration, past, rfl, fun hpc' => ?_⟩
    exact hiter (((workerStep_effect ht hat).inDetached hpc').resolve_right hsteady)

/-! ## Who waits for the end of a cycle -/

/-- Whoever waits on `cycle_end_condition_` is a client that is blocked there. -/
def CycleWaiters (s : State κ T E) : Prop :=
  ∀ u ∈ s.cycleEndCondition, ∃ k pausing, u = .client k ∧ s.client k = .wait pausing .blocked

/-- What all steps of clients but those of `wait_for_trigger_cycle_to_finish` do: nobody waits on
`cycle_end_condition_` who has not before, and the thread is started by the last step of `start_thread`
only. -/
structure OutsideWait (k : κ) (s s' : State κ T E) : Prop where
  cycleEnd : s'.cycleEndCondition = s.cycleEndCondition
  joinable : s'.joinable = true → s.joinable = true ∨ s.client k = .start .spawn

omit [Inhabited T] in
theorem lockThen_outsideWait {next : ClientPc T} (h : lockThen s k next = some s') :
    OutsideWait k s s' := by
  obtain ⟨_, h⟩ := Option.ite_none_right_eq_some.mp h
  obtain rfl := Option.some.inj h
  exact ⟨rfl, .inl⟩

omit [Inhabited T] in
theorem notifyThen_outsideWait {next : ClientPc T} (h : notifyThen s k o next = some s') :
    OutsideWait k s s' := by
  obtain ⟨condition, _, rfl⟩ := Option.map_eq_some_iff.mp h
  exact ⟨rfl, .inl⟩

theorem clientStep_outsideWait (h : clientStep s k o = some s')
    (hnot : ∀ pausing pc, s.client k ≠ .wait pausing pc) : OutsideWait k s s' := by
  unfold clientStep at h
  cases hpc : s.client k with
  | idle =>
    simp only [hpc] at h
    obtain rfl := Option.some.inj h
    exact ⟨rfl, .inl⟩
  | trigger time period pc =>
    simp only [hpc] at h
    cases triggerAsyncCallback_step h <;> exact ⟨rfl, .inl⟩
  | wait pausing pc => exact absurd hpc (hnot pausing pc)
  | pause pc =>
    simp only [hpc] at h
    cases pc with
    | lock => exact lockThen_outsideWait h
    | _ =>
      obtain rfl := Option.some.inj h
      exact ⟨rfl, .inl⟩
  | reset starting pc =>
    simp only [hpc] at h
    cases pc with
    | lock => exact lockThen_outsideWait h
    | unlock => cases starting <;> obtain rfl := Option.some.inj h <;> exact ⟨rfl, .inl⟩
    | _ =>
      obtain rfl := Option.some.inj h
      exact ⟨rfl, .inl⟩
  | stop pc =>
    simp only [hpc] at h
    cases pc with
    | lock => exact lockThen_outsideWait h
    | notify => exact notifyThen_outsideWait h
    | testRunning =>
      simp only [stopThread] at h
      split at h <;> obtain rfl := Option.some.inj h <;> exact ⟨rfl, .inl⟩
    | join =>
      simp only [stopThread] at h
      split at h
      · obtain rfl := Option.some.inj h
        refine ⟨rfl, fun hj => ?_⟩
        cases hj
      · cases h
    | storeStop | unlock =>
      obtain rfl := Option.some.inj h
      exact ⟨rfl, .inl⟩
  | start pc =>
    simp only [hpc] at h
    cases pc with
    | testInitialized | testJoinable =>
      simp only [startThread] at h
      split at h <;> obtain rfl := Option.some.inj h <;> exact ⟨rfl, .inl⟩
    | spawn =>
      obtain rfl := Option.some.inj h
      exact ⟨rfl, fun _ => .inr hpc⟩
  | init call =>
    simp only [hpc, initStep] at h
    split at h <;> obtain rfl := Option.some.inj h
    · rename_i ha
      obtain ⟨_, _, _, _, _, rfl⟩ := InitCall.apply_ok ha
      exact ⟨rfl, .inl⟩
    · exact ⟨rfl, .inl⟩

omit [Inhabited T] in
theorem waitForTriggerCycleToFinish_joinable {pausing : Bool} {pc : WaitCyclePc}
    (h : waitForTriggerCycleToFinish s k pausing pc = some s') : s'.joinable = s.joinable := by
  cases pc with
  | testRunning =>
    simp only [waitForTriggerCycleToFinish] at h
    split at h <;> obtain rfl := Option.some.inj h <;> rfl
  | lock =>
    obtain ⟨_, h⟩ := Option.ite_none_right_eq_some.mp h
    obtain rfl := Option.some.inj h
    rfl
  | _ =>
    obtain rfl := Option.some.inj h
    rfl

/-- The thread is started by the last step of `start_thread` only. -/
theorem clientStep_joinable (h : clientStep s k o = some s') (hj : s'.joinable = true) :
    s.joinable = true ∨ s.client k = .start .spawn := by
  by_cases hwait : ∃ pausing pc, s.client k = .wait pausing pc
  · obtain ⟨pausing, pc, hpc⟩ := hwait
    simp only [clientStep, hpc] at h
    exact .inl ((waitForTriggerCycleToFinish_joinable h).symm.trans hj)
  · push Not at hwait
    exact (clientStep_outsideWait h hwait).joinable hj

theorem CycleWaiters.clientStep (hI : CycleWaiters s) (hs : ClientStep k s s')
    (h : clientStep s k o = some s') : CycleWaiters s' := by
  -- Whoever else waits goes on waiting.
  have hothers : ∀ u ∈ s.cycleEndCondition, u ≠ .client k →
      ∃ j pausing, u = .client j ∧ s'.client j = .wait pausing .blocked := by
    intro u hu hne
    obtain ⟨j, pausing, rfl, hj⟩ := hI u hu
    exact ⟨j, pausing, rfl, (hs.others (by simpa using hne)).trans hj⟩
  have hself : (∀ pausing, s.client k ≠ .wait pausing .blocked) →
      Thread.client k ∉ s.cycleEndCondition := by
    intro hnot hu
    obtain ⟨j, pausing, hj, hpc⟩ := hI _ hu
    obtain rfl : k = j := by simpa using hj
    exact hnot pausing hpc
  intro u hu
  by_cases hwait : ∃ pausing pc, s.client k = .wait pausing pc
  · obtain ⟨pausing, pc, hpc⟩ := hwait
    simp only [AsyncFunctionHandler.clientStep, hpc] at h
    cases pc with
    | testRunning =>
      simp only [waitForTriggerCycleToFinish] at h
      split at h <;>
      · obtain rfl := Option.some.inj h
        exact hothers u hu fun he => hself (by simp [hpc]) (he ▸ hu)
    | lock =>
      have hu₀ : u ∈ s.cycleEndCondition := (lockThen_outsideWait h).cycleEnd ▸ hu
      exact hothers u hu₀ fun he => hself (by simp [hpc]) (he ▸ hu₀)
    | loadTrigger | unlock =>
      obtain rfl := Option.some.inj h
      exact hothers u hu fun he => hself (by simp [hpc]) (he ▸ hu)
    | block =>
      obtain rfl := Option.some.inj h
      rcases CondVar.mem_wait.mp hu with rfl | hu
      · exact ⟨k, pausing, rfl, State.client_goto _ _ _⟩
      · exact hothers u hu fun he => hself (by simp [hpc]) (he ▸ hu)
    | blocked =>
      obtain rfl := Option.some.inj h
      obtain ⟨hne, hu⟩ := CondVar.mem_wake.mp hu
      exact hothers u hu hne
  · push Not at hwait
    rw [(clientStep_outsideWait h hwait).cycleEnd] at hu
    exact hothers u hu fun he => hself (fun pausing => hwait pausing .blocked) (he ▸ hu)

theorem fresh_cycleWaiters {permit : State κ T E → Thread κ → Oracle κ T E → Prop}
    (h : Reachable (freshHandler κ T E) permit s) : CycleWaiters s := by
  refine h.invariant ?_ ?_
  · rintro s rfl u hu
    cases hu
  · intro s t o s' hr hI _ hs
    have hsound := (step_sound (fresh_at hr) hs).guarantee
    cases t with
    | worker =>
      have hstep : WorkerStep s s' := hsound
      intro u hu
      have hu₀ : u ∈ s.cycleEndCondition := by
        cases workerStep_effect (workerStep_of_step hs) (fresh_at hr .worker) with
        | notifyAll _ _ _ hm _ =>
          rw [hm] at hu
          cases hu
        | _ =>
          rename_i hm _
          rw [hm] at hu
          exact hu
      rw [hstep.client]
      exact hI u hu₀
    | client k => exact hI.clientStep hsound (clientStep_of_step hs)

end Steps

/-! ## Between two runs of the worker -/

/-- What `reset_variables` has cleared when it comes to a program point. -/
def ResetPc.Cleared [Inhabited T] (s : State κ T E) : ResetPc → Prop
  | .lock | .storeStop => True
  | .storeTrigger => s.stopAsyncCallback = false
  | .storeTimes => s.stopAsyncCallback = false ∧ s.triggerInProgress = false
  | .storeReturn => s.stopAsyncCallback = false ∧ s.triggerInProgress = false ∧
      s.currentCallbackTime = 0 ∧ s.currentCallbackPeriod = 0
  | .storeException => s.stopAsyncCallback = false ∧ s.triggerInProgress = false ∧
      s.currentCallbackTime = 0 ∧ s.currentCallbackPeriod = 0 ∧ s.asyncCallbackReturn = default
  | .unlock => s.stopAsyncCallback = false ∧ s.triggerInProgress = false ∧
      s.currentCallbackTime = 0 ∧ s.currentCallbackPeriod = 0 ∧ s.asyncCallbackReturn = default ∧
      s.asyncExceptionPtr = none

/-- What `start_thread` knows. -/
def StartAt [Inhabited T] (s : State κ T E) : ClientPc T → Prop
  | .start .testJoinable => s.isInitialized = true
  | .reset true pc => s.isInitialized = true ∧ pc.Cleared s
  | .start .spawn => s.isInitialized = true ∧ ResetPc.unlock.Cleared s ∧ s.asyncMtx = none
  | _ => True

theorem startAt_of_call [Inhabited T] {s : State κ T E} {pc : ClientPc T}
    (h : pc.call? ≠ some .start) : StartAt s pc := by
  cases pc with
  | start pc => exact absurd rfl h
  | reset starting pc =>
    cases starting with
    | true => exact absurd rfl h
    | false => trivial
  | _ => trivial

theorem startAt_entry [Inhabited T] {s : State κ T E} (call : Call) : StartAt s call.entry := by
  cases call <;> trivial

section OneClient

variable [Inhabited T] {s s' : State Unit T E} {o : Oracle Unit T E}

theorem resetVariables_startAt {pc : ResetPc} (h : resetVariables s () true pc = some s')
    (hI : s.isInitialized = true) (hc : pc.Cleared s) : StartAt s' (s'.client ()) := by
  cases pc with
  | lock =>
    obtain ⟨_, h⟩ := Option.ite_none_right_eq_some.mp h
    obtain rfl := Option.some.inj h
    exact ⟨hI, trivial⟩
  | storeStop =>
    obtain rfl := Option.some.inj h
    exact ⟨hI, rfl⟩
  | storeTrigger =>
    obtain rfl := Option.some.inj h
    exact ⟨hI, hc, rfl⟩
  | storeTimes =>
    obtain rfl := Option.some.inj h
    exact ⟨hI, hc.1, hc.2, rfl, rfl⟩
  | storeReturn =>
    obtain rfl := Option.some.inj h
    exact ⟨hI, hc.1, hc.2.1, hc.2.2.1, hc.2.2.2, rfl⟩
  | storeException =>
    obtain rfl := Option.some.inj h
    exact ⟨hI, hc.1, hc.2.1, hc.2.2.1, hc.2.2.2.1, hc.2.2.2.2, rfl⟩
  | unlock =>
    obtain rfl := Option.some.inj h
    exact ⟨hI, hc, rfl⟩

/-- A client comes to the start of the thread through a reset. -/
theorem clientStep_startAt (h : clientStep s () o = some s') (hI : StartAt s (s.client ())) :
    StartAt s' (s'.client ()) := by
  cases clientStep_call h with
  | begin _ hentry _ => rw [hentry]; exact startAt_entry o.call
  | finish _ _ hidle _ => rw [hidle]; trivial
  | goOn hcall hh =>
    clear hh
    by_cases hin : (s.client ()).call? = some .start
    · unfold clientStep at h
      cases hpc : s.client () with
      | start pc =>
        simp only [hpc] at h
        cases pc with
        | testInitialized =>
          simp only [startThread] at h
          split at h <;> obtain rfl := Option.some.inj h
          · rename_i hinitialized
            exact hinitialized
          · trivial
        | testJoinable =>
          rw [hpc] at hI
          simp only [startThread] at h
          split at h <;> obtain rfl := Option.some.inj h
          · trivial
          · exact ⟨hI, trivial⟩
        | spawn =>
          obtain rfl := Option.some.inj h
          trivial
      | reset starting pc =>
        simp only [hpc] at h
        cases starting with
        | true =>
          rw [hpc] at hI
          exact resetVariables_startAt h hI.1 hI.2
        | false => rw [hpc] at hin; cases hin
      | wait pausing pc => rw [hpc] at hin; cases pausing <;> cases hin
      | _ => rw [hpc] at hin; cases hin
    · exact startAt_of_call (hcall ▸ hin)

/-- The start of the thread leaves a handler as it is right after `start_thread`. -/
theorem spawn_after (hstart : StartAt s (.start .spawn)) (hcondition : s.asyncCallbackCondition = ∅)
    (hcycle : s.cycleEndCondition = ∅) (hf : s.fault = none) :
    ({ s with joinable := true, worker := .start }.returnWith () .unit : State Unit T E) =
      (started s.params s.pauseThread s.previousTime).after s.threadPriority
        (fun _ => s.nextIterationTime) (s.history ++ [.returned () .unit]) := by
  obtain ⟨hI, ⟨hstop, htrigger, htime, hperiod, hret, hptr⟩, hmutex⟩ := hstart
  obtain ⟨hfunction, hpredicate⟩ : s.asyncFunction = true ∧ s.triggerPredicate = true :=
    Bool.and_eq_true_iff.mp hI
  have hclient : Function.update s.client () ClientPc.idle = fun _ => .idle := by
    funext k
    exact Function.update_self () _ _
  simp [State.returnWith, State.goto, State.record, State.after, started, fresh, hclient, hfunction,
    hpredicate, hstop, htrigger, htime, hperiod, hret, hptr, hmutex, hcondition, hcycle, hf]

/-! ## Runs -/

/-- `init` and `start_thread` are called only while no thread is running. -/
def SetsUpStopped (s : State Unit T E) (t : Thread Unit) (o : Oracle Unit T E) : Prop :=
  s.joinable = true → Calling running s t o

instance (s : State Unit T E) (t : Thread Unit) (o : Oracle Unit T E) :
    Decidable (SetsUpStopped s t o) :=
  inferInstanceAs (Decidable (_ → _))

/-- What holds from the construction of a handler on. -/
structure Restarts (s : State Unit T E) : Prop where
  up : s.joinable = true → ∃ t : State Unit T E,
    Reachable (startedHandler Unit T E s.params.schedulingPolicy) (Calling running) t ∧ Resembles s t
  down : s.joinable = false → s.asyncCallbackCondition = ∅
  start : StartAt s (s.client ())

/-- A started handler and its copy make the same step. -/
theorem Resembles.step {t : State Unit T E} {u : Thread Unit} {policy : AsyncSchedulingPolicy}
    (h : Resembles s t) (hr : Reachable (startedHandler Unit T E policy) (Calling running) t)
    (hp : Calling running s u o) (hs : step u o s = some s') :
    ∃ t', Reachable (startedHandler Unit T E policy) (Calling running) t' ∧ Resembles s' t' := by
  have hfacts := (reachable_wakes hr).1
  obtain ⟨hfault, hclient⟩ : s.fault = t.fault ∧ s.client = t.client := by
    obtain ⟨priority, iteration, past, rfl, _⟩ := h
    exact ⟨rfl, rfl⟩
  have hrunning : ¬ t.fault.isSome = true := by
    rw [← hfault, fault_of_step hs]
    decide
  cases u with
  | worker =>
    obtain ⟨t', ht, hres⟩ := h.workerStep (hfacts.at_ .worker) (workerStep_of_step hs)
    exact ⟨t', hr.step (t := .worker) (a := o) trivial ((if_neg hrunning).trans ht), hres⟩
  | client k =>
    have hno : NotSettingUp k t := fun call hcall => setsUp_of_running (hfacts.calls k call hcall)
    have hp' : Calling running t (.client k) o := by rwa [Calling, ← hclient]
    have hworker : ∀ t', AsyncFunctionHandler.clientStep t k o = some t' → t'.worker = t.worker :=
      fun t' ht => by
        have hstep : ClientStep k t t' := (clientStep_sound (hfacts.at_ (.client k)) ht).guarantee
        exact hstep.worker_eq hno
    obtain ⟨t', ht, hres⟩ := h.clientStep hno hworker (clientStep_of_step hs)
    exact ⟨t', hr.step hp' ((if_neg hrunning).trans ht), hres⟩

theorem Restarts.step_up {u : Thread Unit} (h : Restarts s) (hp : SetsUpStopped s u o)
    (hj : s.joinable = true) (hat' : At .worker s') (hs : step u o s = some s') : Restarts s' := by
  obtain ⟨t, ht, hres⟩ := h.up hj
  obtain ⟨t', ht', hres'⟩ := hres.step ht (hp hj) hs
  obtain ⟨hfacts, hwakes⟩ := reachable_wakes ht'
  obtain ⟨hworker, hclient, hparams, hcondition⟩ : s'.worker = t'.worker ∧ s'.client = t'.client ∧
      s'.params = t'.params ∧ s'.asyncCallbackCondition = t'.asyncCallbackCondition := by
    obtain ⟨priority, iteration, past, rfl, _⟩ := hres'
    exact ⟨rfl, rfl, rfl, rfl⟩
  refine ⟨fun _ => ⟨t', ?_, hres'⟩, fun hj' => ?_, startAt_of_call fun hin => ?_⟩
  · rw [hparams, hfacts.steady.params]
    exact ht'
  · -- The thread has been joined, and a finished worker does not wait.
    have hfinished : s'.worker = .finished := by
      by_contra hne
      cases (hat'.2 hne).symm.trans hj'
    rw [hcondition, ← Finset.not_nonempty_iff_eq_empty]
    rintro ⟨v, hv⟩
    obtain rfl := Finset.mem_singleton.mp (hwakes.only hv)
    have hblocked := hwakes.blocked hv
    rw [← hworker, hfinished] at hblocked
    cases hblocked
  · rw [hclient] at hin
    cases hfacts.calls () _ hin

theorem Restarts.step_down (h : Restarts s) (hcycle : CycleWaiters s) (hj : s.joinable = false)
    (hs : ClientStep () s s') (hf : s.fault = none) (hstep : clientStep s () o = some s') :
    Restarts s' := by
  refine ⟨fun hj' => ?_, fun _ => ?_, clientStep_startAt hstep h.start⟩
  · rcases clientStep_joinable hstep hj' with hj' | hpc
    · cases hj.symm.trans hj'
    · have hempty : s.cycleEndCondition = ∅ := by
        rw [← Finset.not_nonempty_iff_eq_empty]
        rintro ⟨v, hv⟩
        obtain ⟨k, pausing, _, hk⟩ := hcycle v hv
        cases hpc.symm.trans hk
      simp only [clientStep, hpc, startThread] at hstep
      obtain rfl := Option.some.inj hstep
      have hstart := h.start
      rw [hpc] at hstart
      refine ⟨_, .start ⟨s.params, s.pauseThread, s.previousTime, rfl, rfl⟩, _, _, _,
        spawn_after hstart (h.down hj) hempty hf, fun hin => ?_⟩
      cases hin
  · have hsub := hs.effect.condition
    rw [h.down hj] at hsub
    exact Finset.subset_empty.mp hsub

end OneClient

/-- A handler is initialised, started, stopped and started again. -/
def startedTwice : List (Thread Unit × Oracle Unit Nat Unit) :=
  List.replicate 2 (.client (), { call := .init (.callback true 50), callback := .ok 0 }) ++
    List.replicate 11 (.client (), { call := .start, callback := .ok 0 }) ++
    List.replicate 6 (.client (), { call := .stop, callback := .ok 0 }) ++
    List.replicate 2 (.worker, { callback := .ok 0 }) ++
    List.replicate 12 (.client (), { call := .start, callback := .ok 0 })

end AsyncFunctionHandler
