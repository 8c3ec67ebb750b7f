import RealtimeTools.AsyncHandler.TriggerPaths

/-!
# The handler and the steady clock

The handler under `DETACHED` together with the steady clock.  A timed run interleaves the steps of the
threads with steps in which time passes.  In the ideal schedule it passes only while the worker sleeps,
runs the callback, or waits for a resume; every other step takes none.
-/

open Interleaving

namespace AsyncFunctionHandler

variable {κ T E : Type}

/-! ## The steady clock -/

/-- Whose move it is: a thread of the handler, or the clock. -/
inductive Mover (κ : Type)
  | thread (t : Thread κ)
  | clock
  deriving DecidableEq

/-- A handler at an instant of the steady clock. -/
structure Timed (κ T E : Type) where
  handler : State κ T E
  clock : Time
  /-- When the `sleep_for` before the loop is over. -/
  sleepEnd : Time
  callbackStart : Time
  /-- How long the callback that has started takes. -/
  duration : Duration
  /-- How long the worker has been blocked in the wait of the loop since its last deadline. -/
  waited : Duration

/-- The callback's duration where it is invoked, and the time that passes in a step of the clock. -/
structure TimedOracle (κ T E : Type) extends Oracle κ T E where
  duration : Duration := 0
  elapsed : Duration := 0

namespace WorkerPc

/-- About to invoke `async_function_`. -/
def atInvoke : WorkerPc T E → Bool
  | .loop .detached .invoke => true
  | _ => false

/-- About to begin an iteration: the first one, or the next one after the sleep. -/
def beginning : WorkerPc T E → Bool
  | .prologue .readSteady | .loop .detached .sleepUntil => true
  | _ => false

/-- About to sleep for a period before the loop. -/
def dozing : WorkerPc T E → Bool
  | .prologue .readPrevious => true
  | _ => false

/-- Blocked in the wait of the loop. -/
def blockedInLoop : WorkerPc T E → Bool
  | .loop .detached (.wait .blocked) => true
  | _ => false

/-- Blocked in one of the two waits for a resume. -/
def blockedInPause : WorkerPc T E → Bool
  | .prologue (.wait .blocked) | .loop .detached (.wait .blocked) => true
  | _ => false

end WorkerPc

namespace Timed

variable {s s' : Timed κ T E}

def worker (s : Timed κ T E) : WorkerPc T E := s.handler.worker

def nextIterationTime (s : Timed κ T E) : Time := s.handler.nextIterationTime

def period (s : Timed κ T E) : Option Duration := s.handler.params.period

/-- Time passes. -/
def elapse (s : Timed κ T E) (elapsed : Duration) : Timed κ T E :=
  { s with
    clock := s.clock + elapsed
    waited := if s.worker.blockedInLoop then s.waited + elapsed else s.waited }

/-- The worker has moved: a sleep or a callback starts now, or a new iteration begins. -/
def workerMoved (s : Timed κ T E) (duration : Duration) (handler : State κ T E) : Timed κ T E where
  handler := handler
  clock := s.clock
  sleepEnd := if s.worker.dozing then s.clock + s.period.getD 0 else s.sleepEnd
  callbackStart := if s.worker.atInvoke then s.clock else s.callbackStart
  duration := if s.worker.atInvoke then duration else s.duration
  waited := if s.worker.beginning then 0 else s.waited

section WorkerMoved

variable {duration : Duration} {handler : State κ T E}

theorem waited_workerMoved (h : s.worker.beginning = false) :
    (s.workerMoved duration handler).waited = s.waited := by
  simp [workerMoved, h]

theorem waited_workerMoved_of_beginning (h : s.worker.beginning = true) :
    (s.workerMoved duration handler).waited = 0 := by
  simp [workerMoved, h]

theorem duration_workerMoved (h : s.worker.atInvoke = false) :
    (s.workerMoved duration handler).duration = s.duration := by
  simp [workerMoved, h]

theorem duration_workerMoved_of_atInvoke (h : s.worker.atInvoke = true) :
    (s.workerMoved duration handler).duration = duration := by
  simp [workerMoved, h]

theorem callbackStart_workerMoved (h : s.worker.atInvoke = false) :
    (s.workerMoved duration handler).callbackStart = s.callbackStart := by
  simp [workerMoved, h]

theorem callbackStart_workerMoved_of_atInvoke (h : s.worker.atInvoke = true) :
    (s.workerMoved duration handler).callbackStart = s.clock := by
  simp [workerMoved, h]

end WorkerMoved

/-- The instant the worker sleeps until, or its callback ends. -/
def wakeTime (s : Timed κ T E) : Option Time :=
  match s.worker with
  | .prologue .sleepPeriod => some s.sleepEnd
  | .loop .detached .inCallback => some (s.callbackStart + s.duration)
  | .loop .detached .sleepUntil => some s.nextIterationTime
  | _ => none

/-- The worker is blocked until somebody resumes it. -/
def waitsForResume (s : Timed κ T E) : Bool :=
  s.worker.blockedInPause && s.handler.pauseThread && !s.handler.stopAsyncCallback

end Timed

/-- A thread moves at the instant the clock shows, or the clock goes on. -/
def timedStep [DecidableEq κ] [Inhabited T] (m : Mover κ) (o : TimedOracle κ T E)
    (s : Timed κ T E) : Option (Timed κ T E) :=
  match m with
  | .clock => if 0 ≤ o.elapsed then some (s.elapse o.elapsed) else none
  | .thread t =>
      (step t { o.toOracle with steadyNow := s.clock } s.handler).map fun handler =>
        match t with
        | .worker => s.workerMoved o.duration handler
        | .client _ => { s with handler }

/-- All timed runs of a handler that has just been started with the `DETACHED` policy. -/
def timedHandler (κ T E : Type) [DecidableEq κ] [Inhabited T] :
    System (Mover κ) (TimedOracle κ T E) (Timed κ T E) where
  start s := (startedHandler κ T E .detached).start s.handler
  step := timedStep

/-! ## The ideal schedule -/

/-- `pause_execution` and `trigger_async_callback`. -/
def Call.pausesOrTriggers : Call → Bool
  | .pause | .trigger _ _ => true
  | _ => false

/-- The worker is never delayed: time passes only while it sleeps, runs the callback or waits for a
resume, it wakes exactly at its deadline, and the callback takes less than a period.  Clients pause and
trigger at any instant. -/
def Ideal (s : Timed κ T E) (m : Mover κ) (o : TimedOracle κ T E) : Prop :=
  match m with
  | .clock =>
      (∀ instant ∈ s.wakeTime, s.clock + o.elapsed ≤ instant) ∧
        (s.wakeTime = none → s.waitsForResume = true)
  | .thread .worker =>
      (∀ instant ∈ s.wakeTime, instant ≤ s.clock) ∧
        (s.worker.atInvoke = true → 0 ≤ o.duration ∧ ∀ period ∈ s.period, o.duration < period)
  | .thread (.client k) => Calling Call.pausesOrTriggers s.handler (.client k) o.toOracle

instance (s : Timed κ T E) (m : Mover κ) (o : TimedOracle κ T E) : Decidable (Ideal s m o) :=
  match m with
  | .clock => inferInstanceAs (Decidable (_ ∧ _))
  | .thread .worker => inferInstanceAs (Decidable (_ ∧ _))
  | .thread (.client k) =>
      inferInstanceAs (Decidable (Calling Call.pausesOrTriggers s.handler (.client k) o.toOracle))

/-! ## The worker from one deadline to the next -/

/-- Where the worker is between two deadlines of its loop. -/
inductive Phase
  | outside
  /-- The deadline has come. -/
  | due
  | running
  | returned
  | asleep
  deriving DecidableEq

def WorkerPc.phase : WorkerPc T E → Phase
  | .loop .detached .inCallback => .running
  | .loop .detached (.storeReturn _) | .loop .detached (.storeException _)
  | .loop .detached .schedule => .returned
  | .loop .detached .sleepUntil => .asleep
  | .loop .detached _ => .due
  | _ => .outside

/-- What a step of the worker does to `next_iteration_time`, by the phase it leads to. -/
inductive PhaseStep {κ T E : Type} (o : Oracle κ T E) (s s' : State κ T E) : Prop
  | keep (hinvoke : s.worker.atInvoke = false) (hbeginning : s.worker.beginning = false)
      (hphase : s'.worker.phase = s.worker.phase ∨ s'.worker.phase = .outside)
      (hnext : s'.nextIterationTime = s.nextIterationTime)
  | enter (hpc : s.worker = .prologue .readSteady) (hphase : s'.worker.phase = .due)
      (hnext : s'.nextIterationTime = o.steadyNow)
  | invoke (hpc : s.worker = .loop .detached .invoke) (hphase : s'.worker.phase = .running)
      (hnext : s'.nextIterationTime = s.nextIterationTime)
  | return (hpc : s.worker = .loop .detached .inCallback) (hphase : s'.worker.phase = .returned)
      (hnext : s'.nextIterationTime = s.nextIterationTime)
  | schedule (period : Duration) (hpc : s.worker = .loop .detached .schedule)
      (hphase : s'.worker.phase = .asleep) (hperiod : s.params.period = some period)
      (hnext : s'.nextIterationTime =
        AsyncFunctionHandler.nextIterationTime s.params.execRate period s.nextIterationTime o.steadyNow)
  | wake (hpc : s.worker = .loop .detached .sleepUntil) (hphase : s'.worker.phase = .due)
      (hnext : s'.nextIterationTime = s.nextIterationTime)

section Steps

variable [DecidableEq κ] {s s' : State κ T E} {o : Oracle κ T E}

theorem waitAsync_keeps {first : Bool} {site : WaitPc → WorkerPc T E} {exit : WorkerPc T E}
    {pc : WaitPc} (h : waitAsync s first site exit pc = some s') :
    s'.nextIterationTime = s.nextIterationTime ∧ (s'.worker = exit ∨ ∃ pc', s'.worker = site pc') := by
  cases pc with
  | lock =>
    obtain ⟨_, h⟩ := Option.ite_none_right_eq_some.mp h
    obtain rfl := Option.some.inj h
    exact ⟨rfl, .inr ⟨_, rfl⟩⟩
  | loadFirst | loadStop =>
    obtain rfl := Option.some.inj h
    refine ⟨rfl, ?_⟩
    dsimp only
    split
    · exact .inl rfl
    · exact .inr ⟨_, rfl⟩
  | block | blocked =>
    obtain rfl := Option.some.inj h
    exact ⟨rfl, .inr ⟨_, rfl⟩⟩

theorem detachedPrologue_phase {pc : ProloguePc} (hw : s.worker = .prologue pc)
    (h : detachedPrologue s o pc = some s') : PhaseStep o s s' := by
  have hkeep : (WorkerPc.prologue pc : WorkerPc T E).beginning = false →
      s'.nextIterationTime = s.nextIterationTime → s'.worker.phase = .outside →
      PhaseStep o s s' := fun hbeginning hnext hphase =>
    .keep (by rw [hw]; rfl) (by rw [hw]; exact hbeginning) (.inr hphase) hnext
  cases pc with
  | testClock =>
    simp only [detachedPrologue] at h
    split at h <;> obtain rfl := Option.some.inj h
    · exact hkeep rfl rfl rfl
    · exact hkeep rfl rfl (by rw [hw]; rfl)
  | testRate =>
    simp only [detachedPrologue] at h
    split at h <;> obtain rfl := Option.some.inj h
    · exact hkeep rfl rfl (by rw [hw]; rfl)
    · exact hkeep rfl rfl rfl
  | loadPause =>
    obtain rfl := Option.some.inj h
    refine hkeep rfl rfl ?_
    dsimp only
    split <;> rfl
  | wait pc =>
    have h : waitAsync s (!s.pauseThread) (fun pc => .prologue (.wait pc)) (.prologue .unlock) pc =
        some s' := h
    obtain ⟨hnext, hw' | ⟨pc', hw'⟩⟩ := waitAsync_keeps h
    · exact hkeep rfl hnext (by rw [hw']; rfl)
    · exact hkeep rfl hnext (by rw [hw']; rfl)
  | unlock | readPrevious | sleepPeriod =>
    obtain rfl := Option.some.inj h
    exact hkeep rfl rfl rfl
  | readSteady =>
    obtain rfl := Option.some.inj h
    exact .enter hw rfl rfl

theorem executeDetachedCallback_phase {pc : LoopPc T E} (hw : s.worker = .loop .detached pc)
    (h : executeDetachedCallback s o pc = some s') : PhaseStep o s s' := by
  have hkeep : (WorkerPc.loop .detached pc : WorkerPc T E).atInvoke = false →
      (WorkerPc.loop .detached pc : WorkerPc T E).beginning = false →
      s'.nextIterationTime = s.nextIterationTime →
      (s'.worker.phase = s.worker.phase ∨ s'.worker.phase = .outside) →
      PhaseStep o s s' := fun hinvoke hbeginning hnext hphase =>
    .keep (by rw [hw]; exact hinvoke) (by rw [hw]; exact hbeginning) hphase hnext
  cases pc with
  | head =>
    simp only [executeDetachedCallback, loopBody] at h
    split at h <;> obtain rfl := Option.some.inj h
    · exact hkeep rfl rfl rfl (.inr rfl)
    · exact hkeep rfl rfl rfl (.inl (by rw [hw]; rfl))
  | wait pc =>
    have h : waitAsync s (!s.pauseThread) (fun pc => .loop .detached (.wait pc))
        (.loop .detached .testStop) pc = some s' := h
    obtain ⟨hnext, hw' | ⟨pc', hw'⟩⟩ := waitAsync_keeps h
    · exact hkeep rfl rfl hnext (.inl (by rw [hw, hw']; rfl))
    · exact hkeep rfl rfl hnext (.inl (by rw [hw, hw']; rfl))
  | testStop =>
    obtain rfl := Option.some.inj h
    refine hkeep rfl rfl rfl (.inl ?_)
    rw [hw]
    dsimp only
    split <;> rfl
  | measure | unlock | notifyAll | storeReturn value | storeException e =>
    obtain rfl := Option.some.inj h
    exact hkeep rfl rfl rfl (.inl (by rw [hw]; rfl))
  | clear ran =>
    obtain rfl := Option.some.inj h
    refine hkeep rfl rfl ?_ (.inl ?_) <;> cases ran <;> first | rfl | (rw [hw]; rfl)
  | invoke =>
    obtain rfl := Option.some.inj h
    exact .invoke hw rfl rfl
  | inCallback =>
    simp only [executeDetachedCallback, loopBody] at h
    split at h <;> obtain rfl := Option.some.inj h
    · exact .return hw rfl rfl
    · exact .return hw rfl rfl
  | schedule =>
    simp only [executeDetachedCallback] at h
    split at h <;> obtain rfl := Option.some.inj h
    · rename_i period hperiod
      exact .schedule period hw rfl hperiod rfl
    · exact hkeep rfl rfl rfl (.inl rfl)
  | sleepUntil =>
    obtain rfl := Option.some.inj h
    exact .wake hw rfl rfl

theorem workerStep_phase (hfollows : s.worker.Follows .detached)
    (hpolicy : s.params.schedulingPolicy = .detached) (h : workerStep s o = some s') :
    PhaseStep o s s' := by
  unfold workerStep at h
  cases hw : s.worker with
  | start =>
    simp only [hw, hpolicy, reduceCtorEq, if_false, Option.some.injEq] at h
    subst h
    exact .keep (by rw [hw]; rfl) (by rw [hw]; rfl) (.inr rfl) rfl
  | prologue pc =>
    simp only [hw] at h
    exact detachedPrologue_phase hw h
  | loop site pc =>
    cases site with
    | synchronized => rw [hw] at hfollows; cases hfollows
    | detached =>
      simp only [hw] at h
      exact executeDetachedCallback_phase hw h
  | finished =>
    simp only [hw] at h
    cases h

/-! ## The clients -/

/-- `next_iteration_time` is a local variable of the worker. -/
theorem clientStep_nextIterationTime [Inhabited T] {k : κ} (h : clientStep s k o = some s') :
    s'.nextIterationTime = s.nextIterationTime := by
  have hlock : ∀ {next : ClientPc T}, lockThen s k next = some s' →
      s'.nextIterationTime = s.nextIterationTime := by
    intro next h
    obtain ⟨_, h⟩ := Option.ite_none_right_eq_some.mp h
    obtain rfl := Option.some.inj h
    rfl
  have hnotify : ∀ {next : ClientPc T}, notifyThen s k o next = some s' →
      s'.nextIterationTime = s.nextIterationTime := by
    intro next h
    obtain ⟨condition, _, rfl⟩ := Option.map_eq_some_iff.mp h
    rfl
  unfold clientStep at h
  cases hpc : s.client k with
  | idle =>
    simp only [hpc, Option.some.injEq] at h
    subst h
    rfl
  | trigger time period pc =>
    simp only [hpc] at h
    cases triggerAsyncCallback_step h <;> rfl
  | wait pausing pc =>
    simp only [hpc] at h
    cases pc with
    | lock => exact hlock h
    | testRunning =>
      simp only [waitForTriggerCycleToFinish] at h
      split at h <;> obtain rfl := Option.some.inj h <;> rfl
    | loadTrigger | block | blocked | unlock =>
      obtain rfl := Option.some.inj h
      rfl
  | pause pc =>
    simp only [hpc] at h
    cases pc with
    | lock => exact hlock h
    | testPolicy | storePauseSynchronized | testRunning | storePause | unlock | loadPause =>
      obtain rfl := Option.some.inj h
      rfl
  | reset starting pc =>
    simp only [hpc] at h
    cases pc with
    | lock => exact hlock h
    | unlock =>
      simp only [resetVariables] at h
      split at h <;> obtain rfl := Option.some.inj h <;> rfl
    | storeStop | storeTrigger | storeTimes | storeReturn | storeException =>
      obtain rfl := Option.some.inj h
      rfl
  | stop pc =>
    simp only [hpc] at h
    cases pc with
    | lock => exact hlock h
    | notify => exact hnotify h
    | testRunning =>
      simp only [stopThread] at h
      split at h <;> obtain rfl := Option.some.inj h <;> rfl
    | join =>
      simp only [stopThread] at h
      split at h
      · obtain rfl := Option.some.inj h
        rfl
      · cases h
    | storeStop | unlock =>
      obtain rfl := Option.some.inj h
      rfl
  | start pc =>
    simp only [hpc] at h
    cases pc with
    | spawn =>
      obtain rfl := Option.some.inj h
      rfl
    | testInitialized | testJoinable =>
      simp only [startThread] at h
      split at h <;> obtain rfl := Option.some.inj h <;> rfl
  | init call =>
    simp only [hpc, initStep] at h
    split at h <;> obtain rfl := Option.some.inj h <;> rfl

end Steps

/-! ## Runs -/

section Runs

variable [DecidableEq κ] [Inhabited T] {s s' : Timed κ T E} {o : TimedOracle κ T E}

theorem Call.not_setsUp_of_pausesOrTriggers (call : Call) (h : call.pausesOrTriggers = true) :
    call.setsUp = false := by
  cases call <;> first | rfl | cases h

/-- The calls of the ideal schedule, as a restriction of the steps of a handler. -/
def PausingOrTriggering (s : State κ T E) (t : Thread κ) (o : Oracle κ T E) : Prop :=
  Calling Call.pausesOrTriggers s t o

/-- Without its clock, a timed run is a run. -/
theorem handler_of_timed {permit : Timed κ T E → Mover κ → TimedOracle κ T E → Prop}
    (hpermit : ∀ s m o, permit s m o → Ideal s m o) (h : Reachable (timedHandler κ T E) permit s) :
    Reachable (startedHandler κ T E .detached) PausingOrTriggering s.handler := by
  have hmatched : ∃ t, Reachable (startedHandler κ T E .detached) PausingOrTriggering t ∧
      s.handler = t := by
    refine Reachable.simulation (M := timedHandler κ T E) (R := fun s t => s.handler = t)
      (fun s hs => ⟨s.handler, hs, rfl⟩) ?_ h
    rintro s m o s' _ _ rfl hp hs
    refine ⟨s'.handler, ?_, rfl⟩
    cases m with
    | clock =>
      obtain ⟨_, hs⟩ := Option.ite_none_right_eq_some.mp hs
      obtain rfl := Option.some.inj hs
      exact .refl
    | thread t =>
      obtain ⟨handler, hstep, rfl⟩ := Option.map_eq_some_iff.mp hs
      cases t with
      | worker => exact .single ⟨.worker, _, trivial, hstep⟩
      | client k => exact .single ⟨.client k, _, hpermit _ _ _ hp, hstep⟩
  obtain ⟨t, ht, rfl⟩ := hmatched
  exact ht

/-- The facts about the handler that its timed runs take over. -/
theorem started_of_timed {permit : Timed κ T E → Mover κ → TimedOracle κ T E → Prop}
    (hpermit : ∀ s m o, permit s m o → Ideal s m o) (h : Reachable (timedHandler κ T E) permit s) :
    Started .detached Call.pausesOrTriggers s.handler := by
  refine (started_invariant (I := fun _ => True) (fun _ _ _ hp => hp)
    Call.not_setsUp_of_pausesOrTriggers ?_ ?_ ?_ (handler_of_timed hpermit h)).1
  all_goals intros; trivial

/-- The steps of a timed run: the clock goes on, the worker moves on to a phase, or a client does
something that has no part in this. -/
inductive TimedMove (o : TimedOracle κ T E) (s : Timed κ T E) : Mover κ → Timed κ T E → Prop
  | clock : TimedMove o s .clock (s.elapse o.elapsed)
  | worker (handler : State κ T E)
      (hphase : PhaseStep { o.toOracle with steadyNow := s.clock } s.handler handler)
      (hparams : handler.params = s.handler.params) :
      TimedMove o s (.thread .worker) (s.workerMoved o.duration handler)
  | client (k : κ) (handler : State κ T E) (hworker : handler.worker = s.handler.worker)
      (hnext : handler.nextIterationTime = s.handler.nextIterationTime)
      (hparams : handler.params = s.handler.params) :
      TimedMove o s (.thread (.client k)) { s with handler }

theorem timedStep_move {m : Mover κ} (hfacts : Started .detached Call.pausesOrTriggers s.handler)
    (h : timedStep m o s = some s') : TimedMove o s m s' := by
  cases m with
  | clock =>
    obtain ⟨_, h⟩ := Option.ite_none_right_eq_some.mp h
    obtain rfl := Option.some.inj h
    exact .clock
  | thread t =>
    obtain ⟨handler, hs, rfl⟩ := Option.map_eq_some_iff.mp h
    have hsound := (step_sound hfacts.at_ hs).guarantee
    cases t with
    | worker =>
      have hstep : WorkerStep s.handler handler := hsound
      exact .worker handler (workerStep_phase hfacts.steady.worker hfacts.steady.params
        (workerStep_of_step hs)) hstep.params
    | client k =>
      have hstep : ClientStep k s.handler handler := hsound
      have hno : NotSettingUp k s.handler := fun call hcall =>
        Call.not_setsUp_of_pausesOrTriggers call (hfacts.calls k call hcall)
      exact .client k handler (hstep.worker_eq hno)
        (clientStep_nextIterationTime (clientStep_of_step hs)) (hstep.effect.params hno.not_init)

end Runs

end AsyncFunctionHandler
