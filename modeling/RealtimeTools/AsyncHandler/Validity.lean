import RealtimeTools.AsyncHandler.Calls

/-!
# Running with valid parameters

`init(callback, params)` calls `validate` and drops what it returns.  In the runs in which no call
that gets as far as storing its parameters has been told that they are invalid, the parameters are
valid throughout, and the divisions by `exec_rate`, the uses of `clock` and the two exceptions of the
worker are all safe.  One client makes the calls, one after the other.
-/

open Interleaving

namespace AsyncFunctionHandler

variable {κ T E : Type} {s s' : State κ T E} {k : κ} {o : Oracle κ T E}

/-! ## Calls of `init` -/

/-- `validate` returns false. -/
def Validation.isInvalid : Validation → Bool
  | .invalid _ => true
  | _ => false

/-- The parameters that a call of `init` is about to store, unless a thread is running. -/
def ClientPc.configures? : ClientPc T → Option AsyncFunctionHandlerParams
  | .init (.params true params) => if params.triggerPredicate then some params else none
  | _ => none

/-- Parameters are stored only if `validate` has not returned false. -/
def ConfiguresValid (s : State κ T E) : Thread κ → Prop
  | .worker => True
  | .client k => ∀ params ∈ (s.client k).configures?, s.joinable = false →
      params.validate.isInvalid = false

instance (s : State κ T E) : ∀ t, Decidable (ConfiguresValid s t)
  | .worker => inferInstanceAs (Decidable True)
  | .client _ => inferInstanceAs (Decidable (∀ _ ∈ (_ : Option _), _))

/-- A call of `init` that does not throw keeps the parameters or stores its own, which `validate` has
not thrown for. -/
theorem InitCall.params_of_ok {call : InitCall} {m m' : Members κ T E}
    (h : call.apply m = .ok m') :
    m'.params = m.params ∨
      ((ClientPc.init call : ClientPc T).configures? = some m'.params ∧ m.joinable = false ∧
        ∀ what, m'.params.validate ≠ .throws what) := by
  cases call with
  | callback f priority =>
    obtain ⟨_, _, rfl⟩ := init_ok h
    exact .inl rfl
  | predicate f p priority =>
    obtain ⟨_, _, _, rfl⟩ := initPredicate_ok h
    exact .inl rfl
  | params f p =>
    obtain ⟨hvalidate, rfl, hpredicate, hj, rfl⟩ := initParams_ok h
    exact .inr ⟨if_pos hpredicate, hj, hvalidate⟩

/-! ## Steps without a fault -/

/-- The parameters are fit for the detached policy, if that is the policy. -/
def DetachedReady (p : AsyncFunctionHandlerParams) : Prop :=
  p.schedulingPolicy ≠ .synchronized → p.clock = true ∧ p.execRate ≠ 0

theorem detachedReady_of_valid {p : AsyncFunctionHandlerParams} (h : p.validate = .valid) :
    DetachedReady p := by
  obtain ⟨_, hdetached, hknown, _⟩ := AsyncFunctionHandlerParams.validate_eq_valid_iff.mp h
  intro hpolicy
  cases hp : p.schedulingPolicy with
  | unknown => exact absurd hp hknown
  | synchronized => exact absurd hp hpolicy
  | detached => exact hdetached hp

theorem period_of_rate {p : AsyncFunctionHandlerParams} (h : p.execRate ≠ 0) :
    p.period = some (1000000000 / p.execRate).toNat := if_neg h

section Steps

variable [DecidableEq κ]

theorem waitAsync_fault {first : Bool} {site : WaitPc → WorkerPc T E} {exit : WorkerPc T E}
    {pc : WaitPc} (h : waitAsync s first site exit pc = some s') : s'.fault = s.fault := by
  cases pc with
  | lock =>
    obtain ⟨_, h⟩ := Option.ite_none_right_eq_some.mp h
    obtain rfl := Option.some.inj h
    rfl
  | loadFirst | loadStop | block | blocked =>
    obtain rfl := Option.some.inj h
    rfl

theorem loopBody_fault {site : Loop} {first : Bool} {run next pc : LoopPc T E}
    (h : loopBody site first run next s o pc = some s') : s'.fault = s.fault := by
  cases pc with
  | head | inCallback =>
    simp only [loopBody] at h
    split at h <;> obtain rfl := Option.some.inj h <;> rfl
  | wait pc =>
    simp only [loopBody] at h
    exact waitAsync_fault h
  | clear ran => cases ran <;> obtain rfl := Option.some.inj h <;> rfl
  | testStop | invoke | storeReturn value | storeException e | unlock | notifyAll =>
    obtain rfl := Option.some.inj h
    rfl
  | measure | schedule | sleepUntil => cases h

/-- The worker divides by the rate, and throws, only with parameters that are not ready. -/
theorem workerStep_fault (hfollows : s.worker.Follows s.params.schedulingPolicy)
    (hready : DetachedReady s.params) (h : workerStep s o = some s') : s'.fault = s.fault := by
  unfold workerStep at h
  cases hw : s.worker with
  | start =>
    simp only [hw] at h
    split at h <;> obtain rfl := Option.some.inj h <;> rfl
  | prologue pc =>
    rw [hw] at hfollows
    obtain ⟨hclock, hrate⟩ := hready hfollows
    simp only [hw] at h
    cases pc with
    | testClock =>
      simp only [detachedPrologue, hclock, if_true] at h
      obtain rfl := Option.some.inj h
      rfl
    | testRate =>
      simp only [detachedPrologue, if_neg hrate] at h
      obtain rfl := Option.some.inj h
      rfl
    | wait pc =>
      simp only [detachedPrologue] at h
      exact waitAsync_fault h
    | loadPause | unlock | readPrevious | sleepPeriod | readSteady =>
      obtain rfl := Option.some.inj h
      rfl
  | loop site pc =>
    rw [hw] at hfollows
    simp only [hw] at h
    cases site with
    | synchronized => exact loopBody_fault h
    | detached =>
      obtain ⟨_, hrate⟩ := hready hfollows
      have hbody : ∀ {pc}, s.worker = .loop .detached pc →
          loopBody .detached (!s.pauseThread) .measure .schedule s o pc = some s' →
          s'.fault = s.fault := fun _ => loopBody_fault
      cases pc with
      | measure | sleepUntil =>
        obtain rfl := Option.some.inj h
        rfl
      | schedule =>
        simp only [executeDetachedCallback, period_of_rate hrate] at h
        obtain rfl := Option.some.inj h
        rfl
      | _ => exact hbody hw h
  | finished =>
    simp only [hw] at h
    cases h

theorem lockThen_fault {next : ClientPc T} (h : lockThen s k next = some s') :
    s'.fault = s.fault := by
  obtain ⟨_, h⟩ := Option.ite_none_right_eq_some.mp h
  obtain rfl := Option.some.inj h
  rfl

theorem notifyThen_fault {next : ClientPc T} (h : notifyThen s k o next = some s') :
    s'.fault = s.fault := by
  obtain ⟨condition, _, rfl⟩ := Option.map_eq_some_iff.mp h
  rfl

variable [Inhabited T]

/-- On the way to resume a detached worker. -/
def TriggerPc.resuming : TriggerPc T → Bool
  | .loadPause | .lockResume | .storeResume | .storeReturn | .storePrevious => true
  | _ => false

/-- What a trigger has found out on its way to a step that may go wrong. -/
def TriggerSafe (s : State κ T E) : ClientPc T → Prop
  | .trigger _ _ .rethrow => s.asyncExceptionPtr.isSome
  | .trigger _ _ pc => pc.resuming = true → s.params.schedulingPolicy = .detached
  | _ => True

theorem triggerAsyncCallback_safe {time : Time} {period : Duration} {pc : TriggerPc T}
    (hsafe : TriggerSafe s (.trigger time period pc)) (hready : DetachedReady s.params)
    (h : triggerAsyncCallback s k o time period pc = some s') :
    s'.fault = s.fault ∧ TriggerSafe s' (s'.client k) := by
  cases pc with
  | testInitialized | testRunning =>
    simp only [triggerAsyncCallback] at h
    split at h <;> obtain rfl := Option.some.inj h <;>
      exact ⟨rfl, by simp [State.returnWith, TriggerSafe, TriggerPc.resuming]⟩
  | loadException =>
    obtain rfl := Option.some.inj h
    refine ⟨rfl, ?_⟩
    split
    · rename_i hsome
      simpa [TriggerSafe, State.goto, State.record] using hsome
    · simp [TriggerSafe, TriggerPc.resuming]
  | rethrow =>
    -- The exception the call has seen is still there: only this client resets it.
    obtain ⟨e, he⟩ := Option.isSome_iff_exists.mp hsafe
    simp only [triggerAsyncCallback, he] at h
    obtain rfl := Option.some.inj h
    exact ⟨rfl, by simp [State.returnWith, TriggerSafe]⟩
  | testPolicy =>
    obtain rfl := Option.some.inj h
    refine ⟨rfl, ?_⟩
    split
    · rename_i hpolicy
      simpa [TriggerSafe, State.goto, State.record] using fun _ => hpolicy
    · simp [TriggerSafe, TriggerPc.resuming]
  | storePrevious =>
    -- The call has found the policy detached, and nobody has initialised the handler since.
    have hpolicy : s.params.schedulingPolicy = .detached := hsafe rfl
    obtain ⟨hclock, hrate⟩ := hready (by rw [hpolicy]; simp)
    simp only [triggerAsyncCallback, period_of_rate hrate, hclock, if_true] at h
    obtain rfl := Option.some.inj h
    exact ⟨rfl, by simp [TriggerSafe, TriggerPc.resuming]⟩
  | loadPause =>
    obtain rfl := Option.some.inj h
    refine ⟨rfl, ?_⟩
    split
    · simpa [TriggerSafe, State.goto, State.record] using fun _ => hsafe rfl
    · simp [TriggerSafe, TriggerPc.resuming]
  | lockResume =>
    obtain ⟨_, h⟩ := Option.ite_none_right_eq_some.mp h
    obtain rfl := Option.some.inj h
    exact ⟨rfl, by simpa [TriggerSafe, State.goto, State.record] using fun _ => hsafe rfl⟩
  | storeResume | storeReturn =>
    obtain rfl := Option.some.inj h
    exact ⟨rfl, by simpa [TriggerSafe, State.goto, State.record] using fun _ => hsafe rfl⟩
  | unlockResume | storeTrigger | storeTimes | unlock | release status value | unwind =>
    obtain rfl := Option.some.inj h
    exact ⟨rfl, by simp [State.returnWith, TriggerSafe, TriggerPc.resuming]⟩
  | notifyResume | notify =>
    obtain ⟨condition, _, rfl⟩ := Option.map_eq_some_iff.mp h
    exact ⟨rfl, by simp [TriggerSafe, TriggerPc.resuming]⟩
  | tryLock | loadTrigger =>
    obtain rfl := Option.some.inj h
    refine ⟨rfl, ?_⟩
    split <;> simp [TriggerSafe, TriggerPc.resuming]
  | predicate =>
    simp only [triggerAsyncCallback] at h
    split at h <;> obtain rfl := Option.some.inj h
    · refine ⟨rfl, ?_⟩
      rename_i result _
      cases result <;> simp [TriggerSafe, TriggerPc.resuming]
    · exact ⟨rfl, by simp [TriggerSafe, TriggerPc.resuming]⟩
  | loadReturn status ownsLock =>
    cases ownsLock <;> obtain rfl := Option.some.inj h <;>
      exact ⟨rfl, by simp [State.returnWith, TriggerSafe, TriggerPc.resuming]⟩

theorem clientStep_fault (hnot : ∀ time period pc, s.client k ≠ .trigger time period pc)
    (h : clientStep s k o = some s') : s'.fault = s.fault := by
  unfold clientStep at h
  cases hpc : s.client k with
  | trigger time period pc => exact absurd hpc (hnot time period pc)
  | idle =>
    simp only [hpc] at h
    obtain rfl := Option.some.inj h
    rfl
  | wait pausing pc =>
    simp only [hpc] at h
    cases pc with
    | testRunning =>
      simp only [waitForTriggerCycleToFinish] at h
      split at h <;> obtain rfl := Option.some.inj h <;> rfl
    | lock => exact lockThen_fault h
    | loadTrigger | block | blocked | unlock =>
      obtain rfl := Option.some.inj h
      rfl
  | pause pc =>
    simp only [hpc] at h
    cases pc with
    | lock => exact lockThen_fault h
    | testPolicy | storePauseSynchronized | testRunning | storePause | unlock | loadPause =>
      obtain rfl := Option.some.inj h
      rfl
  | reset starting pc =>
    simp only [hpc] at h
    cases pc with
    | lock => exact lockThen_fault h
    | unlock => cases starting <;> obtain rfl := Option.some.inj h <;> rfl
    | storeStop | storeTrigger | storeTimes | storeReturn | storeException =>
      obtain rfl := Option.some.inj h
      rfl
  | stop pc =>
    simp only [hpc] at h
    cases pc with
    | testRunning =>
      simp only [stopThread] at h
      split at h <;> obtain rfl := Option.some.inj h <;> rfl
    | lock => exact lockThen_fault h
    | notify => exact notifyThen_fault h
    | storeStop | unlock =>
      obtain rfl := Option.some.inj h
      rfl
    | join =>
      simp only [stopThread] at h
      split at h
      · obtain rfl := Option.some.inj h
        rfl
      · cases h
  | start pc =>
    simp only [hpc] at h
    cases pc with
    | testInitialized | testJoinable =>
      simp only [startThread] at h
      split at h <;> obtain rfl := Option.some.inj h <;> rfl
    | spawn =>
      obtain rfl := Option.some.inj h
      rfl
  | init call =>
    simp only [hpc, initStep] at h
    split at h <;> obtain rfl := Option.some.inj h <;> rfl

omit [DecidableEq κ] [Inhabited T] in
theorem triggerSafe_of_call {pc : ClientPc T} (h : ∀ t p, pc.call? ≠ some (.trigger t p)) :
    TriggerSafe s pc := by
  cases pc with
  | trigger time period pc => exact absurd rfl (h time period)
  | _ => trivial

theorem clientStep_safe (hsafe : TriggerSafe s (s.client k)) (hready : DetachedReady s.params)
    (h : clientStep s k o = some s') : s'.fault = s.fault ∧ TriggerSafe s' (s'.client k) := by
  by_cases htrigger : ∃ time period pc, s.client k = .trigger time period pc
  · obtain ⟨time, period, pc, hpc⟩ := htrigger
    rw [hpc] at hsafe
    simp only [clientStep, hpc] at h
    exact triggerAsyncCallback_safe hsafe hready h
  · push Not at htrigger
    refine ⟨clientStep_fault htrigger h, ?_⟩
    cases clientStep_call h with
    | begin _ hentry _ =>
      rw [hentry]
      cases o.call with
      | trigger time period => exact fun hresuming => nomatch hresuming
      | _ => trivial
    | goOn hcall _ =>
      refine triggerSafe_of_call fun time period hin => ?_
      obtain ⟨pc, hpc⟩ := call?_eq_trigger (hcall.symm.trans hin)
      exact htrigger time period pc hpc
    | finish _ _ hidle _ =>
      rw [hidle]
      trivial

omit [DecidableEq κ] [Inhabited T] in
theorem TriggerSafe.mono {pc : ClientPc T} (h : TriggerSafe s pc) (hparams : s'.params = s.params)
    (hptr : s.asyncExceptionPtr.isSome → s'.asyncExceptionPtr.isSome) : TriggerSafe s' pc := by
  cases pc with
  | trigger time period pc =>
    cases pc with
    | rethrow => exact hptr h
    | _ => exact fun hresuming => (congrArg _ hparams).trans (h hresuming)
  | _ => trivial

omit [Inhabited T] in
theorem WorkerEffect.exception_kept (h : WorkerEffect s s') (he : s.asyncExceptionPtr.isSome) :
    s'.asyncExceptionPtr.isSome := by
  cases h <;> rename_i hm _ <;> rw [hm] <;> first | exact he | rfl

omit [Inhabited T] in
/-- A call of `init` leaves valid parameters. -/
theorem initStep_valid {call : InitCall} (hvalid : s.params.validate = .valid)
    (hpc : s.client k = .init call) (hconf : ConfiguresValid s (.client k))
    (h : initStep s k call = some s') :
    s'.params.validate = .valid ∧ (s'.params = s.params ∨ s.joinable = false) := by
  unfold initStep at h
  split at h <;> obtain rfl := Option.some.inj h
  · rename_i m ha
    -- The two shorter overloads leave `params_` alone.
    rcases InitCall.params_of_ok ha with hsame | ⟨hparams, hj, hthrows⟩
    · exact ⟨hsame ▸ hvalid, .inl hsame⟩
    · refine ⟨?_, .inr hj⟩
      have hnot := hconf m.params (hpc ▸ hparams) hj
      cases hv : m.params.validate with
      | valid => exact hv
      | invalid error =>
        rw [hv] at hnot
        cases hnot
      | throws what => exact absurd hv (hthrows what)
  · exact ⟨hvalid, .inl rfl⟩

end Steps

/-! ## Runs of one client -/

/-- All calls, as long as invalid parameters are not stored. -/
def ConfiguringCarefully (s : State κ T E) (t : Thread κ) (_ : Oracle κ T E) : Prop :=
  ConfiguresValid s t

instance (s : State κ T E) (t : Thread κ) (o : Oracle κ T E) :
    Decidable (ConfiguringCarefully s t o) :=
  inferInstanceAs (Decidable (ConfiguresValid s t))

section Runs

variable [Inhabited T] {s s' : State Unit T E} {o : Oracle Unit T E}

/-- What holds of a handler with valid parameters. -/
structure Valid (s : State Unit T E) : Prop where
  valid : s.params.validate = .valid
  fault : s.fault = none
  follows : s.worker.Follows s.params.schedulingPolicy
  safe : TriggerSafe s (s.client ())

theorem Valid.workerStep (h : Valid s) (hat : At .worker s) (hs : WorkerStep s s')
    (hstep : workerStep s o = some s') : Valid s' where
  valid := hs.params ▸ h.valid
  fault := (workerStep_fault h.follows (detachedReady_of_valid h.valid) hstep).trans h.fault
  follows := by
    rw [hs.params]
    exact (workerStep_effect hstep hat).follows ⟨rfl, h.follows⟩
  safe := by
    rw [hs.client]
    exact h.safe.mono hs.params (workerStep_effect hstep hat).exception_kept

theorem Valid.clientStep (h : Valid s) (hat : At .worker s) (hs : ClientStep () s s')
    (hconf : ConfiguresValid s (.client ())) (hstep : clientStep s () o = some s') : Valid s' := by
  obtain ⟨hfault, hsafe⟩ := clientStep_safe h.safe (detachedReady_of_valid h.valid) hstep
  obtain ⟨hvalid, hkept⟩ : s'.params.validate = .valid ∧
      (s'.params = s.params ∨ s.joinable = false) := by
    by_cases hinit : ∃ call, s.client () = .init call
    · obtain ⟨call, hpc⟩ := hinit
      simp only [AsyncFunctionHandler.clientStep, hpc] at hstep
      exact initStep_valid h.valid hpc hconf hstep
    · push Not at hinit
      have hsame := hs.effect.params hinit
      exact ⟨hsame ▸ h.valid, .inl hsame⟩
  refine ⟨hvalid, hfault.trans h.fault, ?_, hsafe⟩
  rcases hs.worker with hw | ⟨_, hw, _⟩
  · rw [hw]
    rcases hkept with hsame | hj
    · exact hsame ▸ h.follows
    · -- The parameters change only when no thread is running.
      have hfinished : s.worker = .finished := by
        by_contra hne
        cases (hat.2 hne).symm.trans hj
      rw [hfinished]
      trivial
  · rw [hw]
    trivial

/-- **Valid parameters.**  If no call of `init` that stores its parameters has `validate` return false,
the parameters of the handler are valid in every state, and there is no fault: no division by a zero
rate, no use of a null clock, and no exception of the worker. -/
theorem runs_with_valid_params
    (h : Reachable (freshHandler Unit T E) ConfiguringCarefully s) :
    s.params.validate = .valid ∧ s.fault = none := by
  have hvalid : Valid s := by
    refine h.invariant (I := Valid) ?_ ?_
    · rintro s rfl
      exact ⟨AsyncFunctionHandlerParams.default_valid, rfl, trivial, trivial⟩
    · intro s t o s' hr hvalid hp hs
      have hat := fresh_at hr
      have hsound := (step_sound hat hs).guarantee
      cases t with
      | worker => exact hvalid.workerStep (hat .worker) hsound (workerStep_of_step hs)
      | client k => exact hvalid.clientStep (hat .worker) hsound hp (clientStep_of_step hs)
  exact ⟨hvalid.valid, hvalid.fault⟩

end Runs

/-- Parameters for the detached policy. -/
def detachedParams (clock : Bool) (execRate : UInt32) : AsyncFunctionHandlerParams :=
  { schedulingPolicy := .detached, clock := clock, execRate := execRate }

/-- A handler is initialised and started, and the worker runs up to its loop. -/
def detachedStarted : List (Thread Unit × Oracle Unit Nat Unit) :=
  List.replicate 2 (.client (),
      { call := .init (.params true (detachedParams true 100)), callback := .ok 0 }) ++
    List.replicate 11 (.client (), { call := .start, callback := .ok 0 }) ++
    List.replicate 6 (.worker, { callback := .ok 0 })

theorem runs_with_valid_params_detached :
    ∃ s : State Unit Nat Unit, Reachable (freshHandler Unit Nat Unit) ConfiguringCarefully s ∧
      s.params = detachedParams true 100 ∧ s.joinable = true ∧
      s.params.validate = .valid ∧ s.fault = none := by
  obtain ⟨s, hs, hp⟩ := exists_reachable_of_exec (freshHandler Unit Nat Unit) ConfiguringCarefully
    detachedStarted fresh
    (fun s => s.params = detachedParams true 100 ∧ s.joinable = true) rfl (by decide)
  obtain ⟨hparams, hj⟩ : s.params = detachedParams true 100 ∧ s.joinable = true := by
    simpa using hp
  exact ⟨s, hs, hparams, hj, runs_with_valid_params hs⟩

/-- A handler is initialised for the detached policy without a rate, and triggered. -/
def triggeredWithoutRate : List (Thread Unit × Oracle Unit Nat Unit) :=
  List.replicate 2 (.client (),
      { call := .init (.params true (detachedParams true 0)), callback := .ok 0 }) ++
    List.replicate 9 (.client (), { call := .trigger 1 1, callback := .ok 0 })

/-- A handler is initialised for the detached policy without a clock, and started. -/
def startedWithoutClock : List (Thread Unit × Oracle Unit Nat Unit) :=
  List.replicate 2 (.client (),
      { call := .init (.params true (detachedParams false 100)), callback := .ok 0 }) ++
    List.replicate 11 (.client (), { call := .start, callback := .ok 0 }) ++
    List.replicate 2 (.worker, { callback := .ok 0 })

/-- Parameters that `validate` has rejected are stored, the resuming trigger divides by the zero rate,
and the worker throws. -/
theorem runs_with_invalid_params :
    (∃ s : State Unit Nat Unit, Reachable (freshHandler Unit Nat Unit) anyStep s ∧
      s.params.validate ≠ .valid ∧ s.fault = some .divisionByZero) ∧
    ∃ s : State Unit Nat Unit, Reachable (freshHandler Unit Nat Unit) anyStep s ∧
      s.params.validate ≠ .valid ∧ s.fault = some (.workerThrew clockText) := by
  refine ⟨?_, ?_⟩
  · obtain ⟨s, hs, hp⟩ := exists_reachable_of_exec (freshHandler Unit Nat Unit) anyStep
      triggeredWithoutRate fresh
      (fun s => s.params.validate ≠ .valid ∧ s.fault = some .divisionByZero) rfl (by decide)
    exact ⟨s, hs, by simpa using hp⟩
  · obtain ⟨s, hs, hp⟩ := exists_reachable_of_exec (freshHandler Unit Nat Unit) anyStep
      startedWithoutClock fresh
      (fun s => s.params.validate ≠ .valid ∧ s.fault = some (.workerThrew clockText)) rfl
      (by decide)
    exact ⟨s, hs, by simpa using hp⟩

end AsyncFunctionHandler
